import Nanami.Boot.Cpio

/-!
# Reading the archive back

`record` is what the writer appends for one entry when the archive so far ends at a multiple of four.
A round of the parser that starts there reads the entry back, and the two inductions over the entries
put the rounds together. On any other archive a round either fails with an error or moves forward.
-/

namespace Nanami.Boot

open Lib List

/-! ### What the writer appends -/

variable {out' : Bytes} {n : Nat}

lemma extend_ok {out more} (h : extend out more = .ok out') : out'.toList = out.toList ++ more := by
  unfold extend at h
  split at h
  · cases h
    exact Bytes.extend_eq_some ‹_›
  · cases h

lemma align_ok {unit out} (h : align unit out = .ok out') :
    out'.toList = out.toList ++ padding unit out.length := extend_ok h

def fieldBytes (fields : List UInt32) : List UInt8 := fields.flatMap fun value => hexField 8 value.toNat

lemma writeFields_ok {fields out} (h : writeFields fields out = .ok out') :
    out'.toList = out.toList ++ fieldBytes fields := by
  induction fields generalizing out with
  | nil =>
    cases h
    exact (append_nil _).symm
  | cons value fields ih =>
    obtain ⟨out₁, h₁, h⟩ := bind_ok h
    rw [ih h, extend_ok h₁, append_assoc]
    rfl

def header (inode : UInt32) (name : String) (mode : UInt32) (data : List UInt8) : List UInt8 :=
  newcMagic ++ fieldBytes (headerFields inode name mode data)

lemma length_header {inode name mode data} : (header inode name mode data).length = 110 := by
  simp only [header, headerFields, fieldBytes, newcMagic, flatMap_cons, flatMap_nil,
    length_append, length_hexField, length_cons, length_nil]

def dataOffset (name : String) : Nat := roundUp 4 (110 + (asBytes name).length + 1)

def record (inode : UInt32) (name : String) (mode : UInt32) (data : List UInt8) : List UInt8 :=
  header inode name mode data ++ (asBytes name ++ (0 :: padding 4 (110 + (asBytes name).length + 1) ++
    (data ++ padding 4 (dataOffset name + data.length))))

lemma length_record {inode name mode data} :
    (record inode name mode data).length = roundUp 4 (dataOffset name + data.length) := by
  have h1 := @length_append_padding (110 + (asBytes name).length + 1)
  have h2 := @length_append_padding (dataOffset name + data.length)
  simp only [record, length_append, length_header, cons_append, length_cons]
  unfold dataOffset at h2 ⊢
  omega

/-- What `entry` demands of a name and its contents. -/
structure Fits (name : String) (data : List UInt8) : Prop where
  noNul : 0 ∉ asBytes name
  data_le : data.length ≤ u32Max
  name_lt : (asBytes name).length < u32Max

lemma entry_ok {out} {inode name mode data} (h : entry out inode name mode data = .ok out')
    (haligned : out.length % 4 = 0) :
    Fits name data ∧ out'.toList = out.toList ++ record inode name mode data ∧
      out'.length % 4 = 0 := by
  obtain ⟨hfits, h⟩ := guard_ok h
  obtain ⟨hnul, hdata, hname⟩ := not_not.mp hfits
  obtain ⟨out₁, h₁, h⟩ := bind_ok h
  obtain ⟨out₂, h₂, h⟩ := bind_ok h
  obtain ⟨out₃, h₃, h⟩ := bind_ok h
  obtain ⟨out₄, h₄, h⟩ := bind_ok h
  obtain ⟨out₅, h₅, h⟩ := bind_ok h
  obtain ⟨out₆, h₆, h⟩ := bind_ok h
  have e₄ : out₄.toList = out.toList ++ (header inode name mode data ++ (asBytes name ++ [0])) := by
    rw [extend_ok h₄, extend_ok h₃, writeFields_ok h₂, extend_ok h₁]
    simp only [header, append_assoc]
  have l₄ : out₄.length = out.length + (110 + (asBytes name).length + 1) := by
    rw [Bytes.length, e₄]
    simp only [length_append, length_header, length_singleton, Bytes.length]
    omega
  have e₅ := align_ok h₅
  rw [l₄, padding_four_add haligned] at e₅
  have l₅ : out₅.length = out.length + dataOffset name := by
    have := @length_append_padding (110 + (asBytes name).length + 1)
    rw [Bytes.length, e₅, length_append]
    rw [Bytes.length] at l₄
    unfold dataOffset
    omega
  have e₆ := extend_ok h₆
  have l₆ : out₆.length = out.length + (dataOffset name + data.length) := by
    rw [Bytes.length, e₆, length_append]
    rw [Bytes.length] at l₅
    omega
  have e₇ := align_ok h
  rw [l₆, padding_four_add haligned] at e₇
  have eout : out'.toList = out.toList ++ record inode name mode data := by
    rw [e₇, e₆, e₅, e₄, record]
    simp only [append_assoc, cons_append, nil_append]
  refine ⟨⟨hnul, hdata, hname⟩, eout, ?_⟩
  have := @roundUp_four_mod (dataOffset name + data.length)
  rw [Bytes.length, eout, length_append, length_record]
  rw [Bytes.length] at haligned
  omega

/-! ### Reading one record back -/

lemma hexValue_hexDigit (h : n < 16) : hexValue (hexDigit n) = some (UInt32.ofNat n) := by
  have hall : ∀ k : Fin 16, hexValue (hexDigit k) = some (UInt32.ofNat k) := by decide
  exact hall ⟨n, h⟩

lemma parseHexFrom_append {out xs ys} :
    parseHexFrom out (xs ++ ys) = parseHexFrom out xs >>= fun out => parseHexFrom out ys := by
  induction xs generalizing out with
  | nil => rfl
  | cons c cs ih =>
    rw [cons_append, parseHexFrom, parseHexFrom]
    cases hexValue c with
    | none => rfl
    | some digit => exact ih

lemma parseHexFrom_hexField {width} (hw : width ≤ 8) :
    parseHexFrom 0 (hexField width n) = .ok (UInt32.ofNat (n % 16 ^ width)) := by
  induction width generalizing n with
  | zero => rw [pow_zero, Nat.mod_one]; rfl
  | succ width ih =>
    have hlt : n / 16 % 16 ^ width < 2 ^ 28 := by
      have hp : 16 ^ width ≤ 16 ^ 7 := Nat.pow_le_pow_right (by decide) (by omega)
      have := Nat.mod_lt (n / 16) (pow_pos (n := width) (show 0 < 16 by decide))
      omega
    have e : n % 16 ^ (width + 1) = (n / 16 % 16 ^ width) <<< 4 ||| n % 16 := by
      rw [pow_succ', Nat.mod_mul, ← Nat.shiftLeft_add_eq_or_of_lt (Nat.mod_lt n (by decide)),
        Nat.shiftLeft_eq]
      omega
    have hd : hexValue (hexDigit (n % 16)) = some (UInt32.ofNat (n % 16)) :=
      hexValue_hexDigit (Nat.mod_lt n (by decide))
    rw [hexField, parseHexFrom_append, ih (by omega)]
    change parseHexFrom _ [hexDigit (n % 16)] = _
    rw [parseHexFrom, hd]
    change Except.ok (UInt32.ofNat (n / 16 % 16 ^ width) <<< 4 ||| UInt32.ofNat (n % 16)) = _
    congr 1
    have hs : (n / 16 % 16 ^ width) <<< 4 < 2 ^ 32 := by
      omega
    have hdigit : n % 16 < 2 ^ 32 := lt_trans (Nat.mod_lt n (by decide)) (by decide)
    rw [← UInt32.toNat_inj, UInt32.toNat_or, UInt32.toNat_shiftLeft, e,
      UInt32.toNat_ofNat_of_lt' (lt_trans hlt (by decide)), UInt32.toNat_ofNat_of_lt' hdigit,
      UInt32.toNat_ofNat_of_lt' (Nat.or_lt_two_pow hs hdigit)]
    change (n / 16 % 16 ^ width) <<< 4 % 2 ^ 32 ||| n % 16 = _
    rw [Nat.mod_eq_of_lt hs]

lemma parseHexU32_hexField {value} : parseHexU32 (hexField 8 value.toNat) = .ok value := by
  have h : value.toNat % 16 ^ 8 = value.toNat := Nat.mod_eq_of_lt value.toNat_lt
  rw [parseHexU32, parseHexFrom_hexField le_rfl, h, UInt32.ofNat_toNat]

lemma read_append {xs a b c lo hi} (hxs : xs = a ++ (b ++ c)) (hlo : lo = a.length)
    (hhi : hi = a.length + b.length) : read xs lo hi = .ok b := by
  rw [read, slice_append hxs hlo hhi]

lemma read_magic {inode name mode data} : read (header inode name mode data) 0 6 = .ok newcMagic :=
  @read_append _ [] _ _ _ _ rfl rfl rfl

lemma read_field {before after value} :
    read (newcMagic ++ fieldBytes (before ++ value :: after)) (6 + 8 * before.length)
      (14 + 8 * before.length) = .ok (hexField 8 value.toNat) := by
  have hlength : (newcMagic ++ fieldBytes before).length = 6 + 8 * before.length := by
    simp only [newcMagic, fieldBytes, length_append, length_flatMap, length_hexField,
      map_const', sum_replicate_nat, length_cons, length_nil]
    omega
  refine read_append (a := newcMagic ++ fieldBytes before) (c := fieldBytes after) ?_ hlength.symm ?_
  · simp [fieldBytes]
  · rw [length_hexField]
    omega

lemma read_fileSize {inode name mode data} : read (header inode name mode data) 54 62 =
    .ok (hexField 8 (UInt32.ofNat data.length).toNat) :=
  @read_field [inode, mode, 0, 0, 1, 0] _ _

lemma read_nameSize {inode name mode data} : read (header inode name mode data) 94 102 =
    .ok (hexField 8 (UInt32.ofNat (asBytes name).length + 1).toNat) :=
  @read_field [inode, mode, 0, 0, 1, 0, UInt32.ofNat data.length, 0, 0, 0, 0] [0] _

lemma Fits.nameSize {name data} (h : Fits name data) :
    (UInt32.ofNat (asBytes name).length + 1).toNat = (asBytes name).length + 1 := by
  have hlt := h.name_lt
  unfold u32Max at hlt
  rw [UInt32.toNat_add, UInt32.toNat_ofNat_of_lt' (lt_trans hlt (by decide))]
  change ((asBytes name).length + 1) % 2 ^ 32 = _
  omega

lemma Fits.fileSize {name data} (h : Fits name data) :
    (UInt32.ofNat data.length).toNat = data.length := by
  have hle := h.data_le
  exact UInt32.toNat_ofNat_of_lt' (lt_of_le_of_lt hle (by decide))

lemma newcRound_record {archive before after} {inode name mode data}
    (hbytes : archive.toList = before ++ (record inode name mode data ++ after))
    (haligned : before.length % 4 = 0) (hfits : Fits name data) :
    newcRound archive before.length = .ok (if name = trailer then .finished else
      .entry ⟨name, data⟩ (before ++ record inode name mode data).length) := by
  have hlen : before.length + roundUp 4 (dataOffset name + data.length) ≤ archive.length := by
    rw [Bytes.length, hbytes, length_append, length_append, length_record]
    omega
  have hd := @le_roundUp_four (110 + (asBytes name).length + 1)
  have hr := @le_roundUp_four (dataOffset name + data.length)
  have hword := archive.length_lt_wordSize
  have hheader : read archive.toList before.length (before.length + newcHeaderSize) =
      .ok (header inode name mode data) :=
    read_append (by rw [hbytes, record, append_assoc]) rfl (by rw [length_header]; rfl)
  have hname : read archive.toList (before.length + newcHeaderSize)
      (before.length + newcHeaderSize + ((asBytes name).length + 1) - 1) = .ok (asBytes name) := by
    refine @read_append _ (before ++ header inode name mode data) _
      (0 :: padding 4 (110 + (asBytes name).length + 1) ++
        (data ++ padding 4 (dataOffset name + data.length)) ++ after) _ _ ?_ ?_ ?_
    · rw [hbytes, record]
      simp only [append_assoc]
    · rw [length_append, length_header]; rfl
    · rw [length_append, length_header, newcHeaderSize]; omega
  have hdata : read archive.toList (before.length + dataOffset name)
      (before.length + dataOffset name + data.length) = .ok data := by
    refine @read_append _ (before ++ header inode name mode data ++ asBytes name ++
      0 :: padding 4 (110 + (asBytes name).length + 1)) _
      (padding 4 (dataOffset name + data.length) ++ after) _ _ ?_ ?_ ?_
    · rw [hbytes, record]
      simp only [append_assoc, cons_append]
    all_goals
      have := @length_append_padding (110 + (asBytes name).length + 1)
      simp only [length_append, length_header, length_cons]
      unfold dataOffset
      omega
  have hsize : UInt32.ofNat (asBytes name).length + 1 ≠ 0 := by
    intro h0
    have := hfits.nameSize
    rw [h0] at this
    cases this
  have hnameLe : ¬before.length + newcHeaderSize + ((asBytes name).length + 1) > archive.length := by
    unfold dataOffset at *
    unfold newcHeaderSize
    omega
  have hnameEnd : checkedAdd (before.length + newcHeaderSize)
      (UInt32.ofNat (asBytes name).length + 1).toNat =
      some (before.length + newcHeaderSize + ((asBytes name).length + 1)) := by
    rw [hfits.nameSize]
    exact checkedAdd_of_lt (by omega)
  have hstart : align4 (before.length + newcHeaderSize + ((asBytes name).length + 1)) =
      before.length + dataOffset name := by
    have e : before.length + newcHeaderSize + ((asBytes name).length + 1) =
        before.length + (110 + (asBytes name).length + 1) := by
      unfold newcHeaderSize
      omega
    rw [e, align4_eq (by unfold dataOffset at *; omega), roundUp_four_add haligned, dataOffset]
  have hdataEnd : checkedAdd (before.length + dataOffset name) (UInt32.ofNat data.length).toNat =
      some (before.length + dataOffset name + data.length) := by
    rw [hfits.fileSize]
    exact checkedAdd_of_lt (by omega)
  have hnext : align4 (before.length + dataOffset name + data.length) =
      (before ++ record inode name mode data).length := by
    rw [align4_eq (by omega), add_assoc, roundUp_four_add haligned, length_append,
      length_record]
  have hdataLe : ¬before.length + dataOffset name + data.length > archive.length := by omega
  unfold newcRound
  simp only [hheader, read_magic, read_fileSize, read_nameSize, parseHexU32_hexField, hname, hsize,
    hnameEnd, hnameLe, hstart, hdataEnd, hdataLe, hdata, hnext, orInvalid, fromUtf8_asBytes, bind,
    Except.bind, pure, Except.pure, ne_eq, not_true_eq_false, false_and, if_false]
  split
  · rfl
  · rfl

/-! ### Reading the whole archive back -/

section Visits

variable {σ : Type} {archive : Bytes} {f : CpioEntry → EStateM CapabilityError σ PUnit} {offset : Nat}

lemma newcRound_room {round} (h : newcRound archive offset = .ok round) :
    offset + newcHeaderSize ≤ archive.length := by
  obtain ⟨header, hheader, _⟩ := bind_ok h
  have hs := read_ok hheader
  unfold slice at hs
  split at hs
  · exact And.right ‹_›
  · cases hs

lemma forEachFrom_finished (h : newcRound archive offset = .ok .finished) :
    forEachFrom archive f offset = pure ⟨⟩ := by
  rw [forEachFrom, dif_pos (newcRound_room h)]
  split <;> simp_all

lemma forEachFrom_entry {found next} (h : newcRound archive offset = .ok (.entry found next)) :
    forEachFrom archive f offset = (do
      adapt Stop.error (f found)
      forEachFrom archive f next) := by
  rw [forEachFrom, dif_pos (newcRound_room h)]
  split <;> simp_all

lemma forEachFrom_error {stop} (hroom : offset + newcHeaderSize ≤ archive.length)
    (h : newcRound archive offset = .error stop) : forEachFrom archive f offset = throw stop := by
  rw [forEachFrom, dif_pos hroom]
  split <;> simp_all

lemma adapt_bind {m} {k : PUnit → EStateM CapabilityError σ PUnit} :
    adapt Stop.error (m >>= k) = adapt Stop.error m >>= fun a => adapt Stop.error (k a) := by
  funext s
  simp only [adapt, bind, EStateM.bind]
  cases m s <;> rfl

def Record.visited (record : Record) : CpioEntry := ⟨record.name, record.data⟩

variable {i : Nat} {records : List Record} {out : Bytes}

lemma entriesFrom_ok (h : entriesFrom i records out = .ok out') (haligned : out.length % 4 = 0) :
    (∃ more, out'.toList = out.toList ++ more) ∧ out'.length % 4 = 0 := by
  induction records generalizing i out with
  | nil =>
    cases h
    exact ⟨⟨[], (append_nil _).symm⟩, haligned⟩
  | cons record records ih =>
    obtain ⟨out₁, h₁, h⟩ := bind_ok h
    obtain ⟨_, e₁, haligned₁⟩ := entry_ok h₁ haligned
    obtain ⟨⟨more, e⟩, haligned'⟩ := ih h haligned₁
    rw [e₁, append_assoc] at e
    exact ⟨⟨_, e⟩, haligned'⟩

/-- The loop of the parser follows the loop of the writer: from where the writer started with
`records` it visits them, and then finds the trailer. -/
lemma forEachFrom_records {after : List UInt8} (h : entriesFrom i records out = .ok out')
    (haligned : out.length % 4 = 0) (hnames : ∀ record ∈ records, record.name ≠ trailer)
    (htrailer : Fits trailer [])
    (hbytes : archive.toList = out'.toList ++ (record 0 trailer 0 [] ++ after)) :
    forEachFrom archive f out.length =
      adapt Stop.error (forEach f (records.map Record.visited)) := by
  induction records generalizing i out with
  | nil =>
    cases h
    have hround := newcRound_record hbytes haligned htrailer
    exact forEachFrom_finished hround
  | cons r records ih =>
    obtain ⟨out₁, h₁, h⟩ := bind_ok h
    obtain ⟨hfits, e₁, haligned₁⟩ := entry_ok h₁ haligned
    obtain ⟨⟨more, e⟩, _⟩ := entriesFrom_ok h haligned₁
    have hhere : archive.toList = out.toList ++
        (record (UInt32.ofNat i + 1) r.name r.mode r.data ++
          (more ++ (record 0 trailer 0 [] ++ after))) := by
      rw [hbytes, e, e₁]
      simp only [append_assoc]
    have hround := newcRound_record hhere haligned hfits
    rw [if_neg (hnames r mem_cons_self), ← e₁] at hround
    change forEachFrom archive f out.toList.length = _
    rw [forEachFrom_entry hround, map_cons, forEach, adapt_bind]
    have hrest := ih h haligned₁ fun record hrecord => hnames record (mem_cons_of_mem _ hrecord)
    exact congrArg (fun rest => adapt Stop.error (f r.visited) >>= fun _ => rest) hrest

lemma forEachNewcEntry_archive (h : Boot.archive records = .ok archive)
    (hnames : ∀ record ∈ records, record.name ≠ trailer) :
    forEachNewcEntry archive f = adapt Stop.error (forEach f (records.map Record.visited)) := by
  obtain ⟨out, hout, h⟩ := bind_ok h
  obtain ⟨out₁, h₁, h⟩ := bind_ok h
  obtain ⟨_, haligned⟩ := entriesFrom_ok hout rfl
  obtain ⟨htrailer, e₁, _⟩ := entry_ok h₁ haligned
  have e := align_ok h
  rw [e₁, append_assoc] at e
  exact forEachFrom_records hout rfl hnames htrailer e

def recording (entry : CpioEntry) : EStateM CapabilityError (List CpioEntry) PUnit :=
  modify (· ++ [entry])

lemma forEach_recording {entries seen} :
    forEach recording entries seen = .ok ⟨⟩ (seen ++ entries) := by
  induction entries generalizing seen with
  | nil => exact congrArg (EStateM.Result.ok _) (append_nil seen).symm
  | cons e entries ih =>
    have h := @ih (seen ++ [e])
    rw [append_assoc] at h
    exact h

/-! ### Any other archive -/

/-- The computation ends without a panic, and with a result in `Q` if it succeeds. -/
def Answers {α : Type} (m : Except Stop α) (Q : α → Prop) : Prop :=
  match m with
  | .ok a => Q a
  | .error (.error _) => True
  | .error (.panic _) => False

section Answers

variable {α β : Type} {Q : α → Prop} {m : Except Stop α} {xs : List UInt8}

lemma answers_bind {k} {P : α → Prop} {Q : β → Prop} (hm : Answers m P)
    (hk : ∀ a, P a → Answers (k a) Q) : Answers (m >>= k) Q := by
  cases m with
  | ok a => exact hk a hm
  | error stop =>
    cases stop with
    | error _ => trivial
    | panic _ => exact hm.elim

lemma answers_guard {c} [Decidable c] (hm : ¬c → Answers m Q) :
    Answers (if c then throw (.error .invalidArgument) else m) Q := by
  split
  · trivial
  · exact hm ‹_›

lemma answers_orInvalid {o : Option α} : Answers (orInvalid o) fun a => o = some a := by
  cases o with
  | none => trivial
  | some a => exact rfl

lemma answers_read {lo hi} (hlo : lo ≤ hi) (hhi : hi ≤ xs.length) :
    Answers (read xs lo hi) fun ys => ys.length = hi - lo := by
  have h := Returns.slice hlo hhi
  unfold read
  cases hs : slice xs lo hi with
  | ok ys => rw [hs] at h; exact h
  | error p => rw [hs] at h; exact h.elim

lemma answers_parseHexFrom {out : UInt32} : Answers (parseHexFrom out xs) fun _ => True := by
  induction xs generalizing out with
  | nil => trivial
  | cons c cs ih => exact answers_bind answers_orInvalid fun _ _ => ih

end Answers

/-- No slice of a round leaves the archive, whatever the sizes in its header are. -/
lemma newcRound_answers (hroom : offset + newcHeaderSize ≤ archive.length) :
    Answers (newcRound archive offset) fun _ => True := by
  refine answers_bind (answers_read (Nat.le_add_right _ _) hroom) fun header hheader => ?_
  have hlen : header.length = 110 := by
    rw [hheader, newcHeaderSize]
    omega
  refine answers_bind (answers_read (by decide) (by omega)) fun magic _ => ?_
  refine answers_guard fun _ => ?_
  refine answers_bind (answers_read (by decide) (by omega)) fun sizeField _ => ?_
  refine answers_bind answers_parseHexFrom fun fileSize _ => ?_
  refine answers_bind (answers_read (by decide) (by omega)) fun nameField _ => ?_
  refine answers_bind answers_parseHexFrom fun nameSize _ => ?_
  refine answers_guard fun hpos => ?_
  refine answers_bind answers_orInvalid fun nameEnd hnameEnd => ?_
  refine answers_guard fun hnameLe => ?_
  have hname := checkedAdd_eq_some.mp hnameEnd
  have hsize : nameSize.toNat ≠ 0 := fun h => hpos (UInt32.toNat_inj.mp h)
  have hnameLe' : nameEnd ≤ archive.toList.length := by
    unfold Bytes.length at hnameLe
    omega
  refine answers_bind (answers_read (by omega) (by omega)) fun nameRaw _ => ?_
  refine answers_bind answers_orInvalid fun name _ => ?_
  refine answers_bind answers_orInvalid fun dataEnd hdataEnd => ?_
  refine answers_guard fun hdataLe => ?_
  have hdata := checkedAdd_eq_some.mp hdataEnd
  have hdataLe' : dataEnd ≤ archive.toList.length := by
    unfold Bytes.length at hdataLe
    omega
  split
  · trivial
  · exact answers_bind (answers_read (by omega) hdataLe') fun _ _ => trivial

lemma forEachFrom_no_panic {s} :
    wp (forEachFrom archive f offset) (fun _ _ => True) (fun e _ => ∃ c, e = .error c) s := by
  induction h : archive.length - offset using Nat.strongRecOn generalizing offset s with
  | ind n ih =>
    by_cases hroom : offset + newcHeaderSize ≤ archive.length
    · have hround := @newcRound_answers archive offset hroom
      cases hr : newcRound archive offset with
      | error stop =>
        rw [forEachFrom_error hroom hr]
        rw [hr] at hround
        cases stop with
        | error c => exact ⟨c, rfl⟩
        | panic _ => exact hround.elim
      | ok round =>
        cases round with
        | finished =>
          rw [forEachFrom_finished hr]
          trivial
        | entry found next =>
          have hnext := (newcRound_entry hr).advances
          rw [forEachFrom_entry hr, wp_bind, wp_adapt]
          refine wp_mono wp_true (fun _ t _ => ?_) (fun c _ _ => ⟨c, rfl⟩)
          refine ih (archive.length - next) ?_ rfl
          unfold newcHeaderSize at hroom
          omega
    · rw [forEachFrom, dif_neg hroom]
      exact ⟨_, rfl⟩

end Visits

/-- Alpha reads back what the build tool writes: for every list of records that `archive` accepts the
parser calls its visitor with exactly their names and contents, in order, and returns `Ok` when the
visitor does. On every archive whatsoever the parser ends with `Ok` or an error, never at a slice
outside the archive, and each round that finds an entry moves the offset forward. -/
theorem newc_reads_back :
    (∀ (records : List Record) (bytes : Bytes), archive records = .ok bytes →
      (∀ record ∈ records, record.name ≠ trailer) →
      forEachNewcEntry bytes recording [] = .ok ⟨⟩ (records.map Record.visited) ∧
      ∀ (σ : Type) (f : CpioEntry → EStateM CapabilityError σ PUnit),
        forEachNewcEntry bytes f = adapt Stop.error (forEach f (records.map Record.visited))) ∧
    (∀ (bytes : Bytes) (σ : Type) (f : CpioEntry → EStateM CapabilityError σ PUnit) (s : σ),
      wp (forEachNewcEntry bytes f) (fun _ _ => True) (fun e _ => ∃ c, e = .error c) s) ∧
    ∀ (bytes : Bytes) (offset : Nat), offset + newcHeaderSize ≤ bytes.length →
      (∀ p, newcRound bytes offset ≠ .error (.panic p)) ∧
      ∀ found next, newcRound bytes offset = .ok (.entry found next) →
        offset < next ∧ Found bytes offset found next := by
  refine ⟨fun records bytes h hnames => ⟨?_, fun σ f => forEachNewcEntry_archive h hnames⟩,
    fun bytes σ f s => forEachFrom_no_panic, fun bytes offset hroom => ⟨fun p hp => ?_, ?_⟩⟩
  · rw [forEachNewcEntry_archive h hnames]
    unfold adapt
    rw [forEach_recording]
    rfl
  · have hround := @newcRound_answers bytes offset hroom
    rw [hp] at hround
    exact hround
  · intro found next h
    exact ⟨(newcRound_entry h).advances, newcRound_entry h⟩

def twoFiles : List Record := [⟨"./bin/init", 33261, [1, 2, 3]⟩, ⟨"é", 33188, []⟩]

/-- A file with contents, and an empty one whose name is not ASCII. -/
theorem newc_reads_back_two_files :
    ∃ bytes, archive twoFiles = .ok bytes ∧ (∀ record ∈ twoFiles, record.name ≠ trailer) ∧
      forEachNewcEntry bytes recording [] = .ok ⟨⟩ [⟨"./bin/init", [1, 2, 3]⟩, ⟨"é", []⟩] := by
  have haccepted : (archive twoFiles).toOption.isSome = true := by decide +kernel
  obtain ⟨bytes, hbytes⟩ := Option.isSome_iff_exists.mp haccepted
  have hok := ok_of_toOption hbytes
  have hnames : ∀ record ∈ twoFiles, record.name ≠ trailer := by decide +kernel
  exact ⟨bytes, hok, hnames, (newc_reads_back.1 twoFiles bytes hok hnames).1⟩

end Nanami.Boot
