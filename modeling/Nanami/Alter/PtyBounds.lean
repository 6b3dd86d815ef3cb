import Nanami.Alter.Pty

/-!
# Buffers of a pseudo-terminal

What an echo or an edit may append to the output is bounded first (`Edits`, `Erases`); the room check
of `write` covers it except for two settings of the kill and erase characters. `Sound` is the
invariant behind the bounds: in canonical mode the record lengths add up to the buffered input, in raw
mode there are no records and no line.
-/

namespace Nanami.Alter.Pty

open Lib List

variable {p q r : Pty} {room more : Nat}

/-! ### What is appended to the output -/

/-- What an edit or an echo of at most `room` bytes leaves: only the line, no longer than before, the
output and the column change. -/
structure Edits (p q : Pty) (room : Nat) : Prop where
  same : q = { p with output := q.output, column := q.column, line := q.line }
  line_le : q.line.length ≤ p.line.length
  output_le : q.output.length ≤ p.output.length + room

lemma Edits.refl : Edits p p 0 := ⟨rfl, le_rfl, le_rfl⟩

lemma Edits.mono (h : Edits p q room) (hle : room ≤ more) : Edits p q more :=
  ⟨h.same, h.line_le, h.output_le.trans (Nat.add_le_add_left hle _)⟩

lemma Edits.trans (h : Edits p q room) (h' : Edits q r more) : Edits p r (room + more) := by
  refine ⟨?_, h'.line_le.trans h.line_le, ?_⟩
  · rw [h'.same, h.same]
  · have h1 := h.output_le
    have h2 := h'.output_le
    omega

lemma Edits.termios (h : Edits p q room) : q.termios = p.termios := by rw [h.same]

lemma local?_congr (h : q.termios = p.termios) (flag : UInt32) : q.local? flag = p.local? flag := by
  unfold local? lflag
  rw [h]

lemma canonical_congr (h : q.termios = p.termios) : q.canonical = p.canonical := local?_congr h _

lemma cc_congr (h : q.termios = p.termios) (index : CcIndex) : q.cc index = p.cc index := by
  unfold cc
  rw [h]

def expandsTab (p : Pty) : Prop := p.output? opost = true ∧ p.oflag &&& tabdly = tab3

instance : Decidable p.expandsTab := inferInstanceAs (Decidable (_ ∧ _))

lemma expandsTab_congr (h : q.termios = p.termios) : q.expandsTab ↔ p.expandsTab := by
  unfold expandsTab output? oflag
  rw [h]

lemma edits_append {bytes column} :
    Edits p { p with output := p.output ++ bytes, column := column } bytes.length :=
  ⟨rfl, le_rfl, le_of_eq length_append⟩

variable {byte : UInt8}

lemma putByte_edits : Edits p (p.putByte byte) 1 := edits_append

lemma beforeNewline_edits : Edits p (p.beforeNewline byte) 1 := by
  unfold beforeNewline
  split
  · exact edits_append
  · exact Edits.refl.mono (Nat.zero_le _)

lemma beforeNewline_tab : p.beforeNewline tab = p := by
  exact if_neg fun h => absurd h.1 (by decide)

lemma putTab_edits : Edits p p.putTab 8 := by
  refine edits_append.mono ?_
  rw [length_replicate]
  omega

lemma outputByte_edits_two (h : ¬(byte = tab ∧ p.expandsTab)) : Edits p (p.outputByte byte) 2 := by
  unfold outputByte
  split
  case isFalse => exact putByte_edits.mono (by omega)
  case isTrue hopost =>
    split
    · exact (@edits_append p [newline] 0).mono (by decide)
    · split
      · exact Edits.refl.mono (by omega)
      · split
        case isTrue htab => exact absurd ⟨htab.1, hopost, htab.2⟩ h
        case isFalse => exact beforeNewline_edits.trans putByte_edits

lemma outputByte_edits : Edits p (p.outputByte byte) 8 := by
  by_cases h : byte = tab ∧ p.expandsTab
  · obtain ⟨rfl, hopost, htab⟩ := h
    unfold outputByte
    rw [if_pos hopost, if_neg fun h => absurd h.1 (by decide), if_neg fun h => absurd h.1 (by decide),
      if_pos ⟨rfl, htab⟩, beforeNewline_tab]
    exact putTab_edits
  · exact (outputByte_edits_two h).mono (by omega)

lemma caret_xor_ne_tab (h : caret byte = true) : byte ^^^ 0x40 ≠ tab := by
  intro htab
  have e : byte = tab ^^^ 0x40 := by
    rw [← htab, UInt8.xor_assoc, UInt8.xor_self, UInt8.xor_zero]
  rw [e] at h
  exact absurd h (by decide)

def Silent (p : Pty) : Prop := p.local? echoFlag = false ∧ p.local? echonl = false

lemma echo_silent (h : p.Silent) : p.echo byte = p := by
  unfold echo
  rw [h.1, h.2]
  simp only [Bool.not_false, if_true, Bool.false_eq_true, and_false, if_false]

/-- Without tabs at most a caret and a letter, or a newline, each of two bytes. -/
lemma echo_edits_four (h : ¬(p.local? echoFlag = true ∧ byte = tab ∧ p.expandsTab)) :
    Edits p (p.echo byte) 4 := by
  unfold echo
  split
  case isTrue =>
    split
    case isTrue hnl =>
      rw [hnl.1]
      exact (outputByte_edits_two fun ht => absurd ht.1 (by decide)).mono (by omega)
    case isFalse => exact Edits.refl.mono (by omega)
  case isFalse hecho =>
    have hno : ¬(byte = tab ∧ p.expandsTab) := fun ht => h ⟨by simpa using hecho, ht⟩
    split
    case isTrue hctl =>
      simp only [Bool.and_eq_true] at hctl
      have hcaret : Edits p (p.outputByte 0x5e) 2 :=
        outputByte_edits_two fun ht => absurd ht.1 (by decide)
      exact hcaret.trans (outputByte_edits_two fun ht => caret_xor_ne_tab hctl.1.1.2 ht.1)
    case isFalse => exact (outputByte_edits_two hno).mono (by omega)

lemma echo_edits {byte} : Edits p (p.echo byte) 8 := by
  by_cases h : p.local? echoFlag = true ∧ byte = tab ∧ p.expandsTab
  · obtain ⟨hecho, rfl, _⟩ := h
    have hctl : ¬(p.local? echoctl && caret tab && tab != newline && tab != tab) = true := by simp
    unfold echo
    rw [hecho, if_neg (by decide), if_neg hctl]
    exact outputByte_edits
  · exact (echo_edits_four h).mono (by omega)

lemma rubOut_edits {width} : Edits p (rubOut width p) (3 * width) := by
  induction width generalizing p with
  | zero => exact .refl
  | succ width ih =>
    have h := (@edits_append p [8, space, 8] (p.column - 1)).trans ih
    exact h.mono (by simp only [length_cons, length_nil]; omega)

/-! ### Erasing -/

/-- Erasing may cost `cost` bytes of output for each byte it takes off the line. -/
structure Erases (cost : Nat) (p q : Pty) : Prop where
  same : q = { p with output := q.output, column := q.column, line := q.line }
  line_le : q.line.length ≤ p.line.length
  output_le : q.output.length + cost * q.line.length ≤ p.output.length + cost * p.line.length

variable {cost : Nat}

lemma Erases.refl : Erases cost p p := ⟨rfl, le_rfl, le_rfl⟩

lemma Erases.trans (h : Erases cost p q) (h' : Erases cost q r) : Erases cost p r := by
  refine ⟨?_, h'.line_le.trans h.line_le, h'.output_le.trans h.output_le⟩
  rw [h'.same, h.same]

lemma Erases.termios (h : Erases cost p q) : q.termios = p.termios := by rw [h.same]

lemma Erases.edits (h : Erases cost p q) : Edits p q (cost * p.line.length) :=
  ⟨h.same, h.line_le, (Nat.le_add_right _ _).trans h.output_le⟩

lemma erase_erases (h : Edits p p.erase cost) : Erases cost p p.erase := by
  cases hlast : p.line.getLast? with
  | none =>
    have e : p.erase = p := by
      unfold erase
      rw [hlast]
    rw [e]
    exact .refl
  | some byte =>
    have hpos : 0 < p.line.length := by
      cases hline : p.line with
      | nil => rw [hline] at hlast; cases hlast
      | cons b line => exact Nat.succ_pos _
    refine ⟨h.same, h.line_le, ?_⟩
    have hout := h.output_le
    have e : cost * p.line.length = cost * (p.line.length - 1) + cost := by
      rw [← Nat.mul_succ, Nat.succ_eq_add_one, Nat.sub_add_cancel hpos]
    rw [line_erase, length_dropLast, e]
    omega

lemma eraseWhile_erases {matches?} (h : ∀ q : Pty, q.termios = p.termios → Edits q q.erase cost) :
    Erases cost p (p.eraseWhile matches?) := by
  induction p using eraseWhile.induct matches? with
  | case1 p hmatch ih =>
    have hfirst := erase_erases (h p rfl)
    rw [eraseWhile, dif_pos hmatch]
    exact hfirst.trans (ih fun q hq => h q (hq.trans hfirst.termios))
  | case2 p hmatch =>
    rw [eraseWhile, dif_neg hmatch]
    exact .refl

lemma edits_dropLast : Edits p { p with line := p.line.dropLast } 0 := by
  refine ⟨rfl, ?_, le_rfl⟩
  rw [length_dropLast]
  exact Nat.sub_le _ _

lemma erase_edits (hsix : 6 ≤ cost)
    (hecho : ∀ q : Pty, q.termios = p.termios →
      p.lflag &&& (echoFlag ||| echoe) ≠ echoFlag ||| echoe → Edits q (q.echo (p.cc vErase)) cost) :
    Edits p p.erase cost := by
  unfold erase
  cases p.line.getLast? with
  | none => exact Edits.refl.mono (Nat.zero_le _)
  | some byte =>
    dsimp only
    split
    case isTrue =>
      refine (edits_dropLast.trans rubOut_edits).mono ?_
      split <;> omega
    case isFalse hflags =>
      exact (edits_dropLast.trans (hecho _ rfl hflags)).mono (by omega)

/-! ### The room check -/

lemma and_eq_zero_of_and {flags mask bits : UInt32} (h : flags &&& mask = 0)
    (hsub : mask &&& bits = bits) : flags &&& bits = 0 := by
  rw [← hsub, ← UInt32.and_assoc, h, UInt32.zero_and]

lemma silent_of_unchecked (h : p.local? (echoFlag ||| echonl) = false) : p.Silent := by
  have hzero : p.lflag &&& (echoFlag ||| echonl) = 0 := by simpa [local?] using h
  have h1 : p.lflag &&& echoFlag = 0 := and_eq_zero_of_and hzero (by decide)
  have h2 : p.lflag &&& echonl = 0 := and_eq_zero_of_and hzero (by decide)
  exact ⟨by simp [local?, h1], by simp [local?, h2]⟩

lemma Silent.congr (h : p.Silent) (hq : q.termios = p.termios) : q.Silent := by
  unfold Silent
  rw [local?_congr hq, local?_congr hq]
  exact h

lemma Silent.rubs_not (h : p.Silent) : p.lflag &&& (echoFlag ||| echoe) ≠ echoFlag ||| echoe := by
  intro hflags
  have hzero : p.lflag &&& echoFlag = 0 := by simpa [local?] using h.1
  have hone : p.lflag &&& (echoFlag ||| echoe) &&& echoFlag = echoFlag := by
    rw [hflags]
    decide
  rw [UInt32.and_assoc] at hone
  have e : (echoFlag ||| echoe) &&& echoFlag = echoFlag := by decide
  rw [e, hzero] at hone
  exact absurd hone (by decide)

lemma Silent.erase_edits (h : p.Silent) : Edits p p.erase 0 := by
  unfold erase
  cases p.line.getLast? with
  | none => exact .refl
  | some byte =>
    have hsilent : Silent { p with line := p.line.dropLast } := h
    dsimp only
    rw [if_neg hsilent.rubs_not, echo_silent hsilent]
    exact edits_dropLast

/-- The echo of the erase character, where it stands for the erased bytes, is not an expanded tab. -/
def EraseCovered (p : Pty) : Prop :=
  ¬(p.lflag &&& (echoFlag ||| echoe) ≠ echoFlag ||| echoe ∧ p.local? echoFlag = true ∧
    p.cc vErase = tab ∧ p.expandsTab)

/-- The newline behind a kill character is covered by the room check: the check is made, and the kill
character itself is not echoed as an expanded tab. -/
def KillCovered (p : Pty) (byte : UInt8) : Prop :=
  p.local? echok = true → ¬p.Silent ∧ ¬(p.local? echoFlag = true ∧ byte = tab ∧ p.expandsTab)

/-- The room that `write` checks for covers what it does with the kill and word-erase characters. -/
structure Covered (p : Pty) (byte : UInt8) : Prop where
  kill : p.control byte vErase = false → p.control byte vKill = true → p.local? echoke = false →
    p.KillCovered byte
  erase : p.control byte vErase = false →
    (p.control byte vKill = true ∧ p.local? echoke = true) ∨
      (p.control byte vKill = false ∧ p.local? iexten = true ∧ p.control byte vLNext = false ∧
        p.control byte vWErase = true) → p.EraseCovered

lemma EraseCovered.erase_edits (h : p.EraseCovered) : Edits p p.erase 6 := by
  refine Pty.erase_edits le_rfl fun q hq hflags => (echo_edits_four ?_).mono (by omega)
  rintro ⟨hecho, htab, hexpands⟩
  rw [local?_congr hq] at hecho
  exact h ⟨hflags, hecho, htab, (expandsTab_congr hq).mp hexpands⟩

lemma EraseCovered.congr (h : p.EraseCovered) (hq : q.termios = p.termios) : q.EraseCovered := by
  unfold EraseCovered lflag local? lflag at *
  rw [hq, cc_congr hq, expandsTab_congr hq]
  exact h

lemma erase_edits_eight : Edits p p.erase 8 :=
  Pty.erase_edits (by omega) fun _ _ _ => echo_edits

/-! ### The invariant -/

/-- The lengths of the output, the input and the line, the number of records and their sum are within
their bounds, and the records account for the buffered input. -/
structure Account (output input line count sum : Nat) (hungUp canonical : Bool) : Prop where
  output_le : output ≤ capacity
  input_le : input + line ≤ capacity - 1
  line_le : line ≤ lineMax - 1
  count_le : count ≤ lineMax
  /-- Only a hangup takes the last place for a record, and then there is no line any more. -/
  count_lt : hungUp = false → count ≤ lineMax - 1
  line_eq : hungUp = true → line = 0
  sum_eq : canonical = true → sum = input
  raw : canonical = false → count = 0 ∧ line = 0

def Sound (p : Pty) : Prop :=
  Account p.output.length p.input.length p.line.length p.records.length p.records.sum p.hungUp
    p.canonical

lemma Sound.edits (h : p.Sound) (he : Edits p q room) (hroom : p.output.length + room ≤ capacity) :
    q.Sound := by
  have hline := he.line_le
  have hinput := h.input_le
  rw [he.same]
  exact
    { h with
      output_le := he.output_le.trans hroom
      input_le := (Nat.add_le_add_left hline _).trans hinput
      line_le := hline.trans h.line_le
      line_eq := fun hup => Nat.le_zero.mp (hline.trans (h.line_eq hup).le)
      raw := fun hraw => ⟨(h.raw hraw).1, Nat.le_zero.mp (hline.trans (h.raw hraw).2.le)⟩ }

structure Kept (p q : Pty) : Prop where
  sound : q.Sound
  hungUp : q.hungUp = false
  termios : q.termios = p.termios

lemma Kept.of_edits (h : p.Sound) (hup : p.hungUp = false) (he : Edits p q room)
    (hroom : p.output.length + room ≤ capacity) : Kept p q :=
  ⟨h.edits he hroom, by rw [he.same]; exact hup, he.termios⟩

/-- A line that becomes a record; it may be one byte longer than a line that is kept. -/
lemma endRecord_kept (hup : p.hungUp = false) (hcanonical : p.canonical = true)
    (houtput : p.output.length ≤ capacity) (hinput : p.input.length + p.line.length ≤ capacity - 1)
    (hrecords : p.records.length < lineMax - 1) (hsum : p.records.sum = p.input.length) :
    Kept p p.endRecord := by
  have hcount : (p.records ++ [p.line.length]).length ≤ lineMax - 1 := by
    simp only [length_append, length_singleton]
    omega
  have hraw : ¬p.canonical = false := by rw [hcanonical]; decide
  refine ⟨?_, hup, rfl⟩
  exact
    { output_le := houtput
      input_le := by rw [endRecord, length_append]; exact hinput
      line_le := Nat.zero_le _
      count_le := hcount.trans (Nat.sub_le _ _)
      count_lt := fun _ => hcount
      line_eq := fun _ => rfl
      sum_eq := fun _ => by
        rw [endRecord, sum_append, sum_singleton, length_append, hsum]
      raw := fun hraw' => absurd hraw' hraw }

section StoreByte

variable {byte : UInt8} {now : Nat}

def HasRoom (p : Pty) (byte : UInt8) : Prop :=
  p.Silent ∨ p.output.length + p.echoSpace byte ≤ capacity

lemma hasRoom_of_checked (h : p.Sound)
    (hcheck : ¬(p.local? (echoFlag ||| echonl) ∧
      wrappingSub capacity p.output.length < p.echoSpace byte)) : p.HasRoom byte := by
  have hout := h.output_le
  cases hflag : p.local? (echoFlag ||| echonl) with
  | false => exact .inl (silent_of_unchecked hflag)
  | true =>
    right
    have hlt : ¬wrappingSub capacity p.output.length < p.echoSpace byte :=
      fun hlt => hcheck ⟨hflag, hlt⟩
    rw [wrappingSub_of_le hout (by decide)] at hlt
    omega

lemma eight_le_echoSpace : 8 ≤ p.echoSpace byte := by
  unfold echoSpace
  split <;> omega

lemma echoSpace_editing (hedit : p.editing byte = true)
    (hline : p.control byte vKill = true ∨ p.control byte vWErase = true) :
    p.echoSpace byte = p.line.length * 6 + 8 := by
  unfold echoSpace
  rw [hedit, if_pos]
  simpa using hline

lemma edits_clear : Edits p { p with line := [] } 0 := ⟨rfl, Nat.zero_le _, le_rfl⟩

lemma HasRoom.eight (hroom : p.HasRoom byte) : p.Silent ∨ p.output.length + 8 ≤ capacity := by
  have := @eight_le_echoSpace p byte
  rcases hroom with hsilent | hroom
  · exact .inl hsilent
  · right
    omega

lemma Kept.trans (h : Kept p q) (h' : Kept q r) : Kept p r :=
  ⟨h'.sound, h'.hungUp, h'.termios.trans h.termios⟩

lemma not_editing (hliteral : p.literal = false) (hcanonical : p.canonical = true)
    (hnone : p.edit byte = none) : p.editing byte = false := by
  unfold edit at hnone
  split_ifs at hnone with herase hkill hlnext hwerase heof
  simp only [Bool.not_eq_true, Bool.and_eq_false_iff] at herase hkill hlnext hwerase heof
  simp only [editing, hliteral, hcanonical, herase, hkill, heof, Bool.not_false, Bool.true_and,
    Bool.false_or, Bool.and_eq_false_iff, Bool.or_eq_false_iff]
  rcases hlnext with hext | hl
  · exact .inl hext
  · rcases hwerase with hext | hw
    · exact .inl hext
    · exact .inr ⟨hw, hl⟩

variable (h : p.Sound) (hup : p.hungUp = false)
include h hup

lemma HasRoom.erase (hroom : p.HasRoom byte) : Kept p p.erase := by
  rcases hroom with hsilent | hroom
  · exact .of_edits h hup hsilent.erase_edits h.output_le
  · have := @eight_le_echoSpace p byte
    exact .of_edits h hup erase_edits_eight (by omega)

/-- Erasing in a loop, with room for six bytes for each byte of the line. -/
lemma Erases.kept (hcovered : p.EraseCovered)
    (hroom : p.Silent ∨ p.output.length + (p.line.length * 6 + 8) ≤ capacity)
    (herases : ∀ cost, (∀ q : Pty, q.termios = p.termios → Edits q q.erase cost) → Erases cost p q) :
    Kept p q := by
  rcases hroom with hsilent | hroom
  · have he := (herases 0 fun q hq => (hsilent.congr hq).erase_edits).edits
    exact .of_edits h hup he (by rw [Nat.zero_mul]; exact h.output_le)
  · have he := (herases 6 fun q hq => (hcovered.congr hq).erase_edits).edits
    exact .of_edits h hup he (by omega)

lemma HasRoom.kill (hroom : p.HasRoom byte)
    (hedit : p.editing byte = true) (hcovered : p.Covered byte)
    (herase : p.control byte vErase = false) (hkill : p.control byte vKill = true) :
    Kept p (p.kill byte) := by
  unfold HasRoom at hroom
  rw [echoSpace_editing hedit (.inl hkill)] at hroom
  unfold Pty.kill
  cases hke : p.local? echoke with
  | true =>
    exact Erases.kept h hup (hcovered.erase herase (.inl ⟨hkill, hke⟩)) hroom
      fun cost => eraseWhile_erases
  | false =>
    have hk := hcovered.kill herase hkill hke
    have hsame : (Pty.echo { p with line := [] } byte).local? echok = p.local? echok :=
      local?_congr (@echo_edits { p with line := [] } byte).termios _
    dsimp only
    rw [if_neg (by decide), hsame]
    cases hok : p.local? echok with
    | true =>
      obtain ⟨hloud, htab⟩ := hk hok
      have hroom := hroom.resolve_left hloud
      have hecho : Edits { p with line := [] } (Pty.echo { p with line := [] } byte) 4 :=
        echo_edits_four htab
      have hnl : Edits (Pty.echo { p with line := [] } byte)
          ((Pty.echo { p with line := [] } byte).outputByte newline) 2 :=
        outputByte_edits_two fun ht => absurd ht.1 (by decide)
      exact Kept.of_edits h hup ((edits_clear.trans hecho).trans hnl) (by omega)
    | false =>
      rcases hroom with hsilent | hroom
      · have hsilent' : Silent { p with line := [] } := hsilent
        rw [echo_silent hsilent']
        exact Kept.of_edits h hup edits_clear h.output_le
      · exact Kept.of_edits h hup (edits_clear.trans echo_edits) (by omega)

lemma edit_kept (hcanonical : p.canonical = true)
    (hliteral : p.literal = false) (hcovered : p.Covered byte) (hroom : p.HasRoom byte)
    (hrecords : p.records.length < lineMax - 1) (he : p.edit byte = some q) : Kept p q := by
  unfold edit at he
  split at he
  case isTrue =>
    cases he
    exact hroom.erase h hup
  case isFalse herase =>
    have herase : p.control byte vErase = false := by simpa using herase
    split at he
    case isTrue hkill =>
      cases he
      refine hroom.kill h hup ?_ hcovered herase hkill
      simp [editing, hliteral, hcanonical, hkill]
    case isFalse hkill =>
      have hkill : p.control byte vKill = false := by simpa using hkill
      split at he
      · cases he
        exact ⟨h, hup, rfl⟩
      · split at he
        case isTrue hlnext hwerase =>
          cases he
          obtain ⟨hext, hw⟩ := Bool.and_eq_true_iff.mp hwerase
          have hl : p.control byte vLNext = false := by simpa [hext] using hlnext
          have hedit : p.editing byte = true := by simp [editing, hliteral, hcanonical, hext, hw]
          unfold HasRoom at hroom
          rw [echoSpace_editing hedit (.inr hw)] at hroom
          refine Erases.kept h hup (hcovered.erase herase (.inr ⟨hkill, hext, hl, hw⟩)) hroom ?_
          intro cost hcost
          have hfirst := @eraseWhile_erases p cost (· == space) hcost
          exact hfirst.trans (eraseWhile_erases fun q hq => hcost q (hq.trans hfirst.termios))
        case isFalse =>
          split at he
          · cases he
            exact endRecord_kept hup hcanonical h.output_le h.input_le hrecords (h.sum_eq hcanonical)
          · cases he

lemma echo_kept (hroom : p.Silent ∨ p.output.length + 8 ≤ capacity) : Kept p (p.echo byte) := by
  rcases hroom with hsilent | hroom
  · rw [echo_silent hsilent]
    exact ⟨h, hup, rfl⟩
  · exact .of_edits h hup echo_edits hroom

lemma push_kept {delimiter : Bool}
    (hcanonical : p.canonical = true) (hfree : p.input.length + p.line.length < capacity - 1)
    (hrecords : p.records.length < lineMax - 1) :
    Kept p (let p := if p.line.length < lineMax - 1 ∨ delimiter then
        { p with line := p.line ++ [byte] } else p
      if delimiter then p.endRecord else p) := by
  have hlen : p.input.length + (p.line ++ [byte]).length ≤ capacity - 1 := by
    rw [length_append, length_singleton]
    omega
  cases delimiter with
  | true =>
    simp only [or_true, if_true]
    obtain ⟨hs, hu, ht⟩ := @endRecord_kept { p with line := p.line ++ [byte] } hup hcanonical
      h.output_le hlen hrecords (h.sum_eq hcanonical)
    exact ⟨hs, hu, ht⟩
  | false =>
    simp only [Bool.false_eq_true, or_false, if_false]
    split
    case isTrue hshort =>
      refine ⟨?_, hup, rfl⟩
      exact
        { h with
          input_le := hlen
          line_le := by rw [length_append, length_singleton]; omega
          line_eq := fun hup' => by
            rw [show p.hungUp = true from hup'] at hup
            cases hup
          raw := fun hraw => by
            rw [show p.canonical = false from hraw] at hcanonical
            cases hcanonical }
    case isFalse => exact ⟨h, hup, rfl⟩

lemma pushRaw_kept (hraw : p.canonical = false)
    (hfree : p.input.length + p.line.length < capacity - 1) :
    Kept p { p with input := p.input ++ [byte] } := by
  have hlen : (p.input ++ [byte]).length + p.line.length ≤ capacity - 1 := by
    rw [length_append, length_singleton]
    omega
  refine ⟨{ h with input_le := hlen, sum_eq := fun hcanonical => ?_ }, hup, rfl⟩
  rw [show p.canonical = true from hcanonical] at hraw
  cases hraw

lemma accept_kept (hroom : p.HasRoom byte)
    (hfree : p.input.length + p.line.length < capacity - 1)
    (hrecords : p.records.length < lineMax - 1) : Kept p (p.accept byte now) := by
  -- The byte is echoed from the same buffers, with the quoting taken off.
  have hquoted : Kept p { p with literal := false } :=
    ⟨h, hup, rfl⟩
  have hecho : Kept { p with literal := false } (.echo { p with literal := false } byte) :=
    echo_kept hquoted.sound hup hroom.eight
  have hsame := (@echo_edits { p with literal := false } byte).same
  have hechoed := hquoted.trans hecho
  have hstamp : ∀ {q : Pty}, Kept p q → Kept p { q with lastInput := now } := fun hq =>
    ⟨hq.sound, hq.hungUp, hq.termios⟩
  have hfree' : (Pty.echo { p with literal := false } byte).input.length +
      (Pty.echo { p with literal := false } byte).line.length < capacity - 1 := by
    rw [line_echo, hsame]
    exact hfree
  have hrecords' : (Pty.echo { p with literal := false } byte).records.length < lineMax - 1 := by
    rw [hsame]
    exact hrecords
  refine hstamp (hechoed.trans ?_)
  cases hcanonical : (Pty.echo { p with literal := false } byte).canonical with
  | true =>
    exact push_kept hecho.sound hecho.hungUp hcanonical hfree' hrecords'
  | false =>
    exact pushRaw_kept hecho.sound hecho.hungUp hcanonical hfree'

lemma storeByte_kept {raised}
    (hcovered : p.canonical = true → p.Covered byte) (he : p.storeByte byte now = .next q raised) :
    Kept p q := by
  unfold storeByte at he
  split at he
  case isTrue => cases he
  case isFalse hfull =>
    simp only [not_or, not_and, not_le, ge_iff_le] at hfull
    obtain ⟨hfree, hrecords⟩ := hfull
    split at he
    case isTrue => cases he
    case isFalse hcheck =>
      have hroom := hasRoom_of_checked h hcheck
      split at he
      case isTrue hmode =>
        obtain ⟨hliteral, hcanonical⟩ := Bool.and_eq_true_iff.mp hmode
        have hliteral : p.literal = false := by simpa using hliteral
        cases hed : p.edit byte with
        | some p' =>
          rw [hed] at he
          cases he
          exact edit_kept h hup hcanonical hliteral (hcovered hcanonical) hroom hrecords hed
        | none =>
          rw [hed] at he
          cases he
          refine accept_kept h hup hroom (hfree ?_) hrecords
          rw [not_editing hliteral hcanonical hed]
          rfl
      case isFalse hmode =>
        cases he
        refine accept_kept h hup hroom (hfree ?_) hrecords
        have hmode : (!p.literal && p.canonical) = false := by simpa using hmode
        unfold editing
        rw [hmode]
        rfl

end StoreByte

/-! ### Operations -/

/-- An operation that leaves the buffers, the settings and the line's state as they are. -/
structure SameBuffers (p q : Pty) : Prop where
  same : p.Sound → q.Sound
  hungUp : q.hungUp = p.hungUp
  termios : q.termios = p.termios

lemma SameBuffers.kept (hs : SameBuffers p q) (h : p.Sound) (hup : p.hungUp = false) : Kept p q :=
  ⟨hs.same h, hs.hungUp.trans hup, hs.termios⟩

lemma flow_same {stop} : SameBuffers p (p.flow stop) := by
  unfold flow
  split
  · exact ⟨id, rfl, rfl⟩
  · exact ⟨id, rfl, rfl⟩

lemma restart_same : SameBuffers p p.restart := by
  unfold restart
  split
  · exact flow_same
  · exact ⟨id, rfl, rfl⟩

lemma sound_of_empty (hinput : q.input = []) (hline : q.line = []) (hrecords : q.records = [])
    (houtput : q.output.length ≤ capacity) : q.Sound := by
  unfold Sound
  rw [hinput, hline, hrecords]
  exact
    { output_le := houtput
      input_le := Nat.zero_le _
      line_le := Nat.zero_le _
      count_le := Nat.zero_le _
      count_lt := fun _ => Nat.zero_le _
      line_eq := fun _ => rfl
      sum_eq := fun _ => rfl
      raw := fun _ => ⟨rfl, rfl⟩ }

lemma Sound.shortenOutput (h : p.Sound) {output status} (hle : output.length ≤ p.output.length) :
    Sound { p with output := output, packetStatus := status } :=
  { h with output_le := hle.trans h.output_le }

lemma flushInput_same : SameBuffers p p.flushInput :=
  ⟨fun h => sound_of_empty rfl rfl rfl h.output_le, rfl, rfl⟩

lemma flush_same {direction} : SameBuffers p (p.flush direction) := by
  have houtput : ∀ q : Pty, SameBuffers p q → SameBuffers p q.flushOutput := fun q hq =>
    ⟨fun h => (hq.same h).shortenOutput (Nat.zero_le _), hq.hungUp, hq.termios⟩
  unfold flush
  split_ifs
  · exact houtput _ flushInput_same
  · exact flushInput_same
  · exact houtput _ ⟨id, rfl, rfl⟩
  · exact ⟨id, rfl, rfl⟩

section MasterByte

variable {byte : UInt8} {now : Nat} {raised : UInt32}

lemma signalFlush_same : SameBuffers p p.signalFlush := by
  unfold signalFlush
  split
  · exact ⟨id, rfl, rfl⟩
  · exact flush_same

lemma Covered.congr (h : p.Covered byte) (hq : q.termios = p.termios) : q.Covered byte := by
  have hcontrol : ∀ index, q.control byte index = p.control byte index := fun index => by
    unfold control
    rw [cc_congr hq]
  refine ⟨?_, ?_⟩
  · intro herase hkill hke
    rw [hcontrol] at herase hkill
    rw [local?_congr hq] at hke
    unfold KillCovered Silent
    rw [local?_congr hq, local?_congr hq, local?_congr hq, expandsTab_congr hq]
    exact h.kill herase hkill hke
  · intro herase hcase
    rw [hcontrol] at herase
    rw [hcontrol, hcontrol, hcontrol, local?_congr hq, local?_congr hq] at hcase
    exact (h.erase herase hcase).congr hq

def ByteCovered (p : Pty) (original : UInt8) : Prop :=
  ∀ byte, p.translate original = some byte → p.Covered byte

variable (h : p.Sound) (hup : p.hungUp = false)
include h hup

lemma signalByte_kept : Kept p (p.signalByte byte) := by
  have hflushed := signalFlush_same.kept h hup
  unfold signalByte
  split
  case isTrue hroom =>
    refine hflushed.trans (echo_kept hflushed.sound hflushed.hungUp (.inr ?_))
    unfold capacity at hroom ⊢
    omega
  case isFalse => exact hflushed

lemma masterByte_kept {original} (hcovered : p.canonical = true → p.ByteCovered original)
    (he : p.masterByte original now = .next q raised) : Kept p q := by
  unfold masterByte at he
  cases htranslate : p.translate original with
  | none =>
    rw [htranslate] at he
    cases he
    exact ⟨h, hup, rfl⟩
  | some byte =>
    rw [htranslate] at he
    dsimp only at he
    have hbyte : p.canonical = true → p.Covered byte := fun hc => hcovered hc byte htranslate
    split at he
    case isTrue => exact storeByte_kept h hup hbyte he
    case isFalse =>
      split at he
      · cases he
        exact flow_same.kept h hup
      · split at he
        · cases he
          exact flow_same.kept h hup
        · have hrestart := restart_same.kept h hup
          split at he
          · cases he
            exact hrestart.trans (signalByte_kept hrestart.sound hrestart.hungUp)
          · refine hrestart.trans (storeByte_kept hrestart.sound hrestart.hungUp ?_ he)
            intro hcanonical
            rw [canonical_congr hrestart.termios] at hcanonical
            exact (hbyte hcanonical).congr hrestart.termios

lemma slaveByte_kept (he : p.slaveByte byte = .next q raised) : Kept p q := by
  unfold slaveByte at he
  split at he
  · cases he
  · cases he
    refine .of_edits h hup outputByte_edits ?_
    unfold capacity at *
    omega

end MasterByte

lemma ByteCovered.congr {original} (h : p.ByteCovered original) (hq : q.termios = p.termios) :
    q.ByteCovered original := by
  have e : q.translate original = p.translate original := by
    unfold translate input? iflag
    rw [hq]
  intro byte hbyte
  rw [e] at hbyte
  exact (h byte hbyte).congr hq

lemma writeFrom_kept {master now done signals bytes} (h : p.Sound) (hup : p.hungUp = false)
    (hcovered : master = true → p.canonical = true → ∀ byte ∈ bytes, p.ByteCovered byte) :
    Kept p (writeFrom master now bytes done signals p).1 := by
  induction bytes generalizing p done signals with
  | nil => exact ⟨h, hup, rfl⟩
  | cons byte bytes ih =>
    rw [writeFrom]
    cases hadvance : (if master then p.masterByte byte now else p.slaveByte byte) with
    | stop => exact ⟨h, hup, rfl⟩
    | next p' raised =>
      have hbyte : Kept p p' := by
        cases master with
        | true =>
          exact masterByte_kept h hup (fun hc => hcovered rfl hc byte mem_cons_self) hadvance
        | false => exact slaveByte_kept h hup hadvance
      refine hbyte.trans (ih hbyte.sound hbyte.hungUp ?_)
      intro hmaster hcanonical b hb
      rw [canonical_congr hbyte.termios] at hcanonical
      exact (hcovered hmaster hcanonical b (mem_cons_of_mem _ hb)).congr hbyte.termios

lemma write_sound {master bytes now} (h : p.Sound)
    (hcovered : master = true → p.canonical = true → ∀ byte ∈ bytes, p.ByteCovered byte) :
    (p.write master bytes now).1.Sound := by
  unfold write
  split
  case isTrue => exact h
  case isFalse heof =>
    have hup : p.hungUp = false := by
      simp only [eof, Bool.or_eq_true, not_or, Bool.not_eq_true] at heof
      exact heof.1.1
    have hkept := @writeFrom_kept p master now 0 0 bytes h hup hcovered
    rcases hw : writeFrom master now bytes 0 0 p with ⟨p', done, signals⟩
    rw [hw] at hkept
    dsimp only
    split
    · exact hkept.sound
    · exact hkept.sound

/-- Switching the mode makes all buffered input one record, or none. -/
lemma switchMode_sound {termios} (h : p.Sound) :
    (switchMode { p with termios := termios } p.canonical).Sound := by
  have hinput : (p.input ++ p.line).length + 0 ≤ capacity - 1 := by
    rw [length_append]
    exact h.input_le
  unfold switchMode
  split
  case isTrue =>
    have hcount : ∀ c : Bool, (if c then [(p.input ++ p.line).length] else []).length ≤ 1 := by
      intro c
      cases c with
      | true => exact le_rfl
      | false => exact Nat.zero_le _
    exact
      { output_le := h.output_le
        input_le := hinput
        line_le := Nat.zero_le _
        count_le := (hcount _).trans (by decide)
        count_lt := fun _ => (hcount _).trans (by decide)
        line_eq := fun _ => rfl
        sum_eq := fun hcanonical => by
          have hc : canonical { p with termios := termios } = true := hcanonical
          dsimp only
          rw [hc, Bool.true_and]
          cases hin : p.input ++ p.line with
          | nil => rfl
          | cons b bs => simp
        raw := fun hraw => by
          have hc : canonical { p with termios := termios } = false := hraw
          dsimp only
          rw [hc, Bool.false_and]
          exact ⟨rfl, rfl⟩ }
  case isFalse hmode =>
    have hsame : p.canonical = canonical { p with termios := termios } := not_not.mp hmode
    exact { h with
      sum_eq := by rw [← hsame]; exact h.sum_eq
      raw := by rw [← hsame]; exact h.raw }

lemma setTermios_sound {value flush} (h : p.Sound) : (p.setTermios value flush).Sound := by
  have hnote : ∀ (q : Pty) (old : Bool), SameBuffers q (q.noteIxon old) := fun q old => by
    unfold noteIxon
    split
    · exact ⟨id, rfl, rfl⟩
    · exact ⟨id, rfl, rfl⟩
  have hrelease : ∀ q : Pty, SameBuffers q q.release := fun q => by
    unfold release
    split
    · exact ⟨id, rfl, rfl⟩
    · exact ⟨id, rfl, rfl⟩
  have hnext := (hrelease _).same ((hnote _ (p.input? ixon)).same (@switchMode_sound p value h))
  unfold setTermios
  split
  · exact flush_same.same hnext
  · exact hnext

lemma hangup_sound (h : p.Sound) : p.hangup.Sound := by
  unfold hangup
  split
  case isTrue hline =>
    have hline : p.line = [] := isEmpty_iff.mp hline
    exact { h with
      count_lt := fun hup => by cases hup
      line_eq := fun _ => by rw [hline]; rfl }
  case isFalse hline =>
    have hpos : 0 < p.line.length := length_pos_iff.mpr fun e => hline (isEmpty_iff.mpr e)
    have hup : p.hungUp = false := by
      cases hh : p.hungUp with
      | false => rfl
      | true =>
        rw [h.line_eq hh] at hpos
        exact absurd hpos (lt_irrefl 0)
    have hcount := h.count_lt hup
    exact
      { output_le := h.output_le
        input_le := by rw [endRecord, length_append]; exact h.input_le
        line_le := Nat.zero_le _
        count_le := by
          rw [endRecord, length_append, length_singleton]
          unfold lineMax at *
          omega
        count_lt := fun hup' => by cases hup'
        line_eq := fun _ => rfl
        sum_eq := fun hcanonical => by
          rw [endRecord, sum_append, sum_singleton, length_append,
            h.sum_eq hcanonical]
        raw := fun hraw => by
          rw [(h.raw hraw).2] at hpos
          exact absurd hpos (lt_irrefl 0) }

end Nanami.Alter.Pty
