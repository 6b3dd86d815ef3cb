import Nanami.Nun
import Nanami.Lib.Machine
import Nanami.Lib.Ranges

/-!
# The table of mappings of a guest

Model of `common/state/mapping_table.rs` and `common/state/mappings.rs`: the table in which Alter
records the address ranges of a guest with their protection. Each operation answers whether it was
done, and leaves a table in both cases.

How many records cover an address describes what an operation does: `addMapping` adds the cover of a
range that nothing covers, whatever it merges, and `removeMapping` takes the cover of a range away.
-/

namespace Nanami.Alter
open Nanami.Lib List

/-- `ALTER_PROCESS_MAPPING_MAX`. -/
def processMappingMax : Nat := 512

structure ProcessMapping where
  base : Nat
  size : Nat
  prot : Nat
  deriving DecidableEq, Repr

/-- `storage` says whether the table has its storage, or gets it when it is first used. -/
structure MappingTable where
  storage : Bool
  entries : List ProcessMapping
  deriving DecidableEq, Repr

namespace MappingTable

def push (t : MappingTable) (m : ProcessMapping) : Bool × MappingTable :=
  if m.base = 0 ∨ t.storage = false then (false, t)
  else if t.entries.length = processMappingMax then (false, t)
  else (true, { t with entries := t.entries ++ [m] })

def rangesTouchOrOverlap (aStart aStop bStart bStop : Nat) : Bool := aStart ≤ bStop && bStart ≤ aStop

/-- The scan of `add_mapping`: records of the same protection that touch the new range become part
of it. The range is missing when the end of a record is not a word. -/
def absorb (prot lo hi : Nat) : List ProcessMapping → List ProcessMapping × Option (Nat × Nat)
  | [] => ([], some (lo, hi))
  | m :: rest =>
    if m.base ≠ 0 ∧ m.prot = prot then
      match checkedAdd m.base m.size with
      | none => (m :: rest, none)
      | some stop =>
        if rangesTouchOrOverlap lo hi m.base stop then
          absorb prot (min lo m.base) (max hi stop) rest
        else
          let (kept, range) := absorb prot lo hi rest
          (m :: kept, range)
    else
      let (kept, range) := absorb prot lo hi rest
      (m :: kept, range)

def addMapping (t : MappingTable) (base size prot : Nat) : Bool × MappingTable :=
  if base = 0 ∨ size = 0 then (false, t)
  else if t.storage = false then (false, t)
  else
    match checkedAdd base size with
    | none => (false, t)
    | some stop =>
      match absorb prot base stop t.entries with
      | (kept, none) => (false, { t with entries := kept })
      | (kept, some (lo, hi)) => push { t with entries := kept } ⟨lo, hi - lo, prot⟩

/-- The first record that contains an address, with its end. A record before it whose end is not a
word stops the scan, as if nothing were found. -/
def locate (x : Nat) : List ProcessMapping → Option (ProcessMapping × Nat)
  | [] => none
  | m :: rest =>
    if m.base = 0 then locate x rest
    else
      match checkedAdd m.base m.size with
      | none => none
      | some stop => if m.base ≤ x ∧ x < stop then some (m, stop) else locate x rest

/-- The scan of `has_mapping` from `cursor` on. Each round goes on by an address at least, so that a
round for every address is enough. -/
def coveredFrom (t : MappingTable) (stop : Nat) : Nat → Nat → Bool
  | 0, cursor => stop ≤ cursor
  | rounds + 1, cursor =>
    if cursor < stop then
      match locate cursor t.entries with
      | none => false
      | some (_, mappingEnd) => coveredFrom t stop rounds (min mappingEnd stop)
    else true

def hasMapping (t : MappingTable) (base size : Nat) : Bool :=
  if base = 0 ∨ size = 0 then false
  else
    match checkedAdd base size with
    | none => false
    | some stop => coveredFrom t stop size base

/-- The scan of `mapping_prot` from `cursor` on, with the protection found so far. -/
def protFrom (t : MappingTable) (stop : Nat) : Nat → Nat → Option Nat → Option Nat
  | 0, _, out => out
  | rounds + 1, cursor, out =>
    if cursor < stop then
      match locate cursor t.entries with
      | none => none
      | some (m, mappingEnd) =>
        if out.elim true (· = m.prot) then protFrom t stop rounds (min mappingEnd stop) (some m.prot)
        else none
    else out

def mappingProt (t : MappingTable) (base size : Nat) : Option Nat :=
  if base = 0 ∨ size = 0 then none
  else
    match checkedAdd base size with
    | none => none
    | some stop => protFrom t stop size base none

def pieces (base stop : Nat) : List ProcessMapping → Option Nat
  | [] => some 0
  | m :: rest =>
    if m.base = 0 then pieces base stop rest
    else
      match checkedAdd m.base m.size with
      | none => none
      | some mappingEnd =>
        let own :=
          if mappingEnd ≤ base ∨ m.base ≥ stop then 1
          else (if m.base < base then 1 else 0) + (if mappingEnd > stop then 1 else 0)
        (pieces base stop rest).map (own + ·)

def canRemoveMapping (t : MappingTable) (base size : Nat) : Bool :=
  match checkedAdd base size with
  | none => false
  | some stop => (pieces base stop t.entries).elim false (· ≤ processMappingMax)

def canProtectMapping (t : MappingTable) (base size : Nat) : Bool :=
  if !hasMapping t base size then false
  else
    match checkedAdd base size with
    | none => false
    | some stop => (pieces base stop t.entries).elim false (1 + · ≤ processMappingMax)

def enclosing (base stop : Nat) :
    List ProcessMapping → Option (ProcessMapping × Nat × List ProcessMapping)
  | [] => none
  | m :: rest =>
    if m.base = 0 then (enclosing base stop rest).map fun (n, e, l) => (n, e, m :: l)
    else
      match checkedAdd m.base m.size with
      | none => none
      | some mappingEnd =>
        if m.base ≤ base ∧ stop ≤ mappingEnd then some (m, mappingEnd, rest)
        else (enclosing base stop rest).map fun (n, e, l) => (n, e, m :: l)

/-- `insert_mapping_fragment`, for a fragment that may be empty. -/
def insertMappingFragment (t : MappingTable) (m : ProcessMapping) : Bool × MappingTable :=
  if m.size ≠ 0 then push t m else (true, t)

def removeMappingFragment (t : MappingTable) (base size : Nat) : Bool × MappingTable :=
  if base = 0 ∨ size = 0 then (false, t)
  else
    match checkedAdd base size with
    | none => (false, t)
    | some stop =>
      match enclosing base stop t.entries with
      | none => (false, t)
      | some (m, mappingEnd, rest) =>
        if base - m.base ≠ 0 ∧ mappingEnd - stop ≠ 0 ∧ processMappingMax - t.entries.length = 0 then
          (false, t)
        else
          match insertMappingFragment { t with entries := rest } ⟨m.base, base - m.base, m.prot⟩ with
          | (false, t1) => (false, t1)
          | (true, t1) => insertMappingFragment t1 ⟨stop, mappingEnd - stop, m.prot⟩

/-- The loop of `remove_mapping` from `cursor` on. -/
def removeFrom (stop : Nat) : Nat → Nat → MappingTable → Bool × MappingTable
  | 0, cursor, t => (stop ≤ cursor, t)
  | rounds + 1, cursor, t =>
    if cursor < stop then
      match locate cursor t.entries with
      | none => (false, t)
      | some (_, mappingEnd) =>
        match removeMappingFragment t cursor (min mappingEnd stop - cursor) with
        | (false, t1) => (false, t1)
        | (true, t1) => removeFrom stop rounds (min mappingEnd stop) t1
    else (true, t)

def removeMapping (t : MappingTable) (base size : Nat) : Bool × MappingTable :=
  if base = 0 ∨ size = 0 then (false, t)
  else
    match checkedAdd base size with
    | none => (false, t)
    | some stop =>
      if !hasMapping t base size || !canRemoveMapping t base size then (false, t)
      else removeFrom stop size base t

def protectMapping (t : MappingTable) (base size prot : Nat) : Bool × MappingTable :=
  if mappingProt t base size = some prot then (true, t)
  else if !canProtectMapping t base size then (false, t)
  else
    match removeMapping t base size with
    | (false, t1) => (false, t1)
    | (true, t1) => addMapping t1 base size prot

def mappingAt (t : MappingTable) (address : Nat) : Option ProcessMapping :=
  t.entries.find? fun m => m.base ≠ 0 && address ≥ m.base && address - m.base < m.size

/-- `min_by_key(|mapping| mapping.base)`: the first of those with the least base. -/
def minByBase : List ProcessMapping → Option ProcessMapping
  | [] => none
  | m :: rest =>
    match minByBase rest with
    | none => some m
    | some n => some (if m.base ≤ n.base then m else n)

def nextMapping (t : MappingTable) (address stop : Nat) : Option ProcessMapping :=
  minByBase (t.entries.filter fun m =>
    m.base ≠ 0 && m.base < stop && saturatingAdd m.base m.size > address)

end MappingTable

/-! ## What the operations do to the cover -/

def ProcessMapping.range (m : ProcessMapping) : Nat × Nat := (m.base, m.size)

/-- A record as the code means it: not at 0, page aligned, not empty, with an end that is a word. -/
structure ProcessMapping.WellFormed (m : ProcessMapping) : Prop where
  base_ne : m.base ≠ 0
  base_aligned : pageSize ∣ m.base
  size_aligned : pageSize ∣ m.size
  size_ne : m.size ≠ 0
  stop_lt : m.base + m.size < wordSize

lemma ProcessMapping.WellFormed.stop_aligned {m : ProcessMapping} (h : m.WellFormed) :
    pageSize ∣ m.base + m.size := dvd_add h.base_aligned h.size_aligned

def coverOf (l : List ProcessMapping) (x : Nat) : Nat := cover (l.map ProcessMapping.range) x

@[simp] lemma coverOf_nil {x} : coverOf [] x = 0 := rfl

@[simp] lemma coverOf_cons {m} {l x} : coverOf (m :: l) x = ind m.base m.size x + coverOf l x := by
  simp only [coverOf, map_cons, cover_cons, ProcessMapping.range]

@[simp] lemma coverOf_append {l l'} {x} : coverOf (l ++ l') x = coverOf l x + coverOf l' x := by
  simp only [coverOf, map_append, cover_append]

/-- Records that are well formed, disjoint, and fit in the table. -/
structure Tidy (l : List ProcessMapping) : Prop where
  wellFormed : ∀ m ∈ l, m.WellFormed
  disjoint : ∀ x, coverOf l x ≤ 1
  fits : l.length ≤ processMappingMax

def MappingTable.Recorded (t : MappingTable) (x : Nat) : Prop := 0 < coverOf t.entries x

lemma coverOf_pos {l} {x} : 0 < coverOf l x ↔ ∃ m ∈ l, m.base ≤ x ∧ x < m.base + m.size := by
  unfold coverOf
  rw [cover_pos]
  constructor
  · rintro ⟨r, hr, hx⟩
    obtain ⟨m, hm, rfl⟩ := mem_map.mp hr
    exact ⟨m, hm, hx⟩
  · rintro ⟨m, hm, hx⟩
    exact ⟨m.range, mem_map_of_mem hm, hx⟩

lemma Tidy.push {l m} (h : Tidy l) (hm : m.WellFormed)
    (hd : ∀ x, coverOf l x + ind m.base m.size x ≤ 1) (hroom : l.length ≠ processMappingMax) :
    Tidy (l ++ [m]) where
  wellFormed n hn := by
    rcases mem_append.mp hn with hn | hn
    · exact h.wellFormed n hn
    · exact mem_singleton.mp hn ▸ hm
  disjoint x := by simpa using hd x
  fits := by
    have := h.fits
    rw [length_append, length_singleton]
    omega

namespace MappingTable

variable {t t' : MappingTable} {base size prot stop x : Nat}

lemma push_cases (t : MappingTable) (m : ProcessMapping) :
    push t m = (true, { t with entries := t.entries ++ [m] }) ∧
        t.entries.length ≠ processMappingMax ∨
      push t m = (false, t) ∧
        (m.base = 0 ∨ t.storage = false ∨ t.entries.length = processMappingMax) := by
  unfold push
  by_cases h : m.base = 0 ∨ t.storage = false
  · rw [if_pos h]
    exact .inr ⟨rfl, h.elim .inl (fun h => .inr (.inl h))⟩
  · rw [if_neg h]
    by_cases hl : t.entries.length = processMappingMax
    · rw [if_pos hl]
      exact .inr ⟨rfl, .inr (.inr hl)⟩
    · rw [if_neg hl]
      exact .inl ⟨rfl, hl⟩

lemma ProcessMapping.WellFormed.checkedAdd {m : ProcessMapping} (h : m.WellFormed) :
    checkedAdd m.base m.size = some (m.base + m.size) := checkedAdd_of_lt h.stop_lt

/-- Joining a range with one that touches it and is disjoint from it. -/
lemma ind_join {lo hi b c x} (hlo : lo < hi) (hc : 0 < c)
    (ht : rangesTouchOrOverlap lo hi b (b + c) = true)
    (hd : ∀ y, ind lo (hi - lo) y + ind b c y ≤ 1) :
    ind (min lo b) (max hi (b + c) - min lo b) x = ind lo (hi - lo) x + ind b c x := by
  simp only [rangesTouchOrOverlap, Bool.and_eq_true, decide_eq_true_eq] at ht
  have hsep : hi = b ∨ b + c = lo := by
    have h1 := hd lo
    have h2 := hd b
    unfold ind at h1 h2
    split at h1 <;> split at h1 <;> split at h2 <;> split at h2 <;> omega
  unfold ind
  rcases hsep with h | h
  · split <;> split <;> split <;> omega
  · split <;> split <;> split <;> omega

/-- What the scan of `add_mapping` makes of the records and of the new range. -/
structure Absorbed (l kept : List ProcessMapping) (lo hi lo' hi' : Nat) : Prop where
  sub : ∀ m ∈ kept, m ∈ l
  below : lo' ≤ lo
  above : hi ≤ hi'
  lo_aligned : pageSize ∣ lo → pageSize ∣ lo'
  hi_aligned : pageSize ∣ hi → pageSize ∣ hi'
  lo_ne : lo ≠ 0 → lo' ≠ 0
  hi_lt : hi < wordSize → hi' < wordSize
  same_or_less : kept = l ∧ lo' = lo ∧ hi' = hi ∨ kept.length < l.length
  length_le : kept.length ≤ l.length
  cover : ∀ x, coverOf kept x + ind lo' (hi' - lo') x = coverOf l x + ind lo (hi - lo) x

variable {m : ProcessMapping} {l : List ProcessMapping} {e address : Nat}

lemma Absorbed.keep {kept lo hi lo' hi'} (h : Absorbed l kept lo hi lo' hi') :
    Absorbed (m :: l) (m :: kept) lo hi lo' hi' :=
  { h with
    sub := cons_subset_cons m h.sub
    same_or_less := by
      rcases h.same_or_less with ⟨rfl, h1, h2⟩ | hl
      · exact .inl ⟨rfl, h1, h2⟩
      · exact .inr (Nat.succ_lt_succ hl)
    length_le := Nat.succ_le_succ h.length_le
    cover := by
      intro x
      have := h.cover x
      simp only [coverOf_cons]
      omega }

lemma absorb_spec {l} {lo hi : Nat} (hlt : lo < hi) (hwf : ∀ m ∈ l, m.WellFormed)
    (hd : ∀ x, coverOf l x + ind lo (hi - lo) x ≤ 1) :
    ∃ kept lo' hi', absorb prot lo hi l = (kept, some (lo', hi')) ∧
      Absorbed l kept lo hi lo' hi' := by
  induction l generalizing lo hi with
  | nil =>
    exact ⟨[], lo, hi, rfl, ⟨fun _ h => h, le_refl _, le_refl _, id, id, id, id,
      .inl ⟨rfl, rfl, rfl⟩, le_refl _, fun _ => rfl⟩⟩
  | cons m rest ih =>
    have hm := hwf m mem_cons_self
    have hrest : ∀ n ∈ rest, n.WellFormed := fun n hn => hwf n (mem_cons_of_mem _ hn)
    have hkeep : ∀ x, coverOf rest x + ind lo (hi - lo) x ≤ 1 := by
      intro x
      have := hd x
      rw [coverOf_cons] at this
      omega
    obtain ⟨kept, lo', hi', e, ha⟩ := ih hlt hrest hkeep
    unfold absorb
    by_cases hp : m.base ≠ 0 ∧ m.prot = prot
    · rw [if_pos hp, ProcessMapping.WellFormed.checkedAdd hm]
      by_cases ht : rangesTouchOrOverlap lo hi m.base (m.base + m.size) = true
      · -- the record becomes part of the range, which stays disjoint from the rest
        have hpos : 0 < m.size := pos_of_ne_zero hm.size_ne
        have hjoin := fun x => @ind_join lo hi m.base m.size x hlt hpos ht (by
          intro y
          have := hd y
          rw [coverOf_cons] at this
          omega)
        obtain ⟨kept, lo', hi', e, ha⟩ := @ih (min lo m.base) (max hi (m.base + m.size))
          (by omega) hrest (by
            intro x
            have := hd x
            rw [coverOf_cons] at this
            rw [hjoin x]
            omega)
        refine ⟨kept, lo', hi', ?_, ?_⟩
        · simp only [ht, if_true]
          exact e
        · refine ⟨fun n hn => mem_cons_of_mem _ (ha.sub n hn), ?_, ?_, ?_, ?_, ?_, ?_, ?_, ?_, ?_⟩
          · exact le_trans ha.below (min_le_left _ _)
          · exact le_trans (le_max_left _ _) ha.above
          · exact fun h => ha.lo_aligned (min_rec' _ h hm.base_aligned)
          · exact fun h => ha.hi_aligned (max_rec' _ h hm.stop_aligned)
          · intro h
            apply ha.lo_ne
            omega
          · intro h
            apply ha.hi_lt
            have := hm.stop_lt
            omega
          · exact .inr (Nat.lt_succ_of_le ha.length_le)
          · exact Nat.le_succ_of_le ha.length_le
          · intro x
            have h1 := ha.cover x
            rw [hjoin x] at h1
            rw [coverOf_cons]
            omega
      · refine ⟨m :: kept, lo', hi', ?_, ha.keep⟩
        simp only [ht, e]
        rfl
    · refine ⟨m :: kept, lo', hi', ?_, ha.keep⟩
      rw [if_neg hp, e]

/-- What `add_mapping` leaves: on success the new range is covered once more, on failure the table is
as it was. -/
structure Added (t t' : MappingTable) (base size : Nat) (done : Bool) : Prop where
  tidy : Tidy t'.entries
  cover : done = true → ∀ x, coverOf t'.entries x = coverOf t.entries x + ind base size x
  same : done = false → t' = t

lemma Added.refused (ht : Tidy t.entries) : Added t t base size false :=
  ⟨ht, nofun, fun _ => rfl⟩

lemma addMapping_spec (ht : Tidy t.entries) (hb : pageSize ∣ base) (hs : pageSize ∣ size)
    (hfree : ∀ x, base ≤ x → x < base + size → ¬t.Recorded x) :
    Added t (addMapping t base size prot).2 base size (addMapping t base size prot).1 := by
  unfold addMapping
  by_cases h0 : base = 0 ∨ size = 0
  · rw [if_pos h0]
    exact .refused ht
  rw [if_neg h0]
  by_cases hst : t.storage = false
  · rw [if_pos hst]
    exact .refused ht
  rw [if_neg hst]
  cases hc : checkedAdd base size with
  | none => exact .refused ht
  | some stop =>
    obtain ⟨rfl, hlt⟩ := checkedAdd_eq_some.mp hc
    have hd : ∀ x, coverOf t.entries x + ind base (base + size - base) x ≤ 1 := by
      intro x
      rw [Nat.add_sub_cancel_left]
      by_cases hx : base ≤ x ∧ x < base + size
      · have h1 : ¬0 < coverOf t.entries x := hfree x hx.1 hx.2
        have h2 := @ind_le_one base size x
        omega
      · have h1 : ind base size x = 0 := if_neg hx
        have h2 := ht.disjoint x
        omega
    obtain ⟨kept, lo, hi, e, ha⟩ := @absorb_spec prot _ _ _ (by omega) ht.wellFormed hd
    simp only [e]
    have hbelow := ha.below
    have habove := ha.above
    have hlo : pageSize ∣ lo := ha.lo_aligned hb
    have hhi : pageSize ∣ hi := ha.hi_aligned (dvd_add hb hs)
    have hcover := ha.cover
    rcases push_cases { t with entries := kept } ⟨lo, hi - lo, prot⟩ with ⟨hp, hroom⟩ | ⟨hp, hwhy⟩
    · rw [hp]
      have hkept : Tidy kept := ⟨fun m hm => ht.wellFormed m (ha.sub m hm),
        fun x => by have := hcover x; have := hd x; omega, le_trans ha.length_le ht.fits⟩
      have hnew : ProcessMapping.WellFormed ⟨lo, hi - lo, prot⟩ := by
        refine ⟨ha.lo_ne (by omega), hlo, Nat.dvd_sub hhi hlo, ?_, ?_⟩
        · show hi - lo ≠ 0
          omega
        · show lo + (hi - lo) < wordSize
          have := ha.hi_lt hlt
          omega
      refine ⟨hkept.push hnew (fun x => hcover x ▸ hd x) hroom, fun _ x => ?_, nofun⟩
      simpa using hcover x
    · rw [hp]
      -- the table is full, so that nothing was merged
      have hkept : kept = t.entries := by
        rcases ha.same_or_less with ⟨h, -, -⟩ | h
        · exact h
        · exfalso
          have h2 := ht.fits
          have h3 := ha.lo_ne (by omega)
          rcases hwhy with hw | hw | hw
          · exact h3 hw
          · exact hst hw
          · simp only at hw
            omega
      subst hkept
      exact .refused ht

/-! ### Taking a range out -/

lemma enclosing_spec {rest} (h : enclosing base stop l = some (m, e, rest)) :
    l.Perm (m :: rest) ∧ m.base + m.size = e ∧ m.base ≤ base ∧ stop ≤ e := by
  induction l generalizing rest with
  | nil => cases h
  | cons n l ih =>
    unfold enclosing at h
    have hskip : ∀ {h' : Option (ProcessMapping × Nat × List ProcessMapping)},
        h' = enclosing base stop l → h'.map (fun (a, e, l) => (a, e, n :: l)) = some (m, e, rest) →
        (n :: l).Perm (m :: rest) ∧ m.base + m.size = e ∧ m.base ≤ base ∧ stop ≤ e := by
      rintro _ rfl hmap
      obtain ⟨⟨a, e', l'⟩, hl, heq⟩ := Option.map_eq_some_iff.mp hmap
      cases heq
      obtain ⟨hp, h1, h2, h3⟩ := ih hl
      exact ⟨(hp.cons n).trans (List.Perm.swap _ _ _), h1, h2, h3⟩
    split at h
    · exact hskip rfl h
    · split at h
      · cases h
      · rename_i mappingEnd hc
        split at h
        · rename_i hin
          cases h
          exact ⟨List.Perm.refl _, (checkedAdd_eq_some.mp hc).1, hin.1, hin.2⟩
        · exact hskip rfl h

lemma coverOf_perm {l'} (p : l.Perm l') (x) : coverOf l x = coverOf l' x :=
  cover_perm (p.map _) x

/-- What is left when a range is taken out of a table. -/
structure Taken (t t' : MappingTable) (base size : Nat) (done : Bool) : Prop where
  tidy : Tidy t'.entries
  cover_le : ∀ x, coverOf t'.entries x ≤ coverOf t.entries x
  gone : done = true → ∀ x, base ≤ x → x < base + size → ¬t'.Recorded x

lemma Taken.refused (ht : Tidy t.entries) : Taken t t base size false :=
  ⟨ht, fun _ => le_refl _, nofun⟩

/-- A fragment that goes back is part of what was taken out. -/
lemma insertMappingFragment_spec {m} (ht : Tidy t.entries) (hm : m.size ≠ 0 → m.WellFormed)
    (hd : ∀ x, coverOf t.entries x + ind m.base m.size x ≤ 1) :
    Tidy (insertMappingFragment t m).2.entries ∧
      ∀ x, coverOf (insertMappingFragment t m).2.entries x ≤
        coverOf t.entries x + ind m.base m.size x := by
  unfold insertMappingFragment
  by_cases h : m.size ≠ 0
  · rw [if_pos h]
    rcases push_cases t m with ⟨hp, hroom⟩ | ⟨hp, -⟩
    · rw [hp]
      exact ⟨ht.push (hm h) hd hroom, fun x => by simp⟩
    · rw [hp]
      exact ⟨ht, fun x => Nat.le_add_right _ _⟩
  · rw [if_neg h]
    exact ⟨ht, fun x => Nat.le_add_right _ _⟩

lemma removeMappingFragment_spec (ht : Tidy t.entries) (hb : pageSize ∣ base)
    (hs : pageSize ∣ size) :
    Taken t (removeMappingFragment t base size).2 base size (removeMappingFragment t base size).1 := by
  unfold removeMappingFragment
  by_cases h0 : base = 0 ∨ size = 0
  · rw [if_pos h0]
    exact .refused ht
  rw [if_neg h0]
  cases hc : checkedAdd base size with
  | none => exact .refused ht
  | some stop =>
    obtain ⟨rfl, hlt⟩ := checkedAdd_eq_some.mp hc
    cases he : enclosing base (base + size) t.entries with
    | none =>
      simp only [he]
      exact .refused ht
    | some found =>
      obtain ⟨m, e, rest⟩ := found
      obtain ⟨hperm, rfl, hlow, hhigh⟩ := enclosing_spec he
      simp only [he]
      split
      · exact .refused ht
      have hm : m.WellFormed := ht.wellFormed m (hperm.mem_iff.mpr mem_cons_self)
      have hwf : ∀ n ∈ rest, n.WellFormed :=
        fun n hn => ht.wellFormed n (hperm.mem_iff.mpr (mem_cons_of_mem _ hn))
      -- the record is its left part, the range and its right part
      have hcut : ∀ x, coverOf t.entries x = coverOf rest x + (ind m.base (base - m.base) x +
          ind base size x + ind (base + size) (m.base + m.size - (base + size)) x) := by
        intro x
        have h1 := @ind_cut m.base base (m.base + m.size) x hlow (by omega)
        have h2 := @ind_cut base (base + size) (m.base + m.size) x (by omega) hhigh
        rw [coverOf_perm hperm, coverOf_cons]
        simp only [Nat.add_sub_cancel_left] at h1 h2
        omega
      have hone := fun x => hcut x ▸ ht.disjoint x
      have hrest : Tidy rest := by
        refine ⟨hwf, ?_, ?_⟩
        · intro x
          have := hone x
          omega
        · have h1 := ht.fits
          have h2 := hperm.length_eq
          simp only [length_cons] at h2
          omega
      obtain ⟨htidy1, hcov1⟩ := @insertMappingFragment_spec { t with entries := rest }
        ⟨m.base, base - m.base, m.prot⟩ hrest
        (fun h => ⟨hm.base_ne, hm.base_aligned, Nat.dvd_sub hb hm.base_aligned, h, by
          show m.base + (base - m.base) < wordSize
          omega⟩)
        (by
          intro x
          have := hone x
          simp only
          omega)
      split
      · rename_i t1 heq
        rw [heq] at htidy1 hcov1
        refine ⟨htidy1, ?_, nofun⟩
        intro x
        have h1 := hcov1 x
        rw [hcut x]
        simp only at h1 ⊢
        omega
      · rename_i t1 heq
        rw [heq] at htidy1 hcov1
        simp only at htidy1 hcov1
        obtain ⟨htidy2, hcov2⟩ := @insertMappingFragment_spec t1
          ⟨base + size, m.base + m.size - (base + size), m.prot⟩ htidy1
          (fun h => ⟨by show base + size ≠ 0; omega, Nat.dvd_add hb hs,
            Nat.dvd_sub hm.stop_aligned (Nat.dvd_add hb hs), h, by
              show base + size + (m.base + m.size - (base + size)) < wordSize
              have := hm.stop_lt
              omega⟩)
          (by
            intro x
            have h1 := hone x
            have h2 := hcov1 x
            simp only
            omega)
        refine ⟨htidy2, ?_, ?_⟩
        · intro x
          have h1 := hcov1 x
          have h2 := hcov2 x
          rw [hcut x]
          simp only at h2 ⊢
          omega
        · intro _ x hx hx'
          have h1 := hcov1 x
          have h2 := hcov2 x
          have h3 := hone x
          have h4 : ind base size x = 1 := ind_eq_one.mpr ⟨hx, hx'⟩
          unfold Recorded
          simp only at h2 ⊢
          omega

lemma locate_spec (h : locate x l = some (m, e)) :
    m ∈ l ∧ m.base + m.size = e ∧ m.base ≤ x ∧ x < e := by
  induction l with
  | nil => cases h
  | cons n l ih =>
    unfold locate at h
    split at h
    · obtain ⟨hm, hrest⟩ := ih h
      exact ⟨mem_cons_of_mem _ hm, hrest⟩
    · split at h
      · cases h
      · rename_i stop hc
        split at h
        · rename_i hin
          cases h
          exact ⟨mem_cons_self, (checkedAdd_eq_some.mp hc).1, hin.1, hin.2⟩
        · obtain ⟨hm, hrest⟩ := ih h
          exact ⟨mem_cons_of_mem _ hm, hrest⟩

lemma recorded_of_coveredFrom {rounds cursor} (h : coveredFrom t stop rounds cursor = true) :
    ∀ y, cursor ≤ y → y < stop → t.Recorded y := by
  induction rounds generalizing cursor with
  | zero =>
    have hend : stop ≤ cursor := of_decide_eq_true h
    intro y _ _
    omega
  | succ rounds ih =>
    intro y hy hy'
    rw [coveredFrom, if_pos (by omega)] at h
    cases hl : locate cursor t.entries with
    | none =>
      rw [hl] at h
      cases h
    | some found =>
      rw [hl] at h
      obtain ⟨hm, hend, hle, -⟩ := locate_spec hl
      by_cases hye : y < found.2
      · exact coverOf_pos.mpr ⟨found.1, hm, le_trans hle hy, hend ▸ hye⟩
      · exact ih h y (by omega) hy'

lemma recorded_of_hasMapping (h : hasMapping t base size = true) :
    ∀ y, base ≤ y → y < base + size → t.Recorded y := by
  unfold hasMapping at h
  split at h
  · cases h
  · cases hc : checkedAdd base size with
    | none =>
      rw [hc] at h
      cases h
    | some stop =>
      obtain ⟨rfl, _⟩ := checkedAdd_eq_some.mp hc
      rw [hc] at h
      exact recorded_of_coveredFrom h

lemma removeFrom_spec {rounds cursor : Nat} (ht : Tidy t.entries) (hb : pageSize ∣ cursor)
    (hs : pageSize ∣ stop) :
    Taken t (removeFrom stop rounds cursor t).2 cursor (stop - cursor)
      (removeFrom stop rounds cursor t).1 := by
  induction rounds generalizing cursor t with
  | zero =>
    refine ⟨ht, fun _ => le_refl _, ?_⟩
    intro h x hx hx'
    have : stop ≤ cursor := by simpa [removeFrom] using h
    omega
  | succ rounds ih =>
    unfold removeFrom
    by_cases hlt : cursor < stop
    · rw [if_pos hlt]
      cases hl : locate cursor t.entries with
      | none => exact .refused ht
      | some found =>
        obtain ⟨m, e⟩ := found
        obtain ⟨hm, rfl, -, hcur⟩ := locate_spec hl
        have hwf := ht.wellFormed m hm
        have hnext : pageSize ∣ min (m.base + m.size) stop :=
          min_rec' _ hwf.stop_aligned hs
        have hf := @removeMappingFragment_spec t cursor (min (m.base + m.size) stop - cursor) ht hb
          (Nat.dvd_sub hnext hb)
        simp only
        split
        · rename_i t1 heq
          rw [heq] at hf
          exact ⟨hf.tidy, hf.cover_le, nofun⟩
        · rename_i t1 heq
          rw [heq] at hf
          change Taken t t1 _ _ true at hf
          have hr := ih hf.tidy hnext
          refine ⟨hr.tidy, fun x => le_trans (hr.cover_le x) (hf.cover_le x), ?_⟩
          intro hdone x hx hx'
          by_cases hx1 : x < min (m.base + m.size) stop
          · -- taken out in this round, and later rounds only take more
            have h1 := hf.gone rfl x hx (by omega)
            have h2 := hr.cover_le x
            unfold Recorded at h1 ⊢
            omega
          · exact hr.gone hdone x (by omega) (by omega)
    · rw [if_neg hlt]
      exact ⟨ht, fun _ => le_refl _, fun _ x _ _ => by omega⟩

lemma removeMapping_spec (ht : Tidy t.entries) (hb : pageSize ∣ base)
    (hs : pageSize ∣ size) :
    Taken t (removeMapping t base size).2 base size (removeMapping t base size).1 := by
  unfold removeMapping
  by_cases h0 : base = 0 ∨ size = 0
  · rw [if_pos h0]
    exact .refused ht
  rw [if_neg h0]
  cases hc : checkedAdd base size with
  | none => exact .refused ht
  | some stop =>
    obtain ⟨rfl, -⟩ := checkedAdd_eq_some.mp hc
    simp only
    split
    · exact .refused ht
    · have h := @removeFrom_spec t (base + size) size base ht hb (dvd_add hb hs)
      rwa [Nat.add_sub_cancel_left] at h

lemma hasMapping_of_canProtect (h : canProtectMapping t base size = true) :
    hasMapping t base size = true := by
  unfold canProtectMapping at h
  cases hh : hasMapping t base size with
  | true => rfl
  | false =>
    rw [hh] at h
    cases h

lemma protectMapping_spec (ht : Tidy t.entries) (hb : pageSize ∣ base)
    (hs : pageSize ∣ size) :
    Tidy (protectMapping t base size prot).2.entries ∧
      ∀ x, (protectMapping t base size prot).2.Recorded x → t.Recorded x := by
  unfold protectMapping
  split
  · exact ⟨ht, fun _ => id⟩
  split
  · exact ⟨ht, fun _ => id⟩
  rename_i hcan
  have hcan : canProtectMapping t base size = true := by simpa using hcan
  have hrec := recorded_of_hasMapping (hasMapping_of_canProtect hcan)
  have hrem := removeMapping_spec ht hb hs
  split
  · rename_i t1 heq
    rw [heq] at hrem
    exact ⟨hrem.tidy, fun x hx => lt_of_lt_of_le hx (hrem.cover_le x)⟩
  · rename_i t1 heq
    rw [heq] at hrem
    change Taken t t1 _ _ true at hrem
    have hadd := @addMapping_spec t1 base size prot hrem.tidy hb hs (hrem.gone rfl)
    refine ⟨hadd.tidy, fun x hx => ?_⟩
    cases hd : (addMapping t1 base size prot).1 with
    | false =>
      rw [hadd.same hd] at hx
      exact lt_of_lt_of_le hx (hrem.cover_le x)
    | true =>
      have hc := hadd.cover hd x
      by_cases hin : base ≤ x ∧ x < base + size
      · exact hrec x hin.1 hin.2
      · have h0 : ind base size x = 0 := if_neg hin
        have hle := hrem.cover_le x
        unfold Recorded at hx ⊢
        omega

lemma minByBase_none (h : minByBase l = none) : l = [] := by
  cases l with
  | nil => rfl
  | cons a l =>
    unfold minByBase at h
    cases hl : minByBase l with
    | none => rw [hl] at h; cases h
    | some b => rw [hl] at h; cases h

lemma minByBase_spec (h : minByBase l = some m) : m ∈ l ∧ ∀ n ∈ l, m.base ≤ n.base := by
  induction l generalizing m with
  | nil => cases h
  | cons a l ih =>
    unfold minByBase at h
    cases hl : minByBase l with
    | none =>
      rw [hl] at h
      cases h
      rw [minByBase_none hl, forall_mem_singleton]
      exact ⟨mem_cons_self, le_refl _⟩
    | some b =>
      rw [hl] at h
      obtain ⟨hb, hmin⟩ := ih hl
      simp only [Option.some.injEq] at h
      by_cases hab : a.base ≤ b.base
      · rw [if_pos hab] at h
        subst h
        exact ⟨mem_cons_self, forall_mem_cons.mpr
          ⟨le_refl _, fun n hn => le_trans hab (hmin n hn)⟩⟩
      · rw [if_neg hab] at h
        subst h
        exact ⟨mem_cons_of_mem _ hb, forall_mem_cons.mpr ⟨by omega, hmin⟩⟩

lemma mem_overlapping (ht : Tidy t.entries) :
    m ∈ t.entries.filter (fun m =>
      m.base ≠ 0 && m.base < stop && saturatingAdd m.base m.size > address) ↔
    m ∈ t.entries ∧ m.base < stop ∧ address < m.base + m.size := by
  rw [mem_filter]
  simp only [Bool.and_eq_true, decide_eq_true_eq]
  constructor
  · rintro ⟨hm, ⟨-, hs⟩, ha⟩
    have hwf := ht.wellFormed m hm
    unfold saturatingAdd at ha
    exact ⟨hm, hs, by omega⟩
  · rintro ⟨hm, hs, ha⟩
    have hwf := ht.wellFormed m hm
    refine ⟨hm, ⟨hwf.base_ne, hs⟩, ?_⟩
    have := hwf.stop_lt
    unfold saturatingAdd
    omega

/-- The next record that meets `[address, stop)`: it meets the range, and nothing is recorded in the
range before it. -/
lemma nextMapping_some (ht : Tidy t.entries) (h : nextMapping t address stop = some m) :
    m ∈ t.entries ∧ m.base < stop ∧ address < m.base + m.size ∧
      ∀ x, address ≤ x → x < stop → x < m.base → ¬t.Recorded x := by
  obtain ⟨hm, hmin⟩ := minByBase_spec h
  obtain ⟨hm, hs, ha⟩ := (mem_overlapping ht).mp hm
  refine ⟨hm, hs, ha, ?_⟩
  intro x hx hx' hlt hrec
  obtain ⟨n, hn, hle, hgt⟩ := coverOf_pos.mp hrec
  have := hmin n ((mem_overlapping ht).mpr ⟨hn, by omega, by omega⟩)
  omega

lemma nextMapping_none (ht : Tidy t.entries) (h : nextMapping t address stop = none) :
    ∀ x, address ≤ x → x < stop → ¬t.Recorded x := by
  intro x hx hx' hrec
  obtain ⟨n, hn, hle, hgt⟩ := coverOf_pos.mp hrec
  have hnil := minByBase_none h
  have hmem := (mem_overlapping ht).mpr (⟨hn, by omega, by omega⟩ :
    n ∈ t.entries ∧ n.base < stop ∧ address < n.base + n.size)
  rw [hnil] at hmem
  cases hmem

end MappingTable

end Nanami.Alter
