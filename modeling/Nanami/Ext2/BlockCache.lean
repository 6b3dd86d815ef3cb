import Nanami.Nun
import Nanami.Lib.SortedMap

/-!
# The block cache

The bounded cache of `block_cache.rs`. The vectors `entries` and `data` are functions of the slot, below
`capacity`; a block's contents are opaque here, since the cache only copies whole blocks. A failed
`assert!` is `none`.

What a cache holds is read off by `find`, and each operation is described by what it does to that.
-/

namespace Nanami.Ext2

open Lib Option Finset

inductive BlockKind where
  | data | metadata
  deriving DecidableEq, Repr

structure Entry where
  block : Option Nat
  dirty : Option BlockKind
  referenced : Bool
  deriving DecidableEq, Repr

structure BlockCache (β : Type) where
  index : SortedMap Nat Nat
  entries : Nat → Entry
  capacity : Nat
  data : Nat → β
  scratchBackup : Nat → β
  blockSize : Nat
  hand : Nat
  dirtyCount : Nat
  error : Option RequestError

namespace BlockCache

variable {β : Type}

/-- A cache of as many blocks as fit the budget; fresh memory is zero. -/
def new (zero : β) (blockSize budget : Nat) : BlockCache β where
  index := .empty
  entries := fun _ => ⟨none, none, false⟩
  capacity := budget / blockSize
  data := fun _ => zero
  scratchBackup := fun _ => zero
  blockSize := blockSize
  hand := 0
  dirtyCount := 0
  error := none

def isDirty (c : BlockCache β) : Bool := c.dirtyCount ≠ 0

def contains (c : BlockCache β) (block : Nat) : Bool := (c.index.get? block).isSome

def setEntry (c : BlockCache β) (slot : Nat) (entry : Entry) : BlockCache β :=
  { c with entries := Function.update c.entries slot entry }

def setReferenced (c : BlockCache β) (slot : Nat) (referenced : Bool) : BlockCache β :=
  c.setEntry slot { c.entries slot with referenced := referenced }

/-- The contents of a cached block, which counts as referenced from now on. -/
def load (c : BlockCache β) (block : Nat) : Option (BlockCache β × β) :=
  (c.index.get? block).map fun slot => (c.setReferenced slot true, c.data slot)

def additional (c : BlockCache β) (block count : Nat) : Nat :=
  ((List.range' block count).filter fun b =>
    ((c.index.get? b).map fun slot => (c.entries slot).dirty).join.isNone).length

def hasRoomFor (c : BlockCache β) (block count : Nat) : Bool :=
  c.additional block count ≤ c.capacity - c.dirtyCount

/-- The CLOCK sweep: pass over dirty entries, give referenced ones a second chance. -/
def sweep : Nat → BlockCache β → BlockCache β × Option Nat
  | 0, c => (c, none)
  | n + 1, c =>
    let slot := c.hand
    let c := { c with hand := (c.hand + 1) % c.capacity }
    if (c.entries slot).dirty.isSome then sweep n c
    else if (c.entries slot).referenced then sweep n (c.setReferenced slot false)
    else (c, some slot)

def reindex (c : BlockCache β) (slot block : Nat) : BlockCache β :=
  { c with index := (match (c.entries slot).block with
      | some old => c.index.erase old
      | none => c.index).insert block slot }

def slotFor (c : BlockCache β) (block : Nat) (dirty : Option BlockKind) :
    BlockCache β × Option Nat :=
  match c.index.get? block with
  | some slot =>
    -- an uncached read must never replace a pending write
    if dirty.isNone ∧ (c.entries slot).dirty.isSome then (c, none) else (c, some slot)
  | none =>
    if c.dirtyCount = c.capacity then (c, none)
    else match c.sweep (c.capacity * 2) with
      | (c, none) => (c, none)
      | (c, some slot) => (c.reindex slot block, some slot)

def put (c : BlockCache β) (slot block : Nat) (source : β) (dirty : Option BlockKind) :
    BlockCache β :=
  { c with
    dirtyCount := if dirty.isSome ∧ (c.entries slot).dirty.isNone then c.dirtyCount + 1
      else c.dirtyCount
    entries := Function.update c.entries slot ⟨some block, dirty, true⟩
    data := Function.update c.data slot source }

/-- Store a block. A dirty block that finds no slot fails an assertion; a clean one that finds none,
or that is dirty in the cache, is left out. -/
def store (c : BlockCache β) (block : Nat) (source : β) (dirty : Option BlockKind) :
    Option (BlockCache β) :=
  match c.slotFor block dirty with
  | (c, some slot) => some (c.put slot block source dirty)
  | (c, none) => if dirty.isSome then none else some c

def storeRun (block : Nat) (frames : Nat → β) (dirty : Option BlockKind) :
    List Nat → BlockCache β → Option (BlockCache β)
  | [], c => some c
  | i :: rest, c => (c.store (block + i) (frames i) dirty).bind (storeRun block frames dirty rest)

def clean (c : BlockCache β) : BlockCache β :=
  { c with
    entries := fun slot => { c.entries slot with dirty := none }
    dirtyCount := 0 }

/-! ## What a cache holds -/

def find (c : BlockCache β) (block : Nat) : Option (Option BlockKind × β) :=
  (c.index.get? block).map fun slot => ((c.entries slot).dirty, c.data slot)

def dirtyAs (c : BlockCache β) (block : Nat) : Option BlockKind :=
  (c.find block).bind Prod.fst

def dirtySlots (c : BlockCache β) : Finset Nat :=
  (Finset.range c.capacity).filter fun slot => (c.entries slot).dirty.isSome

structure Valid (c : BlockCache β) : Prop where
  indexed : ∀ block slot, c.index.get? block = some slot ↔
    slot < c.capacity ∧ (c.entries slot).block = some block
  hand : c.hand < c.capacity
  named : ∀ slot < c.capacity, (c.entries slot).dirty.isSome → (c.entries slot).block.isSome
  count : c.dirtyCount = c.dirtySlots.card

variable {c c' : BlockCache β} {block slot : Nat} {source : β} {dirty : Option BlockKind}

lemma dirtyAs_eq : c.dirtyAs block =
    ((c.index.get? block).map fun slot => (c.entries slot).dirty).join := by
  rw [dirtyAs, find]
  cases c.index.get? block <;> rfl

lemma dirtyAs_of_find {kind v} (h : c.find block = some (kind, v)) : c.dirtyAs block = kind := by
  rw [dirtyAs, h, bind_some]

lemma Valid.count_le (h : c.Valid) : c.dirtyCount ≤ c.capacity := by
  rw [h.count]
  exact (card_filter_le _ _).trans (card_range _).le

lemma new_valid {zero : β} {blockSize budget} (h : 0 < budget / blockSize) :
    (new zero blockSize budget).Valid where
  indexed := by
    intro block slot
    simp [new, SortedMap.get?, SortedMap.empty]
  hand := h
  named := nofun
  count := by simp [new, dirtySlots]

/-! ## Loads -/

/-- Only the index, reference bits and the hand may differ. -/
structure SameSlots (c c' : BlockCache β) : Prop where
  capacity : c'.capacity = c.capacity
  data : c'.data = c.data
  dirty : ∀ slot, (c'.entries slot).dirty = (c.entries slot).dirty
  names : ∀ slot, (c'.entries slot).block = (c.entries slot).block
  dirtyCount : c'.dirtyCount = c.dirtyCount
  error : c'.error = c.error

lemma SameSlots.refl : SameSlots c c := ⟨rfl, rfl, fun _ => rfl, fun _ => rfl, rfl, rfl⟩

structure SameHeld (c c' : BlockCache β) : Prop extends SameSlots c c' where
  index : c'.index = c.index

namespace SameHeld

lemma refl (c : BlockCache β) : SameHeld c c := ⟨.refl, rfl⟩

lemma trans {c''} (h : SameHeld c c') (h' : SameHeld c' c'') : SameHeld c c'' :=
  ⟨⟨h'.capacity.trans h.capacity, h'.data.trans h.data,
    fun slot => (h'.dirty slot).trans (h.dirty slot), fun slot => (h'.names slot).trans (h.names slot),
    h'.dirtyCount.trans h.dirtyCount, h'.error.trans h.error⟩, h'.index.trans h.index⟩

lemma find (h : SameHeld c c') (block : Nat) : c'.find block = c.find block := by
  simp only [BlockCache.find, h.index, h.data, h.dirty]

lemma dirtySlots (h : SameHeld c c') : c'.dirtySlots = c.dirtySlots := by
  simp only [BlockCache.dirtySlots, h.capacity, h.dirty]

lemma valid (h : SameHeld c c') (hc : c.Valid) (hhand : c'.hand < c.capacity) : c'.Valid where
  indexed := by
    intro block slot
    rw [h.index, h.capacity, h.names]
    exact hc.indexed block slot
  hand := h.capacity ▸ hhand
  named := by
    intro slot hslot
    rw [h.dirty, h.names]
    exact hc.named slot (h.capacity ▸ hslot)
  count := by
    rw [h.dirtyCount, h.dirtySlots]
    exact hc.count

end SameHeld

lemma setReferenced_same (slot : Nat) (referenced : Bool) :
    SameHeld c (c.setReferenced slot referenced) := by
  refine ⟨⟨rfl, rfl, fun i => ?_, fun i => ?_, rfl, rfl⟩, rfl⟩
  all_goals
    by_cases hi : i = slot
    · subst hi
      simp [setReferenced, setEntry]
    · simp [setReferenced, setEntry, hi]

lemma load_eq_none : c.load block = none ↔ c.find block = none := by
  simp [load, find]

lemma load_spec {v} (h : c.Valid) (hload : c.load block = some (c', v)) :
    SameHeld c c' ∧ c'.Valid ∧ ∃ kind, c.find block = some (kind, v) := by
  obtain ⟨slot, hslot, heq⟩ := map_eq_some_iff.mp hload
  cases heq
  refine ⟨setReferenced_same slot true, (setReferenced_same slot true).valid h h.hand,
    (c.entries slot).dirty, ?_⟩
  rw [find, hslot, map_some]

lemma contains_iff : c.contains block = true ↔ c.find block ≠ none := by
  simp [contains, find, isSome_iff_ne_none]

/-! ## The sweep -/

lemma turn_same (c : BlockCache β) : SameHeld c { c with hand := (c.hand + 1) % c.capacity } :=
  ⟨⟨rfl, rfl, fun _ => rfl, fun _ => rfl, rfl, rfl⟩, rfl⟩

lemma turn_valid (h : c.Valid) : ({ c with hand := (c.hand + 1) % c.capacity } : BlockCache β).Valid :=
  (turn_same c).valid h (Nat.mod_lt _ (Nat.zero_lt_of_lt h.hand))

lemma sweep_spec (n : Nat) (h : c.Valid) :
    SameHeld c (c.sweep n).1 ∧ (c.sweep n).1.Valid ∧
      ∀ slot ∈ (c.sweep n).2, slot < c.capacity ∧ (c.entries slot).dirty = none := by
  induction n generalizing c with
  | zero => exact ⟨.refl c, h, nofun⟩
  | succ n ih =>
    have hturn := turn_same c
    have hvalid := turn_valid h
    rw [sweep]
    split
    · obtain ⟨hsame, hv, hslot⟩ := ih hvalid
      exact ⟨hturn.trans hsame, hv, hslot⟩
    · rename_i hclean
      split
      · have hset := setReferenced_same (c := { c with hand := (c.hand + 1) % c.capacity }) c.hand false
        obtain ⟨hsame, hv, hslot⟩ := ih (hset.valid hvalid hvalid.hand)
        refine ⟨(hturn.trans hset).trans hsame, hv, fun slot hs => ?_⟩
        obtain ⟨hlt, hdirty⟩ := hslot slot hs
        exact ⟨hlt, (hset.dirty slot).symm.trans hdirty⟩
      · refine ⟨hturn, hvalid, fun slot hs => ?_⟩
        cases hs
        exact ⟨h.hand, by simpa using hclean⟩

def turns (capacity hand slot : Nat) : Nat :=
  if hand ≤ slot then slot - hand else slot + capacity - hand

/-- After a turn past another slot it is one turn less; past the slot itself it is a whole round. -/
lemma turns_turn {capacity hand} (hhand : hand < capacity) (hslot : slot < capacity) :
    turns capacity ((hand + 1) % capacity) slot + 1 =
      if hand = slot then capacity else turns capacity hand slot := by
  have hmod : (hand + 1) % capacity = if hand + 1 = capacity then 0 else hand + 1 := by
    split
    · rename_i heq
      rw [heq, Nat.mod_self]
    · exact Nat.mod_eq_of_lt (by omega)
  simp only [turns, hmod]
  split_ifs <;> omega

/-- A clean slot is found within two rounds: the first takes its reference bit, the second takes it. -/
lemma sweep_finds {n} (h : c.Valid) (hslot : slot < c.capacity)
    (hclean : (c.entries slot).dirty = none)
    (hn : turns c.capacity c.hand slot + (if (c.entries slot).referenced then c.capacity else 0) < n) :
    (c.sweep n).2.isSome := by
  induction n generalizing c with
  | zero => exact absurd hn (Nat.not_lt_zero _)
  | succ n ih =>
    have hturns := turns_turn h.hand hslot
    have hvalid := turn_valid h
    have hset := setReferenced_same (c := { c with hand := (c.hand + 1) % c.capacity }) c.hand false
    have hsetValid := hset.valid hvalid hvalid.hand
    rw [sweep]
    by_cases hhand : c.hand = slot
    · rw [if_pos hhand] at hturns
      simp only [hhand, hclean, isSome_none, Bool.false_eq_true, if_false]
      split
      · rename_i href
        rw [hhand] at hsetValid hset
        refine ih hsetValid hslot ((hset.dirty slot).trans hclean) ?_
        rw [if_pos href] at hn
        have hbit : ((({ c with hand := (slot + 1) % c.capacity } : BlockCache β).setReferenced
            slot false).entries slot).referenced = false := by
          simp [setReferenced, setEntry]
        rw [hbit, if_neg Bool.false_ne_true]
        change turns c.capacity ((slot + 1) % c.capacity) slot + 0 < n
        rw [hhand] at hturns
        omega
      · rfl
    · rw [if_neg hhand] at hturns
      split
      · refine ih hvalid hslot hclean ?_
        change turns c.capacity ((c.hand + 1) % c.capacity) slot +
          (if (c.entries slot).referenced then c.capacity else 0) < n
        omega
      · split
        · refine ih hsetValid hslot ((hset.dirty slot).trans hclean) ?_
          have hentry : (({ c with hand := (c.hand + 1) % c.capacity } : BlockCache β).setReferenced
              c.hand false).entries slot = c.entries slot := by
            simp [setReferenced, setEntry, Ne.symm hhand]
          rw [hentry]
          change turns c.capacity ((c.hand + 1) % c.capacity) slot +
            (if (c.entries slot).referenced then c.capacity else 0) < n
          omega
        · rfl

lemma exists_clean (h : c.Valid) (hroom : c.dirtyCount < c.capacity) :
    ∃ slot < c.capacity, (c.entries slot).dirty = none := by
  have hcard : c.dirtySlots.card < (Finset.range c.capacity).card := by
    rw [card_range, ← h.count]
    exact hroom
  obtain ⟨slot, hslot, hclean⟩ := exists_mem_notMem_of_card_lt_card hcard
  refine ⟨slot, mem_range.mp hslot, ?_⟩
  simpa [dirtySlots, mem_range.mp hslot] using hclean

lemma sweep_isSome (h : c.Valid) (hroom : c.dirtyCount < c.capacity) :
    (c.sweep (c.capacity * 2)).2.isSome := by
  obtain ⟨slot, hslot, hclean⟩ := exists_clean h hroom
  refine sweep_finds h hslot hclean ?_
  have hturns : turns c.capacity c.hand slot < c.capacity := by
    simp only [turns]
    split_ifs <;> omega
  split_ifs <;> omega

/-! ## Stores -/

/-- A slot is given to a block: the block named by the slot, if another, is no longer cached. -/
structure Claims (c c' : BlockCache β) (slot block : Nat) : Prop extends SameSlots c c' where
  slot_lt : slot < c.capacity
  index : ∀ b, c'.index.get? b = if b = block then some slot
    else if (c.entries slot).block = some b then none else c.index.get? b
  hand : c'.hand < c.capacity
  owner : c.index.get? block = some slot ∨
    c.index.get? block = none ∧ (c.entries slot).dirty = none

lemma Claims.cached (h : c.Valid) (hslot : c.index.get? block = some slot) :
    Claims c c slot block where
  toSameSlots := .refl
  slot_lt := ((h.indexed block slot).mp hslot).1
  index := by
    intro b
    by_cases hb : b = block
    · rw [if_pos hb, hb, hslot]
    · rw [if_neg hb, ((h.indexed block slot).mp hslot).2,
        if_neg (fun heq => hb (Option.some.inj heq).symm)]
  hand := h.hand
  owner := .inl hslot

lemma Claims.evicting (hsame : SameHeld c c') (hhand : c'.hand < c.capacity)
    (hblock : c.index.get? block = none) (hslot : slot < c.capacity)
    (hclean : (c.entries slot).dirty = none) : Claims c (c'.reindex slot block) slot block :=
  { hsame with
    slot_lt := hslot
    index := by
      intro b
      simp only [reindex, hsame.names, hsame.index, SortedMap.get?_insert]
      split
      · rfl
      · cases hold : (c.entries slot).block with
        | none => simp
        | some old =>
          simp only [SortedMap.get?_erase, Option.some.injEq, eq_comm]
    hand := hhand
    owner := .inr ⟨hblock, hclean⟩ }

/-- What a store does to what is held: it holds the stored block, clean blocks may have been evicted,
and dirty ones are as they were. -/
structure Stored (c c' : BlockCache β) (block : Nat) (source : β) (dirty : Option BlockKind) :
    Prop where
  here : c'.find block = some (dirty, source)
  others : ∀ b ≠ block, c'.find b = c.find b ∨ c'.find b = none ∧ c.dirtyAs b = none
  capacity : c'.capacity = c.capacity
  error : c'.error = c.error
  dirtyCount : c'.dirtyCount =
    c.dirtyCount + if dirty.isSome ∧ (c.dirtyAs block).isNone then 1 else 0

section Put

variable {c₁ : BlockCache β} (h : c.Valid) (hclaims : Claims c c₁ slot block)
include hclaims

lemma Claims.dirtyAs : c.dirtyAs block = (c.entries slot).dirty := by
  rw [dirtyAs_eq]
  rcases hclaims.owner with hslot | ⟨hnone, hclean⟩
  · rw [hslot]
    rfl
  · rw [hnone, hclean]
    rfl

include h

lemma Claims.put_stored : Stored c (c₁.put slot block source dirty) block source dirty :=
  { hclaims with
    here := by
      have hindex : (c₁.put slot block source dirty).index.get? block = some slot := by
        simp only [put, hclaims.index, if_true]
      rw [find, hindex]
      simp [put]
    others := by
      intro b hb
      have hindex : (c₁.put slot block source dirty).index.get? b =
          if (c.entries slot).block = some b then none else c.index.get? b := by
        simp only [put, hclaims.index, if_neg hb]
      by_cases hevicted : (c.entries slot).block = some b
      · -- the slot was another block's, so it is clean
        rw [if_pos hevicted] at hindex
        refine .inr ⟨by rw [find, hindex, map_none], ?_⟩
        have hslot := (h.indexed b slot).mpr ⟨hclaims.slot_lt, hevicted⟩
        rw [dirtyAs_eq, hslot]
        rcases hclaims.owner with hown | ⟨-, hclean⟩
        · have hnamed := ((h.indexed block slot).mp hown).2
          exact absurd (Option.some.inj (hevicted.symm.trans hnamed)) hb
        · exact hclean
      · rw [if_neg hevicted] at hindex
        left
        rw [find, find, hindex]
        cases hslot' : c.index.get? b with
        | none => rfl
        | some slot' =>
          have hne : slot' ≠ slot := by
            rintro rfl
            exact hevicted ((h.indexed b slot').mp hslot').2
          simp [put, hne, hclaims.dirty, hclaims.data]
    dirtyCount := by
      rw [hclaims.dirtyAs]
      simp only [put, hclaims.dirty, hclaims.dirtyCount]
      split <;> rfl }

lemma Claims.put_valid (hdirty : dirty = none → (c.entries slot).dirty = none) :
    (c₁.put slot block source dirty).Valid where
  indexed := by
    intro b s
    have hentry : ((c₁.put slot block source dirty).entries s).block =
        if s = slot then some block else (c.entries s).block := by
      by_cases hs : s = slot
      · simp [put, hs]
      · simp [put, hs, hclaims.names]
    have hindex : (c₁.put slot block source dirty).index.get? b = _ := hclaims.index b
    rw [hindex, hentry]
    change _ ↔ s < c₁.capacity ∧ _
    rw [hclaims.capacity]
    by_cases hb : b = block
    · subst hb
      rw [if_pos rfl]
      constructor
      · rintro heq
        cases heq
        exact ⟨hclaims.slot_lt, if_pos rfl⟩
      · rintro ⟨hs, hnamed⟩
        by_cases heq : s = slot
        · rw [heq]
        · rw [if_neg heq] at hnamed
          have hget := (h.indexed b s).mpr ⟨hs, hnamed⟩
          rcases hclaims.owner with hown | ⟨hnone, -⟩
          · exact hown.symm.trans hget
          · exact nomatch hnone.symm.trans hget
    · rw [if_neg hb]
      by_cases heq : s = slot
      · subst heq
        rw [if_pos rfl]
        constructor
        · intro hget
          split at hget
          · exact nomatch hget
          · rename_i hnamed
            exact absurd ((h.indexed b s).mp hget).2 hnamed
        · rintro ⟨-, hnamed⟩
          exact absurd (Option.some.inj hnamed).symm hb
      · rw [if_neg heq, ← h.indexed b s]
        split
        · rename_i hnamed
          have hget := (h.indexed b slot).mpr ⟨hclaims.slot_lt, hnamed⟩
          rw [hget]
          exact ⟨nofun, fun hs => absurd (Option.some.inj hs).symm heq⟩
        · rfl
  hand := by
    change c₁.hand < c₁.capacity
    rw [hclaims.capacity]
    exact hclaims.hand
  named := by
    intro s hs
    change s < c₁.capacity at hs
    rw [hclaims.capacity] at hs
    by_cases heq : s = slot
    · simp [put, heq]
    · simp only [put, Function.update_of_ne heq, hclaims.dirty, hclaims.names]
      exact h.named s hs
  count := by
    have hslots : (c₁.put slot block source dirty).dirtySlots =
        if dirty.isSome then insert slot c.dirtySlots else c.dirtySlots := by
      ext s
      by_cases heq : s = slot
      · subst heq
        cases dirty with
        | none => simp [dirtySlots, put, hdirty rfl]
        | some kind => simp [dirtySlots, put, hclaims.capacity, hclaims.slot_lt]
      · cases dirty <;> simp [dirtySlots, put, hclaims.capacity, hclaims.dirty, heq]
    have hmem : slot ∈ c.dirtySlots ↔ (c.entries slot).dirty.isSome := by
      simp [dirtySlots, hclaims.slot_lt]
    rw [hslots]
    simp only [put, hclaims.dirty, hclaims.dirtyCount, h.count]
    cases dirty with
    | none => rfl
    | some kind =>
      cases hold : (c.entries slot).dirty with
      | none =>
        have hnot : slot ∉ c.dirtySlots := by
          rw [hmem, hold]
          exact Bool.false_ne_true
        simp [card_insert_of_notMem hnot]
      | some old =>
        have hin : slot ∈ c.dirtySlots := by
          rw [hmem, hold]
          rfl
        simp [insert_eq_of_mem hin]

end Put

lemma slotFor_uncached (dirty : Option BlockKind) (h : c.Valid) (hblock : c.index.get? block = none)
    (hroom : c.dirtyCount < c.capacity) : ∃ c₁ slot, c.slotFor block dirty = (c₁, some slot) ∧
      Claims c c₁ slot block ∧ (c.entries slot).dirty = none := by
  obtain ⟨hsame, hvalid, hfound⟩ := sweep_spec (c.capacity * 2) h
  have hsome := sweep_isSome h hroom
  cases hsweep : c.sweep (c.capacity * 2) with
  | mk c₁ found =>
    rw [hsweep] at hsame hvalid hfound hsome
    obtain ⟨slot, rfl⟩ := isSome_iff_exists.mp hsome
    obtain ⟨hslot, hclean⟩ := hfound slot rfl
    refine ⟨c₁.reindex slot block, slot, ?_,
      .evicting hsame (hsame.capacity.symm ▸ hvalid.hand) hblock hslot hclean, hclean⟩
    simp [slotFor, hblock, hroom.ne, hsweep]

lemma store_dirty (source : β) (kind : BlockKind) (h : c.Valid)
    (hroom : c.dirtyAs block = none → c.dirtyCount < c.capacity) :
    ∃ c', c.store block source (some kind) = some c' ∧ c'.Valid ∧
      Stored c c' block source (some kind) := by
  cases hslot : c.index.get? block with
  | some slot =>
    have hclaims := Claims.cached h hslot
    refine ⟨c.put slot block source (some kind), ?_, hclaims.put_valid h nofun, hclaims.put_stored h⟩
    simp [store, slotFor, hslot]
  | none =>
    have hlt : c.dirtyCount < c.capacity := hroom (by rw [dirtyAs_eq, hslot]; rfl)
    obtain ⟨c₁, slot, hslotFor, hclaims, -⟩ := slotFor_uncached (some kind) h hslot hlt
    refine ⟨c₁.put slot block source (some kind), ?_, hclaims.put_valid h nofun, hclaims.put_stored h⟩
    rw [store, hslotFor]

lemma store_clean (block : Nat) (source : β) (h : c.Valid) :
    ∃ c', c.store block source none = some c' ∧ c'.Valid ∧
      (SameHeld c c' ∨ c.dirtyAs block = none ∧ Stored c c' block source none) := by
  cases hslot : c.index.get? block with
  | some slot =>
    have hclaims := Claims.cached h hslot
    by_cases hdirty : (c.entries slot).dirty.isSome
    · exact ⟨c, by simp [store, slotFor, hslot, hdirty], h, .inl (.refl c)⟩
    · have hclean : (c.entries slot).dirty = none := by simpa using hdirty
      refine ⟨c.put slot block source none, by simp [store, slotFor, hslot, hclean],
        hclaims.put_valid h fun _ => hclean, .inr ⟨?_, hclaims.put_stored h⟩⟩
      rw [hclaims.dirtyAs, hclean]
  | none =>
    by_cases hfull : c.dirtyCount = c.capacity
    · exact ⟨c, by simp [store, slotFor, hslot, hfull], h, .inl (.refl c)⟩
    · have hlt := lt_of_le_of_ne h.count_le hfull
      obtain ⟨c₁, slot, hslotFor, hclaims, hclean⟩ := slotFor_uncached none h hslot hlt
      refine ⟨c₁.put slot block source none, by rw [store, hslotFor],
        hclaims.put_valid h fun _ => hclean, .inr ⟨?_, hclaims.put_stored h⟩⟩
      rw [hclaims.dirtyAs, hclean]

lemma Stored.dirtyAs (h : Stored c c' block source dirty) {b} (hb : b ≠ block) :
    c'.dirtyAs b = c.dirtyAs b := by
  rcases h.others b hb with heq | ⟨hnone, hclean⟩
  · rw [BlockCache.dirtyAs, BlockCache.dirtyAs, heq]
  · rw [hclean, BlockCache.dirtyAs, hnone, bind_none]

lemma SameHeld.dirtyAs (h : SameHeld c c') (b : Nat) : c'.dirtyAs b = c.dirtyAs b := by
  rw [BlockCache.dirtyAs, BlockCache.dirtyAs, h.find]

/-! ## Runs -/

/-- Blocks are cached as they are: nothing that is dirty changes, and what is held are the contents
`a`. -/
structure Fetched (c c' : BlockCache β) (a : Nat → β) : Prop where
  valid : c'.Valid
  held : ∀ b kind v, c'.find b = some (kind, v) → v = a b
  dirtyAs : ∀ b, c'.dirtyAs b = c.dirtyAs b
  capacity : c'.capacity = c.capacity
  error : c'.error = c.error
  dirtyCount : c'.dirtyCount = c.dirtyCount

lemma SameHeld.fetched {a} (h : SameHeld c c') (hvalid : c'.Valid)
    (hheld : ∀ b kind v, c.find b = some (kind, v) → v = a b) : Fetched c c' a := by
  refine ⟨hvalid, ?_, h.dirtyAs, h.capacity, h.error, h.dirtyCount⟩
  simpa only [h.find] using hheld

lemma Fetched.trans {c'' a} (h : Fetched c c' a) (h' : Fetched c' c'' a) : Fetched c c'' a :=
  ⟨h'.valid, h'.held, fun b => (h'.dirtyAs b).trans (h.dirtyAs b), h'.capacity.trans h.capacity,
    h'.error.trans h.error, h'.dirtyCount.trans h.dirtyCount⟩

lemma storeRun_clean {a} (block : Nat) (frames : Nat → β) (l : List Nat) (h : c.Valid)
    (hheld : ∀ b kind v, c.find b = some (kind, v) → v = a b)
    (hframes : ∀ i ∈ l, frames i = a (block + i)) :
    ∃ c', storeRun block frames none l c = some c' ∧ Fetched c c' a := by
  induction l generalizing c with
  | nil => exact ⟨c, rfl, h, hheld, fun _ => rfl, rfl, rfl, rfl⟩
  | cons i l ih =>
    obtain ⟨c₁, hstore, hvalid, hcases⟩ := store_clean (block + i) (frames i) h
    have hfetched : Fetched c c₁ a := by
      rcases hcases with hsame | ⟨hclean, hstored⟩
      · exact hsame.fetched hvalid hheld
      · refine ⟨hvalid, fun b kind v hb => ?_, fun b => ?_, hstored.capacity, hstored.error,
          hstored.dirtyCount⟩
        · by_cases heq : b = block + i
          · subst heq
            cases hstored.here.symm.trans hb
            exact hframes i List.mem_cons_self
          · rcases hstored.others b heq with hsame | ⟨hnone, -⟩
            · exact hheld b kind v (hsame ▸ hb)
            · exact nomatch hnone.symm.trans hb
        · by_cases heq : b = block + i
          · rw [heq, hclean, dirtyAs_of_find hstored.here]
          · exact hstored.dirtyAs heq
    obtain ⟨c', hrest, hfetched'⟩ := ih hvalid hfetched.held
      fun j hj => hframes j (List.mem_cons_of_mem _ hj)
    exact ⟨c', by rw [storeRun, hstore, bind_some, hrest], hfetched.trans hfetched'⟩

lemma additional_eq (block count : Nat) : c.additional block count =
    ((List.range' block count).filter fun b => (c.dirtyAs b).isNone).length := by
  simp only [additional, dirtyAs_eq]

lemma additional_le (block count : Nat) : c.additional block count ≤ count :=
  (List.length_filter_le _ _).trans (List.length_range').le

lemma additional_succ (block count : Nat) : c.additional block (count + 1) =
    (if (c.dirtyAs block).isNone then 1 else 0) + c.additional (block + 1) count := by
  simp only [additional_eq, List.range'_succ, List.filter_cons]
  split
  · rw [List.length_cons, Nat.add_comm]
  · rw [Nat.zero_add]

/-- A run is written to the cache: it is dirty with the frames' contents, and every other dirty block is
as it was. -/
structure RunStored (c c' : BlockCache β) (block : Nat) (frames : Nat → β) (kind : BlockKind)
    (first count : Nat) : Prop where
  valid : c'.Valid
  inside : ∀ i, first ≤ i → i < first + count → c'.find (block + i) = some (some kind, frames i)
  outside : ∀ b, (∀ i, first ≤ i → i < first + count → b ≠ block + i) →
    c'.find b = c.find b ∨ c'.find b = none ∧ c.dirtyAs b = none
  capacity : c'.capacity = c.capacity
  error : c'.error = c.error

/-- A run is stored as a whole when there is room for it. A store may evict a clean block of the same
run, but the room counted for that block remains. -/
lemma storeRun_dirty (block : Nat) (frames : Nat → β) (kind : BlockKind) (first count : Nat) (h : c.Valid)
    (hroom : c.additional (block + first) count + c.dirtyCount ≤ c.capacity) :
    ∃ c', storeRun block frames (some kind) (List.range' first count) c = some c' ∧
      RunStored c c' block frames kind first count := by
  induction count generalizing c first with
  | zero =>
    refine ⟨c, rfl, h, fun i hle hlt => absurd hlt (by omega), fun _ _ => .inl rfl, rfl, rfl⟩
  | succ count ih =>
    rw [additional_succ] at hroom
    have hfree : c.dirtyAs (block + first) = none → c.dirtyCount < c.capacity := by
      intro hclean
      rw [hclean] at hroom
      simp only [isNone_none, if_true] at hroom
      omega
    obtain ⟨c₁, hstore, hvalid, hstored⟩ := store_dirty (frames first) kind h hfree
    have hadditional : c₁.additional (block + (first + 1)) count =
        c.additional (block + first + 1) count := by
      rw [additional_eq, additional_eq, Nat.add_assoc]
      congr 1
      refine List.filter_congr fun b hb => ?_
      rw [hstored.dirtyAs (by rw [List.mem_range'_1] at hb; omega)]
    have hcount := hstored.dirtyCount
    simp only [isSome_some, true_and] at hcount
    obtain ⟨c', hrest, hrun⟩ := ih (first + 1) hvalid (by
      rw [hadditional, hstored.capacity, hcount]
      omega)
    have hfirst : c₁.dirtyAs (block + first) = some kind := dirtyAs_of_find hstored.here
    refine ⟨c', by rw [List.range'_succ, storeRun, hstore, bind_some, hrest], hrun.valid,
      fun i hle hlt => ?_, fun b hb => ?_, hrun.capacity.trans hstored.capacity,
      hrun.error.trans hstored.error⟩
    · by_cases heq : i = first
      · subst heq
        rcases hrun.outside (block + i) (fun j hj _ => by omega) with hsame | ⟨-, hclean⟩
        · exact hsame.trans hstored.here
        · exact nomatch hfirst.symm.trans hclean
      · exact hrun.inside i (by omega) (by omega)
    · have hne : b ≠ block + first := hb first le_rfl (by omega)
      rcases hrun.outside b (fun j hj hlt => hb j (by omega) (by omega)) with hsame | ⟨hnone, hclean⟩
      · rcases hstored.others b hne with hsame' | ⟨hnone', hclean'⟩
        · exact .inl (hsame.trans hsame')
        · exact .inr ⟨hsame.trans hnone', hclean'⟩
      · exact .inr ⟨hnone, (hstored.dirtyAs hne).symm.trans hclean⟩

/-! ## Cleaning -/

lemma clean_find (b : Nat) : c.clean.find b = (c.find b).map fun held => (none, held.2) := by
  simp only [find, clean, Option.map_map]
  rfl

lemma clean_valid (h : c.Valid) : c.clean.Valid :=
  ⟨h.indexed, h.hand, nofun, by simp [clean, dirtySlots]⟩

lemma Valid.all_clean (h : c.Valid) (hcount : c.dirtyCount = 0) (b : Nat) : c.dirtyAs b = none := by
  rw [dirtyAs_eq]
  cases hslot : c.index.get? b with
  | none => rfl
  | some slot =>
    have hlt := ((h.indexed b slot).mp hslot).1
    have hempty := card_eq_zero.mp (h.count.symm.trans hcount)
    have hnot : slot ∉ c.dirtySlots := hempty ▸ notMem_empty slot
    simpa [dirtySlots, hlt] using hnot

end BlockCache

end Nanami.Ext2
