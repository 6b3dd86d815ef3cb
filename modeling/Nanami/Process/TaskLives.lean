import Nanami.Process.Tasks
import Nanami.Process.Births

/-!
# What the tables say about the tasks

The invariant of the tasks, and what a request can do to them: the same tasks stay in the table, one
leaves it, or one enters it. The owner of a memory stays as long as another task has it, and what
stands under the slot and the pid of a task is left alone by what is done to the others.
-/

namespace Nanami.Process
open Nanami.Lib Nanami.Memory List SortedMap ProcessManager

namespace Tasks

/-! ## The tables -/

def ownerOf (s : Tasks) (pid : Nat) : Option Nat :=
  (s.processes.findEntryByPid pid).map (·.memoryOwner)

/-- The owner of a task's memory, and its reaper. -/
def kinOf (s : Tasks) (pid : Nat) : Option (Nat × Nat) :=
  (s.processes.findEntryByPid pid).map fun e => (e.memoryOwner, e.reaperPid)

def HasPeer (s : Tasks) (pid : Nat) : Prop := ∃ q, q ≠ pid ∧ s.ownerOf q = some pid

def Placed (s : Tasks) (slot : Nat) : Prop :=
  slot ∈ s.usedRootSlots ∧ processRootSlotBase ≤ slot ∧ slot < processArenaDirectorySlots ∧
    s.arenasReady slot = true

def Built (s : Tasks) (pid : Nat) : Prop :=
  s.rootNodes (s.info pid).rootSlot = true ∧ s.arenasUsed (s.info pid).rootSlot = true

/-- What holds of the tasks, but for their enrolment. -/
structure Lives (s : Tasks) : Prop where
  keyed : ∀ e ∈ s.processes.entries.entries, e.2.pid = e.1
  /-- Alpha itself is no task, and its root slot is not one of theirs. -/
  alpha : 0 < s.processes.nextPid ∧ (s.info 0).rootSlot < processRootSlotBase
  given : ∀ {pid o}, s.ownerOf pid = some o → pid < s.processes.nextPid
  housed : ∀ {pid o}, s.ownerOf pid = some o → s.ownerOf o = some o
  placed : ∀ {pid o}, s.ownerOf pid = some o → pid ≠ 0 → s.Placed (s.info pid).rootSlot
  apart : ∀ {pid o q o'}, s.ownerOf pid = some o → s.ownerOf q = some o' →
    (s.info pid).rootSlot = (s.info q).rootSlot → pid = q
  agrees : ∀ {pid o o'}, s.ownerOf pid = some o → (pid, o') ∈ s.members → o' = o
  one : ∀ {pid o o'}, (pid, o) ∈ s.members → (pid, o') ∈ s.members → o' = o
  rooted : ∀ {pid o}, (pid, o) ∈ s.members → (o, o) ∈ s.members
  enrolledPast : ∀ {pid o}, (pid, o) ∈ s.members → pid < s.processes.nextPid
  reapedPast : ∀ {pid}, pid ∈ s.reaped → pid < s.processes.nextPid
  /-- The reaper of a task is older than the owner of its memory. -/
  reapers : ∀ {pid o r}, s.kinOf pid = some (o, r) → (r = 0 ∨ r < o) ∧ o ≤ pid
  /-- A task in the table has a root node, made from its arena. -/
  built : ∀ {pid o}, s.ownerOf pid = some o → pid ≠ 0 → pid ∉ s.broken → s.Built pid
  /-- A task that was reaped and is in the table waits for another one, or the reap of the last one
  failed. -/
  waits : ∀ {pid o}, pid ∈ s.reaped → s.ownerOf pid = some o →
    o = pid ∧ (s.info pid).deferredVmReap = true ∧
      (s.HasPeer pid ∨ ∃ q, (q, pid) ∈ s.members ∧ q ∉ s.reaped ∧ s.ownerOf q = none)

structure Inv (s : Tasks) : Prop extends Lives s where
  enrolled : ∀ {pid o}, s.ownerOf pid = some o → (pid, o) ∈ s.members

variable {s t u : Tasks} {pid q o slot : Nat}

lemma ownerOf_eq_some : s.ownerOf pid = some o ↔
    ∃ e, s.processes.findEntryByPid pid = some e ∧ e.memoryOwner = o := by
  rw [ownerOf, Option.map_eq_some_iff]

lemma ownerOf_of_find {e} (h : s.processes.findEntryByPid pid = some e) :
    s.ownerOf pid = some e.memoryOwner := by rw [ownerOf, h]; rfl

lemma ownerOf_eq_map : s.ownerOf pid = (s.kinOf pid).map Prod.fst := by
  rw [ownerOf, kinOf, Option.map_map]
  rfl

lemma ownerOf_of_kinOf (h : t.kinOf q = s.kinOf q) : t.ownerOf q = s.ownerOf q := by
  rw [ownerOf_eq_map, h, ownerOf_eq_map]

lemma kinOf_congr (h : t.processes.entries = s.processes.entries) : t.kinOf pid = s.kinOf pid := by
  rw [kinOf, kinOf, findEntryByPid, findEntryByPid, h]

lemma kinOf_alter {d} (h : t.processes.entries.get? q =
    if q = pid then d else s.processes.entries.get? q) :
    t.kinOf q = if q = pid then d.map (fun e => (e.memoryOwner, e.reaperPid)) else s.kinOf q := by
  rw [kinOf, findEntryByPid, h]
  split
  · rfl
  · rfl

lemma Lives.formed (L : Lives s) : s.processes.Formed := by
  have own : ∀ {e}, e ∈ s.processes.entries.entries → s.ownerOf e.1 = some e.2.memoryOwner := fun he =>
    ownerOf_of_find (get?_eq_some.mpr he)
  refine ⟨L.keyed, fun e he => ⟨L.given (own he), L.given (L.housed (own he))⟩, fun e he => ?_⟩
  obtain ⟨x, hx, ho⟩ := ownerOf_eq_some.mp (L.housed (own he))
  rw [memoryOwnerPid_of_some hx, ho]

lemma Lives.hasMemoryPeers (L : Lives s) (h : s.ownerOf pid = some pid) :
    s.processes.hasMemoryPeers pid = true ↔ s.HasPeer pid := by
  obtain ⟨e, he, hown⟩ := ownerOf_eq_some.mp h
  rw [ProcessManager.hasMemoryPeers, ProcessManager.memoryOwnerPid, he, any_eq_true]
  simp only [Option.elim, hown, Bool.and_eq_true, bne_iff_ne, beq_iff_eq]
  constructor
  · rintro ⟨x, hx, hne, hxo⟩
    rw [L.keyed x hx] at hne
    exact ⟨x.1, hne, ownerOf_eq_some.mpr ⟨x.2, SortedMap.get?_eq_some.mpr hx, hxo⟩⟩
  · rintro ⟨q, hne, hq⟩
    obtain ⟨x, hx, hxo⟩ := ownerOf_eq_some.mp hq
    have hmem := SortedMap.get?_eq_some.mp hx
    exact ⟨(q, x), hmem, L.keyed _ hmem ▸ hne, hxo⟩

/-! ## What a task holds -/

/-- What the kernel and the tables hold for a task. -/
structure Holdings where
  rootNode : Bool
  arena : Bool
  pageTables : List Nat
  active : List ProcessPhysicalAllocation
  deferred : List ProcessPhysicalAllocation
  deriving DecidableEq, Repr

def holdings (s : Tasks) (pid : Nat) : Holdings where
  rootNode := s.rootNodes (s.info pid).rootSlot
  arena := s.arenasUsed (s.info pid).rootSlot
  pageTables := s.pageTables (s.info pid).rootSlot
  active := s.processes.physicalAllocations.forPid pid
  deferred := s.processes.deferredPhysicalAllocations.forPid pid

lemma built_congr (h : t.holdings q = s.holdings q) : t.Built q ↔ s.Built q := by
  have hn : t.rootNodes (t.info q).rootSlot = s.rootNodes (s.info q).rootSlot :=
    congrArg Holdings.rootNode h
  have ha : t.arenasUsed (t.info q).rootSlot = s.arenasUsed (s.info q).rootSlot :=
    congrArg Holdings.arena h
  rw [Built, Built, hn, ha]

/-- Who stays in the table keeps what it holds, unless its teardown has failed. -/
def Spares (s t : Tasks) : Prop :=
  ∀ q o, s.ownerOf q = some o → t.ownerOf q = some o → q ∉ t.broken → t.holdings q = s.holdings q

/-- The accounts of Alpha's memory are in order. -/
def Accounted (s : Tasks) : Prop := s.alpha.Funds s.alpha.refs ∧ s.processes.Known

lemma Lives.inv (L : Lives s) (A : s.Accounted) : Alpha.Inv s.alpha.roster s.alpha [] :=
  ⟨A.1, L.formed, A.2, rfl⟩

/-! ## What a request can do to the tasks -/

/-- The same tasks are in the table, and each has its root node still, unless its teardown has
failed. -/
structure Stays (s t : Tasks) : Prop where
  keyed : ∀ e ∈ t.processes.entries.entries, e.2.pid = e.1
  kin : ∀ q, t.kinOf q = s.kinOf q
  next : s.processes.nextPid ≤ t.processes.nextPid
  alpha : (t.info 0).rootSlot = (s.info 0).rootSlot
  slots : ∀ q o, s.ownerOf q = some o → (t.info q).rootSlot = (s.info q).rootSlot
  deferred : ∀ q o, s.ownerOf q = some o → (s.info q).deferredVmReap = true →
    (t.info q).deferredVmReap = true
  used : s.usedRootSlots ⊆ t.usedRootSlots
  arenas : ∀ slot, s.arenasReady slot = true → t.arenasReady slot = true
  members : t.members = s.members
  reaped : t.reaped = s.reaped
  broken : s.broken ⊆ t.broken
  built : ∀ q o, s.ownerOf q = some o → q ∉ t.broken → s.Built q → t.Built q

lemma Stays.owners (S : Stays s t) (q : Nat) : t.ownerOf q = s.ownerOf q := ownerOf_of_kinOf (S.kin q)

lemma Placed.mono {slot} (h : s.Placed slot) (hu : slot ∈ s.usedRootSlots → slot ∈ t.usedRootSlots)
    (ha : s.arenasReady slot = true → t.arenasReady slot = true) : t.Placed slot :=
  ⟨hu h.1, h.2.1, h.2.2.1, ha h.2.2.2⟩

lemma Lives.stays (L : Lives s) (S : Stays s t) : Lives t := by
  have own : ∀ {p o}, t.ownerOf p = some o → s.ownerOf p = some o := fun h => S.owners _ ▸ h
  refine ⟨S.keyed, ⟨L.alpha.1.trans_le S.next, S.alpha ▸ L.alpha.2⟩,
    fun h => (L.given (own h)).trans_le S.next,
    fun h => (S.owners _).trans (L.housed (own h)), fun {p o} h hp => ?_, fun {p o q o'} h h' he => ?_,
    fun h => S.members ▸ L.agrees (own h), S.members ▸ L.one, S.members ▸ L.rooted,
    fun h => (L.enrolledPast (S.members ▸ h)).trans_le S.next,
    fun h => (L.reapedPast (S.reaped ▸ h)).trans_le S.next, fun h => L.reapers (S.kin _ ▸ h),
    fun h h0 hb => S.built _ _ (own h) hb (L.built (own h) h0 fun h => hb (S.broken h)),
    fun {p o} h ho => ?_⟩
  · rw [S.slots p o (own h)]
    exact (L.placed (own h) hp).mono (fun hu => S.used hu) (S.arenas _)
  · rw [S.slots p o (own h), S.slots q o' (own h')] at he
    exact L.apart (own h) (own h') he
  · rw [S.reaped] at h
    obtain ⟨rfl, hd, hw⟩ := L.waits h (own ho)
    refine ⟨rfl, S.deferred _ _ (own ho) hd, hw.imp ?_ ?_⟩
    · rintro ⟨q, hq, hqo⟩
      exact ⟨q, hq, (S.owners q).trans hqo⟩
    · rintro ⟨q, hq, hqr, hqo⟩
      exact ⟨q, S.members ▸ hq, S.reaped ▸ hqr, (S.owners q).trans hqo⟩

/-- What stands under the pid and the root slot of one task may change, and nothing else. -/
structure Frame (pid slot : Nat) (s t : Tasks) : Prop where
  keyed : (∀ e ∈ s.processes.entries.entries, e.2.pid = e.1) →
    ∀ e ∈ t.processes.entries.entries, e.2.pid = e.1
  kin : ∀ q ≠ pid, t.kinOf q = s.kinOf q
  next : s.processes.nextPid ≤ t.processes.nextPid
  info : ∀ q ≠ pid, t.info q = s.info q
  used : ∀ x ∈ s.usedRootSlots, x ≠ slot → x ∈ t.usedRootSlots
  arenas : ∀ x, s.arenasReady x = true → t.arenasReady x = true
  members : t.members = s.members
  reaped : t.reaped = s.reaped
  broken : s.broken ⊆ t.broken
  holdings : ∀ q ≠ pid, (s.info q).rootSlot ≠ slot → t.holdings q = s.holdings q

namespace Frame

variable (F : Frame pid slot s t)
include F

lemma trans (G : Frame pid slot t u) : Frame pid slot s u where
  keyed h := G.keyed (F.keyed h)
  kin q hq := (G.kin q hq).trans (F.kin q hq)
  next := F.next.trans G.next
  info q hq := (G.info q hq).trans (F.info q hq)
  used x hx hne := G.used x (F.used x hx hne) hne
  arenas x hx := G.arenas x (F.arenas x hx)
  members := G.members.trans F.members
  reaped := G.reaped.trans F.reaped
  broken := List.Subset.trans F.broken G.broken
  holdings q hq hs := (G.holdings q hq (by rwa [F.info q hq])).trans (F.holdings q hq hs)

lemma owners (hq : q ≠ pid) : t.ownerOf q = s.ownerOf q := ownerOf_of_kinOf (F.kin q hq)

variable (L : Lives s) (h : s.ownerOf q = some o) (h0 : q ≠ 0) (hq : q ≠ pid)
  (hs : (s.info q).rootSlot ≠ slot)
include L h h0 hq hs

lemma keepsPlaced : t.Placed (t.info q).rootSlot := by
  rw [F.info q hq]
  exact (L.placed h h0).mono (fun hu => F.used _ hu hs) (F.arenas _)

lemma keepsBuilt (hb : q ∉ t.broken) : t.Built q :=
  (built_congr (F.holdings q hq hs)).mpr (L.built h h0 fun h => hb (F.broken h))

end Frame

/-- A task leaves the table; nobody else has its memory. -/
structure Leaves (pid : Nat) (s t : Tasks) : Prop extends Frame pid (s.info pid).rootSlot s t where
  task : pid ≠ 0
  gone : t.ownerOf pid = none

lemma Leaves.own (S : Leaves pid s t) (h : t.ownerOf q = some o) : q ≠ pid ∧ s.ownerOf q = some o := by
  have hq : q ≠ pid := by
    rintro rfl
    cases S.gone.symm.trans h
  exact ⟨hq, (S.owners hq).symm.trans h⟩

lemma Lives.leaves (L : Lives s) (S : Leaves pid s t) (hin : s.ownerOf pid = some o)
    (hen : (pid, o) ∈ s.members) (halone : ¬s.HasPeer pid) : Lives t := by
  have hslot : ∀ {q o}, t.ownerOf q = some o → (s.info q).rootSlot ≠ (s.info pid).rootSlot :=
    fun h he => (S.own h).1 (L.apart (S.own h).2 hin he)
  refine ⟨S.keyed L.keyed, ⟨L.alpha.1.trans_le S.next, ?_⟩, fun h => (L.given (S.own h).2).trans_le S.next,
    fun {p o} h => ?_, fun h hp => S.keepsPlaced L (S.own h).2 hp (S.own h).1 (hslot h),
    fun {p o q o'} h h' he => ?_, fun h => S.members ▸ L.agrees (S.own h).2, S.members ▸ L.one,
    S.members ▸ L.rooted, fun h => (L.enrolledPast (S.members ▸ h)).trans_le S.next,
    fun h => (L.reapedPast (S.reaped ▸ h)).trans_le S.next, fun {p o r} h => ?_,
    fun h h0 hb => S.keepsBuilt L (S.own h).2 h0 (S.own h).1 (hslot h) hb, fun {p o} h ho => ?_⟩
  · rw [S.info 0 S.task.symm]
    exact L.alpha.2
  · have ho : o ≠ pid := by
      rintro rfl
      exact halone ⟨p, (S.own h).1, (S.own h).2⟩
    rw [S.owners ho, L.housed (S.own h).2]
  · rw [S.info p (S.own h).1, S.info q (S.own h').1] at he
    exact L.apart (S.own h).2 (S.own h').2 he
  · have hown : t.ownerOf p = some o := by rw [ownerOf_eq_map, h]; rfl
    rw [S.kin p (S.own hown).1] at h
    exact L.reapers h
  · rw [S.reaped] at h
    obtain ⟨hne, hso⟩ := S.own ho
    obtain ⟨rfl, hd, hw⟩ := L.waits h hso
    refine ⟨rfl, (S.info o hne).symm ▸ hd, ?_⟩
    rw [S.members, S.reaped]
    rcases hw with ⟨q, hq, hqo⟩ | ⟨q, hq, hqr, hqo⟩
    · by_cases hqp : q = pid
      · -- the task that leaves was not reaped: it has another owner
        subst hqp
        refine .inr ⟨q, ?_, fun hr => ?_, S.gone⟩
        · rwa [Option.some.inj (hqo.symm.trans hin)]
        · exact hq (L.waits hr hqo).1.symm
      · exact .inl ⟨q, hq, (S.owners hqp).trans hqo⟩
    · refine .inr ⟨q, hq, hqr, ?_⟩
      by_cases hqp : q = pid
      · rw [hqp, S.gone]
      · exact (S.owners hqp).trans hqo

/-- A new task enters the table, with a memory of its own or that of an owner in the table. -/
structure Enters (pid owner reaper slot : Nat) (s t : Tasks) : Prop extends Frame pid slot s t where
  entry : t.kinOf pid = some (owner, reaper)
  home : owner = pid ∨ s.ownerOf owner = some owner
  older : reaper < owner
  fresh : pid = s.processes.nextPid
  past : pid < t.processes.nextPid
  given : (t.info pid).rootSlot = slot
  vacant : slot ∉ s.usedRootSlots
  placed : t.Placed slot
  made : pid ∉ t.broken → t.Built pid

variable {owner reaper : Nat}

lemma Enters.own (S : Enters pid owner reaper slot s t) (h : t.ownerOf q = some o) :
    q = pid ∧ o = owner ∨ q ≠ pid ∧ s.ownerOf q = some o := by
  by_cases hq : q = pid
  · subst hq
    rw [ownerOf_eq_map, S.entry] at h
    exact .inl ⟨rfl, (Option.some.inj h).symm⟩
  · exact .inr ⟨hq, (S.owners hq).symm.trans h⟩

lemma Enters.old (S : Enters pid owner reaper slot s t) (h : q < s.processes.nextPid) :
    q ≠ pid ∧ t.ownerOf q = s.ownerOf q := by
  have hne : q ≠ pid := S.fresh ▸ h.ne
  exact ⟨hne, S.owners hne⟩

lemma Lives.vacant (L : Lives s) (hbase : processRootSlotBase ≤ slot) (hvacant : slot ∉ s.usedRootSlots)
    (h : s.ownerOf q = some o) : (s.info q).rootSlot ≠ slot := by
  rintro rfl
  by_cases hq : q = 0
  · exact absurd hbase (not_le.mpr (hq ▸ L.alpha.2))
  · exact hvacant (L.placed h hq).1

lemma Lives.enters (L : Lives s) (S : Enters pid owner reaper slot s t) : Lives t := by
  have old : ∀ {q o}, s.ownerOf q = some o → t.ownerOf q = some o := fun h => (S.old (L.given h)).2.trans h
  have hslot : ∀ {q o}, s.ownerOf q = some o → (s.info q).rootSlot ≠ slot :=
    L.vacant S.placed.2.1 S.vacant
  refine ⟨S.keyed L.keyed, ⟨L.alpha.1.trans_le S.next, ?_⟩, fun {p o} h => ?_, fun {p o} h => ?_,
    fun {p o} h hp => ?_, fun {p o q o'} h h' he => ?_, fun {p o o'} h hm => ?_, S.members ▸ L.one,
    S.members ▸ L.rooted, fun h => (L.enrolledPast (S.members ▸ h)).trans_le S.next,
    fun h => (L.reapedPast (S.reaped ▸ h)).trans_le S.next, fun {p o r} h => ?_, fun {p o} h h0 hb => ?_,
    fun {p o} h ho => ?_⟩
  · rw [S.info 0 (S.fresh ▸ L.alpha.1.ne)]
    exact L.alpha.2
  · rcases S.own h with ⟨rfl, -⟩ | ⟨-, h⟩
    · exact S.past
    · exact (L.given h).trans_le S.next
  · rcases S.own h with ⟨rfl, rfl⟩ | ⟨-, h'⟩
    · rcases S.home with rfl | hown
      · exact h
      · exact old hown
    · exact old (L.housed h')
  · rcases S.own h with ⟨rfl, -⟩ | ⟨hne, h⟩
    · rw [S.given]
      exact S.placed
    · exact S.keepsPlaced L h hp hne (hslot h)
  · rcases S.own h with ⟨rfl, -⟩ | ⟨hp, h⟩ <;> rcases S.own h' with ⟨rfl, -⟩ | ⟨hq, h'⟩
    · rfl
    · rw [S.given, S.info q hq] at he
      exact absurd he.symm (hslot h')
    · rw [S.given, S.info p hp] at he
      exact absurd he (hslot h)
    · rw [S.info p hp, S.info q hq] at he
      exact L.apart h h' he
  · rw [S.members] at hm
    rcases S.own h with ⟨rfl, -⟩ | ⟨-, h⟩
    · exact absurd rfl (S.old (L.enrolledPast hm)).1
    · exact L.agrees h hm
  · by_cases hp : p = pid
    · subst hp
      obtain ⟨rfl, rfl⟩ := Prod.mk.inj (Option.some.inj (S.entry.symm.trans h))
      refine ⟨.inr S.older, ?_⟩
      rcases S.home with rfl | hown
      · exact le_rfl
      · rw [S.fresh]
        exact (L.given hown).le
    · exact L.reapers (S.kin p hp ▸ h)
  · rcases S.own h with ⟨rfl, -⟩ | ⟨hne, h⟩
    · exact S.made hb
    · exact S.keepsBuilt L h h0 hne (hslot h) hb
  · rw [S.reaped] at h
    obtain ⟨hne, hown⟩ := S.old (L.reapedPast h)
    obtain ⟨rfl, hd, hw⟩ := L.waits h (hown ▸ ho)
    refine ⟨rfl, (S.info _ hne).symm ▸ hd, hw.imp ?_ ?_⟩
    · rintro ⟨q, hq, hqo⟩
      exact ⟨q, hq, old hqo⟩
    · rintro ⟨q, hq, hqr, hqo⟩
      exact ⟨q, S.members ▸ hq, S.reaped ▸ hqr, (S.old (L.enrolledPast hq)).2.trans hqo⟩

/-- A task is remembered as reaped, and whoever waited for it waits for another one. -/
lemma Lives.reap (L : Lives s) (hpast : pid < s.processes.nextPid)
    (hin : ∀ o, s.ownerOf pid = some o → o = pid ∧ (s.info pid).deferredVmReap = true ∧ s.HasPeer pid)
    (hother : ∀ q, (pid, q) ∈ s.members → q ∈ s.reaped → s.ownerOf q = some q → s.HasPeer q) :
    Lives { s with reaped := pid :: s.reaped } := by
  refine { L with
    reapedPast := fun h => ?_
    waits := fun {p o} h ho => ?_ }
  · rcases mem_cons.mp h with rfl | h
    · exact hpast
    · exact L.reapedPast h
  · rcases mem_cons.mp h with rfl | hr
    · obtain ⟨rfl, hd, hpeer⟩ := hin o ho
      exact ⟨rfl, hd, .inl hpeer⟩
    · obtain ⟨rfl, hd, hpeer | ⟨q, hq, hqr, hqo⟩⟩ := L.waits hr ho
      · exact ⟨rfl, hd, .inl hpeer⟩
      · refine ⟨rfl, hd, ?_⟩
        by_cases hqp : q = pid
        · subst hqp
          exact .inl (hother _ hq hr ho)
        · exact .inr ⟨q, hq, fun hmem => (mem_cons.mp hmem).elim hqp hqr, hqo⟩

lemma Lives.enrol (L : Lives s) : Inv s.enrol := by
  have mem : ∀ {p o}, (p, o) ∈ s.enrol.members ↔ s.ownerOf p = some o ∨ (p, o) ∈ s.members := by
    intro p o
    rw [Tasks.enrol, mem_append, mem_map]
    refine or_congr_left ⟨?_, ?_⟩
    · rintro ⟨e, he, heq⟩
      obtain ⟨rfl, rfl⟩ := Prod.mk.inj heq
      exact ownerOf_eq_some.mpr ⟨e.2, SortedMap.get?_eq_some.mpr he, rfl⟩
    · intro h
      obtain ⟨e, he, rfl⟩ := ownerOf_eq_some.mp h
      exact ⟨(p, e), SortedMap.get?_eq_some.mp he, rfl⟩
  refine { L with
    agrees := fun {p o o'} h hm => ?_
    one := fun {p o o'} h hm => ?_
    rooted := fun {p o} h => ?_
    enrolledPast := fun {p o} h => ?_
    waits := fun {p o} h ho => ?_
    enrolled := fun {p o} h => mem.mpr (.inl h) }
  · rcases mem.mp hm with h' | h'
    · exact Option.some.inj (h'.symm.trans h)
    · exact L.agrees h h'
  · rcases mem.mp h with h | h <;> rcases mem.mp hm with h' | h'
    · exact Option.some.inj (h'.symm.trans h)
    · exact L.agrees h h'
    · exact (L.agrees h' h).symm
    · exact L.one h h'
  · exact mem.mpr ((mem.mp h).imp L.housed L.rooted)
  · exact (mem.mp h).elim L.given L.enrolledPast
  · obtain ⟨rfl, hd, hw⟩ := L.waits h ho
    refine ⟨rfl, hd, hw.imp_right ?_⟩
    rintro ⟨q, hq, hqr, hqo⟩
    exact ⟨q, mem.mpr (.inr hq), hqr, hqo⟩

end Tasks

end Nanami.Process
