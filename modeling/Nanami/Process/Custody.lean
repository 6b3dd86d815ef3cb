import Nanami.Process.TaskGroups

/-!
# Custody of physical memory

Runs of the tasks, from a boot on. In a run whose requests meet `Proper` a page is handed back only when
nothing refers to it, and once for each time it was allocated; a run with one request that does not
meet it may hand back memory that is in use. The reap of a memory's owner hands back what only the
owner referred to exactly when no reference was counted apart from the others.
-/

namespace Nanami.Process
open Nanami.Lib Nanami.Memory List PhysicalAllocations ProcessManager MemoryManager SortedMap

/-! ## Requests about memory -/

namespace Alpha

variable {s t : Alpha} {R : SortedMap Nat ProcessEntry × Nat} {pid : Nat} {p : ProcessManager}

/-- What a request about memory does not check and needs: nothing in the other table refers to what it
gives up. -/
def Proper (s : Alpha) : Request → Prop
  | .mappingRelease caller arg0 arg1 arg2 _ _ _ =>
    ∀ r, s.processes.sharedMemoryReservation (releaseTarget caller arg2) arg0
      (alignUp arg1 / pageSize) = some r →
      Sole s.processes (releaseTarget caller arg2) r.baseVa r.pageCount
  | .mapPages pid place n _ _ _ _ => ∀ v, place = some v → Remappable s.processes pid v.1 n
  | _ => True

lemma tryHandleDemandPageFault_spec {va slot copied mapped} (I : Inv R s []) :
    ends (tryHandleDemandPageFault pid va slot copied mapped) (fun t => Inv R t []) s := by
  refine wp_guard I fun _ => wp_lookup I fun e he => ?_
  refine ends_mono (materializeLazyPage_spec I ?_) fun _ h => h.1
  rw [memoryOwnerPid_of_some he]
  exact (I.formed.fresh _ (get?_eq_some.mp he)).2

/-- A proper request keeps the accounts in order and the tasks as they are, whatever it returns. -/
lemma step_inv (I : Inv R s []) {r} (h : s.Proper r) : Inv R (s.step r) [] := by
  cases r with
  | sessionBuffer pages =>
    refine stateAfter_of_wp (P := fun t => Inv R t []) ?_
    exact wp_mono (allocatePhysicalAny_spec I) (fun _ _ h => h.1.subset (nil_subset _)) (fun _ _ h => h ▸ I)
  | dma pid bytes place installed => exact stateAfter_of_wp (handleDmaRequest_spec I)
  | pageFault pid va slot copied mapped => exact stateAfter_of_wp (tryHandleDemandPageFault_spec I)
  | sharedMemory pid peer bytes place peerPlace installed removed =>
    exact stateAfter_of_wp (handleSharedMemoryRequest_spec I)
  | mappingShare pid peer va bytes peerVa place present vacant installed removed =>
    exact stateAfter_of_wp (handleMappingShareRequest_spec I)
  | mappingRelease caller arg0 arg1 arg2 arg3 framed unmapped =>
    exact (stateAfter_of_wp (handleMappingReleaseRequest_spec I h)).1
  | mapPages pid place n chunks answers framed unmapped =>
    refine stateAfter_of_wp (P := fun t => Inv R t []) ?_
    exact wp_mono (mapProcessInitializedPages_spec I h) (fun _ _ h => h.1) fun _ _ h => h.1

/-- A page that is referred to was allocated once more than it was handed back, and no page is
handed back more often than it is allocated, nor allocated before it is handed back. -/
structure Safe (s : Alpha) : Prop where
  referred : ∀ r ∈ s.refs, ∀ x ∈ pagesOf r, cover s.handed x < cover s.allocated x
  once : ∀ x, cover s.handed x ≤ cover s.allocated x ∧ cover s.allocated x ≤ cover s.handed x + 1

def violated (s : Alpha) : Bool :=
  (s.refs.any fun r => r.2 != 0 && decide (cover s.allocated r.1 ≤ cover s.handed r.1)) ||
    s.handed.any fun r => decide (cover s.allocated r.1 < cover s.handed r.1)

lemma not_safe_of_violated (h : violated s = true) : ¬Safe s := by
  intro S
  rcases Bool.or_eq_true_iff.mp h with h | h
  · obtain ⟨r, hr, hx⟩ := any_eq_true.mp h
    simp only [Bool.and_eq_true, bne_iff_ne, ne_eq, decide_eq_true_eq] at hx
    have := S.referred r hr r.1 ⟨Nat.le_refl _, Nat.lt_add_of_pos_right (Nat.pos_of_ne_zero hx.1)⟩
    omega
  · obtain ⟨r, _, hx⟩ := any_eq_true.mp h
    have h1 := (S.once r.1).1
    have h2 : cover s.allocated r.1 < cover s.handed r.1 := by simpa using hx
    omega

/-! ## What a reap hands back -/

def OwnedBy (p : ProcessManager) (pid : Nat) (k : Nat × Nat) : Prop :=
  (∃ e ∈ p.physicalAllocations.entries ++ p.deferredPhysicalAllocations.entries, e.2.key = k) ∧
  ∀ e ∈ p.physicalAllocations.entries ++ p.deferredPhysicalAllocations.entries, e.2.key = k → e.1 = pid

instance {p : ProcessManager} {pid : Nat} {k : Nat × Nat} : Decidable (OwnedBy p pid k) :=
  inferInstanceAs (Decidable (_ ∧ _))

def CountedOnce (p : ProcessManager) (pid : Nat) : Prop :=
  ∀ k, OwnedBy p pid k → p.physicalAllocations.keys.count k = 1 ∨
    p.physicalAllocations.keys.count k = 0 ∧ p.deferredPhysicalAllocations.keys.count k = 1

lemma mem_handedByReap {k} :
    k ∈ handedByReap p pid ↔
      (∃ a ∈ p.releasablePhysicalAllocationsForPid pid, a.key = k) ∨
      ∃ a ∈ p.releasableDeferredPhysicalAllocationsForPid pid, a.key = k := by
  rw [handedByReap, map_append, mem_append, mem_map, mem_map]

lemma nodup_handedByReap : (handedByReap p pid).Nodup := by
  rw [handedByReap, map_append, nodup_append]
  refine ⟨nodup_releasable, nodup_releasableDeferred, ?_⟩
  rintro k hk _ hk' rfl
  obtain ⟨a, ha, rfl⟩ := mem_map.mp hk
  obtain ⟨b, hb, hkey⟩ := mem_map.mp hk'
  refine (releasableDeferred_alone hb).1 (hkey ▸ ?_)
  exact key_mem (mem_releasable.mp ha).1

lemma only_of_count_one {t : PhysicalAllocations} {a} (h : (pid, a) ∈ t.entries)
    (hc : t.count a = 1) : ∀ e ∈ t.entries, e.2.key = a.key → e.1 = pid := by
  intro e he hk
  by_contra hne
  exact not_mem_removePid h hc
    (mem_keys_removePid.mpr ⟨e.1, e.2, he, hk, hne⟩)

/-- A reap hands back the extents of the process alone when it counts them as such. -/
lemma mem_handedByReap_iff_ownedBy :
    (∀ k, k ∈ handedByReap p pid ↔ OwnedBy p pid k) ↔ Reapable p pid ∧ CountedOnce p pid := by
  constructor
  · refine fun h => ⟨fun a ha hc e he hk => ?_, fun k hk => ?_⟩
    · have hmem := mem_releasable.mpr ⟨mem_forPid.mp ha, hc⟩
      exact ((h a.key).mp (mem_handedByReap.mpr (.inl ⟨a, hmem, rfl⟩))).2 e
        (mem_append_right _ he) hk
    · rcases mem_handedByReap.mp ((h k).mpr hk) with ⟨a, ha, rfl⟩ | ⟨a, ha, rfl⟩
      · rw [← count_eq]
        exact .inl (mem_releasable.mp ha).2
      · obtain ⟨h1, h2⟩ := releasableDeferred_alone ha
        rw [count_eq] at h2
        exact .inr ⟨count_eq_zero.mpr h1, h2⟩
  · rintro ⟨hreap, honce⟩ k
    constructor
    · intro hk
      rcases mem_handedByReap.mp hk with ⟨a, ha, rfl⟩ | ⟨a, ha, rfl⟩
      · obtain ⟨hmem, hc⟩ := mem_releasable.mp ha
        refine ⟨⟨_, mem_append_left _ hmem, rfl⟩, fun e he hk => ?_⟩
        rcases mem_append.mp he with he | he
        · exact only_of_count_one hmem hc e he hk
        · exact hreap a (mem_forPid.mpr hmem) hc e he hk
      · obtain ⟨h1, h2⟩ := releasableDeferred_alone ha
        have hmem := (mem_releasableDeferred.mp ha).1
        refine ⟨⟨_, mem_append_right _ hmem, rfl⟩, fun e he hk => ?_⟩
        rcases mem_append.mp he with he | he
        · have hkey : e.2.key ∈ _ := key_mem he
          exact absurd (hk ▸ hkey) h1
        · exact only_of_count_one hmem h2 e he hk
    · intro hk
      rw [mem_handedByReap]
      rcases honce k hk with hc | ⟨h0, hc⟩
      · obtain ⟨q, a, ha, rfl⟩ := mem_keys.mp
          (count_pos_iff.mp (by rw [hc]; exact zero_lt_one))
        obtain rfl := hk.2 _ (mem_append_left _ ha) rfl
        exact .inl ⟨a, mem_releasable.mpr ⟨ha, count_eq.trans hc⟩, rfl⟩
      · obtain ⟨q, a, ha, rfl⟩ := mem_keys.mp
          (count_pos_iff.mp (by rw [hc]; exact zero_lt_one))
        obtain rfl := hk.2 _ (mem_append_right _ ha) rfl
        refine .inr ⟨a, mem_releasableDeferred.mpr ⟨ha, ?_⟩, rfl⟩
        rw [count_eq, count_eq, h0, hc]

end Alpha

namespace Tasks

variable {s t : Tasks} {pid caller owner : Nat} {k : TearDownAnswers} {event : Event}

/-! ## Runs -/

/-- What an event does not check and needs of the references. A request that is not modelled leaves them
and the memory alone. -/
def Proper (s : Tasks) : Event → Prop
  | .exec _ target _ _ _ _ => Alpha.Execable s.processes target
  | .reap callerPid pid k _ => s.ReapsProper callerPid pid k
  | .request r => s.alpha.Proper r
  | .memory request => (withMemoryOf (request s) s).alpha = s.alpha
  | _ => True

def ProperRun : Tasks → List Event → Prop
  | _, [] => True
  | s, event :: rest => s.Proper event ∧ ProperRun (s.step event) rest

lemma withMemoryOf_alpha (h : t.alpha.roster = s.alpha.roster) : (withMemoryOf t s).alpha = t.alpha := by
  obtain ⟨hentries, hnext⟩ := Prod.mk.inj h
  show { t.alpha with processes :=
    { t.alpha.processes with
      entries := s.alpha.processes.entries, nextPid := s.alpha.processes.nextPid } } = _
  rw [← hentries, ← hnext]

lemma Accounted.of_alpha (A : s.Accounted) (h : t.alpha = s.alpha) : t.Accounted := by
  rw [Accounted, processes, h]
  exact A

/-- A proper event keeps the accounts in order, whatever it returns. -/
lemma step_accounted (I : Inv s) (A : s.Accounted) (h : s.Proper event) : (s.step event).Accounted := by
  have L := I.toLives
  cases event with
  | spawn caller pages k => exact (stateAfter_of_wp (handleProcessSpawnRequest_spec L)).accounts A
  | rawTask caller source sharedVm clones accepted k =>
    exact (stateAfter_of_wp (handleRawTaskCreate_spec L)).accounts A
  | kill caller pid suspended => exact (stateAfter_of_wp (handleProcessKillRequest_spec L)).accounts A
  | exit pid suspended quarantined => exact (stateAfter_of_wp (handleExitRequest_spec L)).accounts A
  | quarantine pid => exact (stateAfter_of_wp (quarantineResources_spec L)).accounts A
  | exec caller target readable invalidated recreated table =>
    exact (stateAfter_of_wp (handleProcessExecMemoryRequest_spec L)).2 h A
  | reap caller pid k k' =>
    show ((afterReap caller pid k k' s).enrol).Accounted
    rw [afterReap]
    cases hrun : handleProcessReapRequest caller pid k k' s with
    | ok a t => exact (wp_ok (handleProcessReapRequest_spec I) hrun).2 h A
    | error e t => exact (wp_error (handleProcessReapRequest_spec I) hrun).2 h A
  | request r =>
    have I' := Alpha.step_inv (L.inv A) h
    have hsame : (withMemoryOf { s with alpha := s.alpha.step r } s).alpha = s.alpha.step r :=
      withMemoryOf_alpha I'.tasks
    exact Accounted.of_alpha (s := { s with alpha := s.alpha.step r }) ⟨I'.funds, I'.known⟩ hsame
  | memory request => exact A.of_alpha h

lemma run_accounted {events} (I : Inv s) (A : s.Accounted) (h : ProperRun s events) :
    (s.run events).Accounted := by
  induction events generalizing s with
  | nil => exact A
  | cons event rest ih => exact ih (step_inv I event) (step_accounted I A h.1) h.2

lemma start_accounted {m : MemoryManager} {limit reserved} (M : m.Inv []) :
    (start m limit reserved).Accounted :=
  ⟨.initial M, fun _ h => absurd h not_mem_nil, fun _ h => absurd h not_mem_nil,
    fun _ h => absurd h not_mem_nil⟩

/-- From a boot on, after any calls on the memory manager, a run of proper events hands back no page
that is referred to, and none twice. -/
theorem references_keep_memory {e : AlphaEnvironment} {answers : Nat → KernelAnswer}
    {heap : Nat × Nat × Nat} {m : MemoryManager} (hboot : boot e answers heap = some m)
    (hD : MemoryManager.RamApart e.resources) (calls : List MemoryManager.Call) (limit : Nat)
    (reserved : List Nat) {events : List Event}
    (h : ProperRun (start (m.run calls) limit reserved) events) :
    Alpha.Safe ((start (m.run calls) limit reserved).run events).alpha := by
  have M := (run_continues (boot_inv hboot hD).1 calls).1
  have A := run_accounted start_inv (start_accounted M) h
  exact ⟨A.1.outstanding, A.1.once⟩

/-- A process takes memory for a device and shares it with another one. -/
def sharedDma : List Event :=
  [.spawn 0 [] willingToCreate, .spawn 0 [] willingToCreate,
    .request (.dma 1 0x2000 (some (0x10000, 0)) none),
    .request (.mappingShare 1 2 0x10000 0x2000 0 (some (0x20000, 0)) none none none none)]

def releaseMapping (pid va : Nat) : Event :=
  .request (.mappingRelease pid va 0x2000 0 0 (fun _ => false) none)

def nextOwner (callerPid pid : Nat) (k : TearDownAnswers) (s : Tasks) : Option Nat :=
  match reapTask callerPid pid k s with
  | .ok next _ => next
  | .error _ _ => none

lemma reapsProper_of_nextOwner (h : Alpha.Reapable s.processes pid)
    (hnext : nextOwner caller pid k s = none) : s.ReapsProper caller pid k := by
  refine ⟨fun _ => h, fun owner u hrun => ?_⟩
  rw [nextOwner, hrun] at hnext
  cases hnext

/-- What is needed of the references when a mapping is given up. -/
def releases (s : Tasks) (pid va : Nat) : Prop :=
  ∀ r ∈ s.processes.sharedMemoryReservation pid va 2, Alpha.Sole s.processes pid r.baseVa r.pageCount

/-- Both mappings are given up, the one of the other process first, and the first is reaped. -/
def returnedDma : List Event :=
  sharedDma ++ [releaseMapping 2 0x20000, releaseMapping 1 0x10000, .kill 2 1 none, .reap 2 1 willing willing]

instance {p : ProcessManager} {pid va n : Nat} : Decidable (Alpha.Sole p pid va n) :=
  inferInstanceAs (Decidable (∀ a ∈ p.findActivePhysicalAllocationReference pid va n, _ → _))

instance {p : ProcessManager} {pid : Nat} : Decidable (Alpha.Reapable p pid) :=
  inferInstanceAs (Decidable (∀ a ∈ p.physicalAllocations.forPid pid, _ → _))

instance {pid va : Nat} : Decidable (s.releases pid va) :=
  inferInstanceAs (Decidable (∀ r ∈ s.processes.sharedMemoryReservation pid va 2, _))

/-- A DMA buffer is shared and its owner reaped: memory has been handed back, and the state is safe. -/
theorem references_keep_memory_returned_dma :
    MemoryManager.RamApart environment.resources ∧
      ∃ m, boot environment (refusingFrom 40) heap = some m ∧
        ((start (m.run []) 210 []).run returnedDma).alpha.handed ≠ [] ∧
        ProperRun (start (m.run []) 210 []) returnedDma ∧
        Alpha.Safe ((start (m.run []) 210 []).run returnedDma).alpha := by
  have hD : MemoryManager.RamApart environment.resources := by decide
  have hrun : ∃ m, boot environment (refusingFrom 40) heap = some m ∧
      ((start (m.run []) 210 []).run returnedDma).alpha.handed ≠ [] ∧
      ((start (m.run []) 210 []).run (returnedDma.take 4)).releases 2 0x20000 ∧
      ((start (m.run []) 210 []).run (returnedDma.take 5)).releases 1 0x10000 ∧
      Alpha.Reapable ((start (m.run []) 210 []).run (returnedDma.take 7)).processes 1 ∧
      nextOwner 2 1 willing ((start (m.run []) 210 []).run (returnedDma.take 7)) = none := by
    refine exists_some_of_any ?_
    decide +kernel
  obtain ⟨m, hm, hback, h2, h1, hreap, hnext⟩ := hrun
  have hp : ProperRun (start (m.run []) 210 []) returnedDma :=
    ⟨trivial, trivial, trivial, trivial, h2, h1, trivial, reapsProper_of_nextOwner hreap hnext, trivial⟩
  exact ⟨hD, m, hm, hback, hp, references_keep_memory hm hD [] 210 [] hp⟩

/-- Where the guarantee ends. The second process gives up the last active mapping of pages that the
first has only put off; the first is reaped and hands them back again. Pages that are mapped again
one by one are no longer the extent that the second process shares. And an `exec` hands back both
the active and the deferred reference of its process. -/
theorem referred_memory_handed_back :
    ∃ m, boot environment (refusingFrom 40) heap = some m ∧
      ¬Alpha.Safe ((start m 210 []).run
        (sharedDma ++ [releaseMapping 1 0x10000, releaseMapping 2 0x20000])).alpha ∧
      ¬Alpha.Safe ((start m 210 []).run (sharedDma ++ [releaseMapping 1 0x10000, releaseMapping 2 0x20000,
        .kill 2 1 none, .reap 2 1 willing willing])).alpha ∧
      ¬Alpha.Safe ((start m 210 []).run (sharedDma ++ [releaseMapping 1 0x10000,
        .request (.mapPages 1 (some (0x10000, 0)) 2 none (fun _ => ⟨none, none⟩) (fun _ => false) none),
        .kill 2 1 none, .reap 2 1 willing willing])).alpha ∧
      ¬Alpha.Safe ((start m 210 []).run (sharedDma ++
        [.request (.mappingShare 2 1 0x20000 0x2000 0 (some (0x30000, 2)) none none none none),
          releaseMapping 2 0x20000, releaseMapping 1 0x10000,
          .exec 1 1 none none none (fun _ => none)])).alpha := by
  refine Exists.imp (fun m => And.imp_right (And.imp Alpha.not_safe_of_violated
    (And.imp Alpha.not_safe_of_violated (And.imp Alpha.not_safe_of_violated Alpha.not_safe_of_violated))))
    (exists_some_of_any ?_)
  decide +kernel

/-! ## Reaps -/

/-- A reap that succeeds has put the reap off, or the task is torn down. -/
lemma reapTask_tornDown :
    ifOk (reapTask caller pid k) (fun _ t => (t.processes.findEntryByPid pid).isSome = true ∨
      TornDown pid (s.info pid).rootSlot s t) s := by
  refine wp_guard trivial fun _ => wp_guard trivial fun _ => ?_
  rw [wp_read]
  refine wp_lookup trivial fun e he => wp_guard trivial fun _ => wp_guard trivial fun _ =>
    wp_ite (fun _ => .inl ?_) fun _ => wp_guard trivial fun _ => ?_
  · exact Option.isSome_iff_exists.mpr ⟨e, he⟩
  · rw [wp_bind]
    refine wp_answer ?_ fun _ => trivial
    rw [wp_bind]
    refine wp_answer ?_ fun _ => trivial
    rw [wp_bind, breaking, wp_try]
    refine wp_mono tearDown_spec ?_ fun _ _ _ => trivial
    rintro _ t ⟨u, -, -, D⟩
    exact .inr D

/-- A reap that goes through drops every reference of the process. It hands back, once each, the
extents that only the process refers to, and no other, exactly when each of them is counted once
and no other process has deferred what the process alone has active. -/
theorem reap_hands_back_owned {callerPid pid : Nat} {answers : TearDownAnswers} {next : Option Nat}
    (h : reapTask callerPid pid answers s = .ok next t) (hgone : t.processes.findEntryByPid pid = none) :
    Alpha.Unmentioned t.processes pid ∧ ∃ back, t.alpha.handed = back ++ s.alpha.handed ∧
      ((∀ k, back.count k = if Alpha.OwnedBy s.processes pid k then 1 else 0) ↔
        Alpha.Reapable s.processes pid ∧ Alpha.CountedOnce s.processes pid) := by
  rcases wp_ok reapTask_tornDown h with hsome | D
  · rw [hgone] at hsome
    cases hsome
  refine ⟨D.references, _, D.handed, ?_⟩
  rw [← Alpha.mem_handedByReap_iff_ownedBy]
  refine forall_congr' fun k => ?_
  rw [count_reverse, Alpha.nodup_handedByReap.count]
  by_cases h1 : k ∈ Alpha.handedByReap s.processes pid <;> by_cases h2 : Alpha.OwnedBy s.processes pid k <;>
    simp [h1, h2]

def reapedTo (callerPid pid : Nat) (s : Tasks) (test : Tasks → Bool) : Bool :=
  match reapTask callerPid pid willing s with
  | .ok _ t => (t.processes.findEntryByPid pid).isNone && test t
  | .error _ _ => false

lemma of_reapedTo {test} (h : reapedTo caller pid s test = true) :
    ∃ next t, reapTask caller pid willing s = .ok next t ∧
      t.processes.findEntryByPid pid = none ∧ test t = true := by
  unfold reapedTo at h
  split at h
  · rename_i next t ht
    rw [Bool.and_eq_true, Option.isNone_iff_eq_none] at h
    exact ⟨next, t, ht, h⟩
  · cases h

/-- A reap that goes through, and an extent of a list that passes a test. -/
lemma exists_reaped {P : Tasks → Nat × Nat → Prop} [∀ t k, Decidable (P t k)]
    (keys : Tasks → List (Nat × Nat))
    (h : reapedTo caller pid s (fun t => (keys t).any fun k => decide (P t k)) = true) :
    ∃ next t k, reapTask caller pid willing s = .ok next t ∧
      t.processes.findEntryByPid pid = none ∧ P t k := by
  obtain ⟨next, t, ht, hgone, htest⟩ := of_reapedTo h
  obtain ⟨k, -, hk⟩ := any_eq_true.mp htest
  exact ⟨next, t, k, ht, hgone, of_decide_eq_true hk⟩

/-- The reap of the owner of that buffer, with its memory handed back once. -/
theorem reap_hands_back_owned_returned_dma :
    ∃ m, boot environment (refusingFrom 40) heap = some m ∧
      ∃ next t, reapTask 2 1 willing ((start m 210 []).run (returnedDma.take 7)) = .ok next t ∧
        t.processes.findEntryByPid 1 = none ∧ t.alpha.handed ≠ [] ∧
        Alpha.Unmentioned t.processes 1 ∧ ∃ back,
          t.alpha.handed = back ++ ((start m 210 []).run (returnedDma.take 7)).alpha.handed ∧
          ((∀ k, back.count k =
              if Alpha.OwnedBy ((start m 210 []).run (returnedDma.take 7)).processes 1 k then 1 else 0) ↔
            Alpha.Reapable ((start m 210 []).run (returnedDma.take 7)).processes 1 ∧
              Alpha.CountedOnce ((start m 210 []).run (returnedDma.take 7)).processes 1) := by
  refine Exists.imp (fun m => And.imp_right fun hr => ?_) (exists_some_of_any (P := fun m =>
    reapedTo 2 1 ((start m 210 []).run (returnedDma.take 7)) (fun t => t.alpha.handed ≠ []) = true) ?_)
  · obtain ⟨next, t, ht, hgone, hback⟩ := of_reapedTo hr
    exact ⟨next, t, ht, hgone, of_decide_eq_true hback, reap_hands_back_owned ht hgone⟩
  · decide +kernel

/-- The reaper of a process makes a thread of it, the two share a page, and the thread is reaped. -/
def sharedByThreads : List Event :=
  [.spawn 0 [] willingToCreate, .spawn 1 [] willingToCreate, .rawTask 1 2 true [] none willingToCreate,
    .request (.sharedMemory 2 3 0x1000 (some (0x10000, 0)) (some (0x20000, 1)) none (fun _ => none)),
    .kill 1 3 none, .reap 1 3 willing willing, .kill 1 2 none]

/-- A mapping is shared and given up by its first process, and the other process is killed. -/
def releasedFirst : List Event := sharedDma ++ [releaseMapping 1 0x10000, .kill 1 2 none]

/-- Where the reap goes wrong: an extent that its owner refers to twice is never handed back, and
one that another process has put off is. -/
theorem reap_leaks_and_hands_back_foreign :
    ∃ m, boot environment (refusingFrom 40) heap = some m ∧
      (∃ next t k, reapTask 1 2 willing ((start m 210 []).run sharedByThreads) = .ok next t ∧
        t.processes.findEntryByPid 2 = none ∧
        Alpha.OwnedBy ((start m 210 []).run sharedByThreads).processes 2 k ∧ k ∉ t.alpha.handed) ∧
      ∃ next t k, reapTask 1 2 willing ((start m 210 []).run releasedFirst) = .ok next t ∧
        t.processes.findEntryByPid 2 = none ∧
        ¬Alpha.OwnedBy ((start m 210 []).run releasedFirst).processes 2 k ∧
        ((start m 210 []).run releasedFirst).alpha.handed = [] ∧ k ∈ t.alpha.handed := by
  refine Exists.imp (fun m => And.imp_right (And.imp
    (exists_reaped fun _ => ((start m 210 []).run sharedByThreads).alpha.refs)
    (exists_reaped (·.alpha.handed)))) (exists_some_of_any ?_)
  decide +kernel

end Tasks

end Nanami.Process
