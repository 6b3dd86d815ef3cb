import Nanami.Process.RequestRuns

/-!
# The end of a process image

What `exec`, the reap of a task and the cleanup of a failed creation hand back: the active references
they drop last, then the deferred ones that nothing else refers to.
-/

namespace Nanami.Process
open Nanami.Lib Nanami.Memory List PhysicalAllocations ProcessManager

namespace ProcessManager

variable {p : ProcessManager} {pid : Nat} {a : ProcessPhysicalAllocation}

/-- What a reap releases: the references that are the only one to their memory. -/
lemma mem_releasable : a ∈ p.releasablePhysicalAllocationsForPid pid ↔
    (pid, a) ∈ p.physicalAllocations.entries ∧ p.physicalAllocations.count a = 1 := by
  rw [releasablePhysicalAllocationsForPid, mem_filter, mem_forPid, beq_iff_eq]

lemma mem_releasableDeferred : a ∈ p.releasableDeferredPhysicalAllocationsForPid pid ↔
    (pid, a) ∈ p.deferredPhysicalAllocations.entries ∧
      p.physicalAllocations.count a + p.deferredPhysicalAllocations.count a = 1 := by
  rw [releasableDeferredPhysicalAllocationsForPid, mem_filter, mem_forPid,
    beq_iff_eq]

lemma nodup_releasable : ((p.releasablePhysicalAllocationsForPid pid).map (·.key)).Nodup := by
  refine nodup_of_count_one ((filter_sublist.map _).subperm.trans
    forPid_subperm) fun a ha => ?_
  rw [← count_eq]
  exact (mem_releasable.mp ha).2

lemma releasableDeferred_alone (h : a ∈ p.releasableDeferredPhysicalAllocationsForPid pid) :
    a.key ∉ p.physicalAllocations.keys ∧ p.deferredPhysicalAllocations.count a = 1 := by
  obtain ⟨hmem, hc⟩ := mem_releasableDeferred.mp h
  have hpos : 0 < p.deferredPhysicalAllocations.count a := by
    rw [count_eq, count_pos_iff]
    exact key_mem hmem
  exact ⟨count_eq_zero.mp (by omega), by omega⟩

lemma nodup_releasableDeferred :
    ((p.releasableDeferredPhysicalAllocationsForPid pid).map (·.key)).Nodup := by
  refine nodup_of_count_one ((filter_sublist.map _).subperm.trans
    forPid_subperm) fun a ha => ?_
  rw [← count_eq]
  exact (releasableDeferred_alone ha).2

end ProcessManager

namespace PhysicalAllocations

variable {t : PhysicalAllocations} {pid : Nat} {a : ProcessPhysicalAllocation}

lemma removePid_subset : (t.removePid pid).2.keys ⊆ t.keys := fun k hk => by
  obtain ⟨q, b, hb, rfl⟩ := mem_keys.mp hk
  exact key_mem ((removePid_spec.left _).mp hb).1

lemma mem_keys_removePid {k} :
    k ∈ (t.removePid pid).2.keys ↔ ∃ q b, (q, b) ∈ t.entries ∧ b.key = k ∧ q ≠ pid := by
  rw [mem_keys]
  constructor
  · rintro ⟨q, b, hb, rfl⟩
    obtain ⟨hmem, hq⟩ := (removePid_spec.left _).mp hb
    exact ⟨q, b, hmem, rfl, hq⟩
  · rintro ⟨q, b, hb, rfl, hq⟩
    exact ⟨q, b, (removePid_spec.left _).mpr ⟨hb, hq⟩, rfl⟩

lemma not_mem_removePid (h : (pid, a) ∈ t.entries) (hc : t.count a = 1) :
    a.key ∉ (t.removePid pid).2.keys := by
  have hperm := (@removePid_spec t pid).keys
  rw [count_eq, hperm.count_eq, count_append] at hc
  have hpos : 0 < ((t.forPid pid).map (·.key)).count a.key :=
    count_pos_iff.mpr (mem_map.mpr ⟨a, mem_forPid.mpr h, rfl⟩)
  exact List.count_eq_zero.mp (by omega)

lemma removePid_idem : ((t.removePid pid).2.removePid pid).2 = (t.removePid pid).2 := by
  have hnone : (t.removePid pid).2.forPid pid = [] :=
    eq_nil_iff_forall_not_mem.mpr fun a ha => ((removePid_spec.left _).mp (mem_forPid.mp ha)).2 rfl
  nth_rewrite 1 [removePid]
  rw [hnone]
  rfl

end PhysicalAllocations

namespace ProcessManager

variable {p : ProcessManager} {pid : Nat}

lemma drop_dropDeferred : (p.dropDeferredPhysicalAllocationsForPid pid).dropPhysicalAllocationsForPid pid =
    p.dropPhysicalAllocationsForPid pid := by
  rw [dropPhysicalAllocationsForPid, dropDeferredPhysicalAllocationsForPid,
    dropPhysicalAllocationsForPid, removePid_idem]
  rfl

lemma Known.drop (K : p.Known) : (p.dropPhysicalAllocationsForPid pid).Known :=
  ⟨fun e he => K.active e ((removePid_spec.left e).mp he).1,
    fun e he => K.deferred e ((removePid_spec.left e).mp he).1,
    fun e he => K.reserved e (mem_filter.mp he).1⟩

lemma Known.dropDeferred (K : p.Known) : (p.dropDeferredPhysicalAllocationsForPid pid).Known :=
  { K with deferred := fun e he => K.deferred e ((removePid_spec.left e).mp he).1 }

end ProcessManager

namespace Alpha

variable {s t : Alpha} {R : SortedMap Nat ProcessEntry × Nat} {pid : Nat} {others : List (Nat × Nat)}

lemma freeDeferred_spec
    (A : s.Funds ((s.processes.releasableDeferredPhysicalAllocationsForPid pid).map (·.key) ++ others))
    (h : ∀ a ∈ s.processes.releasableDeferredPhysicalAllocationsForPid pid, a.key ∉ others) :
    sure (freeDeferredProcessAllocations pid) (fun _ t => t.Funds others ∧
      t.processes = s.processes.dropDeferredPhysicalAllocationsForPid pid) s := by
  rw [sure, freeDeferredProcessAllocations, wp_read]
  refine wp_seq (freeIgnoring_of_freeEach (freeEach_spec A nodup_releasableDeferred h))
    (fun _ t ht => ?_)
  exact ⟨ht.1, by rw [ht.2]⟩

/-! ## Exec -/

/-- What the task alone refers to is not deferred. -/
def Execable (p : ProcessManager) (pid : Nat) : Prop :=
  ∀ a ∈ p.physicalAllocations.forPid pid,
    (∀ e ∈ p.physicalAllocations.entries, e.2.key = a.key → e.1 = pid) →
    p.deferredPhysicalAllocations.count a = 0

variable {p : ProcessManager} {invalidated : Option CapabilityError} {callerPid : Nat}
  {a : ProcessPhysicalAllocation}

lemma resetRuntimeMemoryForExec_spec (F : p.Formed) (K : p.Known) :
    wp (resetRuntimeMemoryForExec pid)
      (fun removed q => q.Formed ∧ q.Known ∧
        q.deferredPhysicalAllocations = p.deferredPhysicalAllocations ∧
        PhysicalAllocations.Removes pid p.physicalAllocations (p.physicalAllocations.forPid pid)
          removed q.physicalAllocations)
      (fun _ q => q = p) p := by
  refine wp_lookup rfl fun entry hentry => ?_
  have hup : ProcessManager.Formed
      { p with entries := p.entries.insert pid { entry with exited := false } } := F.update hentry rfl rfl
  exact ⟨hup.congr rfl rfl, ⟨K.drop.active, K.deferred, K.drop.reserved⟩, rfl, removePid_spec⟩

/-- The old image of a task goes: what only it refers to is freed, once. -/
lemma dropProcessRuntimeMappings_spec (I : Inv s.roster s []) (h : Execable s.processes pid) :
    ends (dropProcessRuntimeMappings pid invalidated) (fun t => Inv t.roster t []) s := by
  rw [ends, dropProcessRuntimeMappings, wp_bind]
  refine wp_answer ?_ fun _ => I
  rw [wp_bind, wp_onProcesses]
  refine wp_mono (resetRuntimeMemoryForExec_spec I.formed I.known) ?_ (fun _ _ h => h ▸ I)
  rintro removed q ⟨hqf, hqk, hqd, R⟩
  generalize hqa : q.physicalAllocations = table at R
  -- what is left when all is done
  let rest := table.keys ++ (s.processes.deferredPhysicalAllocations.removePid pid).2.keys
  have hrest : rest ⊆ table.keys ++ s.processes.deferredPhysicalAllocations.keys := by
    refine append_subset.mpr ⟨subset_append_left _ _, fun k hk => ?_⟩
    exact mem_append_right _ (removePid_subset hk)
  have hdef : (q.releasableDeferredPhysicalAllocationsForPid pid).map (·.key) ⊆
      s.processes.deferredPhysicalAllocations.keys := by
    intro k hk
    obtain ⟨a, ha, rfl⟩ := mem_map.mp hk
    exact hqd ▸ key_mem (mem_releasableDeferred.mp ha).1
  have hlast : ∀ a ∈ (removed.filter fun r => r.2).map Prod.fst,
      a ∈ s.processes.physicalAllocations.forPid pid ∧ a.key ∉ table.keys := by
    intro a ha
    obtain ⟨r, hr, rfl⟩ := mem_map.mp ha
    obtain ⟨hr, hflag⟩ := mem_filter.mp hr
    exact ⟨R.visits ▸ mem_map.mpr ⟨r, hr, rfl⟩, R.last r hr hflag⟩
  have A : s.Funds (((removed.filter fun r => r.2).map Prod.fst).map (·.key) ++
      ((q.releasableDeferredPhysicalAllocationsForPid pid).map (·.key) ++ rest)) := by
    refine I.funds.subset (append_subset.mpr ⟨fun k hk => ?_, append_subset.mpr
      ⟨fun k hk => mem_refs.mpr (.inr (hdef hk)), fun k hk => ?_⟩⟩)
    · obtain ⟨a, ha, rfl⟩ := mem_map.mp hk
      exact mem_refs.mpr (.inl (key_mem
        (mem_forPid.mp (hlast a ha).1)))
    · refine mem_refs.mpr ((mem_append.mp (hrest hk)).imp_left fun hk => ?_)
      exact R.keys.mem_iff.mpr (mem_append_right _ hk)
  refine wp_sure (freeEach_spec (s := { s with processes := q }) A ?_ ?_) (fun _ t ht => ?_)
  · rw [map_map]
    exact R.once
  · intro a ha
    obtain ⟨hmem, hno⟩ := hlast a ha
    -- only this process referred to the extent
    have hd := count_eq_zero.mp (h a hmem fun e he hk => by
      by_contra hne
      have hleft : (e.1, e.2) ∈ table.entries := (R.left e).mpr ⟨he, hne⟩
      exact hno (hk ▸ key_mem hleft))
    rw [mem_append, mem_append, not_or, not_or]
    exact ⟨fun h => hd (hdef h), hno, fun h => hd (removePid_subset h)⟩
  · have hp : t.processes = q := ht.2
    have hfunds : t.Funds ((t.processes.releasableDeferredPhysicalAllocationsForPid pid).map (·.key) ++
        rest) := by
      rw [hp]
      exact ht.1
    refine wp_mono (freeDeferred_spec hfunds ?_) (fun _ u hu => ?_) (fun _ _ h => h.elim)
    · intro a ha
      rw [hp] at ha
      obtain ⟨h1, h2⟩ := releasableDeferred_alone ha
      rw [hqa] at h1
      rw [hqd] at h2
      rw [mem_append, not_or]
      refine ⟨h1, not_mem_removePid ?_ h2⟩
      exact hqd ▸ (mem_releasableDeferred.mp ha).1
    · rw [hp] at hu
      refine ⟨?_, hu.2 ▸ hqf.congr rfl rfl, hu.2 ▸ hqk.dropDeferred, rfl⟩
      have hrefs : u.refs = rest := by
        rw [refs, hu.2]
        show q.physicalAllocations.keys ++ (q.deferredPhysicalAllocations.removePid pid).2.keys = rest
        rw [hqa, hqd]
      rw [hrefs]
      exact hu.1

lemma handleProcessExecMemoryRequest_spec {readable} (I : Inv s.roster s [])
    (h : Execable s.processes pid) :
    ends (handleProcessExecMemoryRequest callerPid pid readable invalidated)
      (fun t => Inv t.roster t []) s := by
  refine wp_guard I fun _ => ?_
  refine wp_lookup I fun _ _ => wp_guard I fun _ => wp_guard I fun _ => ?_
  rw [wp_bind]
  exact wp_answer (dropProcessRuntimeMappings_spec I h) fun _ => I

/-! ## Reap -/

/-- What the task alone refers to is deferred by no other task. -/
def Reapable (p : ProcessManager) (pid : Nat) : Prop :=
  ∀ a ∈ p.physicalAllocations.forPid pid, p.physicalAllocations.count a = 1 →
    ∀ e ∈ p.deferredPhysicalAllocations.entries, e.2.key = a.key → e.1 = pid

def refsWithout (p : ProcessManager) (pid : Nat) : List (Nat × Nat) :=
  (p.physicalAllocations.removePid pid).2.keys ++ (p.deferredPhysicalAllocations.removePid pid).2.keys

/-- Before a reap, the memory that it frees and what the others refer to are on the books. -/
lemma funds_reap (I : Inv R s []) :
    s.Funds ((s.processes.releasablePhysicalAllocationsForPid pid).map (·.key) ++
      ((s.processes.releasableDeferredPhysicalAllocationsForPid pid).map (·.key) ++
        refsWithout s.processes pid)) := by
  refine I.funds.subset (append_subset.mpr ⟨fun k hk => ?_, append_subset.mpr
    ⟨fun k hk => ?_, fun k hk => ?_⟩⟩) <;> rw [nil_append, mem_refs]
  · obtain ⟨a, ha, rfl⟩ := mem_map.mp hk
    exact .inl (key_mem (mem_releasable.mp ha).1)
  · obtain ⟨a, ha, rfl⟩ := mem_map.mp hk
    exact .inr (key_mem (mem_releasableDeferred.mp ha).1)
  · exact (mem_append.mp hk).imp (fun h => removePid_subset h)
      (fun h => removePid_subset h)

lemma releasable_apart (h : Reapable p pid) (ha : a ∈ p.releasablePhysicalAllocationsForPid pid) :
    a.key ∉ (p.releasableDeferredPhysicalAllocationsForPid pid).map (·.key) ++ refsWithout p pid := by
  obtain ⟨hmem, hc⟩ := mem_releasable.mp ha
  rw [mem_append, refsWithout, mem_append, not_or, not_or]
  refine ⟨fun hin => ?_, not_mem_removePid hmem hc, fun hin => ?_⟩
  · obtain ⟨b, hb, hk⟩ := mem_map.mp hin
    exact (releasableDeferred_alone hb).1 (hk ▸ key_mem hmem)
  · obtain ⟨q, b, hb, hk, hq⟩ := mem_keys_removePid.mp hin
    exact hq (h a (mem_forPid.mpr hmem) hc (q, b) hb hk)

lemma releasableDeferred_apart (ha : a ∈ p.releasableDeferredPhysicalAllocationsForPid pid) :
    a.key ∉ refsWithout p pid := by
  obtain ⟨h1, h2⟩ := releasableDeferred_alone ha
  rw [refsWithout, mem_append, not_or]
  exact ⟨fun h => h1 (removePid_subset h),
    not_mem_removePid (mem_releasableDeferred.mp ha).1 h2⟩

/-- The extents a reap hands back, in the order in which it does. -/
def handedByReap (p : ProcessManager) (pid : Nat) : List (Nat × Nat) :=
  (p.releasablePhysicalAllocationsForPid pid ++
    p.releasableDeferredPhysicalAllocationsForPid pid).map (·.key)

def Unmentioned (p : ProcessManager) (pid : Nat) : Prop :=
  ∀ e ∈ p.physicalAllocations.entries ++ p.deferredPhysicalAllocations.entries, e.1 ≠ pid

lemma unmentioned_drop : Unmentioned (p.dropPhysicalAllocationsForPid pid) pid := by
  intro e he
  rcases mem_append.mp he with he | he
  · exact ((removePid_spec.left e).mp he).2
  · exact ((removePid_spec.left e).mp he).2

lemma Unmentioned.reapable (h : Unmentioned p pid) : Reapable p pid :=
  fun _ ha => absurd rfl (h _ (mem_append_left _ (mem_forPid.mp ha)))

lemma freeDeferred_handed :
    sure (freeDeferredProcessAllocations pid) (fun _ t =>
      t.handed = ((s.processes.releasableDeferredPhysicalAllocationsForPid pid).map (·.key)).reverse ++
        s.handed ∧ t.processes = s.processes.dropDeferredPhysicalAllocationsForPid pid) s := by
  rw [sure, freeDeferredProcessAllocations, wp_read]
  refine wp_sure freeIgnoring_handed (fun _ t ht => ⟨ht.1, ?_⟩)
  show t.processes.dropDeferredPhysicalAllocationsForPid pid = _
  rw [ht.2]

/-- A reap hands back what it finds and drops the references, or it stops at an extent. -/
lemma releaseReaped_handed :
    wp (releaseReaped pid) (fun _ t => t.handed = (handedByReap s.processes pid).reverse ++ s.handed ∧
      t.processes = s.processes.dropPhysicalAllocationsForPid pid)
      (fun _ t => t.processes = s.processes) s := by
  rw [releaseReaped, wp_read]
  refine wp_then freeEach_handed (fun _ t ht => ?_) fun _ _ h => h
  refine wp_sure freeDeferred_handed (fun _ u hu => ?_)
  rw [ht.2] at hu
  refine ⟨?_, ?_⟩
  · show u.handed = _
    rw [hu.1, ht.1, handedByReap, map_append, reverse_append, append_assoc]
  · show u.processes.dropPhysicalAllocationsForPid pid = _
    rw [hu.2, drop_dropDeferred]

lemma releaseFailed_handed :
    sure (releaseFailed pid) (fun _ t =>
      t.processes = s.processes.dropDeferredPhysicalAllocationsForPid pid) s := by
  rw [sure, releaseFailed, wp_read]
  refine wp_sure freeIgnoring_handed (fun _ t ht => wp_post freeDeferred_handed fun _ u hu => ?_)
  rw [hu.2, ht.2]

/-- Once the references are dropped, the accounts are in order. -/
lemma Inv.without (I : Inv R s []) (A : t.Funds (refsWithout s.processes pid)) :
    Inv R { t with processes := s.processes.dropPhysicalAllocationsForPid pid } [] :=
  ⟨A, I.formed.congr rfl rfl, I.known.drop, I.tasks⟩

/-- A reap frees what only the task refers to, and the books stay in order. -/
lemma releaseReaped_spec (I : Inv R s []) (h : Reapable s.processes pid) :
    sure (releaseReaped pid) (fun _ t => Inv R t []) s := by
  rw [sure, releaseReaped, wp_read]
  refine wp_sure (freeEach_spec (funds_reap I) nodup_releasable
    fun a ha => releasable_apart h ha) (fun _ t ht => ?_)
  obtain ⟨A, hp⟩ := ht
  refine wp_sure (freeDeferred_spec (by rw [hp]; exact A) fun a ha => ?_) (fun _ u hu => ?_)
  · rw [hp] at ha
    exact releasableDeferred_apart ha
  rw [hp] at hu
  rw [wp_onProcesses, wp_modify, hu.2, drop_dropDeferred]
  exact I.without hu.1

/-- So does the clean-up of a task whose creation failed. -/
lemma releaseFailed_spec (I : Inv R s []) (h : Reapable s.processes pid) :
    sure (releaseFailed pid) (fun _ t =>
      Inv R { t with processes := s.processes.dropPhysicalAllocationsForPid pid } []) s := by
  rw [sure, releaseFailed, wp_read]
  refine wp_sure (freeIgnoring_of_freeEach (freeEach_spec (funds_reap I) nodup_releasable
    fun a ha => releasable_apart h ha)) (fun _ t ht => ?_)
  obtain ⟨A, hp⟩ := ht
  refine wp_post (freeDeferred_spec (by rw [hp]; exact A) fun a ha => ?_) (fun _ u hu => ?_)
  · rw [hp] at ha
    exact releasableDeferred_apart ha
  rw [hp] at hu
  exact I.without hu.1

end Alpha

end Nanami.Process
