import Nanami.Process.Reaps

/-!
# The memory of a task in the making

A new process is given its image and its stack before it is in the table, and a fork is given copies
of the pages of its parent. Both are private to the new task, so what a failed creation hands back
nobody else refers to; and neither touches a reference of another task.
-/

namespace Nanami.Process
open Nanami.Lib Nanami.Memory List PhysicalAllocations ProcessManager

namespace Alpha

variable {s t : Alpha} {R : SortedMap Nat ProcessEntry × Nat} {pid : Nat}

/-! ## The accounts -/

lemma materializeEach_spec {pages} (I : Inv R s [])
    (hpid : s.processes.memoryOwnerPid pid < s.processes.nextPid) :
    ends (materializeEach pid pages)
      (fun t => Inv R t [] ∧ ∀ {q}, s.processes.Private q → t.processes.Private q) s := by
  induction pages generalizing s with
  | nil => exact ⟨I, id⟩
  | cons page rest ih =>
    refine wp_then (materializeLazyPage_spec I hpid) (fun _ t ht => ?_) fun _ _ h => h
    exact ends_mono (ih ht.1 (I.owner_lt ht.1 hpid)) fun _ hu => ⟨hu.1, fun h => hu.2 (ht.2 h)⟩

lemma cloneProcessVm_spec {clones} (I : Inv R s []) (N : Newborn s.processes pid) :
    ends (cloneProcessVm pid clones) (fun t => Inv R t [] ∧ t.processes.Private pid) s := by
  induction clones generalizing s with
  | nil => exact ⟨I, N.own⟩
  | cons clone rest ih =>
    refine wp_then (mapProcessInitializedPages_spec I fun _ _ => N.remappable) (fun _ t ht => ?_)
      fun _ t ht => ⟨ht.1, ht.2 N⟩
    rw [wp_bind]
    exact wp_answer (ih ht.1 (ht.2 N)) fun _ => ⟨ht.1, (ht.2 N).own⟩

lemma Private.reapable {p : ProcessManager} (h : p.Private pid) : Reapable p pid :=
  fun a ha _ => h a ha

/-! ## The references of the others -/

/-- Only references of `pid` change. -/
structure Alone (pid : Nat) (s t : Alpha) : Prop where
  tasks : t.roster = s.roster
  active : ∀ q ≠ pid, t.processes.physicalAllocations.forPid q = s.processes.physicalAllocations.forPid q
  deferred : ∀ q ≠ pid, t.processes.deferredPhysicalAllocations.forPid q =
    s.processes.deferredPhysicalAllocations.forPid q

lemma Alone.refl : Alone pid s s := ⟨rfl, fun _ _ => rfl, fun _ _ => rfl⟩

lemma Alone.trans {u} (A : Alone pid s t) (B : Alone pid t u) : Alone pid s u :=
  ⟨B.tasks.trans A.tasks, fun q hq => (B.active q hq).trans (A.active q hq),
    fun q hq => (B.deferred q hq).trans (A.deferred q hq)⟩

lemma Alone.of_processes (h : t.processes = s.processes) : Alone pid s t := by
  refine ⟨?_, fun _ _ => ?_, fun _ _ => ?_⟩
  · rw [roster, h]
    rfl
  · rw [h]
  · rw [h]

lemma Alone.owner (A : Alone pid s t) {q} :
    t.processes.memoryOwnerPid q = s.processes.memoryOwnerPid q :=
  memoryOwnerPid_congr (Prod.mk.inj A.tasks).1

lemma forPid_insert {table : PhysicalAllocations} {q a} (hq : q ≠ pid) :
    (table.insert pid a).forPid q = table.forPid q := by
  rw [forPid, PhysicalAllocations.insert, filter_cons_of_neg (by simpa using hq.symm)]
  rfl

lemma forPid_take {table u : PhysicalAllocations} {q va n r} (h : table.take pid va n = some (r, u))
    (hq : q ≠ pid) : u.forPid q = table.forPid q := by
  rw [forPid, (take_some h).2.2, forPid]
  rcases exists_or_eq_self_of_eraseP (isAt pid va n) table.entries with hsame | ⟨e, l, l', -, he, heq, herase⟩
  · rw [hsame]
  · have hne : e.1 ≠ q := by
      rintro rfl
      simp only [isAt, Bool.and_eq_true, beq_iff_eq] at he
      exact hq he.1
    rw [herase, heq, filter_append, filter_append, filter_cons_of_neg (by simpa using hne)]

lemma filter_erase_of_neg {α} [BEq α] [LawfulBEq α] {p : α → Bool} {x : α} (h : p x = false) (l : List α) :
    (l.erase x).filter p = l.filter p := by
  induction l with
  | nil => rfl
  | cons y l ih =>
    rw [erase_cons]
    split
    · rename_i heq
      rw [beq_iff_eq.mp heq, filter_cons_of_neg (by rw [h]; exact Bool.false_ne_true)]
    · rw [filter_cons, filter_cons, ih]

lemma forPid_removeEach {table : PhysicalAllocations} {q} (hq : q ≠ pid)
    (l : List ProcessPhysicalAllocation) : (removeEach pid l table).2.forPid q = table.forPid q := by
  induction l generalizing table with
  | nil => rfl
  | cons a l ih =>
    refine ih.trans (congrArg (map Prod.snd) (filter_erase_of_neg ?_ _))
    simpa using hq.symm

/-- The references of a task are dropped, deferred or all. -/
lemma Alone.drop (h : t.processes = s.processes.dropDeferredPhysicalAllocationsForPid pid ∨
    t.processes = s.processes.dropPhysicalAllocationsForPid pid) : Alone pid s t := by
  rcases h with h | h <;> refine ⟨?_, fun q hq => ?_, fun q hq => ?_⟩
  · rw [roster, h]
    rfl
  · rw [h]
    rfl
  · rw [h]
    exact forPid_removeEach hq _
  · rw [roster, h]
    rfl
  · rw [h]
    exact forPid_removeEach hq _
  · rw [h]
    exact forPid_removeEach hq _

lemma onMemory_processes {α} {m : EStateM Failure MemoryManager α} :
    Preserves Alpha.processes (onMemory m) := by
  intro s
  rw [onMemory, wp_zoom]
  exact wp_of_run (fun _ _ _ => rfl) fun _ _ _ => rfl

lemma freePhysical_processes {base n} : Preserves Alpha.processes (freePhysical base n) :=
  .bind (.modify fun _ => rfl) fun _ => onMemory_processes

variable {copied mapped unmapped : Option CapabilityError} {va slot page n : Nat}
  {l : List ProcessPhysicalAllocation}

lemma allocateProcessFrame_processes : Preserves Alpha.processes (allocateProcessFrame copied) := by
  refine .bind (.bind onMemory_processes fun _ => .bind (.modify fun _ => rfl) fun _ => .pure) fun page => ?_
  cases copied with
  | none => exact .pure
  | some e => exact .bind (.attempt freePhysical_processes) fun _ => .throw

/-- A run for an owner of a memory keeps the references of the others. -/
def KeepsOthers {α} (pid : Nat) (m : EStateM Failure Alpha α) : Prop :=
  ∀ s : Alpha, s.processes.memoryOwnerPid pid = pid →
    (∀ e ∈ s.processes.entries.entries, e.2.pid = e.1) → ends m (Alone pid s) s

section

variable {α β : Type} {m : EStateM Failure Alpha α} {f : α → EStateM Failure Alpha β}

lemma KeepsOthers.of_preserves (h : Preserves Alpha.processes m) : KeepsOthers pid m :=
  fun s _ _ => ends_mono (h s) fun _ => .of_processes

lemma KeepsOthers.after (h : KeepsOthers pid m) (A : Alone pid s t)
    (ho : s.processes.memoryOwnerPid pid = pid)
    (hk : ∀ e ∈ s.processes.entries.entries, e.2.pid = e.1) : ends m (Alone pid s) t := by
  have hentries : t.processes.entries = s.processes.entries := (Prod.mk.inj A.tasks).1
  exact ends_mono (h t (A.owner.trans ho) (hentries ▸ hk)) fun _ => A.trans

lemma KeepsOthers.bind (hm : KeepsOthers pid m) (hf : ∀ a, KeepsOthers pid (f a)) :
    KeepsOthers pid (m >>= f) := by
  intro s ho hk
  exact wp_seq (hm s ho hk) fun a t A => (hf a).after A ho hk

lemma KeepsOthers.attempt (hm : KeepsOthers pid m) : KeepsOthers pid (attempt m) := by
  intro s ho hk
  rw [ends, wp_attempt]
  exact hm s ho hk

end

lemma answer_keeps {failure} : KeepsOthers pid (answer failure) :=
  fun _ _ _ => wp_answer .refl fun _ => .refl

lemma register_keeps : KeepsOthers pid (onProcesses (registerPhysicalAllocation pid va slot page n)) := by
  intro s ho _
  rw [ends, wp_onProcesses, registerPhysicalAllocation]
  refine wp_guard .refl fun _ => ⟨rfl, fun q hq => ?_, fun _ _ => rfl⟩
  rw [ho]
  exact forPid_insert hq

lemma materializeEach_keeps {pages} : KeepsOthers pid (materializeEach pid pages) := by
  induction pages with
  | nil => exact .of_preserves .pure
  | cons page rest ih =>
    refine .bind ?_ fun _ => ih
    refine .bind (.of_preserves allocateProcessFrame_processes) fun _ => ?_
    exact .bind register_keeps fun _ => answer_keeps

lemma registerPages_keeps {is} : KeepsOthers pid (registerPages pid va slot page is) := by
  induction is with
  | nil => exact .of_preserves .pure
  | cons i is ih => exact .bind register_keeps fun _ => ih

lemma mapPages_keeps {reused answers is} : KeepsOthers pid (mapPages pid va slot reused answers is) := by
  induction is with
  | nil => exact .of_preserves .pure
  | cons i is ih =>
    have hrest : KeepsOthers pid
        (answer (answers i).mapped >>= fun _ => mapPages pid va slot reused answers is) :=
      .bind answer_keeps fun _ => ih
    cases reused with
    | true => exact .bind answer_keeps fun _ => hrest
    | false =>
      exact .bind (.of_preserves allocateProcessFrame_processes) fun _ => .bind register_keeps fun _ => hrest

lemma release_keeps : KeepsOthers pid (onProcesses (releasePhysicalAllocationReference pid va n)) := by
  intro s ho _
  refine wp_mono releaseReference_spec ?_ fun _ _ h => h ▸ .refl
  rintro r t ⟨u, hu, rfl⟩
  rw [ho] at hu
  exact ⟨rfl, fun q hq => forPid_take hu hq, fun _ _ => rfl⟩

lemma releaseAndDefer_keeps : KeepsOthers pid (releaseAndDefer pid va n) := by
  refine .bind release_keeps fun r s ho _ => ?_
  refine ⟨rfl, fun _ _ => rfl, fun q hq => ?_⟩
  show (s.processes.deferredPhysicalAllocations.insert (s.processes.memoryOwnerPid pid) r.1).forPid q = _
  rw [ho]
  exact forPid_insert hq

lemma releasePages_keeps : KeepsOthers pid (releasePages pid l) := by
  induction l with
  | nil => exact .of_preserves .pure
  | cons a l ih => exact .bind releaseAndDefer_keeps fun _ => ih

lemma removeSharedMapping_keeps {r} : KeepsOthers pid (removeSharedMapping pid r unmapped) := by
  have hrecycle : KeepsOthers pid (onProcesses (recycleSharedMemory pid r)) := by
    intro s _ _
    rw [ends, wp_onProcesses, recycleSharedMemory]
    exact wp_ite (fun _ => ⟨rfl, fun _ _ => rfl, fun _ _ => rfl⟩) fun _ => .refl
  refine .bind answer_keeps fun _ => .bind release_keeps fun taken => ?_
  obtain ⟨allocation, last⟩ := taken
  cases last with
  | false => exact hrecycle
  | true => exact .bind (.of_preserves freePhysical_processes) fun _ => hrecycle

lemma handleMappingReleaseRequest_keeps {arg0 arg1 arg3 framed} :
    KeepsOthers pid (handleMappingReleaseRequest pid arg0 arg1 pid arg3 framed unmapped) := by
  have hself : (if pid = 0 then pid else pid) = pid := ite_self _
  intro s ho hk
  refine wp_guard .refl fun _ => ?_
  rw [hself]
  refine wp_guard .refl fun _ => wp_guard .refl fun _ => ?_
  refine wp_lookup .refl fun entry _ => wp_guard .refl fun _ => ?_
  refine wp_lookup .refl fun owner howner => ?_
  have hpid : owner.pid = pid := by
    rw [memoryEntry, ho] at howner
    exact hk _ (SortedMap.get?_eq_some.mp howner)
  rw [hpid]
  split
  · exact removeSharedMapping_keeps s ho hk
  split
  · exact KeepsOthers.bind answer_keeps (fun _ => releaseAndDefer_keeps) s ho hk
  · refine wp_lookup .refl fun l _ => ?_
    exact KeepsOthers.bind answer_keeps (fun _ => releasePages_keeps) s ho hk

lemma mapProcessInitializedPages_keeps {place chunks answers framed} : KeepsOthers pid
    (mapProcessInitializedPages pid place n chunks answers framed unmapped) := by
  intro s ho hk
  refine wp_lookup .refl fun bytes _ => wp_guard .refl fun _ => ?_
  refine wp_lookup .refl fun _ _ => ?_
  refine wp_lookup .refl fun v _ => ?_
  refine KeepsOthers.bind answer_keeps (fun _ => .bind ?_ fun reuse => .bind ?_ fun _ =>
    .bind (.attempt mapPages_keeps) fun result => ?_) s ho hk
  · intro s ho _
    rw [ends, wp_onProcesses, takeDeferredPhysicalAllocation, wp_read]
    split
    · exact .refl
    · rename_i a last u hu
      rw [ho] at hu
      exact ⟨rfl, fun _ _ => rfl, fun q hq => forPid_take hu hq⟩
  · cases reuse with
    | none => exact .of_preserves .pure
    | some allocation => exact registerPages_keeps
  · cases result with
    | ok _ => exact .of_preserves .pure
    | error e => exact .bind handleMappingReleaseRequest_keeps fun _ => .of_preserves .throw

lemma cloneProcessVm_keeps {clones} : KeepsOthers pid (cloneProcessVm pid clones) := by
  induction clones with
  | nil => exact .of_preserves .pure
  | cons clone rest ih =>
    exact .bind mapProcessInitializedPages_keeps fun _ => .bind answer_keeps fun _ => ih

end Alpha

end Nanami.Process
