import Nanami.Process.TaskCreation

/-!
# A memory ends with its last task

Every request keeps the invariant of the tasks, so it holds in every run. The owner of a memory stays
in the table until the last of its tasks leaves it, whichever is reaped first and whoever reaps it; as
long as it is there no request about tasks takes anything from it, and when it leaves all it held is
given back. A teardown that fails after the kernel has revoked the root node leaves a task in the
table with a part of its memory gone; the owners of such teardowns are set apart.
-/

namespace Nanami.Process
open Nanami.Lib Nanami.Memory SortedMap List ProcessManager MemoryManager

namespace Tasks

variable {s t : Tasks} {pid o q caller owner : Nat} {event : Event}

/-! ## The other requests -/

/-- An entry changes and keeps its pid, its owner and its reaper. -/
lemma Lives.update {e a} (L : Lives s) (e' : ProcessEntry)
    (he : s.processes.findEntryByPid pid = some e) (hpid : e'.pid = e.pid)
    (hkin : (e'.memoryOwner, e'.reaperPid) = (e.memoryOwner, e.reaperPid))
    (hentries : a.processes.entries = s.processes.entries.insert pid e')
    (hnext : a.processes.nextPid = s.processes.nextPid) : Stays s { s with alpha := a } := by
  refine { Stays.refl L with
    keyed := fun x hx => ?_
    kin := fun q => ?_
    next := hnext.ge }
  · have hx : x ∈ a.processes.entries.entries := hx
    rw [hentries] at hx
    rcases mem_insert.mp hx with rfl | ⟨hx, -⟩
    · exact hpid.trans (L.keyed _ (get?_eq_some.mp he))
    · exact L.keyed x hx
  · refine (kinOf_alter (hentries ▸ get?_insert)).trans (ite_eq_right_iff.mpr ?_)
    rintro rfl
    rw [kinOf, he, Option.map_some, Option.map_some, hkin]

/-- The tasks stay as they are, with what they hold. -/
structure Rests (s t : Tasks) : Prop extends Stays s t where
  spares : Spares s t
  accounts : s.Accounted → t.Accounted

lemma Rests.refl (L : Lives s) : Rests s s := ⟨.refl L, fun _ _ _ _ _ => rfl, id⟩

lemma Rests.outcome (S : Rests s t) (L : Lives s) : Outcome s t := S.toStays.outcome L S.spares S.accounts

lemma Rests.trans {u} (S : Rests s t) (S' : Rests t u) : Rests s u where
  keyed := S'.keyed
  kin q := (S'.kin q).trans (S.kin q)
  next := S.next.trans S'.next
  alpha := S'.alpha.trans S.alpha
  slots q o h := (S'.slots q o ((S.owners q).trans h)).trans (S.slots q o h)
  deferred q o h hd := S'.deferred q o ((S.owners q).trans h) (S.deferred q o h hd)
  used := List.Subset.trans S.used S'.used
  arenas x h := S'.arenas x (S.arenas x h)
  members := S'.members.trans S.members
  reaped := S'.reaped.trans S.reaped
  broken := List.Subset.trans S.broken S'.broken
  built q o h hb hB := S'.built q o ((S.owners q).trans h) hb (S.built q o h (fun h => hb (S'.broken h)) hB)
  spares q o h hu hb := by
    have ht : t.ownerOf q = some o := (S.owners q).trans h
    exact (S'.spares q o ht hu hb).trans (S.spares q o h ht fun h => hb (S'.broken h))
  accounts A := S'.accounts (S.accounts A)

lemma markExited_spec (L : Lives s) : ends (onProcesses (markExited pid)) (Rests s) s := by
  rw [ends, onProcesses, wp_zoom, markExited]
  refine wp_lookup (.refl L) fun e he => ?_
  refine ⟨L.update { e with exited := true } he rfl rfl rfl rfl, fun _ _ _ _ _ => rfl, fun A => ?_⟩
  exact ⟨A.1, A.2.active, A.2.deferred, A.2.reserved⟩

lemma quarantineResources_spec (L : Lives s) : ends (quarantineResources pid) (Rests s) s := by
  refine wp_lookup (.refl L) fun _ _ => ?_
  have h : Stays s (setInfo pid { s.info pid with resourceQuarantined := true } s) ∧
      Spares s (setInfo pid { s.info pid with resourceQuarantined := true } s) := setInfo_stays L rfl id
  exact ⟨h.1, h.2, id⟩

lemma handleProcessKillRequest_spec {suspended} (L : Lives s) :
    ends (handleProcessKillRequest caller pid suspended) (Rests s) s := by
  refine wp_guard (.refl L) fun _ => wp_guard (.refl L) fun _ => ?_
  refine wp_lookup (.refl L) fun e he => ?_
  refine wp_ite (fun _ => .refl L) fun _ => wp_ite (fun _ => .refl L) fun _ => ?_
  rw [wp_bind]
  exact wp_answer (markExited_spec L) fun _ => .refl L

lemma handleExitRequest_spec {suspended quarantined} (L : Lives s) :
    ends (handleExitRequest pid suspended quarantined) (Rests s) s := by
  refine wp_guard (.refl L) fun _ => ?_
  refine wp_lookup (.refl L) fun e he => ?_
  rw [wp_bind]
  refine wp_answer ?_ fun _ => .refl L
  refine wp_then (markExited_spec L) (fun _ t S => ?_) fun _ _ => id
  refine wp_ite (fun _ => ?_) fun _ => S
  exact ends_mono (quarantineResources_spec (L.stays S.toStays)) fun _ => S.trans

/-- What an `exec` makes of the tables: the target lives, without its active references, and without
its deferred ones unless the memory manager refuses what comes before. -/
structure Execs (pid : Nat) (e : ProcessEntry) (p q : ProcessManager) : Prop where
  target : p.findEntryByPid pid = some e
  entries : q.entries = p.entries.insert pid { e with exited := false }
  next : q.nextPid = p.nextPid
  active : q.physicalAllocations = (p.physicalAllocations.removePid pid).2
  deferred : q.deferredPhysicalAllocations = p.deferredPhysicalAllocations ∨
    q.deferredPhysicalAllocations = (p.deferredPhysicalAllocations.removePid pid).2

lemma exec_processes {readable invalidated} {a : Alpha} :
    wp (Alpha.handleProcessExecMemoryRequest caller pid readable invalidated)
      (fun _ b => ∃ e, Execs pid e a.processes b.processes)
      (fun _ b => b.processes = a.processes ∨ ∃ e, Execs pid e a.processes b.processes) a := by
  refine wp_guard (.inl rfl) fun _ => ?_
  refine wp_lookup (.inl rfl) fun _ _ => wp_guard (.inl rfl) fun _ => wp_guard (.inl rfl) fun _ => ?_
  rw [wp_bind]
  refine Alpha.wp_answer ?_ fun _ => .inl rfl
  rw [Alpha.dropProcessRuntimeMappings, wp_bind]
  refine Alpha.wp_answer ?_ fun _ => .inl rfl
  rw [wp_bind, Alpha.wp_onProcesses]
  refine wp_lookup (.inl rfl) fun e he => ?_
  rw [wp_write, wp_pure]
  refine wp_then Alpha.freeEach_handed (fun _ b hb => ?_) fun _ b hb => .inr ⟨e, ?_⟩
  · refine wp_mono Alpha.freeDeferred_handed (fun _ c hc => ⟨e, ?_⟩) fun _ _ h => h.elim
    rw [hc.2, hb.2]
    exact ⟨he, rfl, rfl, rfl, .inr rfl⟩
  · rw [hb]
    exact ⟨he, rfl, rfl, rfl, .inl rfl⟩

/-- The tasks stay as they are, and whoever is not the target keeps what it holds. -/
structure Replaces (pid : Nat) (s t : Tasks) : Prop extends Stays s t where
  spares : ∀ q o, q ≠ pid → s.ownerOf q = some o → t.holdings q = s.holdings q

lemma Execs.replaces {e a} (X : Execs pid e s.processes a.processes) (L : Lives s) :
    Replaces pid s { s with alpha := a } := by
  refine ⟨L.update { e with exited := false } X.target rfl rfl X.entries X.next, fun q _ hq _ => ?_⟩
  have hactive : a.processes.physicalAllocations.forPid q = s.processes.physicalAllocations.forPid q := by
    rw [X.active]
    exact Alpha.forPid_removeEach hq _
  have hdeferred : a.processes.deferredPhysicalAllocations.forPid q =
      s.processes.deferredPhysicalAllocations.forPid q := by
    rcases X.deferred with h | h
    · rw [h]
    · rw [h]
      exact Alpha.forPid_removeEach hq _
  exact congrArg₂ (Holdings.mk _ _ _) hactive hdeferred

lemma Lives.replaces {a} (L : Lives s) (h : a.processes = s.processes) :
    Replaces pid s { s with alpha := a } := by
  refine ⟨{ Stays.refl L with
    keyed := fun x hx => L.keyed x (h ▸ hx)
    kin := fun q => kinOf_congr (congrArg _ h)
    next := (congrArg ProcessManager.nextPid h).ge }, fun q _ _ _ => ?_⟩
  exact congrArg (fun p : ProcessManager => Holdings.mk _ _ _ (p.physicalAllocations.forPid q)
    (p.deferredPhysicalAllocations.forPid q)) h

/-- The accounts stay in order if what the target has put off is not its own alone. -/
lemma exec_accounts {readable invalidated} (L : Lives s) :
    ends (onAlpha (Alpha.handleProcessExecMemoryRequest caller pid readable invalidated))
      (fun t => Alpha.Execable s.processes pid → s.Accounted → t.Accounted) s := by
  rw [ends, onAlpha, wp_zoom]
  by_cases hp : Alpha.Execable s.processes pid ∧ s.Accounted
  · exact ends_mono (Alpha.handleProcessExecMemoryRequest_spec (L.inv hp.2) hp.1)
      fun _ I _ _ => ⟨I.funds, I.known⟩
  · exact wp_of_run (fun _ _ _ h A => absurd ⟨h, A⟩ hp) fun _ _ _ h A => absurd ⟨h, A⟩ hp

lemma exec_replaces {readable invalidated} (L : Lives s) :
    wp (onAlpha (Alpha.handleProcessExecMemoryRequest caller pid readable invalidated))
      (fun _ t => Replaces pid s t ∧ ∃ o, s.ownerOf pid = some o) (fun _ => Replaces pid s) s := by
  rw [onAlpha, wp_zoom]
  refine wp_mono exec_processes ?_ ?_
  · rintro _ a ⟨e, X⟩
    exact ⟨X.replaces L, _, ownerOf_of_find X.target⟩
  · rintro _ a (h | ⟨e, X⟩)
    · exact L.replaces h
    · exact X.replaces L

lemma handleProcessExecMemoryRequest_spec {readable invalidated recreated table} (L : Lives s) :
    ends (handleProcessExecMemoryRequest caller pid readable invalidated recreated table)
      (fun t => Replaces pid s t ∧ (Alpha.Execable s.processes pid → s.Accounted → t.Accounted)) s := by
  refine wp_then (wp_and (exec_replaces L) (exec_accounts L)) ?_ fun _ _ h => h
  rintro _ t ⟨⟨R, o, hin⟩, hacc⟩
  rw [wp_bind]
  refine wp_answer ?_ fun _ => ⟨R, hacc⟩
  rw [wp_read, releasePageTables, wp_read]
  have tables : ∀ left free, Replaces pid s { t with
      pageTables := Function.update t.pageTables (t.info pid).rootSlot left
      freePageTables := free } := by
    intro left free
    refine ⟨{ R.toStays with }, fun q o' hq hown => ?_⟩
    rw [← R.spares q o' hq hown]
    refine congrArg (Holdings.mk _ _ · _ _) (Function.update_of_ne ?_ ..)
    rw [R.slots q o' hown, R.slots pid o hin]
    exact fun he => hq (L.apart hown hin he)
  refine wp_mono (releaseTables_spec rfl) ?_ ?_
  · rintro _ _ rfl
    exact ⟨tables _ _, hacc⟩
  · rintro _ _ ⟨left, free, rfl⟩
    exact ⟨tables left free, hacc⟩

/-! ## Runs -/

lemma withMemoryOf_stays (L : Lives s) : Stays s (withMemoryOf t s) := { Stays.refl L with }

/-- The events that may change what a task in the table holds: the `exec` of that task, and the requests
about memory. -/
def Event.Uses (owner : Nat) : Event → Prop
  | .exec _ target _ _ _ _ => target = owner
  | .request _ | .memory _ => True
  | _ => False

/-- What every event does to the tasks. -/
structure Handled (s : Tasks) (event : Event) (t : Tasks) : Prop where
  lives : Lives t
  proceeds : Proceeds s t
  spares : ∀ q o, ¬event.Uses q → s.ownerOf q = some o → t.ownerOf q = some o → q ∉ t.broken →
    t.holdings q = s.holdings q

lemma Outcome.handled (O : Outcome s t) : Handled s event t :=
  ⟨O.lives, O.handles.toProceeds, fun q o _ => O.handles.spares q o⟩

lemma Releases.log {members reaped} (R : Releases owner s t) :
    Releases owner s { t with members := members, reaped := reaped } := by
  obtain ⟨hin, u, hplaced, hold, D⟩ := R
  exact ⟨hin, u, hplaced, hold, D.gone, D.rootNode, D.arena, D.pageTables, D.recycled, D.references, D.handed⟩

lemma handle_spec (I : Inv s) (event : Event) : Handled s event (s.handle event) := by
  have L := I.toLives
  cases event with
  | spawn caller pages k => exact (stateAfter_of_wp (handleProcessSpawnRequest_spec L)).handled
  | rawTask caller source sharedVm clones accepted k =>
    exact (stateAfter_of_wp (handleRawTaskCreate_spec L)).handled
  | kill caller pid suspended =>
    exact ((stateAfter_of_wp (handleProcessKillRequest_spec L)).outcome L).handled
  | exit pid suspended quarantined => exact ((stateAfter_of_wp (handleExitRequest_spec L)).outcome L).handled
  | quarantine pid => exact ((stateAfter_of_wp (quarantineResources_spec L)).outcome L).handled
  | exec caller target readable invalidated recreated table =>
    obtain ⟨R, -⟩ := stateAfter_of_wp (handleProcessExecMemoryRequest_spec L)
    exact ⟨L.stays R.toStays, R.proceeds, fun q o hq hs _ _ => R.spares q o (fun he => hq he.symm) hs⟩
  | reap caller pid k k' =>
    rw [handle, afterReap]
    cases hrun : handleProcessReapRequest caller pid k k' s with
    | ok a t =>
      obtain ⟨⟨L', H⟩, -⟩ := wp_ok (handleProcessReapRequest_spec I) hrun
      refine ⟨L', ⟨H.next, H.broken, H.members, H.absent, fun q hq hn => ?_⟩, fun q o _ => H.spares q o⟩
      exact (H.departs q hq hn).log
    | error e t =>
      obtain ⟨⟨L', H⟩, -⟩ := wp_error (handleProcessReapRequest_spec I) hrun
      exact ⟨L', H.toProceeds, fun q o _ => H.spares q o⟩
  | request r =>
    exact ⟨L.stays (withMemoryOf_stays L), (withMemoryOf_stays L).proceeds, fun q o h => absurd trivial h⟩
  | memory request =>
    exact ⟨L.stays (withMemoryOf_stays L), (withMemoryOf_stays L).proceeds, fun q o h => absurd trivial h⟩

lemma step_inv (I : Inv s) (event : Event) : Inv (s.step event) := (handle_spec I event).lives.enrol

lemma run_inv (I : Inv s) (events : List Event) : Inv (s.run events) :=
  foldlRecOn events step I fun _ I event _ => step_inv I event

lemma start_inv {memory limit reserved} : Inv (start memory limit reserved) := by
  have hown : ∀ {p o}, (start memory limit reserved).ownerOf p = some o → p = 0 ∧ o = 0 := by
    intro p o h
    obtain ⟨e, he, rfl⟩ := ownerOf_eq_some.mp h
    have hmem := get?_eq_some.mp he
    obtain ⟨rfl, rfl⟩ := Prod.mk.inj (mem_singleton.mp hmem)
    exact ⟨rfl, rfl⟩
  have hmember : ∀ {p o}, (p, o) ∈ (start memory limit reserved).members → p = 0 ∧ o = 0 := by
    intro p o h
    exact Prod.mk.inj (mem_singleton.mp h)
  have halpha : (start memory limit reserved).ownerOf 0 = some 0 := rfl
  refine ⟨⟨fun e he => ?_, ⟨zero_lt_one, (by decide : 0 < processRootSlotBase)⟩, fun h => ?_, fun h => ?_,
    fun h h0 => ?_, fun h h' _ => ?_, fun h h' => ?_, fun h h' => ?_, fun h => ?_, fun h => ?_, fun h => ?_,
    fun {p o r} h => ?_, fun h h0 _ => ?_, fun h => ?_⟩, fun h => ?_⟩
  · obtain rfl := mem_singleton.mp he
    rfl
  · obtain ⟨rfl, -⟩ := hown h
    exact zero_lt_one
  · obtain ⟨-, rfl⟩ := hown h
    exact halpha
  · exact absurd (hown h).1 h0
  · rw [(hown h).1, (hown h').1]
  · rw [(hown h).2, (hmember h').2]
  · rw [(hmember h).2, (hmember h').2]
  · obtain ⟨-, rfl⟩ := hmember h
    exact mem_singleton_self _
  · obtain ⟨rfl, -⟩ := hmember h
    exact zero_lt_one
  · exact absurd h not_mem_nil
  · obtain ⟨e, he, hkin⟩ := Option.map_eq_some_iff.mp h
    obtain ⟨rfl, rfl⟩ := Prod.mk.inj (mem_singleton.mp (get?_eq_some.mp he))
    obtain ⟨rfl, rfl⟩ := Prod.mk.inj hkin
    exact ⟨.inl rfl, le_rfl⟩
  · exact absurd (hown h).1 h0
  · exact absurd h not_mem_nil
  · obtain ⟨rfl, rfl⟩ := hown h
    exact mem_singleton_self _

/-- The state after a number of events. -/
def history (s : Tasks) (events : List Event) (n : Nat) : Tasks := s.run (events.take n)

section

variable {events : List Event} {n m : Nat}

variable (I : Inv s)
include I

end

/-! ## The memory of a group -/

def AllReaped (s : Tasks) (owner : Nat) : Prop :=
  (∃ pid, (pid, owner) ∈ s.members) ∧ ∀ pid, (pid, owner) ∈ s.members → pid ∈ s.reaped

lemma Inv.gone (I : Inv s) (h : s.AllReaped o) : s.ownerOf o = none := by
  obtain ⟨⟨pid, hpid⟩, hall⟩ := h
  by_contra hne
  obtain ⟨o', ho⟩ := Option.ne_none_iff_exists'.mp hne
  obtain ⟨rfl, -, ⟨q, hq, hqo⟩ | ⟨q, hq, hqr, -⟩⟩ := I.waits (hall o (I.rooted hpid)) ho
  · exact hq (I.waits (hall q (I.enrolled hqo)) hqo).1.symm
  · exact hqr (hall q hq)

def willing : TearDownAnswers := ⟨false, none, none, none, fun _ => none, none⟩

def willingToCreate : CreateAnswers := ⟨none, none, none, none, none, willing⟩

lemma exists_some_of_any {α : Type} {o : Option α} {P : α → Prop} [DecidablePred P]
    (h : (o.any fun a => decide (P a)) = true) : ∃ a, o = some a ∧ P a := by
  simpa only [Option.any_eq_true, decide_eq_true_eq] using h

/-- Each task in the table has a root slot of its own, and with it an address space, page tables and an
arena, which are functions of that slot. -/
structure SlotsApart (s : Tasks) : Prop where
  apart : Set.InjOn (fun pid => (s.info pid).rootSlot) {pid | (s.ownerOf pid).isSome}
  placed : ∀ pid ≠ 0, (s.ownerOf pid).isSome → s.Placed (s.info pid).rootSlot

/-- In every run, whatever fails on the way. -/
theorem root_slots_apart (memory : MemoryManager) (limit : Nat) (reserved : List Nat)
    (events : List Event) : SlotsApart ((start memory limit reserved).run events) := by
  have I : Inv ((start memory limit reserved).run events) := run_inv start_inv events
  constructor
  · intro pid hpid q hq hslot
    obtain ⟨o, ho⟩ := Option.isSome_iff_exists.mp hpid
    obtain ⟨o', ho'⟩ := Option.isSome_iff_exists.mp hq
    exact I.apart ho ho' hslot
  · intro pid h0 hpid
    obtain ⟨o, ho⟩ := Option.isSome_iff_exists.mp hpid
    exact I.placed ho h0

end Tasks

end Nanami.Process
