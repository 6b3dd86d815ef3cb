import Nanami.Alter.Signals

/-!
# Stops and SIGCONT cancel each other

What queueing a stop signal or SIGCONT to a thread group leaves behind. `queue_to` cancels what is
opposed to the signal on the task it is called for and in the queue of that task's group, so a
default action, which is queued to every live task, leaves nothing opposed. A signal that the first
live task of the group catches or ignores is queued to that task alone.
-/

namespace Nanami.Alter
open Nanami.Lib

variable {s t : Runtime} {signal pid group : Nat} {info : Info} {state : Signals}
  {own shared : List Info}

def JobSignal (signal : Nat) : Prop := signal = sigcont ∨ stopSignal signal = true

instance : Decidable (JobSignal signal) := inferInstanceAs (Decidable (_ ∨ _))

def opposed (signal queued : Nat) : Bool :=
  if signal = sigcont then stopSignal queued else queued = sigcont

def Without (signal : Nat) (queue : List Info) : Prop :=
  ∀ i ∈ queue, opposed signal i.signal = false

instance : Decidable (Without signal own) := inferInstanceAs (Decidable (∀ i ∈ own, _))

def Signals.Quiet (signal : Nat) (state : Signals) : Prop :=
  (signal = sigcont → state.stopped = false) ∧ Without signal state.pending

/-- The task is not stopped under SIGCONT, and nothing opposed to the signal is pending on it or on
its group. -/
def Runtime.Settled (signal : Nat) (s : Runtime) (pid : Nat) : Prop :=
  ∀ state, (s.process pid).signals = some state →
    state.Quiet signal ∧ Without signal (s.groupPending state.groupPending)

/-! ## Queues -/

lemma opposed_self (h : JobSignal signal) : opposed signal signal = false := by
  obtain rfl | h := h
  · rfl
  · have hne : signal ≠ sigcont := by
      rintro rfl
      cases h
    simp [opposed, hne]

lemma JobSignal.bounds (h : JobSignal signal) : 0 < signal ∧ signal < 32 := by
  simp only [JobSignal, stopSignal, Bool.or_eq_true, decide_eq_true_eq] at h
  simp only [sigcont, sigstop] at h
  omega

lemma without_filter {queue : List Info} :
    Without signal (queue.filter fun i => !opposed signal i.signal) := by
  intro i hi
  simpa using (List.mem_filter.1 hi).2

lemma enqueueTo_accepts {queue} (h : JobSignal info.signal) : (enqueueTo queue info).1 = true := by
  have hlt := h.bounds.2
  simp only [enqueueTo]
  split
  · rfl
  · rw [if_neg]
    simp
    omega

lemma mem_enqueueTo {queue i} (h : i ∈ (enqueueTo queue info).2) : i ∈ queue ∨ i = info := by
  simp only [enqueueTo] at h
  split at h
  · exact .inl h
  · split at h
    · exact .inl h
    · simpa using h

lemma Without.enqueueTo {queue} (h : JobSignal info.signal) (hq : Without info.signal queue) :
    Without info.signal (enqueueTo queue info).2 := by
  intro i hi
  obtain hi | rfl := mem_enqueueTo hi
  · exact hq i hi
  · exact opposed_self h

namespace Runtime

lemma cancel_eq (h : JobSignal signal) :
    s.cancel signal pid state = s.retain (fun queued => !opposed signal queued) pid state := by
  by_cases hc : signal = sigcont
  · simp [cancel, discardStops, opposed, hc]
  · have hs : stopSignal signal = true := h.resolve_left hc
    simp [cancel, discard, opposed, hc, hs]

/-! ## One task -/

def settle (pid : Nat) (state : Signals) (own shared : List Info) (s : Runtime) : Runtime :=
  { s.setSignals pid { state with pending := own } with
    groupPending := Function.update s.groupPending state.groupPending shared }

@[simp] lemma settle_self : ((s.settle pid state own shared).process pid).signals =
    some { state with pending := own } := by
  simp [settle, setSignals]

variable {q : Nat} {byGroup : Bool}

lemma settle_other (h : q ≠ pid) : (s.settle pid state own shared).process q = s.process q := by
  simp [settle, setSignals, h]

lemma settle_settle {own' shared'} :
    (s.settle pid state own shared).settle pid { state with pending := own } own' shared' =
      s.settle pid state own' shared' := by
  simp [settle, setSignals]

lemma retain_eq {keep} : s.retain keep pid state = s.settle pid state
    (state.pending.filter fun i => keep i.signal)
    ((s.groupPending state.groupPending).filter fun i => keep i.signal) := rfl

lemma enqueueGroup_settle : (s.settle pid state own shared).enqueueGroup
    { state with pending := own } info =
      ((enqueueTo shared info).1, s.settle pid state own (enqueueTo shared info).2) := by
  simp [enqueueGroup, settle, setSignals]

lemma enqueue_settle (h : JobSignal info.signal) : (s.settle pid state own shared).enqueue pid
    { state with pending := own } info =
      ((enqueueTo (own.filter fun i => !opposed info.signal i.signal) info).1,
        s.settle pid state
          (enqueueTo (own.filter fun i => !opposed info.signal i.signal) info).2
          (shared.filter fun i => !opposed info.signal i.signal)) := by
  simp only [enqueue, cancel_eq h, retain_eq, settle_settle, settle_self, Option.getD_some]
  simp [settle, setSignals]

/-- Whichever way the signal goes, what is opposed to it is gone from the queues of the task and of
its group. -/
lemma queueState_settles (h : JobSignal info.signal) :
    sure (queueState pid info byGroup state)
      (fun _ t => ∃ own shared, Without info.signal own ∧ Without info.signal shared ∧
        t = { s.settle pid state own shared with signalsPending := true }) s := by
  have hown := @without_filter info.signal state.pending
  have hshared := @without_filter info.signal (s.groupPending state.groupPending)
  simp only [queueState, wp_bind, wp_get, cancel_eq h, retain_eq, settle_self,
    Option.getD_some]
  split
  · exact ⟨_, _, hown, hshared, rfl⟩
  · split
    · simp only [enqueueGroup_settle, enqueueTo_accepts h]
      exact ⟨_, _, hown, hshared.enqueueTo h, rfl⟩
    · simp only [enqueue_settle h, enqueueTo_accepts h]
      exact ⟨_, _, without_filter.enqueueTo h, without_filter, rfl⟩

/-! ## References -/

lemma heldRef_lt_freshRef (h : pid ∈ s.slots) : s.heldRef pid < s.freshRef := by
  have hmem : s.heldRef pid ∈ s.slots.map s.heldRef := List.mem_map.2 ⟨pid, h, rfl⟩
  exact Nat.lt_succ_of_le (List.le_max_of_le hmem le_rfl)

/-- The queue of a task's group is not the one of a signal state that is created now. -/
lemma groupPending_ne_freshRef (h : pid ∈ s.slots) (hs : (s.process pid).signals = some state) :
    state.groupPending ≠ s.freshRef := by
  have hlt := heldRef_lt_freshRef h
  simp only [heldRef, hs, Option.elim_some] at hlt
  omega

/-! ## What one call of `queue_to` does -/

/-- A task is settled, and no other task of the table has got anything opposed to the signal. -/
structure Settles (signal pid : Nat) (s t : Runtime) : Prop where
  slots : t.slots = s.slots
  other : ∀ q, q ≠ pid → t.process q = s.process q
  exited : (t.process pid).exited = (s.process pid).exited
  tgid : (t.process pid).tgid = (s.process pid).tgid
  settled : t.Settled signal pid
  keeps : ∀ q ∈ s.slots, q ≠ pid → s.Settled signal q → t.Settled signal q

lemma Settled.of_signals_none (h : (s.process pid).signals = none) : s.Settled signal pid := by
  intro state hs
  rw [h] at hs
  cases hs

lemma resume_stopped : (resume state).stopped = false := by
  simp only [resume]
  split
  · rfl
  · rename_i h
    simpa using h

lemma resume_groupPending : (resume state).groupPending = state.groupPending := by
  simp only [resume]
  split <;> rfl

def woken (signal : Nat) (state : Signals) : Signals :=
  if signal = sigcont then resume state else state

lemma woken_stopped (h : signal = sigcont) : (woken signal state).stopped = false := by
  rw [woken, if_pos h]
  exact resume_stopped

lemma woken_groupPending : (woken signal state).groupPending = state.groupPending := by
  simp only [woken]
  split
  · exact resume_groupPending
  · rfl

lemma settle_settles (hown : Without signal own) (hshared : Without signal shared)
    (hs : signal = sigcont → state.stopped = false) :
    Settles signal pid s { s.settle pid state own shared with signalsPending := true } where
  slots := rfl
  other q hq := by simp [settle_other hq]
  exited := by simp [settle, setSignals]
  tgid := by simp [settle, setSignals]
  settled := by
    intro state' h'
    rw [settle_self, Option.some.injEq] at h'
    subst h'
    refine ⟨⟨hs, hown⟩, ?_⟩
    simpa [settle] using hshared
  keeps := by
    intro q _ hq hset state' h'
    have hbefore : (s.process q).signals = some state' := by simpa [settle_other hq] using h'
    obtain ⟨hquiet, hwithout⟩ := hset state' hbefore
    refine ⟨hquiet, ?_⟩
    by_cases hr : state'.groupPending = state.groupPending
    · simpa [settle, hr] using hshared
    · simpa [settle, Function.update_of_ne hr] using hwithout

lemma Settles.refl (h : (s.process pid).signals = none) : Settles signal pid s s where
  slots := rfl
  other _ _ := rfl
  exited := rfl
  tgid := rfl
  settled := .of_signals_none h
  keeps _ _ _ hset := hset

lemma Settles.of_create (h : Settles signal pid (s.createSignals pid) t) :
    Settles signal pid s t where
  slots := h.slots
  other q hq := by
    rw [h.other q hq]
    simp [createSignals, setSignals, hq]
  exited := by
    rw [h.exited]
    simp [createSignals, setSignals]
  tgid := by
    rw [h.tgid]
    simp [createSignals, setSignals]
  settled := h.settled
  keeps q hmem hq hset := by
    refine h.keeps q hmem hq ?_
    intro state hs
    have hs' : (s.process q).signals = some state := by
      simpa [createSignals, setSignals, hq] using hs
    have hne := groupPending_ne_freshRef hmem hs'
    obtain ⟨hquiet, hwithout⟩ := hset state hs'
    refine ⟨hquiet, ?_⟩
    simpa [createSignals, hne] using hwithout

lemma queueWoken_settles (h : JobSignal info.signal) :
    sure (queueState pid info byGroup (woken info.signal state))
      (fun _ t => ∃ own shared, Without info.signal own ∧ Without info.signal shared ∧
        t = { s.settle pid (woken info.signal state) own shared with signalsPending := true })
      (s.setSignals pid (woken info.signal state)) := by
  refine wp_post (queueState_settles h) ?_
  rintro _ t ⟨own, shared, hown, hshared, rfl⟩
  exact ⟨own, shared, hown, hshared, by simp [settle, setSignals]⟩

lemma queueTo_of_state (h : JobSignal info.signal) (hpid : pid ≠ 0) (hmem : pid ∈ s.slots)
    (hlive : (s.process pid).exited = false) (hs : (s.process pid).signals = some state) :
    sure (queueTo pid info byGroup)
      (fun _ t => ∃ own shared, Without info.signal own ∧ Without info.signal shared ∧
        t = { s.settle pid (woken info.signal state) own shared with signalsPending := true })
      s := by
  have hrange := h.bounds
  have hprocess : s.managedProcess pid = some (s.process pid) := if_pos ⟨hpid, hmem⟩
  refine wp_ite (fun hbad => by omega) fun _ => ?_
  simp only [wp_bind, wp_get, hprocess, okOr_some]
  refine wp_ite (fun he => by simp [hlive] at he) fun _ =>
    wp_ite (fun hnone => by simp [hs] at hnone) fun _ => ?_
  simp only [signalsMut, wp_bind, wp_get, hs]
  exact queueWoken_settles h

/-- A job-control signal is accepted by every live task, and settles it. -/
lemma queueTo_settles (h : JobSignal info.signal) (hpid : pid ≠ 0) (hmem : pid ∈ s.slots)
    (hlive : (s.process pid).exited = false) :
    sure (queueTo pid info byGroup) (fun _ => Settles info.signal pid s)
      s := by
  have hrange := h.bounds
  have hprocess : s.managedProcess pid = some (s.process pid) := if_pos ⟨hpid, hmem⟩
  cases hs : (s.process pid).signals with
  | some state =>
    refine wp_post (queueTo_of_state h hpid hmem hlive hs) ?_
    rintro _ t ⟨own, shared, hown, hshared, rfl⟩
    exact settle_settles hown hshared woken_stopped
  | none =>
    refine wp_ite (fun hbad => by omega) fun _ => ?_
    simp only [wp_bind, wp_get, hprocess, okOr_some]
    refine wp_ite (fun he => by simp [hlive] at he) fun _ =>
      wp_ite (fun _ => .refl hs) fun _ => ?_
    simp only [signalsMut, wp_bind, wp_get, hs, wp_modify, wp_pure]
    refine wp_post (queueWoken_settles h) ?_
    rintro _ t ⟨own, shared, hown, hshared, rfl⟩
    exact (settle_settles hown hshared woken_stopped).of_create

lemma queueEach_settles (h : JobSignal info.signal) {tasks}
    (htasks : ∀ q ∈ tasks, q ≠ 0 ∧ q ∈ s.slots ∧ (s.process q).exited = false) :
    sure (queueEach info tasks)
      (fun _ t => t.slots = s.slots ∧
        (∀ q, (t.process q).exited = (s.process q).exited ∧
          (t.process q).tgid = (s.process q).tgid) ∧
        ∀ q ∈ s.slots, q ∈ tasks ∨ s.Settled info.signal q → t.Settled info.signal q) s := by
  induction tasks generalizing s with
  | nil => exact ⟨rfl, fun _ => ⟨rfl, rfl⟩, fun _ _ hq => hq.resolve_left List.not_mem_nil⟩
  | cons tid rest ih =>
    obtain ⟨hpid, hmem, hlive⟩ := htasks tid List.mem_cons_self
    simp only [queueEach, wp_bind]
    refine wp_post (queueTo_settles h hpid hmem hlive) ?_
    intro _ u hu
    have hsame : ∀ q, (u.process q).exited = (s.process q).exited ∧
        (u.process q).tgid = (s.process q).tgid := by
      intro q
      by_cases hq : q = tid
      · subst hq
        exact ⟨hu.exited, hu.tgid⟩
      · rw [hu.other q hq]
        exact ⟨rfl, rfl⟩
    have hrest : ∀ q ∈ rest, q ≠ 0 ∧ q ∈ u.slots ∧ (u.process q).exited = false := by
      intro q hq
      rw [hu.slots, (hsame q).1]
      exact htasks q (List.mem_cons_of_mem _ hq)
    refine wp_post (ih hrest) ?_
    rintro _ t ⟨hslots, hkept, hset⟩
    refine ⟨hslots.trans hu.slots, fun q => ?_, fun q hq hor => hset q (hu.slots ▸ hq) ?_⟩
    · rw [(hkept q).1, (hkept q).2]
      exact hsame q
    · by_cases hqt : q = tid
      · subst hqt
        exact .inr hu.settled
      · exact hor.imp (fun hm => (List.mem_cons.1 hm).resolve_left hqt) (hu.keeps q hq hqt)

/-! ## The group -/

lemma mem_liveTasks : q ∈ s.liveTasks group ↔
    q ∈ s.slots ∧ q ≠ 0 ∧ (s.process q).exited = false ∧ (s.process q).tgid = group := by
  simp [liveTasks, and_assoc]

lemma liveTasks_congr (hslots : t.slots = s.slots)
    (hsame : ∀ q, (t.process q).exited = (s.process q).exited ∧
      (t.process q).tgid = (s.process q).tgid) : t.liveTasks group = s.liveTasks group := by
  simp only [liveTasks, hslots, (hsame _).1, (hsame _).2]

def SharesQueue (s : Runtime) (p q : Nat) : Prop :=
  (s.process p).signals.map (·.groupPending) = (s.process q).signals.map (·.groupPending)

def SettledBeside (signal target : Nat) (s : Runtime) (pid : Nat) : Prop :=
  ∀ state, (s.process pid).signals = some state →
    state.Quiet signal ∧
      (s.SharesQueue pid target ∨ Without signal (s.groupPending state.groupPending))

def GroupSettled (signal group : Nat) (s : Runtime) : Prop :=
  ∀ q ∈ s.liveTasks group, s.Settled signal q

lemma queueEach_group (h : JobSignal info.signal) :
    sure (queueEach info (s.liveTasks group)) (fun _ t => t.GroupSettled info.signal group) s := by
  have htasks : ∀ q ∈ s.liveTasks group, q ≠ 0 ∧ q ∈ s.slots ∧ (s.process q).exited = false := by
    intro q hq
    obtain ⟨hmem, hpid, hlive, -⟩ := mem_liveTasks.1 hq
    exact ⟨hpid, hmem, hlive⟩
  refine wp_post (queueEach_settles h htasks) ?_
  rintro _ t ⟨hslots, hsame, hset⟩ q hq
  rw [liveTasks_congr hslots hsame] at hq
  exact hset q (mem_liveTasks.1 hq).1 (.inl hq)

/-- A task beside the target of `queue_to` is settled afterwards iff it was so beside it. -/
lemma settled_beside {target} (hs : (s.process target).signals = some state)
    (hshared : Without signal shared) (hq : q ≠ target) :
    ({ s.settle target (woken signal state) own shared with signalsPending := true } :
      Runtime).Settled signal q ↔ s.SettledBeside signal target q := by
  have hprocess : ∀ state', ((s.settle target (woken signal state) own shared).process q).signals =
      some state' ↔ (s.process q).signals = some state' := by
    intro state'
    rw [settle_other hq]
  refine forall_congr' fun state' => ?_
  simp only [hprocess]
  refine imp_congr_right fun h' => and_congr_right fun _ => ?_
  have hshare : s.SharesQueue q target ↔ state'.groupPending = state.groupPending := by
    simp [SharesQueue, h', hs]
  rw [hshare]
  simp only [settle, woken_groupPending]
  by_cases hr : state'.groupPending = state.groupPending
  · simp [hr, hshared]
  · simp [hr]

/-- A signal that is queued to the target alone settles the group iff the others were settled. -/
lemma queueTo_group {target} (h : JobSignal info.signal) (htarget : target ∈ s.liveTasks group)
    (hs : (s.process target).signals = some state) :
    sure (queueTo target info byGroup)
      (fun _ t => t.GroupSettled info.signal group ↔
        ∀ q ∈ s.liveTasks group, q ≠ target → s.SettledBeside info.signal target q) s := by
  obtain ⟨hmem, hpid, hlive, -⟩ := mem_liveTasks.1 htarget
  refine wp_post (queueTo_of_state h hpid hmem hlive hs) ?_
  rintro _ t ⟨own, shared, hown, hshared, rfl⟩
  have hsettles := @settle_settles s info.signal target (woken info.signal state) own shared hown
    hshared woken_stopped
  have hsame : ∀ q, ((s.settle target (woken info.signal state) own shared).process q).exited =
      (s.process q).exited ∧
      ((s.settle target (woken info.signal state) own shared).process q).tgid =
        (s.process q).tgid := by
    intro q
    by_cases hq : q = target
    · subst hq
      exact ⟨hsettles.exited, hsettles.tgid⟩
    · rw [settle_other hq]
      exact ⟨rfl, rfl⟩
  have htasks : ({ s.settle target (woken info.signal state) own shared with
      signalsPending := true } : Runtime).liveTasks group = s.liveTasks group :=
    liveTasks_congr rfl hsame
  simp only [GroupSettled, htasks]
  constructor
  · intro hset q hq hne
    exact (settled_beside hs hshared hne).1 (hset q hq)
  · intro hset q hq
    by_cases hne : q = target
    · subst hne
      exact hsettles.settled
    · exact (settled_beside hs hshared hne).2 (hset q hq hne)

/-- Queueing a stop signal or SIGCONT to a thread group leaves nothing opposed to it exactly if the
first live task of the group has the default action for it, or no other live task needed anything
cancelled. -/
theorem queueGroup_settles_iff (s : Runtime) (pid : Nat) (info : Info)
    (h : JobSignal info.signal) :
    (stateAfter (queueGroup pid info) s).GroupSettled info.signal (s.threadGroup pid) ↔
      ∀ target ∈ (s.liveTasks (s.threadGroup pid)).head?,
        s.actsByDefault target info.signal = true ∨
          ∀ q ∈ s.liveTasks (s.threadGroup pid), q ≠ target →
            s.SettledBeside info.signal target q := by
  refine stateAfter_of_wp (P := fun t : Runtime => t.GroupSettled info.signal (s.threadGroup pid) ↔ _) ?_
  simp only [queueGroup, wp_bind, wp_get]
  cases hhead : (s.liveTasks (s.threadGroup pid)).head? with
  | none =>
    -- the group has no live task
    have hnil : s.liveTasks (s.threadGroup pid) = [] := List.head?_eq_none_iff.1 hhead
    simp [okOr, GroupSettled, hnil]
  | some target =>
    have htarget : target ∈ s.liveTasks (s.threadGroup pid) := List.mem_of_head? hhead
    have hjob : (stopSignal info.signal || decide (info.signal = sigcont)) = true := by
      simpa [JobSignal, or_comm] using h
    simp only [okOr_some, hjob, Bool.true_and, Option.mem_def, Option.some.injEq,
      forall_eq']
    refine wp_ite (fun hdefault => ?_) fun hcaught => ?_
    · refine wp_mono (queueEach_group h) ?_ fun _ _ hf => hf.elim
      intro _ t ht
      exact iff_of_true ht (.inl hdefault)
    · obtain ⟨hmem, hpid, -, -⟩ := mem_liveTasks.1 htarget
      cases hs : (s.process target).signals with
      | none => simp [actsByDefault, managedProcess, hpid, hmem, hs] at hcaught
      | some state =>
        refine wp_mono (queueTo_group h htarget hs) ?_ fun _ _ hf => hf.elim
        intro _ t ht
        rw [ht]
        exact (or_iff_right hcaught).symm

/-! ## A group of two tasks, the second of them stopped -/

/-- Two threads with their dispositions and their group's queue in common. The second one is
stopped, with a SIGTSTP pending. -/
def stoppedThread (handler : Nat) : Runtime where
  slots := [0, 1, 2]
  process pid :=
    { tgid := 1
      exited := false
      signals := some
        { newSignals 1 with
          stopped := pid = 2
          pending := if pid = 2 then [Info.new 20 0 1] else [] } }
  actions _ _ := { Action.default with handler := handler }
  groupPending _ := []
  signalsPending := false

/-- A stopped thread is continued by the default action. -/
theorem queueGroup_settles_default :
    JobSignal (Info.new sigcont 0 1).signal ∧
      (stateAfter (queueGroup 1 (Info.new sigcont 0 1)) (stoppedThread sigDfl)).GroupSettled
        sigcont 1 := by
  refine ⟨.inl rfl, (queueGroup_settles_iff (stoppedThread sigDfl) 1 (.new sigcont 0 1)
    (.inl rfl)).2 ?_⟩
  intro target _
  left
  simp [actsByDefault, managedProcess, stoppedThread, action]

/-- The first task catches SIGCONT: the second one stays stopped, with its SIGTSTP pending. -/
theorem queueGroup_caught_leaves_stopped :
    ¬(stateAfter (queueGroup 1 (Info.new sigcont 0 1)) (stoppedThread 0x1000)).GroupSettled
      sigcont 1 := by
  intro h
  obtain ⟨hquiet, -⟩ := h 2 (by decide) _ rfl
  cases hquiet.1 rfl

end Runtime

end Nanami.Alter
