import Nanami.Lib.Wp

/-!
# Queues of pending signals

Model of the signal state of Alter's tasks (`common/signals.rs`) and of the calls that queue a
signal to a task or to a thread group (`personality/linux/signals_runtime.rs`).

A slot of the table of managed processes holds the pid of its task, or 0 when it is free, and the
entry of a task stands under its pid. The dispositions and the queue of a group are shared between
tasks by `Rc`: they stand under a reference, and a task that gets its first signal state takes a
reference that no task holds.
-/

namespace Nanami.Alter
open Nanami.Lib

inductive Errno where
  | esrch
  | eio
  | ebadf
  | eagain
  | enomem
  | eacces
  | efault
  | ebusy
  | einval
  | emfile
  | enosys
  | eperm
  | enodev
  | eopnotsupp
  | etimedout
  | echild
  deriving DecidableEq, Repr

def sigchld : Nat := 17
def sigcont : Nat := 18
def sigstop : Nat := 19
def sigDfl : Nat := 0
def sigIgn : Nat := 1
def pendingLimit : Nat := 128

def bit (signal : Nat) : BitVec 64 := 1#64 <<< (signal - 1)

def defaultIgnored (signal : Nat) : Bool :=
  signal = sigchld || signal = sigcont || signal = 23 || signal = 28

def stopSignal (signal : Nat) : Bool :=
  signal = sigstop || signal = 20 || signal = 21 || signal = 22

structure Action where
  handler : Nat
  flags : Nat
  restorer : Nat
  mask : BitVec 64
  deriving DecidableEq, Repr

def Action.default : Action := ⟨0, 0, 0, 0⟩

/-- The parts of a `siginfo` that the kernel personality writes. -/
structure Info where
  signal : Nat
  code : Int
  sender : Nat
  status : Nat
  deriving DecidableEq, Repr

def Info.new (signal : Nat) (code : Int) (sender : Nat) : Info := ⟨signal, code, sender, 0⟩

/-- The signal state of a task; `actions` and `groupPending` are references. -/
structure Signals where
  actions : Nat
  blocked : BitVec 64
  pending : List Info
  groupPending : Nat
  waitMask : Option (BitVec 64)
  stopped : Bool
  childEvent : Option Nat
  childNotify : Bool
  deriving DecidableEq, Repr

/-- The fields of a `ManagedProcess` that the queues of signals depend on. -/
structure ManagedProcess where
  tgid : Nat
  exited : Bool
  signals : Option Signals
  deriving DecidableEq, Repr

structure Runtime where
  slots : List Nat
  process : Nat → ManagedProcess
  actions : Nat → Nat → Action
  groupPending : Nat → List Info
  signalsPending : Bool

/-- `Signals::enqueue_to`: whether the signal is accepted, and the queue afterwards. -/
def enqueueTo (pending : List Info) (info : Info) : Bool × List Info :=
  if info.signal < 32 && pending.any (fun queued => queued.signal == info.signal) then
    (true, pending)
  -- a standard signal has one record at most, so only realtime signals fill the queue
  else if info.signal ≥ 32 && pending.length ≥ pendingLimit then (false, pending)
  else (true, pending ++ [info])

namespace Runtime

def managedProcess (s : Runtime) (pid : Nat) : Option ManagedProcess :=
  if pid ≠ 0 ∧ pid ∈ s.slots then some (s.process pid) else none

def threadGroup (s : Runtime) (pid : Nat) : Nat :=
  (s.managedProcess pid).elim pid (·.tgid)

def liveTasks (s : Runtime) (group : Nat) : List Nat :=
  s.slots.filter fun pid => pid ≠ 0 && !(s.process pid).exited && (s.process pid).tgid = group

/-! ## The state of one task -/

def heldRef (s : Runtime) (pid : Nat) : Nat :=
  (s.process pid).signals.elim 0 fun state => max state.actions state.groupPending

def freshRef (s : Runtime) : Nat := (s.slots.map s.heldRef).foldr max 0 + 1

def setSignals (pid : Nat) (state : Signals) (s : Runtime) : Runtime :=
  { s with
    process := Function.update s.process pid { s.process pid with signals := some state } }

/-- `Signals::new`, for a task that has no signal state. -/
def newSignals (ref : Nat) : Signals where
  actions := ref
  blocked := 0
  pending := []
  groupPending := ref
  waitMask := none
  stopped := false
  childEvent := none
  childNotify := false

/-- The allocation of `signals_mut`. -/
def createSignals (pid : Nat) (s : Runtime) : Runtime :=
  { s.setSignals pid (newSignals s.freshRef) with
    actions := Function.update s.actions s.freshRef fun _ => Action.default
    groupPending := Function.update s.groupPending s.freshRef [] }

/-- `signals_mut`: the state of the task, which has one from here on. -/
def signalsMut (pid : Nat) : EStateM Errno Runtime Signals := do
  match ((← get).process pid).signals with
  | some state => return state
  | none =>
    let ref := (← get).freshRef
    modify (createSignals pid)
    return newSignals ref

def action (s : Runtime) (state : Signals) (signal : Nat) : Action :=
  s.actions state.actions (signal - 1)

/-- Keep the pending signals of the task and of its group that satisfy `keep`. -/
def retain (keep : Nat → Bool) (pid : Nat) (state : Signals) (s : Runtime) : Runtime :=
  { s.setSignals pid { state with pending := state.pending.filter fun i => keep i.signal } with
    groupPending := Function.update s.groupPending state.groupPending
      ((s.groupPending state.groupPending).filter fun i => keep i.signal) }

def discardStops (pid : Nat) (state : Signals) (s : Runtime) : Runtime :=
  s.retain (fun signal => !stopSignal signal) pid state

def discard (signal pid : Nat) (state : Signals) (s : Runtime) : Runtime :=
  s.retain (fun queued => queued ≠ signal) pid state

def cancel (signal pid : Nat) (state : Signals) (s : Runtime) : Runtime :=
  if signal = sigcont then s.discardStops pid state
  else if stopSignal signal then s.discard sigcont pid state
  else s

/-- The task goes on if it was stopped, and its parent is to be told. -/
def resume (state : Signals) : Signals :=
  if state.stopped then
    { state with stopped := false, childEvent := some 0xffff, childNotify := true }
  else state

def enqueueGroup (state : Signals) (info : Info) (s : Runtime) : Bool × Runtime :=
  let queued := enqueueTo (s.groupPending state.groupPending) info
  (queued.1,
    { s with groupPending := Function.update s.groupPending state.groupPending queued.2 })

/-- `Signals::enqueue`, which cancels the opposite signals once more. -/
def enqueue (pid : Nat) (state : Signals) (info : Info) (s : Runtime) : Bool × Runtime :=
  let s := s.cancel info.signal pid state
  let state := (s.process pid).signals.getD state
  let queued := enqueueTo state.pending info
  (queued.1, s.setSignals pid { state with pending := queued.2 })

/-- The signal has no effect on the task besides what it cancels. -/
def ignores (action : Action) (state : Signals) (signal : Nat) : Bool :=
  action.handler = sigIgn ||
    (action.handler = sigDfl && defaultIgnored signal && state.blocked &&& bit signal = 0 &&
      state.waitMask.all fun mask => mask &&& bit signal = 0)

/-! ## Queueing -/

/-- The end of `queue_to`, for a task that has a signal state. -/
def queueState (pid : Nat) (info : Info) (group : Bool) (state : Signals) :
    EStateM Errno Runtime Unit := do
  let s ← get
  let action := s.action state info.signal
  let s := s.cancel info.signal pid state
  let state := (s.process pid).signals.getD state
  let queued :=
    if ignores action state info.signal then (true, s)
    else if group then s.enqueueGroup state info
    else s.enqueue pid state info
  set queued.2
  if !queued.1 then throw .eagain
  else modify fun s => { s with signalsPending := true }

def queueTo (pid : Nat) (info : Info) (group : Bool) : EStateM Errno Runtime Unit :=
  if info.signal = 0 ∨ info.signal > 64 then throw .einval
  else do
    let process ← okOr ((← get).managedProcess pid) .esrch
    if process.exited then throw .esrch
    else if process.signals.isNone && defaultIgnored info.signal then return
    else
      let state ← signalsMut pid
      let state := if info.signal = sigcont then resume state else state
      modify (setSignals pid state)
      queueState pid info group state

/-- The loop of `queue_group` over the tasks of the group. -/
def queueEach (info : Info) : List Nat → EStateM Errno Runtime Unit
  | [] => pure ()
  | tid :: rest => do
    queueTo tid info false
    queueEach info rest

def actsByDefault (s : Runtime) (pid signal : Nat) : Bool :=
  ((s.managedProcess pid).bind (·.signals)).all fun state =>
    (s.action state signal).handler = sigDfl

def queueGroup (pid : Nat) (info : Info) : EStateM Errno Runtime Unit := do
  let s ← get
  let group := s.threadGroup pid
  let target ← okOr (s.liveTasks group).head? .esrch
  -- default job-control actions affect every task, not just one recipient
  if (stopSignal info.signal || info.signal = sigcont) && s.actsByDefault target info.signal then
    queueEach info (s.liveTasks group)
  else queueTo target info true

end Runtime

end Nanami.Alter
