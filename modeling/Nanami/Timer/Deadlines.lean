import Nanami.Lib.Heap

/-!
# Pending timers of the timer server

`Deadlines` of `timer-server`: the timers that wait for their tick, in a heap of fixed size. Every
state that calls lead to is compared with the multiset of the timers it holds.
-/

namespace Nanami.Timer

open Lib Function

def maxPendingAsyncTimers : Nat := 512

structure PendingAsyncTimer where
  targetTick : Nat
  intervalTicks : Nat
  notificationDescriptor : Nat
  alarm : Bool
  deriving DecidableEq, Repr

structure Deadlines where
  entries : Nat → PendingAsyncTimer
  len : Nat

namespace Deadlines

def new : Deadlines := ⟨fun _ => ⟨0, 0, 0, false⟩, 0⟩

def next (d : Deadlines) : Option Nat :=
  if d.len ≠ 0 then some (d.entries 0).targetTick else none

def siftUp (d : Deadlines) (index : Nat) : Deadlines :=
  { d with entries := Heap.siftUp PendingAsyncTimer.targetTick d.entries index }

def siftDown (d : Deadlines) (index : Nat) : Deadlines :=
  { d with entries := Heap.siftDown PendingAsyncTimer.targetTick d.entries d.len index }

def push (d : Deadlines) (timer : PendingAsyncTimer) : Bool × Deadlines :=
  if d.len = maxPendingAsyncTimers then (false, d)
  else (true, siftUp ⟨update d.entries d.len timer, d.len + 1⟩ d.len)

def remove (d : Deadlines) (index : Nat) : PendingAsyncTimer × Deadlines :=
  let len := d.len - 1
  (d.entries index,
    if index ≠ len then
      let moved : Deadlines := ⟨update d.entries index (d.entries len), len⟩
      if index ≠ 0 ∧
          (moved.entries index).targetTick < (moved.entries ((index - 1) / 2)).targetTick then
        moved.siftUp index
      else moved.siftDown index
    else { d with len })

def popDue (d : Deadlines) (now : Nat) : Option (PendingAsyncTimer × Deadlines) :=
  if d.next.all fun deadline => deadline > now then none else some (d.remove 0)

def removeAlarm (d : Deadlines) (descriptor : Nat) : Deadlines :=
  ((List.range d.len).find? fun i =>
    (d.entries i).alarm && (d.entries i).notificationDescriptor == descriptor).elim d
    fun index => (d.remove index).2

/-- The first loop of `retire`: `len` counts what is kept. -/
def keep (descriptor : Nat) (d : Deadlines) (index : Nat) : Deadlines :=
  if (d.entries index).notificationDescriptor ≠ descriptor then
    ⟨update d.entries d.len (d.entries index), d.len + 1⟩
  else d

def retire (d : Deadlines) (descriptor : Nat) : Deadlines :=
  let kept := (List.range d.len).foldl (keep descriptor) { d with len := 0 }
  { kept with entries := Heap.heapify PendingAsyncTimer.targetTick kept.entries kept.len }

def timers (d : Deadlines) : Multiset PendingAsyncTimer := Heap.contents d.entries d.len

structure Valid (d : Deadlines) : Prop where
  room : d.len ≤ maxPendingAsyncTimers
  ordered : Heap.Ordered PendingAsyncTimer.targetTick d.entries d.len 0

variable {d : Deadlines} {index descriptor now : Nat} {timer : PendingAsyncTimer}

lemma card_timers : d.timers.card = d.len := by
  simp [timers, Heap.contents]

lemma Valid.push (h : d.Valid) (hroom : d.len < maxPendingAsyncTimers) :
    (d.push timer).1 = true ∧ (d.push timer).2.timers = timer ::ₘ d.timers ∧
      (d.push timer).2.Valid := by
  rw [Deadlines.push, if_neg hroom.ne]
  have haround := h.ordered.fill (a := timer) (i := d.len) (m := d.len + 1) fun j hj hne => by omega
  refine ⟨rfl, (Heap.contents_siftUp (Nat.lt_succ_self _)).trans Heap.contents_push, hroom,
    Heap.siftUp_ordered haround (Nat.lt_succ_self _) fun j h0 (hj : j < d.len + 1) hp => ?_⟩
  have hparent := Heap.parent_lt h0
  omega

/-- An entry leaves the heap, and the others stay. -/
lemma Valid.remove (h : d.Valid) (hi : index < d.len) :
    d.timers = d.entries index ::ₘ (d.remove index).2.timers ∧ (d.remove index).2.Valid := by
  obtain ⟨entries, len⟩ := d
  obtain ⟨hroom, hordered⟩ := h
  obtain ⟨len, rfl⟩ : ∃ n, len = n + 1 := Nat.exists_eq_succ_of_ne_zero (by simp only at hi; omega)
  simp only at hi hroom hordered
  have hcontents := Heap.contents_remove (e := entries) (Nat.le_of_lt_succ hi)
  simp only [Deadlines.remove, Nat.add_sub_cancel]
  split
  case isFalse hlast =>
    obtain rfl : index = len := not_not.mp hlast
    rw [update_eq_self] at hcontents
    exact ⟨hcontents.symm, by simp only; omega, fun j h0 hj => hordered j h0 (Nat.lt_succ_of_lt hj)⟩
  case isTrue hlast =>
    have hlt : index < len := by omega
    have haround := hordered.fill (a := entries len) (i := index) (m := len) fun j hj _ => by omega
    split
    case isTrue hup =>
      refine ⟨hcontents.symm.trans (congrArg _ (Heap.contents_siftUp hlt).symm),
        (Nat.le_succ len).trans hroom, Heap.siftUp_ordered haround hlt fun j h0 hj hp => ?_⟩
      exact hup.2.le.trans (haround.below j h0 hj hp (Nat.pos_of_ne_zero hup.1) (Nat.zero_le _))
    case isFalse hdown =>
      refine ⟨hcontents.symm.trans (congrArg _ Heap.contents_siftDown.symm),
        (Nat.le_succ len).trans hroom, Heap.siftDown_ordered haround (Nat.zero_le _) fun h0 _ => ?_⟩
      exact not_lt.mp fun hlt => hdown ⟨h0.ne', hlt⟩

/-- After `k` rounds the front of the array has what is kept of the first `k` timers. -/
structure Kept (d : Deadlines) (descriptor k : Nat) (w : Deadlines) : Prop where
  le : w.len ≤ k
  ahead : ∀ j, k ≤ j → w.entries j = d.entries j
  timers : w.timers = (Heap.contents d.entries k).filter (·.notificationDescriptor ≠ descriptor)

lemma Kept.step {k w} (h : Kept d descriptor k w) : Kept d descriptor (k + 1) (keep descriptor w k) := by
  have hle := h.le
  rw [keep, h.ahead k (Nat.le_refl k)]
  split
  case isTrue hne =>
    refine ⟨Nat.succ_le_succ hle, fun j hj => ?_, ?_⟩
    · exact (update_of_ne (by omega) _ _).trans (h.ahead j (by omega))
    · refine Heap.contents_push.trans ?_
      rw [Heap.contents_succ, Multiset.filter_cons, if_pos hne, Multiset.singleton_add]
      exact congrArg _ h.timers
  case isFalse heq =>
    refine ⟨Nat.le_succ_of_le hle, fun j hj => h.ahead j (by omega), ?_⟩
    rw [Heap.contents_succ, Multiset.filter_cons, if_neg heq, zero_add]
    exact h.timers

lemma retire_spec (hroom : d.len ≤ maxPendingAsyncTimers) :
    (d.retire descriptor).timers = d.timers.filter (·.notificationDescriptor ≠ descriptor) ∧
      (d.retire descriptor).Valid := by
  have hkept : ∀ k, Kept d descriptor k ((List.range k).foldl (keep descriptor) { d with len := 0 }) := by
    intro k
    induction k with
    | zero => exact ⟨Nat.le_refl _, fun _ _ => rfl, rfl⟩
    | succ k ih =>
      rw [List.range_succ, List.foldl_append]
      exact ih.step
  obtain ⟨hlen, -, htimers⟩ := hkept d.len
  exact ⟨Heap.contents_heapify.trans htimers, hlen.trans hroom, Heap.heapify_ordered⟩

/-! ### Runs -/

inductive Call where
  | push (timer : PendingAsyncTimer)
  | popDue (now : Nat)
  | removeAlarm (descriptor : Nat)
  | retire (descriptor : Nat)

def step (d : Deadlines) : Call → Deadlines
  | .push timer => (d.push timer).2
  | .popDue now => (d.popDue now).elim d Prod.snd
  | .removeAlarm descriptor => d.removeAlarm descriptor
  | .retire descriptor => d.retire descriptor

def run (calls : List Call) : Deadlines := calls.foldl step new

/-- The deadlines of the timers that wait. -/
def ticks (d : Deadlines) : Set Nat := {t | ∃ timer ∈ d.timers, timer.targetTick = t}

/-- One alarm of the descriptor is gone, or there was none. -/
def AlarmRemoved (descriptor : Nat) (d d' : Deadlines) : Prop :=
  (∃ timer, timer.alarm = true ∧ timer.notificationDescriptor = descriptor ∧
    d.timers = timer ::ₘ d'.timers) ∨
  d'.timers = d.timers ∧
    ∀ timer ∈ d.timers, timer.alarm = true → timer.notificationDescriptor ≠ descriptor

/-- The heap acts on its timers as a bounded queue ordered by deadlines. -/
structure Queue (d : Deadlines) : Prop where
  next : ∀ tick, d.next = some tick ↔ IsLeast d.ticks tick
  push : ∀ timer, (d.push timer).1 = decide (d.timers.card < maxPendingAsyncTimers) ∧
    (d.push timer).2.timers = if (d.push timer).1 then timer ::ₘ d.timers else d.timers
  popDue : ∀ now timer rest, d.popDue now = some (timer, rest) →
    d.timers = timer ::ₘ rest.timers ∧ timer.targetTick ≤ now ∧ IsLeast d.ticks timer.targetTick
  notDue : ∀ now, d.popDue now = none ↔ ∀ tick ∈ d.ticks, now < tick
  removeAlarm : ∀ descriptor, AlarmRemoved descriptor d (d.removeAlarm descriptor)
  retire : ∀ descriptor, (d.retire descriptor).timers =
    d.timers.filter (·.notificationDescriptor ≠ descriptor)

lemma mem_timers : timer ∈ d.timers ↔ ∃ j < d.len, d.entries j = timer := Heap.mem_contents

lemma Valid.least (h : d.Valid) (hlen : 0 < d.len) : IsLeast d.ticks (d.entries 0).targetTick := by
  refine ⟨⟨_, mem_timers.mpr ⟨0, hlen, rfl⟩, rfl⟩, ?_⟩
  rintro _ ⟨timer, hmem, rfl⟩
  obtain ⟨j, hj, rfl⟩ := mem_timers.mp hmem
  exact h.ordered.le hj

lemma Valid.next_iff (h : d.Valid) {tick} : d.next = some tick ↔ IsLeast d.ticks tick := by
  rw [next]
  split
  case isTrue hlen =>
    have hleast := h.least (Nat.pos_of_ne_zero hlen)
    rw [Option.some_inj]
    exact ⟨fun heq => heq ▸ hleast, hleast.unique⟩
  case isFalse hlen =>
    refine ⟨fun hnone => (by cases hnone), fun hleast => ?_⟩
    obtain ⟨timer, hmem, -⟩ := hleast.1
    obtain ⟨j, hj, -⟩ := mem_timers.mp hmem
    omega

lemma removeAlarm_spec (h : d.Valid) :
    (d.removeAlarm descriptor).Valid ∧ AlarmRemoved descriptor d (d.removeAlarm descriptor) := by
  rw [removeAlarm]
  cases hfind : (List.range d.len).find? fun i =>
      (d.entries i).alarm && (d.entries i).notificationDescriptor == descriptor with
  | none =>
    refine ⟨h, .inr ⟨rfl, fun timer hmem halarm heq => ?_⟩⟩
    obtain ⟨j, hj, rfl⟩ := mem_timers.mp hmem
    have hnone := List.find?_eq_none.mp hfind j (List.mem_range.mpr hj)
    exact hnone (by simp [halarm, heq])
  | some index =>
    have hi := List.mem_range.mp (List.mem_of_find?_eq_some hfind)
    have halarm := List.find?_some hfind
    rw [Bool.and_eq_true, beq_iff_eq] at halarm
    obtain ⟨htimers, hvalid⟩ := h.remove hi
    exact ⟨hvalid, .inl ⟨_, halarm.1, halarm.2, htimers⟩⟩

lemma popDue_eq : d.popDue now =
    if 0 < d.len ∧ (d.entries 0).targetTick ≤ now then some (d.remove 0) else none := by
  rw [popDue, next]
  by_cases hlen : d.len = 0
  · simp [hlen]
  · by_cases hdue : (d.entries 0).targetTick ≤ now
    · simp [hlen, hdue, Nat.pos_of_ne_zero hlen]
    · simp [hlen, hdue, not_le.mp hdue]

lemma Valid.popDue (h : d.Valid) {rest} (hpop : d.popDue now = some (timer, rest)) :
    rest.Valid ∧ d.timers = timer ::ₘ rest.timers ∧ timer.targetTick ≤ now ∧
      IsLeast d.ticks timer.targetTick := by
  rw [popDue_eq] at hpop
  split at hpop
  case isFalse => cases hpop
  case isTrue hdue =>
    obtain ⟨htimers, hvalid⟩ := h.remove hdue.1
    obtain ⟨rfl, rfl⟩ := Prod.mk.inj (Option.some.inj hpop)
    exact ⟨hvalid, htimers, hdue.2, h.least hdue.1⟩

lemma Valid.notDue (h : d.Valid) : d.popDue now = none ↔ ∀ tick ∈ d.ticks, now < tick := by
  rw [popDue_eq]
  split
  case isTrue hdue =>
    refine ⟨fun hnone => (by cases hnone), fun hall => ?_⟩
    exact absurd (hall _ (h.least hdue.1).1) (not_lt.mpr hdue.2)
  case isFalse hdue =>
    refine ⟨fun _ tick htick => ?_, fun _ => rfl⟩
    obtain ⟨timer, hmem, -⟩ := id htick
    obtain ⟨j, hj, -⟩ := mem_timers.mp hmem
    have hle := (h.least (by omega)).2 htick
    omega

lemma Valid.step (h : d.Valid) (call : Call) : (d.step call).Valid := by
  cases call with
  | push timer =>
    by_cases hroom : d.len = maxPendingAsyncTimers
    · rw [Deadlines.step, Deadlines.push, if_pos hroom]
      exact h
    · exact (h.push (lt_of_le_of_ne h.room hroom)).2.2
  | popDue now =>
    rw [Deadlines.step]
    cases hpop : d.popDue now with
    | none => exact h
    | some result => exact (h.popDue hpop).1
  | removeAlarm descriptor => exact (removeAlarm_spec h).1
  | retire descriptor => exact (retire_spec h.room).2

lemma run_valid (calls : List Call) : (run calls).Valid := by
  induction calls using List.reverseRecOn with
  | nil => exact ⟨Nat.zero_le _, fun j _ hj => absurd hj (Nat.not_lt_zero j)⟩
  | append_singleton calls call ih =>
    rw [run, List.foldl_append]
    exact ih.step call

/-- In every state that calls lead to, the heap is a queue of its timers. -/
theorem deadlines_queue (calls : List Call) : Queue (run calls) := by
  have h := run_valid calls
  refine ⟨fun _ => h.next_iff, fun timer => ?_, fun now timer rest hpop => (h.popDue hpop).2,
    fun _ => h.notDue, fun _ => (removeAlarm_spec h).2, fun _ => (retire_spec h.room).1⟩
  rw [card_timers]
  by_cases hroom : (run calls).len = maxPendingAsyncTimers
  · rw [push, if_pos hroom]
    exact ⟨(decide_eq_false (by omega)).symm, rfl⟩
  · have hlt := lt_of_le_of_ne h.room hroom
    obtain ⟨haccepted, htimers, -⟩ := @Valid.push _ timer h hlt
    rw [haccepted, htimers]
    exact ⟨(decide_eq_true hlt).symm, rfl⟩

end Deadlines

end Nanami.Timer
