import Nanami.Net.Tcp
import Nanami.Lib.Slots

/-!
# The receive buffers

What a valid queue of receive buffers is, and what `push`, `read_for` and `reset` do to it: bytes are
appended to one buffer and taken from its front, and the ready ring holds the connections with
something to read, each once.
-/

namespace Nanami.Net

open Lib List Function TcpRxBuffer

def TcpRxBuffer.bytes (buffer : TcpRxBuffer) : List UInt8 :=
  Ring.contents tcpPayloadMax buffer.data buffer.head buffer.len

def TcpRxBuffer.withheld (buffer : TcpRxBuffer) : Nat := tcpPayloadMax - buffer.len - buffer.window

/-- What is in the buffer and what the peer may still send fit together. -/
structure TcpRxBuffer.Valid (buffer : TcpRxBuffer) : Prop where
  head : buffer.head < tcpPayloadMax
  room : buffer.len + buffer.window ≤ tcpPayloadMax

@[simp] lemma TcpRxBuffer.length_bytes (buffer : TcpRxBuffer) : buffer.bytes.length = buffer.len :=
  Ring.length_contents

def TcpRxQueue.ring (q : TcpRxQueue) : List Nat :=
  Ring.contents tcpMaxConnections q.ready q.head q.count

/-- The ready ring holds each connection with something to read once. -/
structure TcpRxQueue.Valid (q : TcpRxQueue) : Prop where
  head : q.head < tcpMaxConnections
  nodup : q.ring.Nodup
  mem : ∀ i, i ∈ q.ring ↔ i < tcpMaxConnections ∧ (q.buffers i).len ≠ 0
  buffers : ∀ i, (q.buffers i).Valid

namespace TcpRxQueue

variable {q : TcpRxQueue} {i j n limit : Nat} {rest todo seen : List Nat} {payload : List UInt8}
  {buffer : TcpRxBuffer} {wanted : Nat → Bool}

@[simp] lemma length_ring : q.ring.length = q.count := Ring.length_contents

lemma new_valid : new.Valid where
  head := by decide
  nodup := nodup_nil
  mem i := by simp [ring, new]
  buffers _ := ⟨Nat.succ_pos _, le_refl _⟩

/-! ### The ready ring -/

lemma ring_enqueue (h : q.count < tcpMaxConnections) : (q.enqueue i).ring = q.ring ++ [i] :=
  Ring.contents_append h

lemma ring_dequeue (hhead : q.head < tcpMaxConnections) (hcount : q.count ≠ 0) :
    q.ring = q.ready q.head :: q.dequeue.ring := by
  obtain ⟨n, hn⟩ := Nat.exists_eq_succ_of_ne_zero hcount
  rw [ring, hn, Ring.contents_cons hhead]
  simp [ring, dequeue, hn]

lemma dequeue_head_lt : q.dequeue.head < tcpMaxConnections := Nat.mod_lt _ (by decide)

lemma ready_of_ring (hhead : q.head < tcpMaxConnections) (h : q.ring = i :: rest) :
    q.ready q.head = i ∧ q.dequeue.ring = rest := by
  have hcount : q.count ≠ 0 := by
    rw [← length_ring, h]
    exact Nat.succ_ne_zero _
  rw [ring_dequeue hhead hcount] at h
  exact List.cons.inj h

lemma Valid.count_lt (hq : q.Valid) (hi : i < tcpMaxConnections) (hmem : i ∉ q.ring) :
    q.count < tcpMaxConnections := by
  have hnodup : (i :: q.ring).Nodup := nodup_cons.mpr ⟨hmem, hq.nodup⟩
  have hbound : ∀ j ∈ i :: q.ring, j < tcpMaxConnections :=
    forall_mem_cons.mpr ⟨hi, fun j hj => ((hq.mem j).mp hj).1⟩
  have hle := Slots.length_le_of_nodup hnodup hbound
  rwa [length_cons, length_ring] at hle

lemma Valid.count_le (hq : q.Valid) : q.count ≤ tcpMaxConnections := by
  have hle := Slots.length_le_of_nodup hq.nodup fun j hj => ((hq.mem j).mp hj).1
  rwa [length_ring] at hle

/-- What every operation leaves behind: one buffer is replaced, and its connection is in the ring if
there is something to read. -/
lemma Valid.of_perm {q' : TcpRxQueue} (hq : q.Valid) (hi : i < tcpMaxConnections) (hb : buffer.Valid)
    (hhead : q'.head < tcpMaxConnections) (hbuffers : q'.buffers = update q.buffers i buffer)
    (hring : q'.ring.Perm ((if buffer.len = 0 then [] else [i]) ++ q.ring.erase i)) : q'.Valid := by
  have herase : i ∉ q.ring.erase i := fun h => (hq.nodup.mem_erase_iff.mp h).1 rfl
  refine ⟨hhead, hring.nodup_iff.mpr ?_, fun j => ?_, fun j => ?_⟩
  · split
    · exact hq.nodup.erase i
    · exact nodup_cons.mpr ⟨herase, hq.nodup.erase i⟩
  · rw [hring.mem_iff, mem_append, hq.nodup.mem_erase_iff, hq.mem, hbuffers]
    by_cases hj : j = i
    · split <;> simp_all
    · split <;> simp [hj]
  · rw [hbuffers]
    by_cases hj : j = i
    · subst hj
      rw [update_self]
      exact hb
    · rw [update_of_ne hj]
      exact hq.buffers j

/-! ### Putting bytes in -/

def note (q : TcpRxQueue) (i : Nat) : TcpRxQueue := if (q.buffers i).len = 0 then q.enqueue i else q

lemma note_head : (q.note i).head = q.head := by
  rw [note]
  split <;> rfl

lemma note_buffers : (q.note i).buffers = q.buffers := by
  rw [note]
  split <;> rfl

lemma Valid.note_ring (hq : q.Valid) (hi : i < tcpMaxConnections) :
    (q.note i).ring = q.ring ++ if (q.buffers i).len = 0 then [i] else [] := by
  rw [note]
  split
  · rename_i hempty
    exact ring_enqueue (hq.count_lt hi fun h => ((hq.mem i).mp h).2 hempty)
  · exact (append_nil _).symm

lemma Valid.note_perm (hq : q.Valid) (hi : i < tcpMaxConnections) :
    (q.note i).ring.Perm (i :: q.ring.erase i) := by
  rw [hq.note_ring hi]
  split
  · rename_i hempty
    rw [erase_of_not_mem fun h => ((hq.mem i).mp h).2 hempty]
    exact perm_append_singleton i q.ring
  · rename_i hfull
    rw [append_nil]
    exact perm_cons_erase ((hq.mem i).mpr ⟨hi, hfull⟩)

end TcpRxQueue

def TcpRxBuffer.append (buffer : TcpRxBuffer) (payload : List UInt8) : TcpRxBuffer :=
  { buffer with
    data := Ring.copyAround tcpPayloadMax buffer.data ((buffer.head + buffer.len) % tcpPayloadMax)
      payload
    len := buffer.len + payload.length
    window := buffer.window - payload.length }

def TcpRxBuffer.cleared (buffer : TcpRxBuffer) : TcpRxBuffer :=
  { buffer with head := 0, len := 0, window := tcpPayloadMax }

lemma TcpRxBuffer.cleared_valid {buffer : TcpRxBuffer} : buffer.cleared.Valid :=
  ⟨Nat.succ_pos _, le_of_eq (zero_add _)⟩

lemma TcpRxBuffer.append_valid {buffer : TcpRxBuffer} {payload} (hb : buffer.Valid)
    (hn : payload.length ≤ buffer.window) : (buffer.append payload).Valid := by
  have hroom := hb.room
  refine ⟨hb.head, ?_⟩
  show buffer.len + payload.length + (buffer.window - payload.length) ≤ tcpPayloadMax
  omega

namespace TcpRxQueue

variable {q : TcpRxQueue} {i j n limit : Nat} {rest todo seen : List Nat} {payload : List UInt8}
  {buffer : TcpRxBuffer} {wanted : Nat → Bool}

/-- `push`: as much of the payload as the window allows is appended to the buffer. -/
structure Pushed (q : TcpRxQueue) (i : Nat) (payload : List UInt8) (n : Nat) (q' : TcpRxQueue) :
    Prop where
  valid : q'.Valid
  count : n = min payload.length (q.window i)
  others : ∀ j ≠ i, q'.buffers j = q.buffers j
  bytes : (q'.buffers i).bytes = (q.buffers i).bytes ++ payload.take n
  window : (q'.buffers i).window = q.window i - n
  ring : q'.ring = q.ring ++ if n = 0 ∨ (q.buffers i).len ≠ 0 then [] else [i]

def store (q : TcpRxQueue) (i : Nat) (buffer : TcpRxBuffer) : TcpRxQueue :=
  { q with buffers := update q.buffers i buffer }

lemma push_eq (h : min payload.length (q.window i) ≠ 0) :
    q.push i payload = (min payload.length (q.window i), (q.note i).store i
      ((q.buffers i).append (payload.take (min payload.length (q.window i))))) := by
  have hlen : (payload.take (min payload.length (q.window i))).length =
      min payload.length (q.window i) := by
    rw [length_take]
    omega
  rw [append, hlen]
  exact if_neg h

lemma push_spec (payload : List UInt8) (hq : q.Valid) (hi : i < tcpMaxConnections) :
    Pushed q i payload (q.push i payload).1 (q.push i payload).2 := by
  by_cases hzero : min payload.length (q.window i) = 0
  · have hpush : q.push i payload = (0, q) := if_pos hzero
    rw [hpush]
    exact ⟨hq, hzero.symm, fun _ _ => rfl, by simp, rfl, by simp⟩
  · have hfits : (payload.take (min payload.length (q.window i))).length ≤ (q.buffers i).window := by
      rw [length_take]
      show _ ≤ q.window i
      omega
    have hlen : ((q.buffers i).append (payload.take (min payload.length (q.window i)))).len ≠ 0 := by
      show (q.buffers i).len + (payload.take (min payload.length (q.window i))).length ≠ 0
      rw [length_take]
      omega
    rw [push_eq hzero]
    refine ⟨?_, rfl, fun j hj => ?_, ?_, ?_, ?_⟩
    · refine hq.of_perm hi (append_valid (hq.buffers i) hfits) (note_head.trans_lt hq.head)
        (congrArg (update · i _) note_buffers) ?_
      rw [if_neg hlen]
      exact hq.note_perm hi
    · rw [store, note_buffers]
      exact update_of_ne hj _ _
    · show (update (q.note i).buffers i _ i).bytes = _
      rw [update_self]
      have hroom := (hq.buffers i).room
      exact Ring.contents_push (hq.buffers i).head (by omega)
    · show (update (q.note i).buffers i _ i).window = _
      rw [update_self, append, length_take, min_eq_left (min_le_left _ _)]
      rfl
    · exact (hq.note_ring hi).trans (by simp [hzero])

end TcpRxQueue

/-! ### Reading -/

/-- `read_for` on one buffer: bytes from the front, and the window opens by all that is free or stays
while less than half of the buffer is withheld. -/
structure TcpRxBuffer.ReadOff (buffer : TcpRxBuffer) (limit : Nat) (bytes : List UInt8)
    (buffer' : TcpRxBuffer) : Prop where
  valid : buffer'.Valid
  bytes : bytes = buffer.bytes.take limit
  left : buffer'.bytes = buffer.bytes.drop limit
  window : buffer.window ≤ buffer'.window
  credit : buffer'.withheld < tcpPayloadMax / 2

namespace TcpRxBuffer

variable {buffer : TcpRxBuffer} {limit : Nat}

lemma take_bytes : buffer.bytes.take limit =
    Ring.contents tcpPayloadMax buffer.data buffer.head (min limit buffer.len) := by
  rw [← Ring.take_contents (min_le_right limit buffer.len), bytes]
  conv_lhs => rw [← take_length (l := Ring.contents tcpPayloadMax buffer.data buffer.head buffer.len)]
  rw [take_take, Ring.length_contents]

lemma drop_bytes : buffer.bytes.drop limit =
    Ring.contents tcpPayloadMax buffer.data ((buffer.head + min limit buffer.len) % tcpPayloadMax)
      (buffer.len - min limit buffer.len) := by
  rw [← Ring.drop_contents (min_le_right limit buffer.len)]
  rcases le_total limit buffer.len with h | h
  · rw [min_eq_left h, bytes]
  · rw [min_eq_right h, drop_of_length_le (by rw [length_bytes]; exact h),
      drop_of_length_le (by rw [Ring.length_contents])]

lemma read_spec (limit : Nat) (hb : buffer.Valid) :
    buffer.ReadOff limit (buffer.read limit).1 (buffer.read limit).2.2 := by
  have hroom := hb.room
  have hhead : (buffer.head + min limit buffer.len) % tcpPayloadMax < tcpPayloadMax :=
    Nat.mod_lt _ (by decide)
  have hhalf : 0 < tcpPayloadMax / 2 := by decide
  simp only [read]
  split
  · refine ⟨⟨hhead, ?_⟩, take_bytes.symm, drop_bytes.symm, ?_, ?_⟩
    all_goals
      simp only [withheld]
      omega
  · refine ⟨⟨hhead, ?_⟩, take_bytes.symm, drop_bytes.symm, le_rfl, Nat.lt_of_not_le ‹_›⟩
    show buffer.len - min limit buffer.len + buffer.window ≤ _
    omega

end TcpRxBuffer

namespace TcpRxQueue

variable {q : TcpRxQueue} {i j n limit : Nat} {rest todo seen : List Nat} {payload : List UInt8}
  {buffer : TcpRxBuffer} {wanted : Nat → Bool}

lemma Valid.putBack_ring (hq : q.Valid) (hring : q.ring = i :: rest) (buffer : TcpRxBuffer) :
    (q.dequeue.putBack i buffer).ring = rest ++ if buffer.len = 0 then [] else [i] := by
  obtain ⟨-, hrest⟩ := ready_of_ring hq.head hring
  have hcount : q.dequeue.count < tcpMaxConnections := by
    have hle := hq.count_le
    rw [← length_ring, hrest]
    rw [← length_ring, hring, length_cons] at hle
    exact hle
  rw [putBack]
  by_cases hlen : buffer.len = 0
  · rw [if_neg (not_not.mpr hlen), if_pos hlen, append_nil]
    exact hrest
  · rw [if_pos hlen, if_neg hlen, ← hrest]
    exact ring_enqueue hcount

lemma putBack_buffers : (q.putBack i buffer).buffers = update q.buffers i buffer := by
  rw [putBack]
  split <;> rfl

lemma putBack_head : (q.putBack i buffer).head = q.head := by
  rw [putBack]
  split <;> rfl

lemma Valid.putBack (hq : q.Valid) (hring : q.ring = i :: rest) (hb : buffer.Valid) :
    (q.dequeue.putBack i buffer).Valid := by
  have hi : i < tcpMaxConnections := ((hq.mem i).mp (hring ▸ mem_cons_self)).1
  refine hq.of_perm hi hb (putBack_head.trans_lt dequeue_head_lt) putBack_buffers ?_
  rw [hq.putBack_ring hring buffer, hring, erase_cons_head]
  exact perm_append_comm

/-- `read_for`: bytes from the front of the first wanted connection's buffer, or nothing when no wanted
connection has something to read. The connections in front of it go to the end of the ring, and it goes
behind them while it has more. -/
inductive Read (buffers : Nat → TcpRxBuffer) (ring : List Nat) (wanted : Nat → Bool) (limit : Nat) :
    Option (Nat × List UInt8 × Bool) × TcpRxQueue → Prop
  | nothing {q : TcpRxQueue} (valid : q.Valid) (same : q.buffers = buffers)
      (unwanted : ∀ i < tcpMaxConnections, (buffers i).len ≠ 0 → wanted i = false)
      (turned : q.ring = ring) : Read buffers ring wanted limit (none, q)
  | bytes {i : Nat} {bytes : List UInt8} {updated : Bool} {buffer : TcpRxBuffer} {q : TcpRxQueue}
      {back : List Nat} (valid : q.Valid) (bound : i < tcpMaxConnections) (full : (buffers i).len ≠ 0)
      (wants : wanted i = true)
      (read : (buffers i).ReadOff limit bytes buffer)
      (others : q.buffers = update buffers i buffer)
      (first : ring.dropWhile (!wanted ·) = i :: back)
      (turned : q.ring =
        back ++ ring.takeWhile (!wanted ·) ++ if buffer.len = 0 then [] else [i]) :
      Read buffers ring wanted limit (some (i, bytes, updated), q)

/-- The induction is on the connections still to look at; those seen went to the end of the ring, and
none of them is wanted. -/
lemma readFrom_spec (hq : q.Valid) (hring : q.ring = todo ++ seen)
    (hseen : ∀ i ∈ seen, wanted i = false) :
    Read q.buffers (seen ++ todo) wanted limit (readFrom wanted limit todo.length q) := by
  induction todo generalizing q seen with
  | nil =>
    rw [nil_append] at hring
    refine .nothing hq rfl (fun i hi hlen => hseen i ?_) (hring.trans (append_nil _).symm)
    exact hring ▸ (hq.mem i).mpr ⟨hi, hlen⟩
  | cons i todo ih =>
    rw [cons_append] at hring
    obtain ⟨hready, -⟩ := ready_of_ring hq.head hring
    obtain ⟨hi, hlen⟩ := (hq.mem i).mp (hring ▸ mem_cons_self)
    rw [length_cons, readFrom, hready]
    split
    · rename_i hwanted
      have hread := read_spec limit (hq.buffers i)
      have hskip : ∀ j ∈ seen, (!wanted j) = true := fun j hj => by rw [hseen j hj]; rfl
      have hfirst : (seen ++ i :: todo).dropWhile (!wanted ·) = i :: todo := by
        rw [dropWhile_append_of_pos hskip, dropWhile_cons_of_neg (by simp [hwanted])]
      refine .bytes (hq.putBack hring hread.valid) hi hlen hwanted hread putBack_buffers hfirst ?_
      rw [takeWhile_append_of_pos hskip, takeWhile_cons_of_neg (by simp [hwanted]), append_nil]
      exact hq.putBack_ring hring _
    · rename_i hwanted
      have hsame : (q.dequeue.putBack i (q.buffers i)).buffers = q.buffers :=
        putBack_buffers.trans (update_eq_self i q.buffers)
      have hrotated := hq.putBack_ring hring (q.buffers i)
      rw [if_neg hlen, append_assoc] at hrotated
      rw [← hsame, ← singleton_append, ← append_assoc]
      exact ih (hq.putBack hring (hq.buffers i)) hrotated <| forall_mem_append.mpr
        ⟨hseen, forall_mem_singleton.mpr (Bool.eq_false_iff.mpr hwanted)⟩

def wantedBy (connections : Nat → TcpConnection) (ownerId connectionId index : Nat) : Bool :=
  (connections index).ownerId == ownerId &&
    (connectionId == 0 || (connections index).connectionId == connectionId)

lemma readFor_spec (connections : Nat → TcpConnection) (ownerId connectionId : Nat) (hq : q.Valid)
    (hlimit : limit ≠ 0) :
    Read q.buffers q.ring (wantedBy connections ownerId connectionId) limit
      (q.readFor connections ownerId connectionId limit) := by
  unfold readFor
  rw [if_neg hlimit, ← length_ring]
  exact readFrom_spec hq (append_nil _).symm fun i hi => absurd hi not_mem_nil

lemma readFor_zero {connections : Nat → TcpConnection} {ownerId connectionId : Nat} (h : limit = 0) :
    q.readFor connections ownerId connectionId limit = (none, q) := if_pos h

/-! ### Clearing a buffer -/

/-- The induction is on the connections still to look at; those kept went to the end of the ring. -/
lemma forget_ring (hhead : q.head < tcpMaxConnections) (hcount : q.count ≤ tcpMaxConnections)
    (hring : q.ring = todo ++ seen) :
    (forget i todo.length q).ring = seen ++ todo.filter (· != i) ∧
      (forget i todo.length q).head < tcpMaxConnections ∧
      (forget i todo.length q).buffers = q.buffers := by
  induction todo generalizing q seen with
  | nil =>
    rw [filter_nil, append_nil]
    exact ⟨hring, hhead, rfl⟩
  | cons j todo ih =>
    rw [cons_append] at hring
    obtain ⟨hready, hrest⟩ := ready_of_ring hhead hring
    have hlt : q.dequeue.count < tcpMaxConnections := by
      rw [← length_ring, hrest]
      rw [← length_ring, hring, length_cons] at hcount
      exact hcount
    rw [length_cons, forget, hready]
    by_cases hj : j = i
    · rw [if_neg (not_not.mpr hj), filter_cons_of_neg (by simp [hj])]
      exact ih dequeue_head_lt (le_of_lt hlt) hrest
    · rw [if_pos hj, filter_cons_of_pos (by simp [hj])]
      have hring' : (q.dequeue.enqueue j).ring = todo ++ (seen ++ [j]) := by
        rw [ring_enqueue hlt, hrest, append_assoc]
      have hhead' : (q.dequeue.enqueue j).head < tcpMaxConnections := dequeue_head_lt
      have hcount' : (q.dequeue.enqueue j).count ≤ tcpMaxConnections := hlt
      obtain ⟨h1, h2, h3⟩ := ih hhead' hcount' hring'
      refine ⟨?_, h2, h3⟩
      rw [h1, append_assoc, singleton_append]

/-- `reset`: the buffer is empty again and the others are as they were. -/
structure Cleared (q : TcpRxQueue) (i : Nat) (q' : TcpRxQueue) : Prop where
  valid : q'.Valid
  empty : (q'.buffers i).len = 0
  window : (q'.buffers i).window = tcpPayloadMax
  others : ∀ j ≠ i, q'.buffers j = q.buffers j
  ring : q'.ring = q.ring.erase i

lemma cleared_of_perm {q' : TcpRxQueue} (hq : q.Valid) (hi : i < tcpMaxConnections)
    (hhead : q'.head < tcpMaxConnections)
    (hbuffers : q'.buffers = update q.buffers i (q.buffers i).cleared)
    (hring : q'.ring = q.ring.erase i) : Cleared q i q' := by
  refine ⟨hq.of_perm hi cleared_valid hhead hbuffers (List.Perm.of_eq hring), ?_, ?_,
    fun j hj => ?_, hring⟩
  · rw [hbuffers, update_self]
    rfl
  · rw [hbuffers, update_self]
    rfl
  · rw [hbuffers, update_of_ne hj]

lemma reset_spec (hq : q.Valid) (hi : i < tcpMaxConnections) : Cleared q i (q.reset i) := by
  have hforget := @forget_ring _ i _ _ hq.head hq.count_le (append_nil q.ring).symm
  rw [length_ring, nil_append, ← hq.nodup.erase_eq_filter] at hforget
  obtain ⟨hring, hhead, hbuffers⟩ := hforget
  by_cases hlen : (q.buffers i).len = 0
  · have hmem : i ∉ q.ring := fun h => ((hq.mem i).mp h).2 hlen
    have hreset : q.reset i = q.store i (q.buffers i).cleared := by
      rw [reset, if_neg (not_not.mpr hlen)]
      rfl
    rw [hreset]
    refine cleared_of_perm hq hi hq.head rfl ?_
    rw [erase_of_not_mem hmem]
    rfl
  · have hreset : q.reset i = (forget i q.count q).store i (q.buffers i).cleared := by
      rw [reset, if_pos hlen]
      rfl
    rw [hreset]
    exact cleared_of_perm hq hi hhead (congrArg (update · i _) hbuffers) hring

end TcpRxQueue

end Nanami.Net
