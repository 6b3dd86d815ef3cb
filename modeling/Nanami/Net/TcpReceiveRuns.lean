import Nanami.Net.TcpReceive

/-!
# Runs of the receive buffers

Pushes, reads and resets in any order. Beside the queue stand the bytes that each connection accepted
and handed over since it was reset. `receive_runs` says what holds in every run, and how often an owner
reads until it reaches a connection that no read passes over. In `passed_over_forever` two owners read in
turns, and the reads of one pass over a connection of the other.
-/

namespace Nanami.Net
open Lib List Function TcpRxBuffer

namespace TcpRxQueue

inductive Op where
  | push (index : Fin tcpMaxConnections) (payload : List UInt8)
  | read (connections : Nat → TcpConnection) (ownerId connectionId limit : Nat)
  | reset (index : Fin tcpMaxConnections)

structure History where
  queue : TcpRxQueue
  accepted : Nat → List UInt8
  handed : Nat → List UInt8

namespace History

def note (h : History) (q : TcpRxQueue) (i : Nat) (accepted handed : List UInt8) : History :=
  ⟨q, update h.accepted i accepted, update h.handed i handed⟩

def step (h : History) : Op → History
  | .push i payload =>
    let (n, q) := h.queue.push i payload
    h.note q i (h.accepted i ++ payload.take n) (h.handed i)
  | .read connections ownerId connectionId limit =>
    match h.queue.readFor connections ownerId connectionId limit with
    | (some (i, bytes, _), q) => h.note q i (h.accepted i) (h.handed i ++ bytes)
    | (none, q) => { h with queue := q }
  | .reset i => h.note (h.queue.reset i) i [] []

def run (ops : List Op) : History := ops.foldl step ⟨new, fun _ => [], fun _ => []⟩

def edge (h : History) (i : Nat) : Nat := (h.accepted i).length + h.queue.window i

def served (h : History) : Op → Option Nat
  | .read connections ownerId connectionId limit =>
    (h.queue.readFor connections ownerId connectionId limit).1.map (·.1)
  | _ => none

def asks (owner : Nat) : Op → Bool
  | .read _ ownerId connectionId limit => ownerId == owner && connectionId == 0 && limit != 0
  | _ => false

def Owned (owner i : Nat) : Op → Prop
  | .push _ _ => True
  | .read connections _ _ _ => (connections i).ownerId = owner
  | .reset j => (j : Nat) ≠ i

def Spares (i : Nat) (h : History) : Op → Prop
  | .read connections ownerId connectionId _ =>
    i ∈ h.queue.ring.takeWhile (!wantedBy connections ownerId connectionId ·) →
      ∀ j ∈ h.queue.ring, wantedBy connections ownerId connectionId j = false
  | _ => True

/-- A run in which the connection stays with its owner and is not reached, although the owner asks `n`
times. -/
inductive Misses (P : History → Op → Prop) (owner i : Nat) : Nat → History → Prop
  | done {h : History} : Misses P owner i 0 h
  | step {h : History} {op : Op} {n : Nat} (meets : P h op) (owned : Owned owner i op)
      (misses : h.served op ≠ some i) (rest : Misses P owner i n (h.step op)) :
      Misses P owner i (n + if asks owner op then 1 else 0) h

/-- The ring has each connection with unread bytes once and a window fits the free space; the unread
bytes are those accepted and not handed over; less than half of a buffer is withheld. -/
structure Sound (h : History) : Prop where
  valid : h.queue.Valid
  bytes : ∀ i, h.handed i ++ (h.queue.buffers i).bytes = h.accepted i
  credit : ∀ i, (h.queue.buffers i).withheld < tcpPayloadMax / 2

end History

variable {q : TcpRxQueue} {i n owner : Nat} {h : History} {op : Op} {accepted handed : List UInt8}

namespace History

lemma Sound.note (hs : Sound h) (hvalid : q.Valid) (hothers : ∀ j ≠ i, q.buffers j = h.queue.buffers j)
    (hbytes : handed ++ (q.buffers i).bytes = accepted)
    (hcredit : (q.buffers i).withheld < tcpPayloadMax / 2) :
    Sound (h.note q i accepted handed) ∧
      ∀ j, (j = i → h.edge i ≤ accepted.length + (q.buffers i).window) →
        h.edge j ≤ (h.note q i accepted handed).edge j := by
  refine ⟨⟨hvalid, fun j => ?_, fun j => ?_⟩, fun j hedge => ?_⟩
  · simp only [History.note]
    by_cases hj : j = i
    · subst hj
      rw [update_self, update_self]
      exact hbytes
    · rw [update_of_ne hj, update_of_ne hj, hothers j hj]
      exact hs.bytes j
  · by_cases hj : j = i
    · exact hj ▸ hcredit
    · exact (hothers j hj).symm ▸ hs.credit j
  · simp only [edge, window, History.note] at hedge ⊢
    by_cases hj : j = i
    · subst hj
      rw [update_self]
      exact hedge rfl
    · rw [update_of_ne hj, hothers j hj]

lemma step_sound (hs : Sound h) :
    Sound (h.step op) ∧ ∀ i, Owned owner i op → h.edge i ≤ (h.step op).edge i := by
  cases op with
  | push j payload =>
    have hpush := push_spec payload hs.valid j.2
    have hn : (h.queue.push j payload).1 ≤ payload.length ∧
        (h.queue.push j payload).1 ≤ h.queue.window j := by
      rw [hpush.count]
      exact ⟨min_le_left _ _, min_le_right _ _⟩
    have hlen := congrArg length hpush.bytes
    rw [length_append, length_bytes, length_bytes, length_take_of_le hn.1] at hlen
    obtain ⟨hsound, hedge⟩ := @Sound.note _ j h (h.accepted j ++ payload.take _) (h.handed j) hs
      hpush.valid hpush.others (by rw [hpush.bytes, ← append_assoc, hs.bytes]) (by
        have hcredit := hs.credit j
        rw [withheld] at hcredit ⊢
        rw [hpush.window, window]
        omega)
    refine ⟨hsound, fun i _ => hedge i fun _ => ?_⟩
    rw [hpush.window, length_append, length_take_of_le hn.1, edge]
    omega
  | read connections ownerId connectionId limit =>
    rw [step]
    by_cases hlimit : limit = 0
    · rw [readFor_zero hlimit]
      exact ⟨hs, fun _ _ => le_rfl⟩
    have hread := readFor_spec connections ownerId connectionId hs.valid hlimit
    generalize h.queue.readFor connections ownerId connectionId limit = result at hread ⊢
    cases hread with
    | nothing valid same =>
      refine ⟨⟨valid, fun i => ?_, fun i => ?_⟩, fun i _ => le_of_eq ?_⟩
      · rw [same]
        exact hs.bytes i
      · rw [same]
        exact hs.credit i
      · rw [edge, edge, window, window, same]
    | @bytes j bytes _ buffer q _ valid _ _ _ read others =>
      have hself : q.buffers j = buffer := by rw [others, update_self]
      obtain ⟨hsound, hedge⟩ := @Sound.note q j h (h.accepted j) (h.handed j ++ bytes) hs valid
        (fun k hk => by rw [others, update_of_ne hk])
        (by rw [hself, read.bytes, read.left, append_assoc, take_append_drop, hs.bytes])
        (hself ▸ read.credit)
      exact ⟨hsound, fun i _ => hedge i fun _ => Nat.add_le_add_left (hself ▸ read.window) _⟩
  | reset j =>
    have hclear := reset_spec hs.valid j.2
    obtain ⟨hsound, hedge⟩ := @Sound.note _ j h [] [] hs hclear.valid hclear.others
      (by rw [nil_append, ← length_eq_zero_iff, length_bytes, hclear.empty])
      (by rw [withheld, hclear.empty, hclear.window]; decide)
    exact ⟨hsound, fun i hi => hedge i fun hij => absurd hij.symm hi⟩

lemma run_sound (ops : List Op) : Sound (run ops) :=
  foldlRecOn ops step
    ⟨new_valid, fun _ => rfl, fun _ => (by decide : tcpPayloadMax - 0 - tcpPayloadMax < tcpPayloadMax / 2)⟩
    fun _ hs _ _ => (@step_sound 0 _ _ hs).1

/-- A step that does not reach the connection brings it no further back in the ring, and a read of its
owner brings it forward. -/
lemma step_rank (hs : Sound h) (hmem : i ∈ h.queue.ring) (howned : Owned owner i op)
    (hspares : Spares i h op) (hmisses : h.served op ≠ some i) :
    i ∈ (h.step op).queue.ring ∧
      (h.step op).queue.ring.idxOf i + (if asks owner op then 1 else 0) ≤ h.queue.ring.idxOf i := by
  cases op with
  | push j payload =>
    have hring : (h.step (.push j payload)).queue.ring = _ := (push_spec payload hs.valid j.2).ring
    rw [hring, idxOf_append_of_mem hmem]
    exact ⟨mem_append_left _ hmem, le_rfl⟩
  | read connections ownerId connectionId limit =>
    rw [served] at hmisses
    rw [step]
    by_cases hlimit : limit = 0
    · rw [readFor_zero hlimit]
      exact ⟨hmem, by simp [asks, hlimit]⟩
    have hread := readFor_spec connections ownerId connectionId hs.valid hlimit
    generalize h.queue.readFor connections ownerId connectionId limit = result at hread hmisses ⊢
    cases hread with
    | nothing valid same unwanted turned =>
      obtain ⟨hi, hfull⟩ := (hs.valid.mem i).mp hmem
      have hunwanted := unwanted i hi hfull
      rw [wantedBy, howned] at hunwanted
      simp only
      rw [turned, if_neg]
      · exact ⟨hmem, le_rfl⟩
      · simp only [asks, Bool.and_eq_true, beq_iff_eq]
        rintro ⟨⟨rfl, rfl⟩, -⟩
        simp at hunwanted
    | @bytes j _ _ _ q back _ _ _ wants _ _ first turned =>
      have hne : i ≠ j := fun hij => hmisses (congrArg some hij.symm)
      have hsplit := @takeWhile_append_dropWhile _ (!wantedBy connections ownerId connectionId ·)
        h.queue.ring
      rw [first] at hsplit
      have hpassed : i ∉ h.queue.ring.takeWhile (!wantedBy connections ownerId connectionId ·) := by
        intro hin
        have := hspares hin j (hsplit ▸ mem_append_right _ mem_cons_self)
        rw [wants] at this
        cases this
      have hbehind : i ∈ back := by
        rw [← hsplit] at hmem
        exact (mem_cons.mp ((mem_append.mp hmem).resolve_left hpassed)).resolve_left hne
      simp only
      rw [History.note, turned, append_assoc, idxOf_append_of_mem hbehind]
      refine ⟨mem_append_left _ hbehind, ?_⟩
      rw [← hsplit, idxOf_append_of_notMem hpassed, idxOf_cons_ne _ hne.symm]
      split <;> omega
  | reset j =>
    have hring : (h.step (.reset j)).queue.ring = _ := (reset_spec hs.valid j.2).ring
    obtain ⟨front, back, heq, hnot⟩ := eq_append_cons_of_mem hmem
    rw [hring, heq, erase_append]
    split
    · rw [idxOf_append_of_notMem hnot, idxOf_append_of_notMem fun h => hnot (mem_of_mem_erase h)]
      exact ⟨mem_append_right _ mem_cons_self, Nat.add_le_add_right length_erase_le _⟩
    · rw [erase_cons_tail (by simpa using Ne.symm howned), idxOf_append_of_notMem hnot,
        idxOf_append_of_notMem hnot, idxOf_cons_self, idxOf_cons_self]
      exact ⟨mem_append_right _ mem_cons_self, le_rfl⟩

lemma Misses.le (hm : Misses (Spares i) owner i n h) (hs : Sound h) (hmem : i ∈ h.queue.ring) :
    n ≤ h.queue.ring.idxOf i := by
  induction hm with
  | done => exact Nat.zero_le _
  | step meets owned misses rest ih =>
    obtain ⟨hmem', hrank⟩ := step_rank hs hmem owned meets misses
    have := ih (@step_sound owner _ _ hs).1 hmem'
    omega

/-- After any calls: the queue is sound, a connection without unread bytes has more than half of its
window open, what fits the window is taken whole, the edge of a window never goes back, and a connection
that is spared is reached after at most as many requests as there are connections in front of it. -/
theorem receive_runs (ops : List Op) :
    Sound (run ops) ∧
    (∀ i, ((run ops).queue.buffers i).len = 0 → tcpPayloadMax / 2 < (run ops).queue.window i) ∧
    (∀ (i : Fin tcpMaxConnections) payload, payload.length ≤ (run ops).queue.window i →
      ((run ops).queue.push i payload).1 = payload.length) ∧
    (∀ op owner i, Owned owner i op → (run ops).edge i ≤ ((run ops).step op).edge i) ∧
    ∀ owner i n, i ∈ (run ops).queue.ring → Misses (Spares i) owner i n (run ops) →
      n ≤ (run ops).queue.ring.idxOf i := by
  have hs := run_sound ops
  refine ⟨hs, fun i hempty => ?_, fun i payload hfits => ?_, fun op owner i => (step_sound hs).2 i,
    fun owner i n hmem hm => hm.le hs hmem⟩
  · have hcredit := hs.credit i
    rw [withheld, hempty] at hcredit
    unfold window
    omega
  · rw [(push_spec payload hs.valid i.2).count, min_eq_left hfits]

def twoOwners (i : Nat) : TcpConnection :=
  { TcpConnection.empty with ownerId := if i = 2 then 2 else 1 }

lemma turn {j : Fin tcpMaxConnections} {back : List Nat} (hs : Sound h)
    (hwants : wantedBy twoOwners owner 0 j = true)
    (hdrop : h.queue.ring.dropWhile (!wantedBy twoOwners owner 0 ·) = (j : Nat) :: back)
    (hlen : (h.queue.buffers j).len = 1) : let read := Op.read twoOwners owner 0 1
    let h' := (h.step read).step (.push j [1])
    h.served read = some (j : Nat) ∧ Sound h' ∧
      h'.queue.ring = back ++ h.queue.ring.takeWhile (!wantedBy twoOwners owner 0 ·) ++ [(j : Nat)] ∧
      ∀ k, (h'.queue.buffers k).len = (h.queue.buffers k).len := by
  have hread := readFor_spec twoOwners owner 0 hs.valid Nat.one_ne_zero
  have hsound := (@step_sound 0 h (.read twoOwners owner 0 1) hs).1
  simp only [served]
  rw [step] at hsound ⊢
  generalize h.queue.readFor twoOwners owner 0 1 = result at hread hsound ⊢
  cases hread with
  | nothing valid same unwanted =>
    rw [unwanted j j.2 (by rw [hlen]; decide)] at hwants
    cases hwants
  | @bytes i _ _ buffer q _ valid _ _ _ read others first turned =>
    rw [hdrop] at first
    cases first
    have hself : (q.buffers j).len = 0 := by
      rw [others, update_self, ← length_bytes, read.left, length_drop,
        length_bytes, hlen]
    have hempty : buffer.len = 0 := by rwa [others, update_self] at hself
    have hpush := push_spec [1] valid j.2
    have hcount : (q.push j [1]).1 = 1 := by
      have hcredit := hsound.credit j
      simp only [History.note] at hcredit
      rw [withheld, hself] at hcredit
      rw [hpush.count, window, length_singleton]
      omega
    refine ⟨rfl, (@step_sound 0 _ _ hsound).1, ?_, fun k => ?_⟩
    · show (q.push j [1]).2.ring = _
      rw [hpush.ring, hcount, hself, turned, if_pos hempty, append_nil]
      rfl
    · show ((q.push j [1]).2.buffers k).len = _
      by_cases hk : k = j
      · have hbytes := congrArg length hpush.bytes
        rw [length_append, length_bytes, length_bytes, hself, hcount] at hbytes
        rw [hk, hlen]
        exact hbytes
      · rw [hpush.others k hk, others, update_of_ne hk]

def start : List Op := [.push ⟨1, by decide⟩ [1], .push ⟨0, by decide⟩ [1], .push ⟨2, by decide⟩ [1]]

/-- Owner 1 is given a byte of connection 1, which is in front of 0. -/
theorem receive_runs_one_miss :
    Misses (Spares 0) 1 0 1 (run start) ∧ 1 ≤ (run start).queue.ring.idxOf 0 := by
  have hring : (run start).queue.ring = [1, 0, 2] := by decide +kernel
  have hmiss : Misses (Spares 0) 1 0 1 (run start) := by
    refine @Misses.step _ 1 0 _ (.read twoOwners 1 0 1) 0 ?_ rfl ?_ .done
    · intro hmem
      rw [hring] at hmem
      exact absurd hmem (by decide)
    · decide +kernel
  have hmem : 0 ∈ (run start).queue.ring := by rw [hring]; decide
  exact ⟨hmiss, (receive_runs start).2.2.2.2 1 0 1 hmem hmiss⟩

/-- Owner 2 turns connection 0 back behind 1 each time before owner 1 would reach it. -/
theorem passed_over_forever :
    0 ∈ (run start).queue.ring ∧ ∀ n, Misses (fun _ _ => True) 1 0 n (run start) := by
  have hforever : ∀ n h, Sound h → h.queue.ring = [1, 0, 2] → (h.queue.buffers 1).len = 1 →
      (h.queue.buffers 2).len = 1 → Misses (fun _ _ => True) 1 0 n h := by
    intro n
    induction n with
    | zero => exact fun _ _ _ _ _ => .done
    | succ n ih =>
      intro h hs hring hone htwo
      obtain ⟨hfirst, hs', hring', hlens⟩ := @turn 1 h ⟨1, by decide⟩ [0, 2] hs rfl (by rw [hring]; rfl) hone
      rw [hring] at hring'
      obtain ⟨hsecond, hs'', hring'', hlens'⟩ := @turn 2 _ ⟨2, by decide⟩ [1] hs' rfl (by rw [hring']; rfl)
        ((hlens 2).trans htwo)
      rw [hring'] at hring''
      refine @Misses.step _ 1 0 h (.read twoOwners 1 0 1) n trivial rfl (by rw [hfirst]; decide) <|
        @Misses.step _ 1 0 _ (.push ⟨1, by decide⟩ [1]) n trivial trivial (by nofun) <|
        @Misses.step _ 1 0 _ (.read twoOwners 2 0 1) n trivial rfl (by rw [hsecond]; decide) <|
        @Misses.step _ 1 0 _ (.push ⟨2, by decide⟩ [1]) n trivial trivial (by nofun) <|
        ih _ hs'' hring'' ?_ ?_
      · rw [hlens', hlens, hone]
      · rw [hlens', hlens, htwo]
  have hring : (run start).queue.ring = [1, 0, 2] := by decide +kernel
  refine ⟨by rw [hring]; decide, fun n => hforever n _ (run_sound _) hring ?_ ?_⟩
  · decide +kernel
  · decide +kernel

end History

end TcpRxQueue
end Nanami.Net
