import Nanami.Alter.PtyBounds

/-!
# Runs of a pseudo-terminal

Every operation on a pair is an event; a run ends in a panic when an array is left. Runs keep the
buffers within their bounds as long as the room check of each master's write covers what the kill and
word-erase characters do. `quietKill` shows a setting in which it does not.
-/

namespace Nanami.Alter.Pty

open Lib List

variable {p q : Pty}

/-! ### Reading -/

/-- The bytes a read may take from the slave's side: the rest of the first record. -/
def firstRecord (p : Pty) : Nat := p.records.headD 0

variable {master : Bool} {count : Nat} {records : List Nat}

def idle (p : Pty) (master : Bool) : Bool :=
  if master then !(p.packet && p.packetStatus != 0) && (p.output.isEmpty || p.stopped) && !p.masterHup
  else (if p.canonical then p.records.isEmpty else p.input.isEmpty) && !p.eof

/-- A read of the slave's side in canonical mode stays in the first record, and only an idle side
makes a read wait. -/
lemma peek_returns {output} :
    Returns (p.peek master output) fun result => (∀ buffer count, result = .ok (buffer, count) →
      master = false → p.canonical = true → count ≤ p.firstRecord) ∧
      (result = .error .again ↔ output ≠ [] ∧ p.idle master = true) := by
  refine .ite (fun hempty => ?_) fun hempty => ?_
  · refine .pure ⟨fun buffer count h _ _ => ?_, nofun, fun h => absurd (isEmpty_iff.mp hempty) h.1⟩
    cases h
    exact Nat.zero_le _
  have hne : output ≠ [] := fun h => hempty (isEmpty_iff.mpr h)
  have hpos : 0 < output.length := length_pos_iff.mpr hne
  refine .ite (fun hmaster => ?_) fun hslave => ?_
  · subst hmaster
    refine .ite (fun hpacket => ?_) fun hpacket => .ite (fun hquiet => ?_) fun hquiet => ?_
    · refine .bind (.itemAt hpos) fun _ _ => .pure ⟨nofun, nofun, fun h => ?_⟩
      simp [idle, hpacket] at h
    · refine .pure ⟨nofun, ?_⟩
      cases hhup : p.masterHup <;> simp [idle, hpacket, hquiet, hhup, hne]
    · have hlen : (if p.packet then output.set 0 0 else output).length = output.length := by
        split
        · exact length_set
        · rfl
      have hstart : (if p.packet then 1 else 0) ≤ output.length := by split <;> omega
      refine .bind (.slice (by rw [hlen]; exact hstart) le_rfl) fun target htarget => ?_
      refine .bind (.slice (Nat.zero_le _) ?_) fun _ _ => .pure ⟨nofun, nofun, fun h => ?_⟩
      · rw [htarget]
        exact min_le_left _ _
      · simp [idle, hquiet] at h
  · obtain rfl : master = false := by simpa using hslave
    split
    case h_1 e he =>
      refine .pure ⟨nofun, ?_⟩
      cases hc : p.canonical with
      | true =>
        cases hrecords : p.records with
        | nil => cases heof : p.eof <;> simp_all [idle]
        | cons len records => simp [hc, hrecords] at he
      | false =>
        simp only [hc, Bool.false_eq_true, if_false] at he
        split at he <;> simp_all [idle]
    case h_2 count hcount =>
      refine .bind (.slice (Nat.zero_le _) (Nat.min_le_right _ _)) fun _ _ => ?_
      refine .pure ⟨fun buffer taken h _ hcanonical => ?_, nofun, fun h => ?_⟩
      · cases h
        refine (min_le_left _ _).trans ?_
        rw [if_pos hcanonical] at hcount
        unfold firstRecord
        cases hrecords : p.records with
        | nil =>
          rw [hrecords] at hcount
          dsimp only at hcount
          split at hcount
          · cases hcount
            exact le_rfl
          · cases hcount
        | cons len records =>
          rw [hrecords] at hcount
          cases hcount
          exact le_rfl
      · cases hc : p.canonical <;> simp_all [idle]

lemma drainFront_returns {buffer} (h : count ≤ buffer.length) :
    Returns (drainFront buffer count) fun rest => rest = buffer.drop count :=
  .bind (.slice (Nat.zero_le _) h) fun _ _ => .pure rfl

lemma sum_consumeRecord (h : count ≤ records.headD 0) :
    (consumeRecord count records).sum = records.sum - count := by
  cases records with
  | nil => exact (Nat.zero_sub _).symm
  | cons record records =>
    have hle : count ≤ record := h
    rw [consumeRecord]
    split
    · rw [sum_cons]
      omega
    · rw [sum_cons, sum_cons]
      omega

lemma length_consumeRecord : (consumeRecord count records).length ≤ records.length := by
  cases records with
  | nil => exact le_rfl
  | cons record records =>
    rw [consumeRecord]
    split
    · exact Nat.le_succ _
    · exact le_rfl

lemma consume_returns (h : p.Sound)
    (hcount : master = false → p.canonical = true → count ≤ p.firstRecord) :
    Returns (p.consume master count) Sound := by
  refine .ite (fun _ => ?_) fun hslave => ?_
  · refine .ite (fun _ => ?_) fun _ => ?_
    · exact .pure h
    · refine .bind (drainFront_returns (min_le_right _ _)) fun rest hrest => ?_
      refine .pure (h.shortenOutput ?_)
      rw [hrest, length_drop]
      exact Nat.sub_le _ _
  · refine .bind (drainFront_returns (min_le_right _ _)) fun rest hrest => ?_
    have hrest : rest.length = p.input.length - count := by
      rw [hrest, length_drop]
      omega
    have hinput := h.input_le
    have hlen : (if p.canonical then consumeRecord count p.records else p.records).length ≤
        p.records.length := by
      split
      · exact length_consumeRecord
      · exact le_rfl
    refine .pure { h with input_le := ?_, count_le := ?_, count_lt := ?_, sum_eq := ?_, raw := ?_ }
    · dsimp only
      omega
    · exact hlen.trans h.count_le
    · exact fun hup => hlen.trans (h.count_lt hup)
    · intro hcanonical
      have hc : p.canonical = true := hcanonical
      rw [if_pos hc, sum_consumeRecord (hcount (by simpa using hslave) hc), h.sum_eq hc, hrest]
    · intro hraw
      exact ⟨Nat.le_zero.mp (hlen.trans (h.raw hraw).1.le), (h.raw hraw).2⟩

lemma read_returns {len done} (h : p.Sound) : Returns (p.read master len done) Sound := by
  refine .ite (fun _ => .pure h) fun _ => ?_
  refine .bind peek_returns fun result hresult => ?_
  cases result with
  | error e => exact .pure h
  | ok r =>
    obtain ⟨buffer, count⟩ := r
    refine .ite (fun _ => .pure h) fun _ => consume_returns h ?_
    intro hmaster hcanonical
    exact (min_le_right _ _).trans (hresult.1 buffer count rfl hmaster hcanonical)

/-! ### Events -/

inductive Event where
  | setTermios (value : Termios) (flush : Bool)
  | setWinsize (value : UInt16 × UInt16 × UInt16 × UInt16)
  | setLocked (on : Bool)
  | setPacket (on : Bool)
  | setFlags (description flags : Nat)
  | openSlave (flags : Nat)
  | close (description : Nat)
  | flush (direction : Nat)
  | flow (stop : Bool)
  | hangup
  | write (master : Bool) (bytes : List UInt8) (now : Nat)
  | read (master : Bool) (len done : Nat)

def step (p : Pty) : Event → Checked Pty
  | .setTermios value flush => pure (p.setTermios value flush)
  | .setWinsize value => pure { p with winsize := value }
  | .setLocked on => pure { p with locked := on }
  | .setPacket on => pure { p with packet := on, packetStatus := 0 }
  | .setFlags description flags => pure (p.setFlags description flags)
  | .openSlave flags =>
    match p.openSlave flags with
    | .ok (_, p) => pure p
    | .error _ => pure p
  | .close description => pure (p.close description)
  | .flush direction => pure (p.flush direction)
  | .flow stop => pure (p.flow stop)
  | .hangup => pure p.hangup
  | .write master bytes now => pure (p.write master bytes now).1
  | .read master len done => p.read master len done

def run (p : Pty) : List Event → Checked Pty
  | [] => pure p
  | event :: events => do
    let p ← p.step event
    run p events

/-- The condition on a master's write: in canonical mode each of its bytes is covered by the room
check. -/
def Careful (p : Pty) : Event → Prop
  | .write true bytes _ => p.canonical = true → ∀ byte ∈ bytes, p.ByteCovered byte
  | _ => True

def Along (P : Pty → Event → Prop) : Pty → List Event → Prop
  | _, [] => True
  | p, event :: events => P p event ∧ ∀ p', p.step event = .ok p' → Along P p' events

lemma close_sound {description} (h : p.Sound) : (p.close description).Sound := by
  have hclosed : Sound { p with descriptions := p.descriptions.filter (·.id ≠ description) } :=
    h
  unfold close
  dsimp only
  split
  · exact hangup_sound hclosed
  · split
    · exact hclosed
    · exact hclosed

lemma openSlave_sound {flags id} (h : p.Sound) (ho : p.openSlave flags = .ok (id, q)) :
    q.Sound := by
  unfold openSlave at ho
  split at ho
  · cases ho
  · split at ho
    · cases ho
    · split at ho
      · cases ho
      · cases ho
        exact h

lemma step_returns {event} (h : p.Sound) (hcareful : p.Careful event) :
    Returns (p.step event) Sound := by
  cases event with
  | setTermios value flush => exact .pure (setTermios_sound h)
  | setWinsize value | setLocked on | setPacket on | setFlags description flags =>
    exact .pure h
  | openSlave flags =>
    rw [step]
    split
    · exact .pure (openSlave_sound h ‹_›)
    · exact .pure h
  | close description => exact .pure (close_sound h)
  | flush direction => exact .pure (flush_same.same h)
  | flow stop => exact .pure (flow_same.same h)
  | hangup => exact .pure (hangup_sound h)
  | write master bytes now =>
    refine .pure (write_sound h ?_)
    rintro rfl
    exact hcareful
  | read master len done => exact read_returns h

lemma run_returns {events} (h : p.Sound) (hcareful : Along Careful p events) :
    Returns (p.run events) Sound := by
  induction events generalizing p with
  | nil => exact .pure h
  | cons event events ih =>
    have hstep := step_returns h hcareful.1
    rw [run]
    cases hs : p.step event with
    | error e =>
      rw [hs] at hstep
      exact hstep.elim
    | ok p' =>
      rw [hs] at hstep
      exact ih hstep (hcareful.2 p' hs)

lemma create_sound {flags} : (create flags).Sound :=
  sound_of_empty rfl rfl rfl (Nat.zero_le _)

/-! ### The bounds -/

def boundariesFrom (start : Nat) : List Nat → List Nat
  | [] => []
  | record :: records => (start + record) :: boundariesFrom (start + record) records

def boundaries (p : Pty) : List Nat := boundariesFrom 0 p.records

lemma mem_boundariesFrom {start boundary} (h : boundary ∈ boundariesFrom start records) :
    start ≤ boundary ∧ boundary ≤ start + records.sum := by
  induction records generalizing start with
  | nil => cases h
  | cons record records ih =>
    rw [sum_cons]
    rcases mem_cons.mp h with rfl | h
    · omega
    · have := ih h
      omega

lemma boundariesFrom_sorted {start} : (boundariesFrom start records).Pairwise (· ≤ ·) := by
  induction records generalizing start with
  | nil => exact List.Pairwise.nil
  | cons record records ih =>
    exact List.Pairwise.cons (fun _ h => (mem_boundariesFrom h).1) ih

/-- The buffers are within their capacities, the record boundaries are sorted places of the input,
and the record lengths count the bytes buffered in canonical mode exactly; raw input has no
records. -/
structure Bounded (p : Pty) : Prop where
  input_le : p.input.length ≤ capacity
  output_le : p.output.length ≤ capacity
  line_le : p.line.length ≤ lineMax
  records_le : p.records.length ≤ lineMax
  sorted : p.boundaries.Pairwise (· ≤ ·)
  inside : ∀ boundary ∈ p.boundaries, boundary ≤ p.input.length
  exact_count : p.records.sum = if p.canonical then p.input.length else 0
  raw : p.canonical = false → p.records = []

lemma Sound.bounded (h : p.Sound) : p.Bounded := by
  have hempty : p.canonical = false → p.records = [] := fun hraw =>
    eq_nil_of_length_eq_zero (h.raw hraw).1
  have hsum : p.records.sum = if p.canonical then p.input.length else 0 := by
    cases hc : p.canonical with
    | true => exact h.sum_eq hc
    | false => rw [hempty hc]; rfl
  refine
    { input_le := ?_
      output_le := h.output_le
      line_le := h.line_le.trans (Nat.sub_le _ _)
      records_le := h.count_le
      sorted := boundariesFrom_sorted
      inside := ?_
      exact_count := hsum
      raw := hempty }
  · have := h.input_le
    omega
  · intro boundary hb
    have hle := (mem_boundariesFrom hb).2
    rw [hsum, zero_add] at hle
    refine hle.trans ?_
    split
    · exact le_rfl
    · exact Nat.zero_le _

/-- From a new pair every run whose steps are careful ends without leaving an array, with the buffers
within their bounds and the records counting the buffered bytes. -/
theorem pty_bounded (flags : Nat) (events : List Event)
    (hcareful : Along Careful (create flags) events) :
    ∃ p, (create flags).run events = .ok p ∧ p.Bounded := by
  have hrun := run_returns create_sound hcareful
  cases hr : (create flags).run events with
  | error e =>
    rw [hr] at hrun
    exact hrun.elim
  | ok p =>
    rw [hr] at hrun
    exact ⟨p, rfl, Sound.bounded hrun⟩

def quietTermios : Termios :=
  #v[0, 5, 0, 0, 5, 0, 0, 0, 0xbf, 0, 0, 0, 0x22, 0, 0, 0, 0,
    3, 28, 127, 21, 4, 0, 1, 0, 17, 19, 26, 0, 18, 15, 23, 22, 0, 0, 0]

def quiet (output : List UInt8) : Pty := { create 0 with termios := quietTermios, output := output }

/-- A byte that is neither translated nor a flow control or signal character. -/
lemma masterByte_stored {byte now} (htranslate : p.translate byte = some byte)
    (hstop : p.control byte vStop = false) (hstart : p.control byte vStart = false)
    (hrestart : p.restart = p) (hsignal : p.signalOf byte = 0) :
    p.masterByte byte now = p.storeByte byte now := by
  rw [masterByte, htranslate]
  dsimp only
  rw [hstop, hstart, hrestart, hsignal, Bool.and_false]
  simp

/-- Every kill character puts a newline into the output, however full it is. -/
lemma quiet_kill {output} :
    (quiet output).step (.write true [21] 0) = .ok (quiet (output ++ [13] ++ [10])) := by
  have hstore : (quiet output).storeByte 21 0 = .next (quiet (output ++ [13] ++ [10])) 0 := by
    have hediting : (quiet output).editing 21 = true := by cbv
    have hcheck : (quiet output).local? (echoFlag ||| echonl) = false := by cbv
    have hcanonical : (quiet output).canonical = true := by cbv
    have hedit : (quiet output).edit 21 = some (quiet (output ++ [13] ++ [10])) := by cbv
    rw [storeByte, hediting, hcheck, hcanonical, hedit]
    rfl
  rw [step, write, writeFrom, if_pos rfl,
    masterByte_stored (by cbv) (by cbv) (by cbv) (by cbv) (by cbv), hstore]
  rfl

lemma quiet_kills {n output} :
    ∃ output', (quiet output).run (List.replicate n (.write true [21] 0)) = .ok (quiet output') ∧
      output'.length = output.length + 2 * n := by
  induction n generalizing output with
  | zero => exact ⟨output, rfl, rfl⟩
  | succ n ih =>
    obtain ⟨output', hrun, hlen⟩ := @ih (output ++ [13] ++ [10])
    refine ⟨output', ?_, ?_⟩
    · rw [replicate_succ, run, quiet_kill]
      exact hrun
    · simp only [length_append, length_singleton] at hlen
      omega

lemma quiet_run {n} : ∃ p, (create 0).run (.setTermios quietTermios false ::
    List.replicate n (.write true [21] 0)) = .ok p ∧ p.output.length = 2 * n := by
  obtain ⟨output, hrun, hlen⟩ := @quiet_kills n []
  refine ⟨quiet output, ?_, hlen.trans (zero_add _)⟩
  exact hrun

/-- The settings, and then more newlines than the output has room for. -/
theorem kill_overflows :
    ∃ p, (create 0).run (.setTermios quietTermios false ::
        List.replicate 16385 (.write true [21] 0)) = .ok p ∧ ¬p.Bounded := by
  obtain ⟨p, hrun, hlen⟩ := @quiet_run 16385
  refine ⟨p, hrun, fun h => ?_⟩
  have hle := h.output_le
  rw [hlen] at hle
  exact absurd hle (by decide)

/-- Settings and a line that are careful: the default settings, in which a kill erases the line. -/
theorem pty_bounded_default : ∃ p, (create 0).run [.write true [97, 98, 21, 10] 0] = .ok p ∧
    p.Bounded := by
  refine pty_bounded 0 _ ⟨?_, fun _ _ => trivial⟩
  intro _ original _ byte _
  refine ⟨fun _ _ hke => ?_, fun _ _ hcovered => ?_⟩
  · exact absurd hke (by decide)
  · exact absurd hcovered.2.2.1 (by decide)

end Nanami.Alter.Pty
