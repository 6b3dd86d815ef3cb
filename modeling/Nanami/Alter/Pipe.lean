import Nanami.Lib.Ring
import Nanami.Alter.Files

/-!
# Pipes

Model of `personality/linux/pipe.rs` and of `sendfile` to a pipe, over the ring of a `LinuxPipe`. Whether
a copy of a call from or to the memory of the guest is made is an argument, as is what the file server
answers. A call returns the bytes that it counts.

`sendfile` reads the offset that it is given before it moves a byte, and stores the new one after it has
moved them all. Where the second copy fails, the call returns an error although its bytes are in the
pipe. Without such a call, bytes are read as the calls counted them.
-/

namespace Nanami.Alter.Pipe
open Nanami.Lib List

def linuxPipeBytes : Nat := 4096
/-- The size of the buffer that Alter shares with the posix server. -/
def alterDefaultShmBytes : Nat := 0x10000
def alterIoOffset : Nat := 512

inductive PipeError where
  | efault
  | eagain
  | epipe
  | request
  deriving DecidableEq, Repr

structure LinuxPipe extends PipeEnds where
  buffer : Nat → UInt8
  read : Nat
  write : Nat
  len : Nat

abbrev M := EStateM PipeError LinuxPipe

def boundedLen (len : Nat) : Nat := min len (max (alterDefaultShmBytes - alterIoOffset) 1)

/-- The loop of `sys_pipe_read`: the bytes from the cursor on, and where the cursor stops. -/
def stage (buffer : Nat → UInt8) : Nat → Nat → List UInt8 × Nat
  | 0, cursor => ([], cursor)
  | count + 1, cursor =>
    let (bytes, stop) := stage buffer count ((cursor + 1) % linuxPipeBytes)
    (buffer cursor :: bytes, stop)

def sysPipeRead (userBuffer len : Nat) (copied : Bool) : M (List UInt8) :=
  if userBuffer = 0 ∧ len ≠ 0 then throw .efault
  else if boundedLen len = 0 then return []
  else do
    let pipe ← get
    if pipe.len = 0 then if pipe.writers = 0 then return [] else throw .eagain
    else
      let (bytes, cursor) := stage pipe.buffer (min (boundedLen len) pipe.len) pipe.read
      if !copied then throw .efault
      else
        set { pipe with read := cursor, len := pipe.len - bytes.length }
        return bytes

/-- The loop of `sys_pipe_write`. -/
def LinuxPipe.store (pipe : LinuxPipe) : List UInt8 → LinuxPipe
  | [] => pipe
  | byte :: bytes => store { pipe with
      buffer := Function.update pipe.buffer pipe.write byte
      write := (pipe.write + 1) % linuxPipeBytes
      len := pipe.len + 1 } bytes

/-- `memory` is what the guest has in its buffer. -/
def sysPipeWrite (userBuffer : Nat) (memory : List UInt8) (copied : Bool) : M (List UInt8) :=
  if userBuffer = 0 ∧ memory.length ≠ 0 then throw .efault
  else if boundedLen memory.length = 0 then return []
  else do
    let pipe ← get
    let available := linuxPipeBytes - pipe.len
    if pipe.readers = 0 then throw .epipe
    else if available = 0 ∨
        boundedLen memory.length ≤ linuxPipeBytes ∧ available < boundedLen memory.length then
      throw .eagain
    else if !copied then throw .efault
    else
      let bytes := memory.take (min (boundedLen memory.length) available)
      set (pipe.store bytes)
      return bytes

/-- `sendfile` from a regular file, with what the file has at the offset. `offset` and `stored` are the
outcomes of reading the offset and of storing the new one, which happens when the bytes are in the
pipe. -/
def sysSendfile (count : Nat) (offset : Except PipeError Unit) (source : Except PipeError (List UInt8))
    (stored : Except PipeError Unit) : M (List UInt8) := do
  let pipe ← get
  if pipe.readers = 0 then throw .epipe
  else if pipe.len = linuxPipeBytes ∧ count ≠ 0 then throw .eagain
  else
    fromResult offset
    let count := min (min (min count 0x7ffff000) (linuxPipeBytes - pipe.len)) alterDefaultShmBytes
    if count = 0 then return []
    else
      let bytes := (← fromResult source).take count
      if bytes = [] then return []
      else
        set (pipe.store bytes)
        fromResult stored
        return bytes

/-! ## What the calls do -/

namespace LinuxPipe

variable {p t : LinuxPipe} {bytes memory : List UInt8} {len cursor userBuffer : Nat} {copied : Bool}

def contents (p : LinuxPipe) : List UInt8 := Ring.contents linuxPipeBytes p.buffer p.read p.len

structure Valid (p : LinuxPipe) : Prop where
  read : p.read < linuxPipeBytes
  len : p.len ≤ linuxPipeBytes
  write : p.write = (p.read + p.len) % linuxPipeBytes

lemma eq_zero_of_boundedLen (h : boundedLen len = 0) : len = 0 := by
  simp only [boundedLen, alterDefaultShmBytes, alterIoOffset] at h
  omega

lemma stage_eq (h : cursor < linuxPipeBytes) : stage p.buffer len cursor =
    (Ring.contents linuxPipeBytes p.buffer cursor len, (cursor + len) % linuxPipeBytes) := by
  induction len generalizing cursor with
  | zero => rw [stage, Nat.add_zero, Nat.mod_eq_of_lt h, Ring.contents_zero]
  | succ len ih =>
    rw [stage, ih (Nat.mod_lt _ (by decide)), Ring.contents_cons h]
    simp only [Nat.mod_add_mod, Nat.add_assoc, Nat.add_comm 1 len]

lemma Valid.store (h : p.Valid) (hfit : p.len + bytes.length ≤ linuxPipeBytes) :
    (p.store bytes).Valid ∧ (p.store bytes).contents = p.contents ++ bytes := by
  induction bytes generalizing p with
  | nil => exact ⟨h, (append_nil _).symm⟩
  | cons byte bytes ih =>
    rw [length_cons] at hfit
    obtain ⟨hvalid, hcontents⟩ := @ih
      { p with
        buffer := Function.update p.buffer p.write byte
        write := (p.write + 1) % linuxPipeBytes
        len := p.len + 1 }
      ⟨h.read, by dsimp only; omega, by simp only [h.write, Nat.mod_add_mod, Nat.add_assoc]⟩
      (by dsimp only; omega)
    refine ⟨hvalid, hcontents.trans ?_⟩
    simp only [contents, h.write]
    rw [Ring.contents_append (by omega), append_assoc, singleton_append]

/-- A read takes the oldest bytes or fails and takes none. One that asks for bytes gets none only at
the end of what all writers have left. -/
lemma Valid.sysPipeRead (h : p.Valid) : wp (sysPipeRead userBuffer len copied)
    (fun bytes t => t.Valid ∧ p.contents = bytes ++ t.contents ∧
      (bytes = [] → len = 0 ∨ p.contents = [] ∧ p.writers = 0)) (fun _ t => t = p) p := by
  refine wp_guard rfl fun _ => wp_ite (fun hlen => ?_) fun hlen => ?_
  · exact ⟨h, rfl, fun _ => .inl (eq_zero_of_boundedLen hlen)⟩
  refine wp_ite (fun hempty => wp_ite (fun hwriters => ?_) fun _ => rfl) fun hfull => ?_
  · have hnone : p.contents = [] := by rw [contents, hempty, Ring.contents_zero]
    exact ⟨h, rfl, fun _ => .inr ⟨hnone, hwriters⟩⟩
  simp only [stage_eq h.read, Ring.length_contents]
  refine wp_guard rfl fun _ => ?_
  have hle : min (boundedLen len) p.len ≤ p.len := Nat.min_le_right _ _
  refine ⟨⟨Nat.mod_lt _ (by decide), (Nat.sub_le _ _).trans h.len, ?_⟩, ?_, fun hnil => ?_⟩
  · rw [h.write, Nat.mod_add_mod, Nat.add_assoc, Nat.add_sub_cancel' hle]
  · rw [contents, contents, ← Ring.take_contents hle, ← Ring.drop_contents hle, take_append_drop]
  · have := congrArg List.length hnil
    simp only [Ring.length_contents, length_nil] at this
    omega

/-- A write stores what it counts or fails and stores nothing. One that fits the pipe is stored as a
whole. -/
lemma Valid.sysPipeWrite (h : p.Valid) : wp (sysPipeWrite userBuffer memory copied)
    (fun bytes t => t.Valid ∧ t.contents = p.contents ++ bytes ∧ bytes <+: memory ∧
      (memory.length ≤ 4096 → bytes = memory)) (fun _ t => t = p) p := by
  refine wp_guard rfl fun _ => wp_ite (fun hzero => ?_) fun _ => ?_
  · have hnil := length_eq_zero_iff.mp (eq_zero_of_boundedLen hzero)
    exact ⟨h, (append_nil _).symm, nil_prefix, fun _ => hnil.symm⟩
  refine wp_guard rfl fun _ => wp_guard rfl fun hroom => wp_guard rfl fun _ => ?_
  obtain ⟨hvalid, hcontents⟩ := @store p (memory.take (min (boundedLen memory.length)
    (linuxPipeBytes - p.len))) h (by rw [length_take]; omega)
  refine ⟨hvalid, hcontents, take_prefix _ _, fun hsmall => take_of_length_le ?_⟩
  simp only [boundedLen, alterDefaultShmBytes, alterIoOffset, linuxPipeBytes] at hroom ⊢
  omega

/-- The bytes are from the front of the file and went to the end of the pipe. -/
structure Sent (p : LinuxPipe) (count : Nat) (source : Except PipeError (List UInt8)) (bytes : List UInt8)
    (t : LinuxPipe) : Prop where
  appended : t.contents = p.contents ++ bytes
  counted : bytes.length ≤ count
  front : bytes = [] ∨ ∃ data, source = .ok data ∧ bytes <+: data

/-- Where an offset that could be read can be stored, `sendfile` stores what it counts or fails and
stores nothing. -/
lemma Valid.sysSendfile (h : p.Valid) {count offset source stored}
    (hstored : offset = .ok () → stored = .ok ()) :
    wp (sysSendfile count offset source stored) (fun bytes t => t.Valid ∧ Sent p count source bytes t)
      (fun _ t => t = p) p := by
  have hnone : Sent p count source [] p := ⟨(append_nil _).symm, Nat.zero_le _, .inl rfl⟩
  unfold Pipe.sysSendfile
  refine wp_guard rfl fun _ => wp_guard rfl fun _ => wp_result (fun _ => rfl) fun _ hoffset => ?_
  rw [hstored hoffset]
  refine wp_ite (fun _ => ⟨h, hnone⟩) fun _ => ?_
  refine wp_result (fun _ => rfl) fun data hdata => wp_ite (fun _ => ⟨h, hnone⟩) fun _ => ?_
  have hfit : p.len + (data.take (min (min (min count 0x7ffff000) (linuxPipeBytes - p.len))
      alterDefaultShmBytes)).length ≤ linuxPipeBytes := by
    rw [length_take]
    omega
  obtain ⟨hvalid, hcontents⟩ := h.store hfit
  refine ⟨hvalid, hcontents, ?_, .inr ⟨data, hdata, take_prefix _ _⟩⟩
  rw [length_take]
  omega

end LinuxPipe

/-! ## Runs -/

inductive Call where
  | read (userBuffer len : Nat) (copied : Bool)
  | write (userBuffer : Nat) (memory : List UInt8) (copied : Bool)
  | sendfile (count : Nat) (offset : Except PipeError Unit) (source : Except PipeError (List UInt8))
      (stored : Except PipeError Unit)
  | ends (readers writers : Nat)

/-- A `sendfile` that could read its offset can store the new one. -/
def Call.StoresOffset : Call → Prop
  | .sendfile _ offset _ stored => offset = .ok () → stored = .ok ()
  | _ => True

/-- A pipe with all bytes that its calls counted as written to it and read from it. -/
structure History where
  pipe : LinuxPipe
  written : List UInt8
  taken : List UInt8

namespace History

/-- A call that fails leaves both lists as they are. -/
def record {α} (h : History) (call : M α) (log : α → LinuxPipe → History) : History :=
  match call h.pipe with
  | .ok a p => log a p
  | .error _ p => { h with pipe := p }

def step (h : History) : Call → History
  | .read userBuffer len copied =>
    h.record (sysPipeRead userBuffer len copied) fun bytes p => ⟨p, h.written, h.taken ++ bytes⟩
  | .write userBuffer memory copied =>
    h.record (sysPipeWrite userBuffer memory copied) fun bytes p => ⟨p, h.written ++ bytes, h.taken⟩
  | .sendfile count offset source stored =>
    h.record (sysSendfile count offset source stored) fun bytes p => ⟨p, h.written ++ bytes, h.taken⟩
  | .ends readers writers => { h with pipe := { h.pipe with readers, writers } }

def run (h : History) (calls : List Call) : History := calls.foldl step h

def start : History := ⟨⟨⟨true, 1, 1⟩, fun _ => 0, 0, 0, 0⟩, [], []⟩

structure Sound (h : History) : Prop where
  valid : h.pipe.Valid
  order : h.taken ++ h.pipe.contents = h.written

variable {h : History} {call : Call}

lemma record_sound {α} {call : M α} {log Q} (hs : Sound h)
    (hcall : wp call Q (fun _ t => t = h.pipe) h.pipe) (hlog : ∀ a t, Q a t → Sound (log a t)) :
    Sound (h.record call log) := by
  unfold record
  split <;> rename_i hc
  · exact hlog _ _ (wp_ok hcall hc)
  · exact wp_error hcall hc ▸ hs

lemma step_sound (hs : Sound h) (hcall : call.StoresOffset) : Sound (h.step call) := by
  obtain ⟨valid, order⟩ := id hs
  cases call with
  | read userBuffer len copied =>
    refine record_sound hs valid.sysPipeRead fun bytes t ⟨hvalid, hsplit, _⟩ => ⟨hvalid, ?_⟩
    rw [append_assoc, ← hsplit, order]
  | write userBuffer memory copied =>
    refine record_sound hs valid.sysPipeWrite fun bytes t ⟨hvalid, happend, _⟩ => ⟨hvalid, ?_⟩
    rw [happend, ← append_assoc, order]
  | sendfile count offset source stored =>
    refine record_sound hs (valid.sysSendfile hcall) fun bytes t ⟨hvalid, hsent⟩ => ⟨hvalid, ?_⟩
    rw [hsent.appended, ← append_assoc, order]
  | ends readers writers => exact ⟨⟨valid.read, valid.len, valid.write⟩, order⟩

lemma run_sound {calls} (hs : Sound h) (hcalls : ∀ call ∈ calls, call.StoresOffset) :
    Sound (h.run calls) := by
  induction calls generalizing h with
  | nil => exact hs
  | cons call calls ih =>
    obtain ⟨hcall, hrest⟩ := forall_mem_cons.mp hcalls
    exact ih (step_sound hs hcall) hrest

/-- In every run from an empty pipe in which no `sendfile` has an offset that can be read but not
stored, what is read is what was written, in its order. And in every state reached a call that fails
moves no byte and one that succeeds moves those it counts: a read the oldest ones, a write those from
the front of the guest's buffer, and all of them if they are at most 4096, a `sendfile` those from the
front of the file. A read of at least one byte returns none only when the pipe is empty and nobody can
write to it. -/
theorem pipe_in_order {calls : List Call} (hcalls : ∀ call ∈ calls, call.StoresOffset) :
    let h := start.run calls
    h.taken ++ h.pipe.contents = h.written ∧
    (∀ userBuffer len copied, wp (sysPipeRead userBuffer len copied)
      (fun bytes t => h.pipe.contents = bytes ++ t.contents ∧
        (bytes = [] → len = 0 ∨ h.pipe.contents = [] ∧ h.pipe.writers = 0))
      (fun _ t => t.contents = h.pipe.contents) h.pipe) ∧
    (∀ userBuffer memory copied, wp (sysPipeWrite userBuffer memory copied)
      (fun bytes t => t.contents = h.pipe.contents ++ bytes ∧ bytes <+: memory ∧
        (memory.length ≤ 4096 → bytes = memory))
      (fun _ t => t.contents = h.pipe.contents) h.pipe) ∧
    ∀ count offset source stored, (Call.sendfile count offset source stored).StoresOffset →
      wp (sysSendfile count offset source stored) (LinuxPipe.Sent h.pipe count source)
        (fun _ t => t.contents = h.pipe.contents) h.pipe := by
  have hs : Sound (start.run calls) := run_sound ⟨⟨by decide, by decide, rfl⟩, rfl⟩ hcalls
  refine ⟨hs.order, fun userBuffer len copied => ?_, fun userBuffer memory copied => ?_,
    fun count offset source stored hstored => ?_⟩
  · exact wp_mono hs.valid.sysPipeRead (fun _ _ ht => ht.2) fun _ _ ht => ht ▸ rfl
  · exact wp_mono hs.valid.sysPipeWrite (fun _ _ ht => ht.2) fun _ _ ht => ht ▸ rfl
  · exact wp_mono (hs.valid.sysSendfile hstored) (fun _ _ ht => ht.2) fun _ _ ht => ht ▸ rfl

/-- A byte written, two sent from a file, and two read. -/
theorem pipe_in_order_sent_file :
    let calls : List Call := [.write 1 [7] true, .sendfile 2 (.ok ()) (.ok [8, 9]) (.ok ()), .read 1 2 true]
    (start.run calls).taken = [7, 8] ∧
      (start.run calls).taken ++ (start.run calls).pipe.contents = (start.run calls).written := by
  refine ⟨by decide +kernel, (pipe_in_order ?_).1⟩
  simp [Call.StoresOffset]

/-- A `sendfile` whose offset can be read but not stored fails, and its byte is in the pipe. -/
theorem failed_sendfile_stores :
    let h := start.step (.sendfile 1 (.ok ()) (.ok [7]) (.error .efault))
    wp (sysSendfile 1 (.ok ()) (.ok [7]) (.error .efault)) (fun _ _ => False)
      (fun e t => e = .efault ∧ t.contents = [7]) start.pipe ∧
    h.pipe.contents = [7] ∧ h.taken = [] ∧ h.written = [] :=
  ⟨⟨rfl, by decide +kernel⟩, by decide +kernel, rfl, rfl⟩

/-- A read of no bytes returns 0 although there is a byte to read and a writer. -/
lemma empty_read_returns_zero : let p := (start.run [.write 1 [7] true]).pipe
    p.contents = [7] ∧ p.writers = 1 ∧ wp (sysPipeRead 1 0 true) (fun bytes _ => bytes = [])
      (fun _ _ => False) p :=
  ⟨by decide +kernel, rfl, rfl⟩

end History

end Nanami.Alter.Pipe
