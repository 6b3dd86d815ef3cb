import Nanami.Lib.Checked
import Nanami.Lib.Machine

/-!
# Pseudo-terminals

Storage and line discipline of a Unix98 PTY (`common/state/pty.rs`): one pair, with the buffers of
both directions, the record lengths of the canonical mode and the line being edited. Array accesses
with a computed bound are checked. A record is `records`' entry for it: its length, counted from the
end of the record before.
-/

namespace Nanami.Alter

open Lib

namespace Pty

def capacity : Nat := 32 * 1024
def lineMax : Nat := 4096

def icanon : UInt32 := 2
def noflsh : UInt32 := 0x80
def echoFlag : UInt32 := 8
def echoe : UInt32 := 0x10
def echok : UInt32 := 0x20
def echonl : UInt32 := 0x40
def echoctl : UInt32 := 0x200
def iexten : UInt32 := 0x8000
def isig : UInt32 := 1
def echoke : UInt32 := 0x800
def istrip : UInt32 := 0x20
def inlcr : UInt32 := 0x40
def igncr : UInt32 := 0x80
def icrnl : UInt32 := 0x100
def ixon : UInt32 := 0x400
def ixany : UInt32 := 0x800
def opost : UInt32 := 1
def onlcr : UInt32 := 4
def ocrnl : UInt32 := 8
def onocr : UInt32 := 0x10
def onlret : UInt32 := 0x20
def tabdly : UInt32 := 0x1800
def tab3 : UInt32 := 0x1800

/-- An index of a control character; the termios record has room for nineteen. -/
abbrev CcIndex := Fin 19

def vIntr : CcIndex := 0
def vQuit : CcIndex := 1
def vErase : CcIndex := 2
def vKill : CcIndex := 3
def vEof : CcIndex := 4
def vTime : CcIndex := 5
def vMin : CcIndex := 6
def vStart : CcIndex := 8
def vStop : CcIndex := 9
def vSusp : CcIndex := 10
def vEol : CcIndex := 11
def vWErase : CcIndex := 14
def vLNext : CcIndex := 15
def vEol2 : CcIndex := 16

def oAccmode : Nat := 3
def oNonblock : Nat := 0x800

def newline : UInt8 := 10
def carriageReturn : UInt8 := 13
def tab : UInt8 := 9
def space : UInt8 := 32

inductive Error where
  | again
  | io
  | full
  | missing
  | locked
  deriving DecidableEq, Repr

structure Description where
  id : Nat
  master : Bool
  flags : Nat
  deriving DecidableEq, Repr

abbrev Termios := Vector UInt8 36

end Pty

open Pty in
structure Pty where
  locked : Bool
  termios : Termios
  winsize : UInt16 × UInt16 × UInt16 × UInt16
  lastInput : Nat
  packet : Bool
  packetStatus : UInt8
  descriptions : List Description
  nextDescription : Nat
  slaveOpened : Bool
  hungUp : Bool
  input : List UInt8
  records : List Nat
  line : List UInt8
  output : List UInt8
  stopped : Bool
  literal : Bool
  column : Nat

namespace Pty

def fromLeBytes (b0 b1 b2 b3 : UInt8) : UInt32 :=
  b0.toUInt32 ||| b1.toUInt32 <<< 8 ||| b2.toUInt32 <<< 16 ||| b3.toUInt32 <<< 24

def defaultTermios : Termios :=
  #v[0, 5, 0, 0, 5, 0, 0, 0, 0xbf, 0, 0, 0, 0x3b, 0x8a, 0, 0, 0,
    3, 28, 127, 21, 4, 0, 1, 0, 17, 19, 26, 0, 18, 15, 23, 22, 0, 0, 0]

/-- The pair that `Ptys::create` pushes. -/
def create (flags : Nat) : Pty where
  locked := true
  termios := defaultTermios
  winsize := (24, 80, 0, 0)
  lastInput := 0
  packet := false
  packetStatus := 0
  descriptions := [⟨1, true, flags⟩]
  nextDescription := 2
  slaveOpened := false
  hungUp := false
  input := []
  records := []
  line := []
  output := []
  stopped := false
  literal := false
  column := 0

variable (p : Pty)

def masterOpen : Bool := p.descriptions.any (·.master)

def slaveOpen : Bool := p.descriptions.any (!·.master)

def lflag : UInt32 := fromLeBytes p.termios[12] p.termios[13] p.termios[14] p.termios[15]

def iflag : UInt32 := fromLeBytes p.termios[0] p.termios[1] p.termios[2] p.termios[3]

def oflag : UInt32 := fromLeBytes p.termios[4] p.termios[5] p.termios[6] p.termios[7]

/-- Whether a flag of the local modes is on; the next two are for input and output modes. -/
def local? (flag : UInt32) : Bool := p.lflag &&& flag != 0

def input? (flag : UInt32) : Bool := p.iflag &&& flag != 0

def output? (flag : UInt32) : Bool := p.oflag &&& flag != 0

def canonical : Bool := p.local? icanon

def cc (index : CcIndex) : UInt8 := p.termios[17 + index.val]

def control (byte : UInt8) (index : CcIndex) : Bool := byte != 0 && byte == p.cc index

def openSlave (flags : Nat) : Except Error (Nat × Pty) :=
  if !p.masterOpen || p.hungUp then throw .io
  else if p.locked then throw .locked
  else
    match checkedAdd p.nextDescription 1 with
    | none => throw .full
    | some next => return (p.nextDescription,
        { p with
          nextDescription := next
          descriptions := p.descriptions ++ [⟨p.nextDescription, false, flags⟩]
          slaveOpened := true })

/-- `flags(description, Some(flags))`. -/
def setFlags (description flags : Nat) : Pty :=
  { p with descriptions := p.descriptions.map fun d =>
      if d.id = description then { d with flags := (d.flags &&& oAccmode) ||| (flags &&& oNonblock) }
      else d }

def flushInput : Pty :=
  { p with
    input := []
    line := []
    records := []
    literal := false
    packetStatus := p.packetStatus ||| 1 }

def flushOutput : Pty := { p with output := [], packetStatus := p.packetStatus ||| 2 }

def flush (direction : Nat) : Pty :=
  if direction = 0 ∨ direction = 2 then
    if direction = 1 ∨ direction = 2 then p.flushInput.flushOutput else p.flushInput
  else if direction = 1 ∨ direction = 2 then p.flushOutput
  else p

/-- The part of `set_termios` that moves the buffered bytes when the canonical mode changes. -/
def switchMode (canonical : Bool) : Pty :=
  if canonical ≠ p.canonical then
    let input := p.input ++ p.line
    { p with
      input := input
      line := []
      records := if p.canonical && !input.isEmpty then [input.length] else [] }
  else p

def noteIxon (oldIxon : Bool) : Pty :=
  if oldIxon ≠ p.input? ixon then
    { p with packetStatus := p.packetStatus ||| if oldIxon then 16 else 32 }
  else p

def release : Pty := if p.input? ixon then p else { p with stopped := false }

def setTermios (value : Termios) (flush : Bool) : Pty :=
  if flush then
    (((switchMode { p with termios := value } p.canonical).noteIxon (p.input? ixon)).release).flush 0
  else ((switchMode { p with termios := value } p.canonical).noteIxon (p.input? ixon)).release

def flow (stop : Bool) : Pty :=
  if p.stopped ≠ stop then
    { p with stopped := stop, packetStatus := p.packetStatus ||| if stop then 4 else 8 }
  else p

def endRecord : Pty :=
  { p with
    records := p.records ++ [p.line.length]
    input := p.input ++ p.line
    line := [] }

def hangup : Pty :=
  -- Canonical input not yet terminated becomes readable on hangup.
  if p.line.isEmpty then { p with hungUp := true, stopped := false }
  else { p.endRecord with hungUp := true, stopped := false }

def eof : Bool := p.hungUp || !p.masterOpen

def masterHup : Bool := p.hungUp || (p.slaveOpened && !p.slaveOpen)

/-- `Ptys::close` of a description, on its pair. -/
def close (description : Nat) : Pty :=
  let wasMaster := p.masterOpen
  let p := { p with descriptions := p.descriptions.filter (·.id ≠ description) }
  if wasMaster && !p.masterOpen then p.hangup
  else if p.slaveOpened && !p.slaveOpen then { p with stopped := false }
  else p

/-! ### Reading -/

/-- `for (to, from) in target.iter_mut().zip(from) { *to = *from }`. -/
def copyInto (target source : List UInt8) : List UInt8 :=
  source.take target.length ++ target.drop source.length

/-- `peek(master, output)`: the buffer afterwards, and the count. -/
def peek (master : Bool) (output : List UInt8) : Checked (Except Error (List UInt8 × Nat)) :=
  if output.isEmpty then return .ok (output, 0)
  else if master then
    if p.packet && p.packetStatus != 0 then do
      let _ ← itemAt output 0
      return .ok (output.set 0 p.packetStatus, 1)
    else if p.output.isEmpty || p.stopped then
      return .error (if p.masterHup then .io else .again)
    else do
      let start := if p.packet then 1 else 0
      let output := if p.packet then output.set 0 0 else output
      let count := min (output.length - start) p.output.length
      let target ← slice output start output.length
      let target ← slice target 0 count
      return .ok (output.take start ++ copyInto target p.output ++ output.drop (start + count),
        start + count)
  else
    match (if p.canonical then
        match p.records with
        | len :: _ => Except.ok len
        | [] => if p.eof then .ok 0 else .error Error.again
      else if p.input.length = 0 ∧ ¬p.eof then .error .again
      else .ok p.input.length) with
    | .error e => return .error e
    | .ok count => do
      let count := min count output.length
      let target ← slice output 0 count
      return .ok (copyInto target p.input ++ output.drop count, count)

/-- `buffer.drain(..count)`: what is left. -/
def drainFront (buffer : List UInt8) (count : Nat) : Checked (List UInt8) := do
  let _ ← slice buffer 0 count
  return buffer.drop count

def consumeRecord (count : Nat) : List Nat → List Nat
  | [] => []
  | record :: records => if record - count = 0 then records else (record - count) :: records

def consume (master : Bool) (count : Nat) : Checked Pty :=
  if master then
    if p.packet && p.packetStatus != 0 then return { p with packetStatus := 0 }
    else do
      let payload := count - if p.packet then 1 else 0
      let output ← drainFront p.output (min payload p.output.length)
      return { p with output := output }
  else do
    let input ← drainFront p.input (min count p.input.length)
    return { p with
      input := input
      records := if p.canonical then consumeRecord count p.records else p.records }

/-- A `read` or `readv` of `len` bytes, of which `done` could be copied to the caller: what was
copied is consumed, and nothing if the copy failed at once. -/
def read (master : Bool) (len done : Nat) : Checked Pty :=
  if len = 0 then return p
  else do
    match ← p.peek master (List.replicate (min len capacity) 0) with
    | .error _ => return p
    | .ok (_, count) =>
      let done := min done count
      if done = 0 ∧ count ≠ 0 then return p
      else p.consume master done

/-! ### Writing -/

/-- The last lines of `output_byte`. -/
def putByte (byte : UInt8) : Pty :=
  { p with
    output := p.output ++ [byte]
    column :=
      if byte = carriageReturn then 0
      else if byte = newline ∧ p.output? onlret then 0
      else if byte = 8 then p.column - 1
      else if byte = tab then wrappingAdd p.column (8 - p.column % 8)
      else if 32 ≤ byte then saturatingAdd p.column 1
      else p.column }

def beforeNewline (byte : UInt8) : Pty :=
  if byte = newline ∧ p.output? onlcr then
    { p with output := p.output ++ [carriageReturn], column := 0 }
  else p

def putTab : Pty :=
  { p with
    output := p.output ++ List.replicate (8 - p.column % 8) space
    column := wrappingAdd p.column (8 - p.column % 8) }

def outputByte (byte : UInt8) : Pty :=
  if p.output? opost then
    if byte = carriageReturn ∧ p.output? ocrnl then
      { p with output := p.output ++ [newline], column := 0 }
    else if byte = carriageReturn ∧ p.output? onocr ∧ p.column = 0 then p
    else if byte = tab ∧ p.oflag &&& tabdly = tab3 then (p.beforeNewline byte).putTab
    else (p.beforeNewline byte).putByte byte
  else p.putByte byte

def caret (byte : UInt8) : Bool := byte < 32 || byte == 127

def echo (byte : UInt8) : Pty :=
  if !p.local? echoFlag then
    if byte = newline ∧ p.local? echonl then p.outputByte byte else p
  else if p.local? echoctl && caret byte && byte != newline && byte != tab then
    (p.outputByte 0x5e).outputByte (byte ^^^ 0x40)
  else p.outputByte byte

/-- `width` times a backspace, a blank and a backspace. -/
def rubOut : Nat → Pty → Pty
  | 0, p => p
  | width + 1, p =>
    rubOut width { p with output := p.output ++ [8, space, 8], column := p.column - 1 }

def erase : Pty :=
  match p.line.getLast? with
  | none => p
  | some byte =>
    let p := { p with line := p.line.dropLast }
    if p.lflag &&& (echoFlag ||| echoe) = echoFlag ||| echoe then
      rubOut (if p.local? echoctl && caret byte then 2 else 1) p
    else p.echo (p.cc vErase)

lemma line_beforeNewline {p : Pty} {byte} : (p.beforeNewline byte).line = p.line := by
  unfold beforeNewline
  split
  · rfl
  · rfl

@[simp] lemma line_outputByte {p : Pty} {byte} : (p.outputByte byte).line = p.line := by
  unfold outputByte
  split_ifs
  · rfl
  · rfl
  · exact line_beforeNewline
  · exact line_beforeNewline
  · rfl

@[simp] lemma line_echo {p : Pty} {byte} : (p.echo byte).line = p.line := by
  unfold echo
  split_ifs <;> simp only [line_outputByte]

@[simp] lemma line_rubOut {p width} : (rubOut width p).line = p.line := by
  induction width generalizing p with
  | zero => rfl
  | succ width ih => rw [rubOut, ih]

lemma line_erase {p : Pty} : p.erase.line = p.line.dropLast := by
  unfold erase
  cases hlast : p.line.getLast? with
  | none =>
    rw [List.getLast?_eq_none_iff.mp hlast, List.dropLast_nil]
  | some byte =>
    dsimp only
    split
    · rw [line_rubOut]
    · rw [line_echo]

/-- `while self.line.last().is_some_and(matches) { self.erase() }`. -/
def eraseWhile (matches? : UInt8 → Bool) (p : Pty) : Pty :=
  if _h : p.line.getLast?.any matches? then eraseWhile matches? p.erase else p
termination_by p.line.length
decreasing_by
  rw [line_erase, List.length_dropLast]
  cases hline : p.line with
  | nil => rw [hline] at _h; cases _h
  | cons b line => simp only [List.length_cons]; omega

def kill (byte : UInt8) : Pty :=
  if p.local? echoke then p.eraseWhile fun _ => true
  else
    let p := { p with line := [] }
    let p := p.echo byte
    if p.local? echok then p.outputByte newline else p

/-- The editing characters of the canonical mode, in the order they are looked for. -/
def edit (byte : UInt8) : Option Pty :=
  if p.control byte vErase then some p.erase
  else if p.control byte vKill then some (p.kill byte)
  else if p.local? iexten && p.control byte vLNext then some { p with literal := true }
  else if p.local? iexten && p.control byte vWErase then
    some ((p.eraseWhile (· == space)).eraseWhile (· != space))
  else if p.control byte vEof then some p.endRecord
  else none

def accept (byte : UInt8) (now : Nat) : Pty :=
  let quoted := p.literal
  let p := { p with literal := false }
  let p := p.echo byte
  let p := if p.canonical then
      let delimiter := !quoted && (byte == newline || p.control byte vEol ||
        (p.local? iexten && p.control byte vEol2))
      let p := if p.line.length < lineMax - 1 ∨ delimiter then { p with line := p.line ++ [byte] }
        else p
      if delimiter then p.endRecord else p
    else { p with input := p.input ++ [byte] }
  { p with lastInput := now }

/-- What becomes of one byte: the loop of `write` ends before it, or it is done, with the signals it
raises. -/
inductive Advance where
  | stop
  | next (pty : Pty) (signals : UInt32)

def editing (byte : UInt8) : Bool :=
  !p.literal && p.canonical && (p.control byte vErase || p.control byte vKill ||
    p.control byte vEof || (p.local? iexten && (p.control byte vWErase || p.control byte vLNext)))

/-- The room the output must have before the byte is taken. -/
def echoSpace (byte : UInt8) : Nat :=
  if p.editing byte && (p.control byte vKill || p.control byte vWErase) then p.line.length * 6 + 8
  else 8

/-- The second half of the loop's body, behind flow control and signals. -/
def storeByte (byte : UInt8) (now : Nat) : Advance :=
  if (!p.editing byte ∧ p.input.length + p.line.length ≥ capacity - 1) ∨
      p.records.length ≥ lineMax - 1 then .stop
  else if p.local? (echoFlag ||| echonl) ∧
      wrappingSub capacity p.output.length < p.echoSpace byte then .stop
  else if !p.literal && p.canonical then
    match p.edit byte with
    | some p => .next p 0
    | none => .next (p.accept byte now) 0
  else .next (p.accept byte now) 0

/-- Input translation; `none` is a carriage return that is ignored. -/
def translate (original : UInt8) : Option UInt8 :=
  let byte := if p.input? istrip then original &&& 0x7f else original
  if byte = carriageReturn then
    if p.input? igncr then none else some (if p.input? icrnl then newline else byte)
  else some (if byte = newline ∧ p.input? inlcr then carriageReturn else byte)

def signalOf (byte : UInt8) : Nat :=
  if !p.local? isig then 0
  else if p.control byte vIntr then 2
  else if p.control byte vQuit then 3
  else if p.control byte vSusp then 20
  else 0

def signalFlush : Pty := if p.local? noflsh then p else p.flush 2

def signalByte (byte : UInt8) : Pty :=
  if p.signalFlush.output.length ≤ capacity - 8 then p.signalFlush.echo byte else p.signalFlush

def restart : Pty := if p.input? ixon && p.stopped && p.input? ixany then p.flow false else p

def masterByte (original : UInt8) (now : Nat) : Advance :=
  match p.translate original with
  | none => .next p 0
  | some byte =>
    if p.literal then p.storeByte byte now
    -- Flow and signal bytes must still work with full queues.
    else if p.input? ixon && p.control byte vStop then .next (p.flow true) 0
    else if p.input? ixon && p.control byte vStart then .next (p.flow false) 0
    else if p.restart.signalOf byte ≠ 0 then
      .next (p.restart.signalByte byte) (1 <<< UInt32.ofNat (p.restart.signalOf byte))
    else p.restart.storeByte byte now

def slaveByte (byte : UInt8) : Advance :=
  if p.output.length > capacity - 8 then .stop else .next (p.outputByte byte) 0

/-- The loop of `write`: the pair, the bytes done and the signals. -/
def writeFrom (master : Bool) (now : Nat) : List UInt8 → Nat → UInt32 → Pty → Pty × Nat × UInt32
  | [], done, signals, p => (p, done, signals)
  | byte :: bytes, done, signals, p =>
    match if master then p.masterByte byte now else p.slaveByte byte with
    | .stop => (p, done, signals)
    | .next p' raised => writeFrom master now bytes (done + 1) (signals ||| raised) p'

def write (master : Bool) (bytes : List UInt8) (now : Nat) : Pty × Except Error (Nat × UInt32) :=
  if p.eof || (master && p.slaveOpened && !p.slaveOpen) then (p, .error .io)
  else
    match writeFrom master now bytes 0 0 p with
    | (p, done, signals) =>
      if done = 0 ∧ bytes ≠ [] then (p, .error .again) else (p, .ok (done, signals))

end Pty

end Nanami.Alter
