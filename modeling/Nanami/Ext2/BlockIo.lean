import Nanami.Lib.Loop
import Nanami.Ext2.BlockCache

/-!
# Block transfers

The functions of `block_io.rs` and the flush of `block_cache.rs`, which move blocks between the device,
the cache and the shared buffer. The buffer is a function of the frame, one frame a block. The device
answers each command as `replies` says and may do anything to the target of a command that it does not
complete; `log` lists the commands it was given.
-/

namespace Nanami.Ext2

open Lib

/-- How the device answers a command: its result, and what the target of a command that was not carried
out in full holds afterwards. -/
structure Reply (β : Type) where
  result : Except RequestError Nat
  remains : Nat → β

/-- A command to the device, and whether it was carried out in full. -/
inductive Command (β : Type) where
  | read (block count : Nat) (done : Bool)
  | write (block : Nat) (payload : List β) (done : Bool)
  | flush (done : Bool)
  deriving DecidableEq

structure Device (β : Type) where
  blocks : Nat → β
  replies : Nat → Reply β
  log : List (Command β)

def Device.record {β : Type} (d : Device β) (command : Command β) : Device β :=
  { d with log := d.log ++ [command] }

/-- The fields of `Ext2Runtime` that block transfers use, with the device behind `block_port`. -/
structure BlockRuntime (β : Type) where
  blockShm : Nat → β
  blockShmSize : Nat
  blockSize : Nat
  blockCount : Nat
  blockCache : BlockCache β
  device : Device β

/-- A request error, or a failed assertion. -/
inductive Stop where
  | request (error : RequestError)
  | panic
  deriving DecidableEq, Repr

abbrev BlockM (β : Type) := EStateM Stop (BlockRuntime β)

variable {β : Type}

def Reply.moved (reply : Reply β) (bytes : Nat) : Bool :=
  match reply.result with
  | .ok n => n == bytes
  | .error _ => false

def Device.reply (d : Device β) : Reply β := d.replies d.log.length

def fromReply (reply : Reply β) : BlockM β Nat :=
  match reply.result with
  | .ok n => pure n
  | .error e => throw (.request e)

/-- `block_device_read` of a run into the buffer, from frame `first` on. -/
def blockDeviceRead (block count first : Nat) : BlockM β Nat := do
  let s ← get
  let reply := s.device.reply
  let done := reply.moved (count * s.blockSize)
  set { s with
    blockShm := fun i => if first ≤ i ∧ i < first + count then
        if done then s.device.blocks (block + (i - first)) else reply.remains i
      else s.blockShm i
    device := s.device.record (.read block count done) }
  fromReply reply

/-- A run of the frames is written, or something else is left in its place. -/
def Device.write (d : Device β) (block count : Nat) (frames : Nat → β) (done : Bool) : Device β :=
  { d.record (.write block ((List.range count).map frames) done) with
    blocks := fun b => if block ≤ b ∧ b < block + count then
        if done then frames (b - block) else d.reply.remains b
      else d.blocks b }

/-- `block_device_write` of a run from the start of the buffer. -/
def blockDeviceWrite (block count : Nat) : BlockM β Nat := do
  let s ← get
  let reply := s.device.reply
  let done := reply.moved (count * s.blockSize)
  set { s with device := s.device.write block count s.blockShm done }
  fromReply reply

def Reply.succeeded (reply : Reply β) : Bool :=
  match reply.result with
  | .ok _ => true
  | .error _ => false

def blockDeviceFlush : BlockM β Unit := do
  let s ← get
  let reply := s.device.reply
  set { s with device := s.device.record (.flush reply.succeeded) }
  let _ ← fromReply reply

/-! ## Flushing -/

def checkMoved (bytes moved : Nat) : BlockM β Unit :=
  if moved = bytes then pure () else throw (.request .protocol)

def writeRun (block count : Nat) : BlockM β Unit := do
  let s ← get
  let written ← blockDeviceWrite block count
  checkMoved (count * s.blockSize) written

/-- Write the run gathered in the buffer when the next block does not extend it. -/
def cutRun (maxBlocks block first count : Nat) : BlockM β (Nat × Nat) :=
  if count ≠ 0 ∧ (block ≠ first + count ∨ count = maxBlocks) then do
    writeRun first count
    pure (block, 0)
  else pure (if count = 0 then block else first, count)

def gather (slot frame : Nat) : BlockM β Unit := modify fun s =>
  { s with blockShm := Function.update s.blockShm frame (s.blockCache.data slot) }

def finishRun (first count : Nat) : BlockM β Unit :=
  if count ≠ 0 then writeRun first count else pure ()

def flushIf (wrote : Bool) : BlockM β Unit :=
  if wrote then blockDeviceFlush else pure ()

/-- One pass of `flush_dirty` over the index: `count` blocks from `first` on are in the buffer. -/
def flushPass (kind : BlockKind) (maxBlocks : Nat) :
    List (Nat × Nat) → Nat → Nat → Bool → BlockM β Unit
  | [], first, count, wrote => do
    finishRun first count
    flushIf wrote
  | (block, slot) :: rest, first, count, wrote => do
    let s ← get
    if (s.blockCache.entries slot).dirty ≠ some kind then flushPass kind maxBlocks rest first count wrote
    else do
      let run ← cutRun maxBlocks block first count
      gather slot run.2
      flushPass kind maxBlocks rest run.1 (run.2 + 1) true

def flushDirty : BlockM β Unit := do
  let s ← get
  let maxBlocks := s.blockShmSize / s.blockCache.blockSize
  -- data before the metadata that publishes it
  flushPass .data maxBlocks s.blockCache.index.entries 0 0 false
  flushPass .metadata maxBlocks s.blockCache.index.entries 0 0 false

def checkCacheWritable : BlockM β Unit := do
  let s ← get
  match s.blockCache.error with
  | some e => throw (.request e)
  | none => pure ()

/-- After a flush everything is clean; after a failed one the error stays. -/
def settle : Except Stop Unit → BlockM β Unit
  | .ok _ => modify fun s => { s with blockCache := s.blockCache.clean }
  | .error (.request e) => do
    modify fun s => { s with blockCache := { s.blockCache with error := some e } }
    throw (.request e)
  | .error .panic => throw .panic

/-- The flush of a cache with dirty blocks. The buffer may hold what a caller has staged, so it is put
back, also on failure. -/
def writeBack : BlockM β Unit := do
  modify fun s => { s with blockCache := { s.blockCache with scratchBackup := s.blockShm } }
  let result ← attempt flushDirty
  modify fun s => { s with blockShm := s.blockCache.scratchBackup }
  settle result

/-- `flush_blocks`, the `flush` of the cache through the shared buffer. -/
def flushBlocks : BlockM β Unit := do
  checkCacheWritable
  let s ← get
  if s.blockCache.isDirty then writeBack else pure ()

/-! ## Reads and writes -/

def blockReadRetryLimit : Nat := 4

def Stop.retryable : Stop → Bool
  | .request .transport | .request .protocol | .request (.status .fatal) => true
  | _ => false

def readAttempts (block count first : Nat) : Nat → BlockM β Nat
  | 0 => blockDeviceRead block count first
  | left + 1 => do
    match ← attempt (blockDeviceRead block count first) with
    | .ok read => pure read
    | .error e => if e.retryable then readAttempts block count first left else throw e

def readBlocksUncached (block count first : Nat) : BlockM β Unit := do
  let s ← get
  let read ← readAttempts block count first (blockReadRetryLimit - 1)
  checkMoved (count * s.blockSize) read

/-- The accepted runs: not empty, on the volume, and no longer than the buffer. Sizes are machine words,
so a sum or product that overflows is larger than what it is compared with. -/
def ValidRun (s : BlockRuntime β) (block count : Nat) : Prop :=
  count ≠ 0 ∧ block + count ≤ s.blockCount ∧ count * s.blockSize ≤ s.blockShmSize

instance (s : BlockRuntime β) (block count : Nat) : Decidable (ValidRun s block count) :=
  inferInstanceAs (Decidable (_ ∧ _ ∧ _))

def validateRun (block count : Nat) : BlockM β Unit := do
  let s ← get
  if ValidRun s block count then pure () else throw (.request .invalidArgument)

/-- Where a run of uncached blocks ends: at the next cached block, `left` blocks on at the latest. -/
def uncachedEnd (c : BlockCache β) (block : Nat) : Nat → Nat → Nat
  | 0, offset => offset
  | left + 1, offset =>
    if c.contains (block + offset) then offset else uncachedEnd c block left (offset + 1)

def storeFrames (block : Nat) (dirty : Option BlockKind) (frames : List Nat) : BlockM β Unit := do
  let s ← get
  match s.blockCache.storeRun block s.blockShm dirty frames with
  | some c => set { s with blockCache := c }
  | none => throw .panic

def makeRoom (room : Bool) : BlockM β Unit := if room then pure () else flushBlocks

def fetchRun (block count first : Nat) : BlockM β (Option Nat) := do
  let s ← get
  let offset := uncachedEnd s.blockCache block (count - (first + 1)) (first + 1)
  readBlocksUncached (block + first) (offset - first) first
  storeFrames block none (List.range' first (offset - first))
  pure (some offset)

/-- One round of the loop of `read_blocks`. -/
def readRound (block count offset : Nat) : BlockM β (Option Nat) := do
  let s ← get
  if offset < count then
    match s.blockCache.load (block + offset) with
    | some (c, v) => do
      set { s with blockCache := c, blockShm := Function.update s.blockShm offset v }
      pure (some (offset + 1))
    | none => fetchRun block count offset
  else pure none

lemma le_uncachedEnd {c : BlockCache β} {block left offset} :
    offset ≤ uncachedEnd c block left offset := by
  induction left generalizing offset with
  | zero => exact le_rfl
  | succ left ih =>
    rw [uncachedEnd]
    split
    · exact le_rfl
    · exact (Nat.le_succ _).trans ih

lemma readRound_decreases (block count : Nat) :
    Decreases (fun offset => count - offset) (readRound (β := β) block count) := by
  intro offset s
  refine wp_ite (fun hlt => ?_) (fun _ => nofun)
  cases s.blockCache.load (block + offset) with
  | some held =>
    rintro _ ⟨⟩
    exact Nat.sub_succ_lt_self _ _ hlt
  | none =>
    rw [fetchRun, wp_read]
    refine wp_seq wp_true (fun _ _ _ => ?_)
    refine wp_seq wp_true (fun _ _ _ => ?_)
    rintro _ ⟨⟩
    exact Nat.sub_lt_sub_left hlt le_uncachedEnd

def readBlocks (block count : Nat) : BlockM β Unit := do
  validateRun block count
  let _ ← loop (fun offset => count - offset) (readRound block count)
    (readRound_decreases block count) 0

def cacheWrite (block count : Nat) (kind : BlockKind) : BlockM β Unit := do
  validateRun block count
  checkCacheWritable
  let s ← get
  makeRoom (s.blockCache.hasRoomFor block count)
  storeFrames block (some kind) (List.range count)

/-- `write_block`, for metadata. -/
def writeBlock (block : Nat) : BlockM β Unit := cacheWrite block 1 .metadata

/-- `write_blocks`, for data. -/
def writeBlocks (block count : Nat) : BlockM β Unit := cacheWrite block count .data

end Nanami.Ext2
