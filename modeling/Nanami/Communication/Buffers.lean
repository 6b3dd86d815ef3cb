import Nanami.Communication.Bindings

/-!
# Session buffers

Model of `Buffers` (`communication/buffers.rs`). A buffer's pages are mapped for the client and
for the provider of its service; during a handover they are mapped for the next provider as a
candidate. Each `Mapping` counts the pages that may be installed.

The effects are an adversary. `World.mapped` is the true set of installed leaves: a `map` that
answers `maybeInstalled` and an `unmap` that fails may or may not have changed it. The answers of
a run are an arbitrary sequence, one for each call. The one thing asked of it is what the physical
allocator provides: a page that was handed out is not handed out again.
-/

namespace Nanami.Communication
open Nanami.Lib

def page : Word := .ofNat pageSize

structure Mapping where
  owner : Word
  address : Word
  installed : Nat
  deriving DecidableEq, Repr

structure Buffer where
  service : ServiceId
  physical : Word
  pages : Nat
  client : Mapping
  provider : Mapping
  candidate : Option Mapping
  closed : Bool
  ready : Bool
  deriving DecidableEq, Repr

inductive Role where
  | client
  | provider
  | candidate
  deriving DecidableEq, Repr

namespace Buffer

def mapping (b : Buffer) : Role → Option Mapping
  | .client => some b.client
  | .provider => some b.provider
  | .candidate => b.candidate

def setMapping (b : Buffer) : Role → Mapping → Buffer
  | .client, m => { b with client := m }
  | .provider, m => { b with provider := m }
  | .candidate, m => { b with candidate := some m }

end Buffer

structure SessionBuffer where
  address : Word
  bytes : Word
  deriving DecidableEq, Repr

structure Leaf where
  owner : Word
  address : Word
  physical : Word
  deriving DecidableEq, Repr

/-! ## Effects -/

inductive MapAnswer where
  | ok
  | notInstalled (error : CapabilityError)
  | maybeInstalled (error : CapabilityError) (installed : Bool)
  deriving DecidableEq, Repr

inductive UnmapAnswer where
  | ok
  | err (error : CapabilityError) (removed : Bool)
  deriving DecidableEq, Repr

/-- What the adversary answers to one call, whichever effect it is. -/
structure Answer where
  plain : Effect
  word : Except CapabilityError Word
  map : MapAnswer
  unmap : UnmapAnswer

structure World where
  answers : Nat → Answer
  calls : Nat
  mapped : Finset Leaf
  allocated : Finset Word

namespace World

def answer (w : World) : Answer := w.answers w.calls

def tick (w : World) : World := { w with calls := w.calls + 1 }

/-- `participants`, `zero` and `receiver`: nothing is mapped by them. -/
def plain : EStateM CapabilityError World Unit := do
  let w ← get
  set w.tick
  fromResult w.answer.plain

def reserve : EStateM CapabilityError World Word := do
  let w ← get
  set w.tick
  fromResult w.answer.word

def physicalPages (physical : Word) (pages : Nat) : Finset Word :=
  (Finset.range pages).image fun i => physical + UInt64.ofNat i

/-- `allocate`: pages that were handed out before are not handed out again. -/
def allocate (pages : Nat) : EStateM CapabilityError World Word := do
  let w ← get
  set w.tick
  let physical ← fromResult w.answer.word
  if Disjoint (physicalPages physical pages) w.allocated then
    modify fun w => { w with allocated := w.allocated ∪ physicalPages physical pages }
    return physical
  else throw .invalidArgument

/-- `map`, with the leaf set it leaves. -/
def map (leaf : Leaf) (w : World) : MapAnswer × World :=
  match w.answer.map with
  | .ok => (.ok, { w.tick with mapped := insert leaf w.mapped })
  | .notInstalled e => (.notInstalled e, w.tick)
  | .maybeInstalled e installed =>
    (.maybeInstalled e installed,
      if installed then { w.tick with mapped := insert leaf w.mapped } else w.tick)

/-- `unmap`, with the leaf set it leaves. -/
def unmap (leaf : Leaf) : EStateM CapabilityError World Unit := do
  let w ← get
  match w.answer.unmap with
  | .ok => set { w.tick with mapped := w.mapped.erase leaf }
  | .err e removed =>
    set (if removed then { w.tick with mapped := w.mapped.erase leaf } else w.tick)
    throw e

end World

/-! ## Mappings -/

namespace Mapping

def leaf (m : Mapping) (physical : Word) (i : Nat) : Leaf :=
  ⟨m.owner, m.address + UInt64.ofNat i * page, physical + UInt64.ofNat i⟩

/-- The loop of `map` from page `i` on; a page that may be installed is counted. -/
def mapFrom (physical : Word) : Nat → Nat → EStateM CapabilityError (Mapping × World) Unit
  | 0, _ => pure ()
  | n + 1, i => do
    let (m, w) ← get
    match w.map (m.leaf physical i) with
    | (.ok, w') =>
      set ({ m with installed := i + 1 }, w')
      mapFrom physical n (i + 1)
    | (.notInstalled e, w') =>
      set (m, w')
      throw e
    | (.maybeInstalled e _, w') =>
      set ({ m with installed := i + 1 }, w')
      throw e

def map (physical : Word) (pages : Nat) : EStateM CapabilityError (Mapping × World) Unit :=
  mapFrom physical pages 0

/-- The loop of `unmap`, from the last page that may be installed down. -/
def unmapFrom (physical : Word) : Nat → EStateM CapabilityError (Mapping × World) Unit
  | 0 => pure ()
  | i + 1 => do
    let (m, _) ← get
    zoom Prod.snd (fun w s => (s.1, w)) (World.unmap (m.leaf physical i))
    modify fun s => ({ s.1 with installed := i }, s.2)
    unmapFrom physical i

def unmap (physical : Word) : EStateM CapabilityError (Mapping × World) Unit := do
  let (m, _) ← get
  unmapFrom physical m.installed

end Mapping

/-! ## Buffers -/

namespace Buffer

/-- A step on one buffer, with the world. -/
abbrev M := EStateM CapabilityError (Buffer × World)

/-- A step on one mapping; without a candidate there is nothing to do on it. -/
def onMapping (role : Role) (m : EStateM CapabilityError (Mapping × World) Unit) : M Unit := do
  let (b, _) ← get
  match b.mapping role with
  | none => pure ()
  | some mapping =>
    zoom (fun s => (mapping, s.2)) (fun t s => (s.1.setMapping role t.1, t.2)) m

def effect {α : Type} (m : EStateM CapabilityError World α) : M α :=
  zoom Prod.snd (fun w s => (s.1, w)) m

def unbuilt (service : ServiceId) (physical : Word) (pages : Nat) (client provider : Word) : Buffer where
  service := service
  physical := physical
  pages := pages
  client := ⟨client, 0, 0⟩
  provider := ⟨provider, 0, 0⟩
  candidate := none
  closed := false
  ready := false

/-- `zero` of every page. -/
def zeroPages : Nat → M Unit
  | 0 => pure ()
  | n + 1 => do
    effect World.plain
    zeroPages n

/-- The part of `create` whose failure is cleaned up. -/
def build : M Unit := do
  let clientAddress ← effect World.reserve
  modify fun s => ({ s.1 with client := { s.1.client with address := clientAddress } }, s.2)
  let providerAddress ← effect World.reserve
  modify fun s => ({ s.1 with provider := { s.1.provider with address := providerAddress } }, s.2)
  let (b, _) ← get
  zeroPages b.pages
  onMapping .client (Mapping.map b.physical b.pages)
  onMapping .provider (Mapping.map b.physical b.pages)

/-- The buffer that `create` records, and whether it is ready. A failure unmaps what may be
installed; if that fails too, the error is fatal. -/
def create : M Unit := do
  match ← attempt build with
  | .ok () => modify fun s => ({ s.1 with ready := true }, s.2)
  | .error error =>
    let (b, _) ← get
    let providerClean ← attempt (onMapping .provider (Mapping.unmap b.physical))
    let clientClean ← attempt (onMapping .client (Mapping.unmap b.physical))
    modify fun s => ({ s.1 with closed := true }, s.2)
    match providerClean, clientClean with
    | .ok (), .ok () => throw error
    | _, _ => throw .fatal

def attached (service : ServiceId) (b : Buffer) : Bool := b.service == service && b.ready && !b.closed

/-- The body of the loop of `withdraw`. -/
def withdraw (owner : Word) : M Unit := do
  let (b, _) ← get
  if b.provider.owner != owner then throw .fatal
  else
    match ← attempt (onMapping .provider (Mapping.unmap b.physical)) with
    | .ok () => pure ()
    | .error _ => throw .fatal

/-- The body of the mapping loop of `install`. -/
def propose (owner : Word) : M Unit := do
  let (b, _) ← get
  if b.provider.installed != 0 || b.candidate.isSome then throw .fatal
  else if b.client.owner == owner then throw .permissionDenied
  else
    effect World.plain
    let address ← if b.provider.owner == owner then pure b.provider.address
      else effect World.reserve
    modify fun s => ({ s.1 with candidate := some ⟨owner, address, 0⟩ }, s.2)
    onMapping .candidate (Mapping.map b.physical b.pages)

/-- The body of the clean-up loop of `install`. A candidate that cannot be unmapped stays. -/
def retract : M Unit := do
  let (b, _) ← get
  onMapping .candidate (Mapping.unmap b.physical)
  modify fun s => ({ s.1 with candidate := none }, s.2)

/-- The body of the last loop of `install`. -/
def promote (b : Buffer) : Buffer :=
  match b.candidate with
  | some c => { b with provider := c, candidate := none }
  | none => b

end Buffer

/-- The buffers of all sessions, and the world they are mapped in. -/
structure Buffers where
  entries : Vector (Option Buffer) sessions
  world : World

namespace Buffers

abbrev M := EStateM CapabilityError Buffers

def new (answers : Nat → Answer) : Buffers := ⟨Vector.replicate _ none, ⟨answers, 0, ∅, ∅⟩⟩

def index (id : SessionId) : Option Nat :=
  if id.word &&& sessionIdentifierBit = 0 then none
  else if id.word &&& ~~~sessionIdentifierBit = 0 then none
  else if id.index < sessions then some id.index
  else none

def get? (s : Buffers) (i : Nat) : Option Buffer := Slots.get s.entries i

def hasMapping (s : Buffers) (owner : Word) : Bool :=
  (List.range sessions).any fun i => (s.get? i).any fun b =>
    (b.client.owner == owner && b.client.installed != 0) ||
    (b.provider.owner == owner && b.provider.installed != 0) ||
    b.candidate.any fun c => c.owner == owner && c.installed != 0

def onEntry (i : Nat) (m : Buffer.M Unit) : M Unit := fun s =>
  match s.get? i with
  | none => .ok () s
  | some b =>
    match m (b, s.world) with
    | .ok () (b', w) => .ok () ⟨Slots.put s.entries i b', w⟩
    | .error e (b', w) => .error e ⟨Slots.put s.entries i b', w⟩

/-- `for buffer in entries.iter_mut().flatten().filter(f)`, where the body may leave the loop. -/
def forEntries (f : Buffer → Bool) (body : Buffer.M Unit) : List Nat → M Unit
  | [] => pure ()
  | i :: rest => do
    onEntry i (do
      let (b, _) ← get
      if f b then body else pure ())
    forEntries f body rest

def create (id : SessionId) (service : ServiceId) (client provider : Word) (pages : Nat) :
    M SessionBuffer := do
  let slot ← okOr (index id) .invalidArgument
  if client == 0 || provider == 0 || client == provider || !(1 ≤ pages && pages ≤ 16) then
    throw .invalidArgument
  else
    let s ← get
    match s.get? slot with
    | some buffer =>
      if buffer.service != service || buffer.client.owner != client || buffer.pages != pages then
        throw .permissionDenied
      else if buffer.ready && !buffer.closed then
        return ⟨buffer.client.address, UInt64.ofNat pages * page⟩
      else throw .fatal
    | none =>
      zoom Buffers.world (fun w s => { s with world := w }) World.plain
      let physical ← zoom Buffers.world (fun w s => { s with world := w }) (World.allocate pages)
      -- the buffer is recorded whether it could be built or not
      modify fun s => { s with
        entries := Slots.put s.entries slot (Buffer.unbuilt service physical pages client provider) }
      onEntry slot Buffer.create
      let s ← get
      return ⟨((s.get? slot).elim 0 fun b => b.client.address), UInt64.ofNat pages * page⟩

def withdraw (service : ServiceId) (owner : Word) : M Unit :=
  forEntries (Buffer.attached service) (Buffer.withdraw owner) (List.range sessions)

/-- The clean-up loop of `install`: every candidate of the service is tried, and `false` says
that one could not be removed. -/
def retractAll (service : ServiceId) : List Nat → M Bool
  | [] => return true
  | i :: rest => do
    let r ← attempt (onEntry i (do
      let (b, _) ← get
      if b.service == service && b.candidate.isSome then Buffer.retract else pure ()))
    let clean ← retractAll service rest
    return (match r with | .ok () => clean | .error _ => false)

/-- What `install` does after `error`: a candidate that could not be removed makes it fatal. -/
def rollback (service : ServiceId) (error : CapabilityError) : M Unit := do
  let clean ← retractAll service (List.range sessions)
  if clean then throw error else throw .fatal

def install (service : ServiceId) (owner : Word) : M Unit := do
  let result ← attempt (do
    forEntries (Buffer.attached service) (Buffer.propose owner) (List.range sessions)
    zoom Buffers.world (fun w s => { s with world := w }) World.plain)
  match result with
  | .error error => rollback service error
  | .ok () =>
    forEntries (fun b => b.service == service)
      (modify fun s => (s.1.promote, s.2)) (List.range sessions)

def close (id : SessionId) : M Unit := do
  let slot ← okOr (index id) .invalidArgument
  onEntry slot (do
    let (b, _) ← get
    if b.provider.installed != 0 || b.candidate.isSome then throw .illegalOperation
    else
      match ← attempt (Buffer.onMapping .client (Mapping.unmap b.physical)) with
      | .error _ => throw .fatal
      | .ok () => modify fun s => ({ s.1 with closed := true }, s.2))

end Buffers

end Nanami.Communication
