import Nanami.Nun
import Nanami.Lib.Wp
import Nanami.Lib.Slots

/-!
# Provider bindings

Model of `Bindings` (`communication/bindings.rs`) and of the identities and phases it uses
(`uapi/service.rs`). A service is served by one provider; a manager hands it over to another one
in four steps, `prepare`, `quiesce`, `acknowledge` (by the old provider) and `commit`, and may
`abort` before the commit. Capability effects are supplied by the caller: an operation that has
one takes its outcome as a function, runs it before the public state changes, and turns the
service `faulted` when the effect fails fatally.

An entry that the code reaches through `as_mut().unwrap()` is changed in place; where it does not
exist, and the code would panic, the model leaves the table alone.
-/

namespace Nanami.Communication
open Nanami.Lib Slots

structure ProviderId where
  word : Word
  deriving DecidableEq, Repr

structure ServiceId where
  word : Word
  deriving DecidableEq, Repr

structure SessionId where
  word : Word
  deriving DecidableEq, Repr

inductive BindingPhase where
  | active
  | prepared
  | quiescing
  | quiesced
  | faulted
  deriving DecidableEq, Repr

structure BindingState where
  service : ServiceId
  generation : Word
  phase : BindingPhase
  deriving DecidableEq, Repr

def statelessControlProfile : Word := 1
def managedBufferProfile : Word := 2
def managedEventProfile : Word := 3
def sessionIdentifierBit : Word := (1 : Word) <<< (63 : Word)

def selectableSlot (slot : Word) : Bool := 23 ≤ slot && slot < 224

/-- `provider_slots`: the receiver slot and the event slot of a profile. -/
def providerSlots (profile raw notification : Word) : Option (Word × Word) :=
  let slots :=
    if profile = managedEventProfile then some (raw &&& 0xff, raw >>> 8)
    else if profile = statelessControlProfile ∨ profile = managedBufferProfile then some (raw, 0)
    else none
  match slots with
  | none => none
  | some (receiver, event) =>
    if !selectableSlot receiver || !selectableSlot notification || receiver == notification then none
    else if profile == managedEventProfile &&
        (!selectableSlot event || event == receiver || event == notification) then none
    else some (receiver, event)

def providers : Nat := 32
def services : Nat := 32
def sessions : Nat := 64

structure Provider where
  owner : Word
  interface : Word
  profile : Word
  receiverSlot : Word
  notificationSlot : Word
  eventSlot : Word
  service : Option ServiceId
  lastService : Option ServiceId
  retired : Bool
  deriving DecidableEq, Repr

structure Service where
  manager : Word
  provider : ProviderId
  pending : Option ProviderId
  state : BindingState
  sessionLimit : Nat
  profile : Word
  deriving DecidableEq, Repr

inductive SessionOwner where
  | process (pid : Word)
  | domain (id : Word)
  deriving DecidableEq, Repr

structure Session where
  owner : SessionOwner
  slot : Word
  service : ServiceId
  closed : Bool
  deriving DecidableEq, Repr

structure Bindings where
  providers : Vector (Option Provider) providers
  services : Vector (Option Service) services
  sessions : Vector (Option Session) sessions
  providerCount : Nat
  serviceCount : Nat
  sessionCount : Nat

/-- `id.0.wrapping_sub(1)`, the index of an entry. -/
def ProviderId.index (id : ProviderId) : Nat := (id.word - 1).toNat

def ServiceId.index (id : ServiceId) : Nat := (id.word - 1).toNat

def SessionId.index (id : SessionId) : Nat := ((id.word &&& ~~~sessionIdentifierBit) - 1).toNat

abbrev Effect := Except CapabilityError Unit

namespace Bindings

abbrev M := EStateM CapabilityError Bindings

def new : Bindings :=
  ⟨Vector.replicate _ none, Vector.replicate _ none, Vector.replicate _ none, 0, 0, 0⟩

def providerAt (b : Bindings) (id : ProviderId) : Option Provider := get b.providers id.index

def serviceAt (b : Bindings) (id : ServiceId) : Option Service := get b.services id.index

/-- `provider`: retired providers are not found. -/
def provider (b : Bindings) (id : ProviderId) : Option Provider :=
  (b.providerAt id).filter fun p => !p.retired

def session (b : Bindings) (id : SessionId) : Option Session :=
  if id.word &&& sessionIdentifierBit = 0 then none else get b.sessions id.index

def alterProvider (id : ProviderId) (f : Provider → Provider) (b : Bindings) : Bindings :=
  { b with providers := alter b.providers id.index f }

def alterService (id : ServiceId) (f : Service → Service) (b : Bindings) : Bindings :=
  { b with services := alter b.services id.index f }

def pushProvider (p : Provider) (b : Bindings) : Bindings :=
  { b with
    providers := put b.providers b.providerCount p
    providerCount := b.providerCount + 1 }

def pushService (s : Service) (b : Bindings) : Bindings :=
  { b with
    services := put b.services b.serviceCount s
    serviceCount := b.serviceCount + 1 }

def pushSession (s : Session) (b : Bindings) : Bindings :=
  { b with
    sessions := put b.sessions b.sessionCount s
    sessionCount := b.sessionCount + 1 }

def setPhase (phase : BindingPhase) (s : Service) : Service :=
  { s with state := { s.state with phase } }

def providerForOwner (b : Bindings) (owner : Word) : Option (ProviderId × Provider) :=
  (List.range Communication.providers).findSome? fun index =>
    match get b.providers index with
    | some p =>
      if !p.retired && p.owner == owner then some (⟨UInt64.ofNat (index + 1)⟩, p) else none
    | none => none

def registerProviderProfile (owner interface receiverSlot notificationSlot profile : Word)
    (prepare : ProviderId → Effect) : M ProviderId := do
  let (receiverSlot, eventSlot) ←
    okOr (providerSlots profile receiverSlot notificationSlot) .invalidArgument
  if owner == 0 || interface == 0 then throw .invalidArgument
  else
    let b ← get
    match b.providerForOwner owner with
    | some (id, existing) =>
      if existing.interface == interface && existing.receiverSlot == receiverSlot &&
          existing.notificationSlot == notificationSlot && existing.profile == profile &&
          existing.eventSlot == eventSlot then return id
      else throw .permissionDenied
    | none =>
      if b.providerCount = Communication.providers then throw .invalidArgument
      else
        let id : ProviderId := ⟨UInt64.ofNat (b.providerCount + 1)⟩
        fromResult (prepare id)
        modify (pushProvider
          { owner, interface, profile, receiverSlot, notificationSlot, eventSlot,
            service := none, lastService := none, retired := false })
        return id

def publish (manager : Word) (provider : ProviderId) (install : ServiceId → Provider → Effect) :
    M ServiceId := do
  let b ← get
  let instance_ ← okOr (b.provider provider) .invalidArgument
  if manager == 0 || instance_.service.isSome || b.serviceCount == Communication.services then
    throw .invalidArgument
  else
    let id : ServiceId := ⟨UInt64.ofNat (b.serviceCount + 1)⟩
    fromResult (install id instance_)
    modify (alterProvider provider fun p => { p with service := some id })
    modify (pushService
      { manager, provider, pending := none, state := ⟨id, 1, .active⟩,
        sessionLimit := Communication.sessions, profile := instance_.profile })
    return id

/-- `import_service`: an upstream endpoint has no local provider and no manager. -/
def importService (sessionLimit : Nat) : M ServiceId := do
  let b ← get
  if !(1 ≤ sessionLimit && sessionLimit ≤ Communication.sessions) ||
      b.serviceCount == Communication.services then throw .invalidArgument
  else
    let id : ServiceId := ⟨UInt64.ofNat (b.serviceCount + 1)⟩
    modify (pushService
      { manager := 0, provider := ⟨0⟩, pending := none, state := ⟨id, 1, .active⟩,
        sessionLimit, profile := statelessControlProfile })
    return id

/-- `owned`: the caller manages the service and knows its generation. -/
def owned (b : Bindings) (caller : Word) (id : ServiceId) (generation : Word) :
    Except CapabilityError Service :=
  match b.serviceAt id with
  | none => .error .invalidArgument
  | some service =>
    if caller == 0 || service.manager != caller then .error .permissionDenied
    else if service.state.generation != generation then .error .invalidArgument
    else .ok service

/-- `Word::MAX >> 3`, the first generation that does not fit beside the encoded phase. -/
def generationLimit : Word := ((0 : Word) - 1) >>> (3 : Word)

def prepare (caller : Word) (id : ServiceId) (generation : Word) (next : ProviderId) : M Unit := do
  let b ← get
  let service ← fromResult (b.owned caller id generation)
  let target ← okOr (b.provider next) .invalidArgument
  -- the interface of the current provider is read last, and only if the checks before it hold
  if service.state.phase != .active || next == service.provider || target.service.isSome then
    throw .invalidArgument
  else
    let current ← okOr (b.provider service.provider) .invalidArgument
    if target.interface != current.interface || target.profile != service.profile ||
        generation ≥ generationLimit then throw .invalidArgument
    else
      modify (alterProvider next fun p => { p with service := some id })
      modify (alterService id fun s => setPhase .prepared { s with pending := some next })

def quiesce (caller : Word) (id : ServiceId) (generation : Word) (signal : ProviderId → Effect) :
    M Unit := do
  let b ← get
  let service ← fromResult (b.owned caller id generation)
  if service.state.phase != .prepared then throw .invalidArgument
  else
    fromResult (signal service.provider)
    modify (alterService id (setPhase .quiescing))

/-- `provider_binding`: the state of the service that `id` currently serves. -/
def providerBinding (b : Bindings) (caller : Word) (id : ProviderId) :
    Except CapabilityError BindingState :=
  match b.provider id with
  | none => .error .invalidArgument
  | some provider =>
    if caller != provider.owner then .error .permissionDenied
    else
      match provider.service with
      | none => .error .invalidArgument
      | some s =>
        match b.serviceAt s with
        | none => .error .invalidArgument
        | some service =>
          if service.provider != id then .error .invalidArgument else .ok service.state

def fault (id : ServiceId) : Bindings → Bindings := alterService id (setPhase .faulted)

def guardEffect (id : ServiceId) (effect : Effect) : M Unit :=
  match effect with
  | .ok () => pure ()
  | .error error => do
    if error = .fatal then modify (fault id)
    throw error

def acknowledge (caller : Word) (id : ProviderId) (generation : Word)
    (withdraw : ServiceId → Provider → Effect) : M ServiceId := do
  let b ← get
  let provider ← okOr (b.provider id) .invalidArgument
  let state ← fromResult (b.providerBinding caller id)
  if state.generation != generation || state.phase != .quiescing then throw .invalidArgument
  else
    guardEffect state.service (withdraw state.service provider)
    modify (alterService state.service (setPhase .quiesced))
    return state.service

def commit (caller : Word) (id : ServiceId) (generation : Word)
    (install : ServiceId → Provider → Effect) : M ProviderId := do
  let b ← get
  let service ← fromResult (b.owned caller id generation)
  if service.state.phase != .quiesced then throw .invalidArgument
  else
    let next ← okOr service.pending .invalidArgument
    let target ← okOr (b.provider next) .invalidArgument
    guardEffect id (install id target)
    modify (alterProvider service.provider fun p => { p with service := none })
    modify (alterProvider service.provider fun p => { p with lastService := some id })
    modify (alterService id fun s =>
      { s with
        provider := next
        pending := none
        state := { s.state with generation := s.state.generation + 1, phase := .active } })
    return next

/-- `abort`: a receiver that was withdrawn is restored first. -/
def abort (caller : Word) (id : ServiceId) (generation : Word)
    (restore : ServiceId → Provider → Effect) : M Unit := do
  let b ← get
  let service ← fromResult (b.owned caller id generation)
  if service.state.phase != .prepared && service.state.phase != .quiesced then
    throw .invalidArgument
  else
    if service.state.phase = .quiesced then
      let current ← okOr (b.provider service.provider) .invalidArgument
      guardEffect id (restore id current)
    match service.pending with
    | some pending => modify (alterProvider pending fun p => { p with service := none })
    | none => pure ()
    modify (alterService id fun s => setPhase .active { s with pending := none })

/-- Sessions charged to a service, closed ones included. -/
def charged (b : Bindings) (id : ServiceId) : Nat :=
  (List.range b.sessionCount).countP fun i =>
    (get b.sessions i).any fun session => session.service == id

/-- `connect_owned`: a fatal failure charges a closed session and faults the service. -/
def connectOwned (owner : SessionOwner) (id : ServiceId) (slot : Word)
    (install : SessionId → Effect) : M SessionId := do
  let b ← get
  let service ← okOr (b.serviceAt id) .invalidArgument
  if service.state.phase = .faulted then throw .fatal
  else if b.sessionCount = Communication.sessions ∨ service.sessionLimit ≤ b.charged id then
    throw .invalidArgument
  else
    let session : SessionId := ⟨sessionIdentifierBit ||| UInt64.ofNat (b.sessionCount + 1)⟩
    match install session with
    | .error error =>
      if error = .fatal then
        modify (pushSession ⟨owner, slot, id, true⟩)
        modify (fault id)
      throw error
    | .ok () =>
      modify (pushSession ⟨owner, slot, id, false⟩)
      return session

def connect (client : Word) (id : ServiceId) (slot : Word) (install : SessionId → Effect) :
    M SessionId :=
  if client = 0 then throw .invalidArgument else connectOwned (.process client) id slot install

def connectDomain (domain : Word) (id : ServiceId) (slot : Word) (install : SessionId → Effect) :
    M SessionId :=
  if domain = 0 then throw .invalidArgument else connectOwned (.domain domain) id slot install

def close (caller : Word) (id : SessionId) (withdraw : Session → Effect) : M Unit := do
  let b ← get
  let session ← okOr (b.session id) .invalidArgument
  if session.owner != .process caller then throw .permissionDenied
  else if session.closed then return ()
  else
    fromResult (withdraw session)
    modify fun b => { b with
      sessions := alter b.sessions id.index fun s => { s with closed := true } }

def retireProvider (caller : Word) (id : ProviderId) (release : ProviderId → Effect) : M Unit := do
  let b ← get
  let provider ← okOr (b.provider id) .invalidArgument
  if caller != provider.owner then throw .permissionDenied
  else if provider.service.isSome then throw .invalidArgument
  else
    fromResult (release id)
    modify (alterProvider id fun p => { p with retired := true })

end Bindings

end Nanami.Communication
