import Mathlib

/-!
# The shared interfaces

The types of the `nun` crate that Alpha uses, the size of a page, and the statuses and errors of the
requests that the servers send to each other.
-/

namespace Nanami

abbrev Word := UInt64

def pageBits : Nat := 12

def pageSize : Nat := 2 ^ pageBits

inductive CapabilityError where
  | illegalOperation
  | permissionDenied
  | invalidDescriptor
  | invalidDepth
  | invalidArgument
  | fatal
  | debugUnimplemented
  deriving DecidableEq, Repr

/-- The statuses `OS_RESPONSE_*`, and `NET_SERVICE_RESPONSE_WOULD_BLOCK` of the network server. -/
inductive Status where
  | ok | invalidArgument | invalidDescriptor | permissionDenied | illegalOperation | fatal | wouldBlock
  | other (code : Nat)
  deriving DecidableEq, Repr

inductive RequestError where
  | invalidArgument | unsupported | transport | protocol
  | status (status : Status)
  deriving DecidableEq, Repr

end Nanami
