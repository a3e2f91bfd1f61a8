import OnicDriver.Kernel

/-!
# Requests

The request structure that the clients of the queue library fill in.
-/

namespace OnicDriver

/-- `enum queue_type_t`. -/
inductive QType
  | h2c
  | c2h
  | cmpt
  deriving DecidableEq, Repr

/-- `struct qdma_request`. `uldData` is the address the client stored, `none` for
`NULL`, and `fpDone` tells whether a completion callback is set. -/
structure QdmaRequest where
  uldData : Option ℕ := none
  fpDone : Bool := false
  timeoutMs : ℕ := 0
  count : ℕ := 0
  epAddr : ℕ := 0
  write : Bool := false
  dmaMapped : Bool := false
  h2cEot : Bool := false
  checkQstateDisabled : Bool := false
  uddLen : ℕ := 0
  sgcnt : ℕ := 0
  sgl : List SwSg := []
  deriving DecidableEq, Repr

end OnicDriver
