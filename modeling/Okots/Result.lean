import Okots.Library.Exec

/-!
# Kernel errors and outcomes

A kernel function ends with a value, with an `Error` that its caller sees as `Err`, or with a panic,
which aborts the kernel and runs no further cleanup.
-/

namespace Okots

/-- The error kinds raised by the modelled functions; `errorRaised` boxes an inner error. -/
inductive ErrorType (ε : Type) where
  | allocationFailed
  | invalidArgument
  | invalidData
  | alreadyInitialized
  | notFound
  | errorRaised (inner : ε)

/-- A kernel error. The caller location is not recorded by the default feature set. -/
inductive Error where
  | new (errorType : ErrorType Error) (message : Option String)

/-- `Error::from_self`: box an error inside a new one. -/
def Error.fromSelf (inner : Error) (message : Option String) : Error :=
  .new (.errorRaised inner) message

/-- How a kernel function stops without a value. -/
inductive Fault where
  /-- The function returned `Err`. -/
  | err (error : Error)
  /-- The function panicked. -/
  | panic

/-- Kernel functions over a state of type `σ`. -/
abbrev Kernel (σ α : Type) := StateExec.Exec σ Fault α

/-- `Error::new(..).raise()`. -/
def raise {σ α : Type} (errorType : ErrorType Error) (message : String) : Kernel σ α :=
  StateExec.Exec.fault (.err (.new errorType (some message)))

end Okots
