import N8n.Workflow.Connections
import Mathlib.Data.Int.Notation

/-!
# Nodes

The fields of a node that the engine and the graph code read. `disabled` is
`none` where the source has no value.
-/

namespace N8n

structure INode where
  name : String
  type : String
  position : ℤ × ℤ := (0, 0)
  disabled : Option Bool := none
  alwaysOutputData : Bool := false
  rewireOutputLogTo : Option NodeConnectionType := none
  deriving DecidableEq, Repr

inductive Failure where
  | assertionError
  | typeError
  | applicationError (message : String)
  | outOfFuel
  deriving DecidableEq, Repr

/-- Reading a property of `undefined`. -/
def orTypeError {α : Type} : Option α → Except Failure α
  | none => .error .typeError
  | some a => .ok a

theorem orTypeError_eq_ok {α : Type} {x : Option α} {a : α} :
    orTypeError x = .ok a ↔ x = some a := by
  cases x <;> simp [orTypeError]

theorem orTypeError_ne_outOfFuel {α : Type} (x : Option α) :
    orTypeError x ≠ .error .outOfFuel := by
  cases x <;> simp [orTypeError]

end N8n
