import Mathlib.Control.Basic

/-!
# Programs that access members

Syntax trees of which only member accesses, identifiers and literals are looked into. What all
other nodes mean is a parameter, which is given what their parts mean. A language whose accesses
are guarded refuses some of the keys and is the same otherwise.
-/

namespace N8n.MemberAccess

inductive Node (L : Type) where
  | identifier (name : String)
  | literal (type : String) (value : L)
  | memberExpression (object property : Node L) (computed isOptional : Bool)
  | other (type : String) (children : List (Node L))

section Induction
variable {L : Type} {P : Node L → Prop}

mutual

theorem Node.induct (identifier : ∀ name, P (.identifier name))
    (literal : ∀ type value, P (.literal type value))
    (memberExpression : ∀ object property computed isOptional, P object → P property →
      P (.memberExpression object property computed isOptional))
    (other : ∀ type children, (∀ c ∈ children, P c) → P (.other type children)) :
    ∀ node, P node
  | .identifier _ => identifier _
  | .literal _ _ => literal _ _
  | .memberExpression object property _ _ =>
    memberExpression _ _ _ _ (Node.induct identifier literal memberExpression other object)
      (Node.induct identifier literal memberExpression other property)
  | .other _ children =>
    other _ _ (Node.inductAll identifier literal memberExpression other children)

theorem Node.inductAll (identifier : ∀ name, P (.identifier name))
    (literal : ∀ type value, P (.literal type value))
    (memberExpression : ∀ object property computed isOptional, P object → P property →
      P (.memberExpression object property computed isOptional))
    (other : ∀ type children, (∀ c ∈ children, P c) → P (.other type children)) :
    ∀ nodes : List (Node L), ∀ c ∈ nodes, P c
  | [] => fun _ hc => absurd hc List.not_mem_nil
  | node :: nodes => List.forall_mem_cons.mpr
    ⟨Node.induct identifier literal memberExpression other node,
      Node.inductAll identifier literal memberExpression other nodes⟩

end

end Induction

def Node.type {L : Type} : Node L → String
  | .identifier _ => "Identifier"
  | .literal type _ => type
  | .memberExpression .. => "MemberExpression"
  | .other type _ => type

/-- What a program may do. An expression gives a reference, of which a value is got; `skip` ends
an optional access to nothing. -/
structure Language (M : Type → Type) [Monad M] (L V R E : Type) where
  identifier : String → M R
  ofLiteral : L → V
  ofName : String → V
  putValue : V → R
  getValue : R → M V
  skip : Bool → V → M Unit
  member : V → V → M R
  other : String → List (M R) → M R
  throw : {α : Type} → E → M α
  getValue_putValue : ∀ v, getValue (putValue v) = pure v
  throw_bind : ∀ {α β : Type} (e : E) (f : α → M β), throw e >>= f = throw e

namespace Language
variable {M : Type → Type} [Monad M] {L V R E : Type} (S : Language M L V R E)

mutual

def denote : Node L → M R
  | .identifier name => S.identifier name
  | .literal _ value => pure (S.putValue (S.ofLiteral value))
  | .memberExpression object property true isOptional => do
    let o ← denote object >>= S.getValue
    S.skip isOptional o
    let k ← denote property >>= S.getValue
    S.member o k
  | .memberExpression object (.identifier name) false isOptional => do
    let o ← denote object >>= S.getValue
    S.skip isOptional o
    S.member o (S.ofName name)
  | .memberExpression object property false _ =>
    S.other "MemberExpression" [denote object, denote property]
  | .other type children => S.other type (denoteAll children)

def denoteAll : List (Node L) → List (M R)
  | [] => []
  | node :: nodes => denote node :: denoteAll nodes

end

theorem denoteAll_eq_map (nodes : List (Node L)) : S.denoteAll nodes = nodes.map S.denote := by
  induction nodes with
  | nil => rfl
  | cons node nodes ih => rw [denoteAll, ih, List.map_cons]

/-- Accesses to the keys that `refused` names an error for are not made. -/
def guarded (refused : V → Option E) : Language M L V R E :=
  { S with
    member := fun o k =>
      match refused k with
      | none => S.member o k
      | some e => S.throw e }

section Guarded
variable {S} {refused : V → Option E} {k : V}

theorem guarded_member_of_none (h : refused k = none) (o : V) :
    (S.guarded refused).member o k = S.member o k := by
  simp only [guarded, h]

theorem guarded_member_of_some {e : E} (h : refused k = some e) (o : V) :
    (S.guarded refused).member o k = S.throw e := by
  simp only [guarded, h]

end Guarded

end Language
end N8n.MemberAccess
