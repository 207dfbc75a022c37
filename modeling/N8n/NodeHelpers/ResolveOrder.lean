import Mathlib.Algebra.GroupWithZero.Nat
import N8n.NodeHelpers.DisplayParameter

/-!
# The order in which parameters are resolved

A parameter depends on those that its display rules name. A parameter whose dependencies
are not all resolved is put back into the queue, once for each that is missing, and goes
into the order as well.
-/

namespace N8n

abbrev IParameterDependencies := OrderedMap String (List String)

/-- The names in the rules of a parameter, but those of its node. -/
def addDependencies (dependencies : List String) (rules : DisplayRules) : List String :=
  rules.foldl (fun found rule =>
    if rule.1 ∈ found ∨ rule.1.startsWith "@" then found else found ++ [rule.1]) dependencies

/-- `parameters` holds the names of the parameters and their display options. -/
def getParameterDependencies (parameters : List (String × Option IDisplayOptions)) :
    IParameterDependencies :=
  parameters.foldl (fun dependencies parameter =>
    let found := (dependencies.get? parameter.1).getD []
    match parameter.2 with
    | none => dependencies.set parameter.1 found
    | some options =>
      dependencies.set parameter.1
        (addDependencies (addDependencies found (options.«show».getD [])) (options.hide.getD [])))
    .empty

structure ResolveState where
  executionOrder : List ℕ
  indexToResolve : List ℕ
  resolvedParameters : List String
  lastIndexLength : ℕ
  lastIndexReduction : ℤ
  iterations : ℕ

section Order
variable (names : List String) (dependencies : IParameterDependencies)

/-- One round for the index that the queue starts with. -/
def resolveIndex (index : ℕ) (indexToResolve : List ℕ) (s : ResolveState) :
    Except Failure ResolveState :=
  let iterations := s.iterations + 1
  let name := names.getD index ""
  let needed := (dependencies.get? name).getD []
  let executionOrder := s.executionOrder ++ [index]
  let resolvedParameters := s.resolvedParameters ++ [name]
  if needed = [] then
    .ok { s with executionOrder, indexToResolve, resolvedParameters, iterations }
  else
    let missing := needed.filter fun dependency =>
      dependency ∉ s.resolvedParameters ∧ ¬ dependency.startsWith "/"
    let indexToResolve := indexToResolve ++ missing.map fun _ => index
    let lastIndexReduction :=
      if indexToResolve.length < s.lastIndexLength then (iterations : ℤ) else s.lastIndexReduction
    if (iterations : ℤ) > lastIndexReduction + names.length then
      .error (.applicationError ("Could not resolve parameter dependencies. Max iterations " ++
        "reached! Hint: If `displayOptions` are specified in any child parameter of a parent " ++
        "`collection` or `fixedCollection`, remove the `displayOptions` from the child parameter."))
    else
      .ok { s with
        executionOrder
        indexToResolve
        resolvedParameters
        lastIndexLength := indexToResolve.length
        lastIndexReduction
        iterations }

def resolveLoop : ℕ → ResolveState → Except Failure (List ℕ)
  | 0, _ => .error .outOfFuel
  | fuel + 1, s =>
    match s.indexToResolve with
    | [] => .ok s.executionOrder
    | index :: indexToResolve => do
      resolveLoop fuel (← resolveIndex names dependencies index indexToResolve s)

/-- As many rounds as there can be: parameters of one name are put back each for itself. -/
def resolveRounds : ℕ :=
  3 * names.length + (names.map fun name => ((dependencies.get? name).getD []).length).sum + 3

def getParameterResolveOrder : Except Failure (List ℕ) :=
  resolveLoop names dependencies (resolveRounds names dependencies)
    ⟨[], List.range names.length, [], names.length, -1, 0⟩

end Order
end N8n
