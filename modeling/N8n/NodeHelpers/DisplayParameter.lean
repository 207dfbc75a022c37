import Mathlib.Data.List.Infix
import N8n.Foundations.OrderedMap
import N8n.Workflow.Node
import Mathlib.Data.Rat.Defs
import Mathlib.Algebra.Order.Ring.Unbundled.Rat

/-!
# Parameters and the rules that display them

The values of node parameters are those of JSON. Two objects with the same entries in
another order are equal for `isEqual`: they stand for one value here, with its keys in
one order. What comes from outside is a parameter: `get` of lodash, regular expressions
and the comparison of values that are not both numbers. A value is `none` where the
source has `undefined`.
-/

namespace N8n

inductive ParameterValue where
  | null
  | bool (b : Bool)
  | num (n : ℚ)
  | str (s : String)
  | arr (items : List ParameterValue)
  | obj (entries : List (String × ParameterValue))

abbrev INodeParameters := List (String × ParameterValue)

namespace ParameterValue

mutual

def isEqual : ParameterValue → ParameterValue → Bool
  | .null, .null => true
  | .bool a, .bool b => a == b
  | .num a, .num b => decide (a = b)
  | .str a, .str b => a == b
  | .arr as, .arr bs => isEqualItems as bs
  | .obj as, .obj bs => isEqualEntries as bs
  | _, _ => false

def isEqualItems : List ParameterValue → List ParameterValue → Bool
  | [], [] => true
  | a :: as, b :: bs => isEqual a b && isEqualItems as bs
  | _, _ => false

def isEqualEntries : List (String × ParameterValue) → List (String × ParameterValue) → Bool
  | [], [] => true
  | (k, a) :: as, (l, b) :: bs => k == l && isEqual a b && isEqualEntries as bs
  | _, _ => false

end

mutual

theorem isEqual_iff : ∀ a b : ParameterValue, isEqual a b = true ↔ a = b
  | .null, b => by cases b <;> simp [isEqual]
  | .bool a, b => by cases b <;> simp [isEqual]
  | .num a, b => by cases b <;> simp [isEqual]
  | .str a, b => by cases b <;> simp [isEqual]
  | .arr as, b => by cases b <;> simp [isEqual, isEqualItems_iff as]
  | .obj as, b => by cases b <;> simp [isEqual, isEqualEntries_iff as]

theorem isEqualItems_iff : ∀ as bs : List ParameterValue, isEqualItems as bs = true ↔ as = bs
  | [], bs => by cases bs <;> simp [isEqualItems]
  | a :: as, bs => by cases bs <;> simp [isEqualItems, isEqual_iff a, isEqualItems_iff as]

theorem isEqualEntries_iff : ∀ as bs : List (String × ParameterValue),
    isEqualEntries as bs = true ↔ as = bs
  | [], bs => by cases bs <;> simp [isEqualEntries]
  | (k, a) :: as, bs => by
    cases bs <;> simp [isEqualEntries, isEqual_iff a, isEqualEntries_iff as, Prod.ext_iff]

end

instance : DecidableEq ParameterValue := fun a b => decidable_of_iff _ (isEqual_iff a b)

def truthy : ParameterValue → Bool
  | .null => false
  | .bool b => b
  | .num n => n ≠ 0
  | .str s => s ≠ ""
  | .arr _ | .obj _ => true

def isPrimitive : ParameterValue → Bool
  | .arr _ | .obj _ => false
  | _ => true

def isExpression : ParameterValue → Bool
  | .str s => s.startsWith "="
  | _ => false

end ParameterValue

inductive DisplayOperator where
  | eq (target : ParameterValue)
  | not (target : ParameterValue)
  | gte (target : ParameterValue)
  | lte (target : ParameterValue)
  | gt (target : ParameterValue)
  | lt (target : ParameterValue)
  | between (lower upper : ParameterValue)
  | includes (target : String)
  | startsWith (target : String)
  | endsWith (target : String)
  | regex (target : String)
  | exists
  | other (name : String)

inductive DisplayCondition where
  | value (value : ParameterValue)
  | cnd (operator : DisplayOperator)

abbrev DisplayRules := List (String × List DisplayCondition)

structure IDisplayOptions where
  «show» : Option DisplayRules
  hide : Option DisplayRules

structure Builtins where
  get : INodeParameters → String → Option ParameterValue
  compare : Option ParameterValue → ParameterValue → Option Ordering
  test : String → Option ParameterValue → Except Failure Bool

/-- The version of the node and the name of its type, where they are known. -/
structure NodeContext where
  builtins : Builtins
  typeVersion : Option ℚ
  nodeTypeName : Option String

section Display
variable (context : NodeContext)

/-- `none` when one of the values is not a number. -/
def compareValues : Option ParameterValue → ParameterValue → Option Ordering
  | some (.num a), .num b => some (compare a b)
  | a, b => context.builtins.compare a b

def includesText (target : String) : Option ParameterValue → Except Failure Bool
  | some (.str s) => .ok (decide (target.toList <:+: s.toList))
  | some (.arr items) => .ok (decide (.str target ∈ items))
  | _ => .error .typeError

/-- A method that only texts have. -/
def onText (test : String → Bool) : Option ParameterValue → Except Failure Bool
  | some (.str s) => .ok (test s)
  | _ => .error .typeError

def DisplayOperator.holds (propertyValue : Option ParameterValue) :
    DisplayOperator → Except Failure Bool
  | .eq target => .ok (propertyValue = some target)
  | .not target => .ok (propertyValue ≠ some target)
  | .gte target => .ok ((compareValues context propertyValue target).any (· ≠ .lt))
  | .lte target => .ok ((compareValues context propertyValue target).any (· ≠ .gt))
  | .gt target => .ok ((compareValues context propertyValue target).any (· = .gt))
  | .lt target => .ok ((compareValues context propertyValue target).any (· = .lt))
  | .between lower upper =>
    .ok ((compareValues context propertyValue lower).any (· ≠ .lt) &&
      (compareValues context propertyValue upper).any (· ≠ .gt))
  | .includes target => includesText target propertyValue
  | .startsWith target => onText (fun s => decide (target.toList <+: s.toList)) propertyValue
  | .endsWith target => onText (fun s => decide (target.toList <:+ s.toList)) propertyValue
  | .regex target => context.builtins.test target propertyValue
  | .exists => .ok (propertyValue ≠ none ∧ propertyValue ≠ some .null ∧ propertyValue ≠ some (.str ""))
  | .other _ => .ok false

def checkCondition (actualValues : List (Option ParameterValue)) :
    DisplayCondition → Except Failure Bool
  | .value value => .ok (value.isPrimitive && decide (some value ∈ actualValues))
  | .cnd operator => actualValues.allM fun value => operator.holds context value

def checkConditions (conditions : List DisplayCondition)
    (actualValues : List (Option ParameterValue)) : Except Failure Bool :=
  conditions.anyM (checkCondition context actualValues)

/-- The value of a resource locator is the one it holds. -/
def locatedValue : Option ParameterValue → Option ParameterValue
  | some (.obj entries) =>
    if (OrderedMap.lookupEntry "__rl" entries).any ParameterValue.truthy then
      OrderedMap.lookupEntry "value" entries
    else some (.obj entries)
  | value => value

def getPropertyValues (nodeValues : INodeParameters) (propertyName : String)
    (nodeValuesRoot : INodeParameters) : List (Option ParameterValue) :=
  let value :=
    if propertyName.startsWith "/" then
      context.builtins.get nodeValuesRoot (propertyName.drop 1).toString
    else if propertyName = "@version" then some (.num (context.typeVersion.getD 0))
    else if propertyName = "@tool" then
      some (.bool (context.nodeTypeName.any (·.endsWith "Tool")))
    else context.builtins.get nodeValues propertyName
  match locatedValue value with
  | some (.arr items) => items.map some
  | value => [value]

section Rules
variable (nodeValues nodeValuesRoot : INodeParameters)

/-- All rules have to match. The answer, when there is one before the end. -/
def checkShow : DisplayRules → Except Failure (Option Bool)
  | [] => .ok none
  | (propertyName, conditions) :: rules =>
    let values := getPropertyValues context nodeValues propertyName nodeValuesRoot
    if values.any (·.any ParameterValue.isExpression) then .ok (some true)
    else if values.isEmpty then .ok (some false)
    else do
      if ← checkConditions context conditions values then checkShow rules else .ok (some false)

/-- One rule that matches is enough. -/
def checkHide : DisplayRules → Except Failure (Option Bool)
  | [] => .ok none
  | (propertyName, conditions) :: rules =>
    let values := getPropertyValues context nodeValues propertyName nodeValuesRoot
    if values.isEmpty then checkHide rules
    else do
      if ← checkConditions context conditions values then .ok (some false) else checkHide rules

def displayParameter (displayOptions : Option IDisplayOptions) : Except Failure Bool :=
  match displayOptions with
  | none => .ok true
  | some options => do
    match ← checkShow context nodeValues nodeValuesRoot (options.«show».getD []) with
    | some answer => .ok answer
    | none =>
      let answer ← checkHide context nodeValues nodeValuesRoot (options.hide.getD [])
      .ok (answer.getD true)

end Rules
end Display
end N8n
