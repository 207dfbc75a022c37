import N8n.Foundations.FirstAnswer
import N8n.Foundations.FoldM
import N8n.NodeHelpers.DisplayParameter

/-!
# The order of display rules

Both loops of `displayParameter` stop at the first rule that decides. An expression in a value
that a show rule looks at displays the parameter at once, so the show rules after it and all
hide rules are not looked at.
-/

namespace N8n

open FirstAnswer (Agree)

section Display
variable (context : NodeContext) (nodeValues nodeValuesRoot : INodeParameters)

/-- What a show rule makes of the parameter, when it ends the loop. -/
def showAnswer (rule : String × List DisplayCondition) : Option (Except Failure Bool) :=
  let values := getPropertyValues context nodeValues rule.1 nodeValuesRoot
  if values.any (·.any ParameterValue.isExpression) then some (.ok true)
  else if values.isEmpty then some (.ok false)
  else
    match checkConditions context rule.2 values with
    | .error e => some (.error e)
    | .ok true => none
    | .ok false => some (.ok false)

def hideAnswer (rule : String × List DisplayCondition) : Option (Except Failure Bool) :=
  let values := getPropertyValues context nodeValues rule.1 nodeValuesRoot
  if values.isEmpty then none
  else
    match checkConditions context rule.2 values with
    | .error e => some (.error e)
    | .ok true => some (.ok false)
    | .ok false => none

theorem checkShow_eq (rules : DisplayRules) :
    checkShow context nodeValues nodeValuesRoot rules =
      match rules.findSome? (showAnswer context nodeValues nodeValuesRoot) with
      | some answer => some <$> answer
      | none => .ok none := by
  induction rules with
  | nil => rfl
  | cons rule rules ih =>
    rw [checkShow, List.findSome?_cons, showAnswer, ih]
    split_ifs
    · rfl
    · rfl
    · cases checkConditions context rule.2
        (getPropertyValues context nodeValues rule.1 nodeValuesRoot) with
      | error e => rfl
      | ok holds => cases holds <;> rfl

theorem checkHide_eq (rules : DisplayRules) :
    checkHide context nodeValues nodeValuesRoot rules =
      match rules.findSome? (hideAnswer context nodeValues nodeValuesRoot) with
      | some answer => some <$> answer
      | none => .ok none := by
  induction rules with
  | nil => rfl
  | cons rule rules ih =>
    rw [checkHide, List.findSome?_cons, hideAnswer, ih]
    split_ifs
    · rfl
    · cases checkConditions context rule.2
        (getPropertyValues context nodeValues rule.1 nodeValuesRoot) with
      | error e => rfl
      | ok holds => cases holds <;> rfl

theorem displayParameter_eq (options : IDisplayOptions) :
    displayParameter context nodeValues nodeValuesRoot (some options) =
      ((options.«show».getD []).findSome? (showAnswer context nodeValues nodeValuesRoot)).getD
        (((options.hide.getD []).findSome? (hideAnswer context nodeValues nodeValuesRoot)).getD
          (.ok true)) := by
  rw [displayParameter, checkShow_eq, checkHide_eq]
  cases (options.«show».getD []).findSome? (showAnswer context nodeValues nodeValuesRoot) with
  | some answer => cases answer <;> rfl
  | none =>
    cases (options.hide.getD []).findSome? (hideAnswer context nodeValues nodeValuesRoot) with
    | some answer => cases answer <;> rfl
    | none => rfl

/-- The same rules in other orders. -/
def Reordered (options other : IDisplayOptions) : Prop :=
  (other.«show».getD []).Perm (options.«show».getD []) ∧
    (other.hide.getD []).Perm (options.hide.getD [])

/-- The order of the rules does not matter, and a hide rule that matches hides the parameter. -/
def RulesCommute (options : IDisplayOptions) : Prop :=
  (∀ options', Reordered options options' →
    displayParameter context nodeValues nodeValuesRoot (some options') =
      displayParameter context nodeValues nodeValuesRoot (some options)) ∧
  ∀ rule ∈ options.hide.getD [],
    hideAnswer context nodeValues nodeValuesRoot rule = some (.ok false) →
    displayParameter context nodeValues nodeValuesRoot (some options) = .ok false

/-- The show rules that decide agree; if none does, the hide rules that decide agree; and a show
rule that decides against a hide rule that matches hides as well. -/
structure RulesAgree (options : IDisplayOptions) : Prop where
  «show» : Agree (showAnswer context nodeValues nodeValuesRoot) (options.«show».getD [])
  hide : (∀ rule ∈ options.«show».getD [],
      showAnswer context nodeValues nodeValuesRoot rule = none) →
    Agree (hideAnswer context nodeValues nodeValuesRoot) (options.hide.getD [])
  both : ∀ rule ∈ options.hide.getD [],
    hideAnswer context nodeValues nodeValuesRoot rule = some (.ok false) →
    ∀ rule' ∈ options.«show».getD [], ∀ answer,
      showAnswer context nodeValues nodeValuesRoot rule' = some answer → answer = .ok false

variable {context nodeValues nodeValuesRoot} {options : IDisplayOptions}

theorem RulesAgree.commute (h : RulesAgree context nodeValues nodeValuesRoot options) :
    RulesCommute context nodeValues nodeValuesRoot options := by
  constructor
  · intro options' hperm
    rw [displayParameter_eq, displayParameter_eq, h.show.perm hperm.1]
    cases hfirst : (options.«show».getD []).findSome?
      (showAnswer context nodeValues nodeValuesRoot) with
    | some answer => rfl
    | none => rw [(h.hide (List.findSome?_eq_none_iff.mp hfirst)).perm hperm.2]
  · intro rule hrule hmatch
    rw [displayParameter_eq]
    cases hfirst : (options.«show».getD []).findSome?
      (showAnswer context nodeValues nodeValuesRoot) with
    | some answer =>
      obtain ⟨rule', hrule', hanswer⟩ := List.exists_of_findSome?_eq_some hfirst
      exact h.both rule hrule hmatch rule' hrule' answer hanswer
    | none =>
      rw [FirstAnswer.findSome?_of_agree (h.hide (List.findSome?_eq_none_iff.mp hfirst)) hrule
        hmatch]
      rfl

/-- An order in which the show rule comes first. -/
theorem RulesCommute.answer_show (h : RulesCommute context nodeValues nodeValuesRoot options)
    {rule : String × List DisplayCondition} (hrule : rule ∈ options.«show».getD [])
    {answer : Except Failure Bool}
    (hanswer : showAnswer context nodeValues nodeValuesRoot rule = some answer) :
    displayParameter context nodeValues nodeValuesRoot (some options) = answer := by
  obtain ⟨rules, hperm, hfirst⟩ := FirstAnswer.exists_perm hrule hanswer
  rw [← h.1 ⟨some rules, options.hide⟩ ⟨hperm, .refl _⟩, displayParameter_eq, Option.getD_some,
    hfirst, Option.getD_some]

theorem RulesCommute.answer_hide (h : RulesCommute context nodeValues nodeValuesRoot options)
    (hshow : ∀ rule ∈ options.«show».getD [],
      showAnswer context nodeValues nodeValuesRoot rule = none)
    {rule : String × List DisplayCondition} (hrule : rule ∈ options.hide.getD [])
    {answer : Except Failure Bool}
    (hanswer : hideAnswer context nodeValues nodeValuesRoot rule = some answer) :
    displayParameter context nodeValues nodeValuesRoot (some options) = answer := by
  obtain ⟨rules, hperm, hfirst⟩ := FirstAnswer.exists_perm hrule hanswer
  rw [← h.1 ⟨options.«show», some rules⟩ ⟨.refl _, hperm⟩, displayParameter_eq,
    List.findSome?_eq_none_iff.mpr hshow, Option.getD_none, Option.getD_some, hfirst,
    Option.getD_some]

variable (context nodeValues nodeValuesRoot options) in
theorem displayParameter_rulesCommute_iff :
    RulesCommute context nodeValues nodeValuesRoot options ↔
      RulesAgree context nodeValues nodeValuesRoot options := by
  refine ⟨fun h => ⟨?_, fun hshow => ?_, ?_⟩, RulesAgree.commute⟩
  · intro a ha b hb x y hx hy
    exact (h.answer_show ha hx).symm.trans (h.answer_show hb hy)
  · intro a ha b hb x y hx hy
    exact (h.answer_hide hshow ha hx).symm.trans (h.answer_hide hshow hb hy)
  · intro rule hrule hmatch rule' hrule' answer hanswer
    exact (h.answer_show hrule' hanswer).symm.trans (h.2 rule hrule hmatch)

end Display

section Example

/-- `get` finds what stands under a name. -/
def lookupContext : NodeContext where
  builtins := ⟨fun values name => OrderedMap.lookupEntry name values, fun _ _ => none, fun _ _ => .ok false⟩
  typeVersion := none
  nodeTypeName := none

def expressionBeforeText : INodeParameters := [("mode", .str "={{ $json.mode }}"), ("unit", .str "day")]

def showModeAndUnit : IDisplayOptions where
  «show» := some [("mode", [.value (.str "list")]), ("unit", [.value (.str "hour")])]
  hide := none

/-- The expression comes before the rule that fails, so the parameter is displayed; in the other
order it is not. -/
theorem showModeAndUnit_not_commute :
    ¬ RulesCommute lookupContext expressionBeforeText expressionBeforeText showModeAndUnit := by
  intro h
  have hmode := h.answer_show List.mem_cons_self
    (show showAnswer lookupContext expressionBeforeText expressionBeforeText
      ("mode", [.value (.str "list")]) = some (.ok true) by
      simp [showAnswer, getPropertyValues, lookupContext, expressionBeforeText, locatedValue,
        OrderedMap.lookupEntry, ParameterValue.isExpression])
  have hunit := h.answer_show (List.mem_cons_of_mem _ List.mem_cons_self)
    (show showAnswer lookupContext expressionBeforeText expressionBeforeText
      ("unit", [.value (.str "hour")]) = some (.ok false) by
      simp [showAnswer, getPropertyValues, lookupContext, expressionBeforeText, locatedValue,
        OrderedMap.lookupEntry, ParameterValue.isExpression, checkConditions, checkCondition,
        ParameterValue.isPrimitive]
      rfl)
  rw [hmode] at hunit
  cases hunit

end Example
end N8n
