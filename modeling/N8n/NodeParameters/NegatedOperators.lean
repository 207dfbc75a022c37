import N8n.NodeParameters.FilterParameter

/-!
# Operators and their negations

An operator and its negation raise the same errors, and otherwise exactly one of them holds. Only
two dates are neither equal nor unequal when one of them is missing.
-/

namespace N8n.FilterParameter

open DynamicValues (NativeError Value)

/-- The operators that the editor offers. -/
def OPERATORS : List FilterOperatorValue :=
  [{ type := .string, operation := .exists, singleValue := true },
    { type := .string, operation := .notExists, singleValue := true },
    { type := .string, operation := .empty, singleValue := true },
    { type := .string, operation := .notEmpty, singleValue := true },
    { type := .string, operation := .equals },
    { type := .string, operation := .notEquals },
    { type := .string, operation := .contains },
    { type := .string, operation := .notContains },
    { type := .string, operation := .startsWith },
    { type := .string, operation := .notStartsWith },
    { type := .string, operation := .endsWith },
    { type := .string, operation := .notEndsWith },
    { type := .string, operation := .regex },
    { type := .string, operation := .notRegex },
    { type := .number, operation := .exists, singleValue := true },
    { type := .number, operation := .notExists, singleValue := true },
    { type := .number, operation := .empty, singleValue := true },
    { type := .number, operation := .notEmpty, singleValue := true },
    { type := .number, operation := .equals },
    { type := .number, operation := .notEquals },
    { type := .number, operation := .gt },
    { type := .number, operation := .lt },
    { type := .number, operation := .gte },
    { type := .number, operation := .lte },
    { type := .dateTime, operation := .exists, singleValue := true },
    { type := .dateTime, operation := .notExists, singleValue := true },
    { type := .dateTime, operation := .empty, singleValue := true },
    { type := .dateTime, operation := .notEmpty, singleValue := true },
    { type := .dateTime, operation := .equals },
    { type := .dateTime, operation := .notEquals },
    { type := .dateTime, operation := .after },
    { type := .dateTime, operation := .before },
    { type := .dateTime, operation := .afterOrEquals },
    { type := .dateTime, operation := .beforeOrEquals },
    { type := .boolean, operation := .exists, singleValue := true },
    { type := .boolean, operation := .notExists, singleValue := true },
    { type := .boolean, operation := .empty, singleValue := true },
    { type := .boolean, operation := .notEmpty, singleValue := true },
    { type := .boolean, operation := .true, singleValue := true },
    { type := .boolean, operation := .false, singleValue := true },
    { type := .boolean, operation := .equals },
    { type := .boolean, operation := .notEquals },
    { type := .array, operation := .exists, singleValue := true },
    { type := .array, operation := .notExists, singleValue := true },
    { type := .array, operation := .empty, singleValue := true },
    { type := .array, operation := .notEmpty, singleValue := true },
    { type := .array, operation := .contains, rightType := some .any },
    { type := .array, operation := .notContains, rightType := some .any },
    { type := .array, operation := .lengthEquals, rightType := some .number },
    { type := .array, operation := .lengthNotEquals, rightType := some .number },
    { type := .array, operation := .lengthGt, rightType := some .number },
    { type := .array, operation := .lengthLt, rightType := some .number },
    { type := .array, operation := .lengthGte, rightType := some .number },
    { type := .array, operation := .lengthLte, rightType := some .number },
    { type := .object, operation := .exists, singleValue := true },
    { type := .object, operation := .notExists, singleValue := true },
    { type := .object, operation := .empty, singleValue := true },
    { type := .object, operation := .notEmpty, singleValue := true }]

def FilterOperation.negation : FilterOperation → Option FilterOperation
  | .exists => some .notExists
  | .empty => some .notEmpty
  | .equals => some .notEquals
  | .contains => some .notContains
  | .startsWith => some .notStartsWith
  | .endsWith => some .notEndsWith
  | .regex => some .notRegex
  | .true => some .false
  | .lengthEquals => some .lengthNotEquals
  | _ => none

/-- Two offered operators of one type, of which the second one negates the first one. -/
structure Negates (operator negated : FilterOperatorValue) : Prop where
  offered : operator ∈ OPERATORS
  offered_negated : negated ∈ OPERATORS
  type_eq : negated.type = operator.type
  negation_eq : operator.operation.negation = some negated.operation

/-- The same error, or exactly one of two answers that holds. -/
def Complementary {ε : Type*} (r r' : Except ε Value) : Prop :=
  (∃ e, r = .error e ∧ r' = .error e) ∨
    ∃ v v', r = .ok v ∧ r' = .ok v' ∧ v.truthy = !v'.truthy

def NeitherHolds {ε : Type*} (r r' : Except ε Value) : Prop :=
  r = .ok (.boolean false) ∧ r' = .ok (.boolean false)

def MissingDate (rt : Runtime) (condition : FilterConditionValue) (options : FilterOptionsValue)
    (metadata : FilterConditionMetadata) : Prop :=
  condition.operator.type = .dateTime ∧ condition.operator.operation = .equals ∧
    ∃ values, parseFilterConditionValues rt condition options metadata = .ok (.ok values) ∧
      (values.left.truthy && values.right.truthy) = false

section Negations
variable {rt : Runtime} {ignoreCase : Bool} {left right : Value} {operation negated : FilterOperation}

theorem complementary_answer (b : Bool) : Complementary (answer b) (answer !b) :=
  Or.inr ⟨_, _, rfl, rfl, by simp [Value.truthy]⟩

theorem complementary_answer' (b : Bool) : Complementary (answer !b) (answer b) :=
  Or.inr ⟨_, _, rfl, rfl, rfl⟩

theorem complementary_map {α : Type*} (r : Except NativeError α) (holds : α → Bool) :
    Complementary (r.map fun a => .boolean (holds a)) (r.map fun a => .boolean !(holds a)) := by
  cases r with
  | error e => exact Or.inl ⟨e, rfl, rfl⟩
  | ok a => exact complementary_answer (holds a)

theorem NeitherHolds.mapError {ε ε' : Type*} {r r' : Except ε Value} (h : NeitherHolds r r')
    (f : ε → ε') : NeitherHolds (r.mapError f) (r'.mapError f) := by
  obtain ⟨rfl, rfl⟩ := h
  exact ⟨rfl, rfl⟩

theorem complementary_throw {ε : Type*} (e : ε) :
    Complementary (Except.error e : Except ε Value) (.error e) := Or.inl ⟨e, rfl, rfl⟩

theorem Complementary.mapError {ε ε' : Type*} {r r' : Except ε Value} (h : Complementary r r')
    (f : ε → ε') : Complementary (r.mapError f) (r'.mapError f) := by
  rcases h with ⟨e, rfl, rfl⟩ | ⟨v, v', rfl, rfl, h⟩
  · exact Or.inl ⟨f e, rfl, rfl⟩
  · exact Or.inr ⟨v, v', rfl, rfl, h⟩

theorem executeString_complementary
    (hop : operation ∈ [.empty, .equals, .contains, .startsWith, .endsWith, .regex])
    (hneg : operation.negation = some negated) :
    Complementary (executeString rt ignoreCase operation left right)
      (executeString rt ignoreCase negated left right) := by
  have hcases : operation = .empty ∨ operation = .equals ∨ operation = .contains ∨
      operation = .startsWith ∨ operation = .endsWith ∨ operation = .regex := by simpa using hop
  rcases hcases with rfl | rfl | rfl | rfl | rfl | rfl <;> obtain rfl := Option.some.inj hneg <;>
    simp only [executeString, reduceCtorEq, or_false, false_or, not_false_eq_true, not_true_eq_false,
      and_true, and_false]
  · exact complementary_map _ _
  · exact complementary_answer _
  all_goals exact complementary_map _ id

theorem executeObject_complementary :
    Complementary (executeObject .empty left) (executeObject .notEmpty left) := by
  rw [executeObject, executeObject]
  split_ifs
  · exact complementary_map _ fun keys : List String => decide (keys.length = 0)
  · exact complementary_answer true

theorem executeArray_complementary (hop : operation ∈ [.empty, .contains, .lengthEquals])
    (hneg : operation.negation = some negated) :
    Complementary (executeArray rt ignoreCase operation left right)
      (executeArray rt ignoreCase negated left right) := by
  have hcases : operation = .empty ∨ operation = .contains ∨ operation = .lengthEquals := by
    simpa using hop
  rcases hcases with rfl | rfl | rfl <;> obtain rfl := Option.some.inj hneg
  · exact complementary_map (left.orElse (.array 0 [])).length fun n => n.strictEquals _
  · exact complementary_map _ id
  · exact complementary_map (left.orElse (.array 0 [])).length fun n => n.strictEquals right

theorem executeBoolean_complementary (hop : operation ∈ [.empty, .true, .equals])
    (hneg : operation.negation = some negated) :
    Complementary (executeBoolean rt ignoreCase operation left right)
      (executeBoolean rt ignoreCase negated left right) := by
  have hcases : operation = .empty ∨ operation = .true ∨ operation = .equals := by
    simpa using hop
  rcases hcases with rfl | rfl | rfl <;> obtain rfl := Option.some.inj hneg
  · exact complementary_answer' _
  · exact Or.inr ⟨left, _, rfl, rfl, by simp [Value.truthy]⟩
  · exact complementary_answer _

theorem executeNumber_complementary (hop : operation ∈ [.empty, .equals])
    (hneg : operation.negation = some negated) :
    Complementary (executeNumber rt ignoreCase operation left right)
      (executeNumber rt ignoreCase negated left right) := by
  have hcases : operation = .empty ∨ operation = .equals := by simpa using hop
  rcases hcases with rfl | rfl <;> obtain rfl := Option.some.inj hneg
  · exact complementary_answer' _
  · exact complementary_answer _

/-- Two dates that are there are equal or unequal. -/
theorem executeDateTime_complementary (hboth : (left.truthy && right.truthy) = true) :
    Complementary (executeDateTime rt ignoreCase .equals left right)
      (executeDateTime rt ignoreCase .notEquals left right) := by
  have hpresent : (!left.truthy || !right.truthy) = false := by rw [← Bool.not_and, hboth]; rfl
  simp only [executeDateTime, hpresent, Bool.false_eq_true, if_false]
  cases left.toMillis with
  | error e => exact complementary_throw e
  | ok millis =>
    cases right.toMillis with
    | error e => exact complementary_throw e
    | ok millis' => exact complementary_answer _

theorem executeDateTime_missing (hmissing : (left.truthy && right.truthy) = false) :
    NeitherHolds (executeDateTime rt ignoreCase .equals left right)
      (executeDateTime rt ignoreCase .notEquals left right) := by
  have hmissing' : (!left.truthy || !right.truthy) = true := by rw [← Bool.not_and, hmissing]; rfl
  simp only [executeDateTime, hmissing', if_true]
  exact ⟨rfl, rfl⟩

/-- The operations of a type that another one negates, without the existence. -/
def negatedOperations : FilterOperatorType → List FilterOperation
  | .string => [.empty, .equals, .contains, .startsWith, .endsWith, .regex]
  | .number | .dateTime => [.empty, .equals]
  | .boolean => [.empty, .true, .equals]
  | .array => [.empty, .contains, .lengthEquals]
  | .object => [.empty]
  | .any => []

theorem executeType_complementary {type : FilterOperatorType} {values : ParsedValues}
    (hop : operation ∈ negatedOperations type) (hneg : operation.negation = some negated)
    (hdates : type = .dateTime → operation = .equals →
      (values.left.truthy && values.right.truthy) = true) :
    Complementary (executeType rt ignoreCase type operation values)
      (executeType rt ignoreCase type negated values) := by
  cases type with
  | string => exact executeString_complementary hop hneg
  | number => exact executeNumber_complementary hop hneg
  | boolean => exact executeBoolean_complementary hop hneg
  | array => exact executeArray_complementary hop hneg
  | object =>
    obtain rfl := List.mem_singleton.mp hop
    obtain rfl := Option.some.inj hneg
    exact executeObject_complementary
  | dateTime =>
    have hcases : operation = .empty ∨ operation = .equals := by simpa [negatedOperations] using hop
    rcases hcases with rfl | rfl <;> obtain rfl := Option.some.inj hneg
    · exact complementary_answer' _
    · simp only [executeType]
      exact executeDateTime_complementary (hdates rfl rfl)
  | any => cases hop

theorem executeOperation_eq {type : FilterOperatorType} {values : ParsedValues}
    (hexists : operation ≠ .exists) (hnotExists : operation ≠ .notExists) :
    executeOperation rt ignoreCase type operation values =
      executeType rt ignoreCase type operation values := by
  rw [executeOperation]
  · exact hexists
  · exact hnotExists

theorem ne_of_negation (hneg : operation.negation = some negated) (hexists : operation ≠ .exists) :
    operation ≠ .notExists ∧ negated ≠ .exists ∧ negated ≠ .notExists := by
  cases operation <;> first | exact absurd rfl hexists | cases hneg
  all_goals simp

theorem executeOperation_missing {type : FilterOperatorType} {values : ParsedValues}
    (htype : type = .dateTime) (hop : operation = .equals)
    (hneg : operation.negation = some negated)
    (hmissing : (values.left.truthy && values.right.truthy) = false) :
    NeitherHolds (executeOperation rt ignoreCase type operation values)
      (executeOperation rt ignoreCase type negated values) := by
  subst htype hop
  obtain rfl := Option.some.inj hneg
  simp only [executeOperation, executeType]
  exact executeDateTime_missing hmissing

/-- Values that were read give complementary answers, but for two dates of which one is missing. -/
theorem executeOperation_complementary {type : FilterOperatorType} {values : ParsedValues}
    (hop : operation = .exists ∨ operation ∈ negatedOperations type)
    (hneg : operation.negation = some negated)
    (hdates : type = .dateTime → operation = .equals →
      (values.left.truthy && values.right.truthy) = true) :
    Complementary (executeOperation rt ignoreCase type operation values)
      (executeOperation rt ignoreCase type negated values) := by
  by_cases hexists : operation = .exists
  · subst hexists
    obtain rfl := Option.some.inj hneg
    exact complementary_answer _
  · obtain ⟨hne, hne', hne''⟩ := ne_of_negation hneg hexists
    rw [executeOperation_eq hexists hne, executeOperation_eq hne' hne'']
    exact executeType_complementary (hop.resolve_left hexists) hneg hdates

set_option maxRecDepth 2000 in
/-- Two offered operators of which one negates the other differ in the operation only. -/
theorem Negates.agree {operator negated : FilterOperatorValue} (h : Negates operator negated) :
    negated = { operator with operation := negated.operation } ∧
      (operator.operation = .exists ∨ operator.operation ∈ negatedOperations operator.type) := by
  have htable : ∀ operator ∈ OPERATORS, ∀ negated ∈ OPERATORS, negated.type = operator.type →
      operator.operation.negation = some negated.operation →
      negated = { operator with operation := negated.operation } ∧
        (operator.operation = .exists ∨ operator.operation ∈ negatedOperations operator.type) := by
    decide
  exact htable operator h.offered negated h.offered_negated h.type_eq h.negation_eq

/-- Both conditions are read in the same way. -/
theorem executeFilterCondition_eq {operator negated : FilterOperatorValue}
    (h : Negates operator negated) (leftValue rightValue : Value) (options : FilterOptionsValue)
    (metadata : FilterConditionMetadata) :
    executeFilterCondition rt ⟨leftValue, negated, rightValue⟩ options metadata = (do
      match ← parseFilterConditionValues rt ⟨leftValue, operator, rightValue⟩ options metadata with
      | .error error => throw (.filterError error)
      | .ok values => (executeOperation rt (!options.caseSensitive) operator.type negated.operation
          values).mapError .native) := by
  obtain ⟨heq, -⟩ := h.agree
  rw [heq]
  rfl

/-- An operator and its negation raise the same errors, and otherwise one of them holds, unless a
date is missing: then neither of two dates being equal and being unequal holds. -/
theorem negated_complementary (rt : Runtime) {operator negated : FilterOperatorValue}
    (h : Negates operator negated) (leftValue rightValue : Value) (options : FilterOptionsValue)
    (metadata : FilterConditionMetadata) :
    let r := executeFilterCondition rt ⟨leftValue, operator, rightValue⟩ options metadata
    let r' := executeFilterCondition rt ⟨leftValue, negated, rightValue⟩ options metadata
    (MissingDate rt ⟨leftValue, operator, rightValue⟩ options metadata → NeitherHolds r r') ∧
      (¬ MissingDate rt ⟨leftValue, operator, rightValue⟩ options metadata →
        Complementary r r') := by
  intro r r'
  have hr' : r' = _ := executeFilterCondition_eq h leftValue rightValue options metadata
  rw [hr']
  simp only [r, executeFilterCondition]
  cases hparse : parseFilterConditionValues rt ⟨leftValue, operator, rightValue⟩ options metadata with
  | error e =>
    refine ⟨?_, fun _ => complementary_throw e⟩
    rintro ⟨-, -, values, hvalues, -⟩
    rw [hparse] at hvalues
    cases hvalues
  | ok result =>
    cases result with
    | error e =>
      refine ⟨?_, fun _ => complementary_throw _⟩
      rintro ⟨-, -, values, hvalues, -⟩
      rw [hparse] at hvalues
      cases hvalues
    | ok values =>
      constructor
      · rintro ⟨htype, hop, values', hvalues, hmissing⟩
        obtain rfl := Except.ok.inj (Except.ok.inj (hparse.symm.trans hvalues))
        exact (executeOperation_missing htype hop h.negation_eq hmissing).mapError Thrown.native
      · intro hdates
        refine (executeOperation_complementary h.agree.2 h.negation_eq ?_).mapError Thrown.native
        intro htype hop
        by_contra hmissing
        exact hdates ⟨htype, hop, values, hparse, Bool.eq_false_iff.mpr hmissing⟩

/-- A runtime for missing values. -/
def nothingKnown : Runtime where
  toText := fun _ => .ok "null"
  numberOf := fun _ => .nan
  toLocaleLowerCase := id
  regExp := fun _ _ => .error .syntaxError
  validateFieldType := fun _ value _ _ => .valid value

def defaultOptions : FilterOptionsValue where
  caseSensitive := true
  typeValidation := .strict
  version := some 1

theorem texts_negates : Negates { type := .string, operation := .equals }
    { type := .string, operation := .notEquals } :=
  ⟨by decide, by decide, rfl, rfl⟩

theorem missingTexts_complementary : Complementary
    (executeFilterCondition nothingKnown ⟨.null, { type := .string, operation := .equals }, .null⟩
      defaultOptions {})
    (executeFilterCondition nothingKnown ⟨.null, { type := .string, operation := .notEquals }, .null⟩
      defaultOptions {}) := by
  refine (negated_complementary nothingKnown texts_negates .null .null defaultOptions {}).2 ?_
  rintro ⟨htype, -⟩
  cases htype

/-- Two missing dates are neither equal nor unequal. -/
theorem missingDates_not_complementary : ¬ ∀ (rt : Runtime) operator negated leftValue rightValue
    options metadata, Negates operator negated → Complementary
      (executeFilterCondition rt ⟨leftValue, operator, rightValue⟩ options metadata)
      (executeFilterCondition rt ⟨leftValue, negated, rightValue⟩ options metadata) := by
  intro h
  rcases h nothingKnown { type := .dateTime, operation := .equals }
      { type := .dateTime, operation := .notEquals } .null .null defaultOptions {}
      ⟨by decide, by decide, rfl, rfl⟩ with ⟨e, he, -⟩ | ⟨v, v', hv, hv', htruthy⟩
  · cases he
  · obtain rfl := Except.ok.inj hv
    obtain rfl := Except.ok.inj hv'
    cases htruthy

end Negations

end N8n.FilterParameter
