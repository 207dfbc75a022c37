import N8n.Foundations.DynamicValues
import N8n.Foundations.OrderedMap

/-!
# Filter conditions

The editor reads the values of a condition with the parser that the execution uses. It expects the
parser to throw an error, but the parser returns it, so the editor reports nothing.
-/

namespace N8n.FilterParameter

open DynamicValues (Conversions NativeError Value)

inductive FilterOperatorType where
  | string
  | number
  | boolean
  | array
  | object
  | dateTime
  | any
  deriving DecidableEq, Repr

def FilterOperatorType.name : FilterOperatorType → String
  | string => "string"
  | number => "number"
  | boolean => "boolean"
  | array => "array"
  | object => "object"
  | dateTime => "dateTime"
  | any => "any"

/-- The operations that some type knows, and all other texts. -/
inductive FilterOperation where
  | «exists» | notExists
  | empty | notEmpty
  | equals | notEquals
  | contains | notContains
  | startsWith | notStartsWith
  | endsWith | notEndsWith
  | regex | notRegex
  | gt | lt | gte | lte
  | after | before | afterOrEquals | beforeOrEquals
  | «true» | «false»
  | lengthEquals | lengthNotEquals | lengthGt | lengthLt | lengthGte | lengthLte
  | other (name : String)
  deriving DecidableEq, Repr

structure FilterOperatorValue where
  type : FilterOperatorType
  operation : FilterOperation
  rightType : Option FilterOperatorType := none
  singleValue : Bool := false
  deriving DecidableEq, Repr

structure FilterConditionValue where
  leftValue : Value
  operator : FilterOperatorValue
  rightValue : Value

inductive TypeValidation where
  | strict
  | loose
  deriving DecidableEq, Repr

structure FilterOptionsValue where
  caseSensitive : Bool
  typeValidation : TypeValidation
  version : Option ℕ

structure FilterValue where
  options : FilterOptionsValue
  conditions : List FilterConditionValue

inductive ErrorFormat where
  | full
  | inline
  deriving DecidableEq, Repr

structure FilterConditionMetadata where
  index : Option ℕ := none
  unresolvedExpressions : Bool := false
  itemIndex : Option ℕ := none
  errorFormat : Option ErrorFormat := none

structure FilterError where
  message : String
  description : String
  deriving DecidableEq, Repr

inductive Thrown where
  | filterError (error : FilterError)
  | native (error : NativeError)
  deriving DecidableEq, Repr

inductive ValidationResult where
  | invalid (errorMessage : String)
  | valid (newValue : Value)

def ValidationResult.isValid : ValidationResult → Bool
  | valid _ => true
  | invalid _ => false

/-- The value that was found, if there is one. -/
def ValidationResult.newValue : ValidationResult → Value
  | valid newValue => newValue
  | invalid _ => .undefined

structure ValidateFieldTypeOptions where
  strict : Bool := false
  parseStrings : Bool := false

structure Runtime extends Conversions where
  validateFieldType :
    String → Value → FilterOperatorType → ValidateFieldTypeOptions → ValidationResult

variable (rt : Runtime)

def parseSingleFilterValue (value : Value) (type : FilterOperatorType) (strict : Bool)
    (version : ℕ) : ValidationResult :=
  match value with
  | .undefined => .valid .undefined
  | .null => .valid .null
  | value =>
    if type = .any then .valid value
    else if type = .boolean ∧ strict = false then
      let result := rt.validateFieldType "filter" value type {}
      if version ≥ 2 ∧ result.isValid then result else .valid (.boolean value.truthy)
    else if type = .number ∧ value.isNaN then .valid value
    else rt.validateFieldType "filter" value type { strict, parseStrings := true }

def withIndefiniteArticle (noun : String) : String :=
  let article := match noun.toList with
    | [] => "an"
    | letter :: _ => if letter ∈ ['a', 'e', 'i', 'o', 'u'] then "an" else "a"
  article ++ " " ++ noun

inductive ValuePosition where
  | first
  | second
  deriving DecidableEq, Repr

def ValuePosition.name : ValuePosition → String
  | first => "first"
  | second => "second"

def composeInvalidTypeMessage (strict : Bool) (suffix type fromType value : String) : String :=
  let fromType := rt.toLocaleLowerCase fromType
  if strict then
    "Wrong type: '" ++ value ++ "' is " ++ withIndefiniteArticle fromType ++
      " but was expecting " ++ withIndefiniteArticle type ++ " " ++ suffix
  else
    "Conversion error: the " ++ fromType ++ " '" ++ value ++ "' can't be converted to " ++
      withIndefiniteArticle type ++ " " ++ suffix

def getTypeDescription (isStrict : Bool) : String :=
  if isStrict then
    "Try changing the type of comparison. Alternatively you can enable " ++
      "'Convert types where required'."
  else "Try changing the type of the comparison."

def convertionFunction : FilterOperatorType → String
  | .string => ".toString()"
  | .number => ".toNumber()"
  | .boolean => ".toBoolean()"
  | _ => ""

def composeInvalidTypeDescription (strict : Bool) (type : FilterOperatorType)
    (valuePosition : ValuePosition) : String :=
  if strict ∧ convertionFunction type ≠ "" then
    "\n<p>Try either:</p>\n<ol>\n  <li>Enabling 'Convert types where required'</li>\n" ++
      "  <li>Converting the " ++ valuePosition.name ++ " field to " ++
      withIndefiniteArticle type.name ++ " by adding <code>" ++ convertionFunction type ++
      "</code></li>\n</ol>\n\t\t\t"
  else getTypeDescription strict

/-- A text that begins with an equals sign is an expression. -/
def isExpression : Value → Bool
  | .string s => s.toList.head? = some '='
  | _ => false

structure ParsedValues where
  left : Value
  right : Value

def conditionSuffix (metadata : FilterConditionMetadata) : String :=
  match metadata.errorFormat.getD .full with
  | .full =>
    "[condition " ++ toString (metadata.index.getD 0) ++ ", item " ++
      toString (metadata.itemIndex.getD 0) ++ "]"
  | .inline => "[item " ++ toString (metadata.itemIndex.getD 0) ++ "]"

def FilterOptionsValue.strict (options : FilterOptionsValue) : Bool :=
  options.typeValidation = .strict

def FilterOperatorValue.rightTypeOrType (operator : FilterOperatorValue) : FilterOperatorType :=
  operator.rightType.getD operator.type

def parsedLeftValue (condition : FilterConditionValue) (options : FilterOptionsValue) :
    ValidationResult :=
  parseSingleFilterValue rt condition.leftValue condition.operator.type options.strict
    (options.version.getD 1)

def parsedRightValue (condition : FilterConditionValue) (options : FilterOptionsValue) :
    ValidationResult :=
  parseSingleFilterValue rt condition.rightValue condition.operator.rightTypeOrType options.strict
    (options.version.getD 1)

/-- The errors that the parser finds are returned. Turning a value into a text may throw one. -/
def parseFilterConditionValues (condition : FilterConditionValue) (options : FilterOptionsValue)
    (metadata : FilterConditionMetadata) : Except Thrown (Except FilterError ParsedValues) := do
  let strict := options.strict
  let operator := condition.operator
  let left := parsedLeftValue rt condition options
  let right := parsedRightValue rt condition options
  let leftValid := left.isValid ||
    metadata.unresolvedExpressions && isExpression condition.leftValue
  let rightValid := right.isValid || operator.singleValue ||
    metadata.unresolvedExpressions && isExpression condition.rightValue
  let leftValueString ← (rt.toText condition.leftValue).mapError .native
  let rightValueString ← (rt.toText condition.rightValue).mapError .native
  let suffix := conditionSuffix metadata
  if !leftValid && !rightValid && condition.leftValue.typeof = condition.rightValue.typeof then
    return .error
      { message := "Comparison type expects " ++ withIndefiniteArticle operator.type.name ++
          " but both fields are " ++ withIndefiniteArticle condition.leftValue.typeof
        description := getTypeDescription strict }
  else if !leftValid then
    return .error
      { message := composeInvalidTypeMessage rt strict suffix operator.type.name
          condition.leftValue.typeof leftValueString
        description := composeInvalidTypeDescription strict operator.type .first }
  else if !rightValid then
    return .error
      { message := composeInvalidTypeMessage rt strict suffix operator.rightTypeOrType.name
          condition.rightValue.typeof rightValueString
        description := composeInvalidTypeDescription strict operator.rightTypeOrType .second }
  else
    return .ok { left := left.newValue, right := right.newValue }

/-! ### Execution -/

def isFlag (letter : Char) : Bool := letter ∈ ['g', 'i', 'm', 'u', 's', 'y']

def isLineTerminator (letter : Char) : Bool := letter ∈ ['\n', '\r', '\u2028', '\u2029']

/-- What is before the first slash that only flags follow, and these flags. -/
def regexBody : List Char → Option (List Char × List Char)
  | [] => none
  | a :: rest =>
    if a = '/' ∧ rest.all isFlag then some ([], rest)
    else if isLineTerminator a then none
    else (regexBody rest).map fun m => (a :: m.1, m.2)

def regexMatch (pattern : String) : Option (String × String) :=
  match pattern.toList with
  | '/' :: rest => (regexBody rest).map fun m => (String.ofList m.1, String.ofList m.2)
  | _ => none

def parseRegexPattern (pattern : Value) : Except NativeError (String → Bool) :=
  match if pattern.truthy then pattern else .string "" with
  | .string pattern =>
    match regexMatch pattern with
    | none => rt.regExp pattern ""
    | some (body, flags) => rt.regExp body flags
  | _ => .error .typeError

def testRegex (pattern v : Value) : Except NativeError Bool := do
  let regex ← parseRegexPattern rt pattern
  let text ← rt.toText v
  return regex text

def arrayContainsValue (array value : Value) (ignoreCase : Bool) : Except NativeError Bool :=
  match ignoreCase, value with
  | true, .string text =>
    match array with
    | .array _ items => .ok <| items.any fun
      | .string item => rt.toLocaleLowerCase item = rt.toLocaleLowerCase text
      | _ => false
    | _ => .error .typeError
  | _, _ => array.includes rt.toConversions value

def valueExists (v : Value) : Bool :=
  match v with
  | .undefined | .null => false
  | v => !v.isNaN

def answer (b : Bool) : Except NativeError Value := .ok (.boolean b)

def compared (holds : Ordering → Bool) (order : Option Ordering) : Value :=
  .boolean ((order.map holds).getD false)

/-- A type that does not know the operation leaves it to the next one. -/
def executeObject (operation : FilterOperation) (leftValue : Value) : Except NativeError Value :=
  match operation with
  | .empty =>
    if leftValue.truthy then leftValue.keys.map fun keys => .boolean (keys.length = 0)
    else answer true
  | .notEmpty =>
    if leftValue.truthy then leftValue.keys.map fun keys => .boolean !(keys.length = 0)
    else answer false
  | _ => answer false

def executeArray (ignoreCase : Bool) (operation : FilterOperation) (leftValue rightValue : Value) :
    Except NativeError Value :=
  let left := leftValue.orElse (.array 0 [])
  let length (holds : Ordering → Bool) := do
    return compared holds (← (← left.length).compare rt.toConversions rightValue)
  match operation with
  | .contains => (arrayContainsValue rt left rightValue ignoreCase).map fun b => .boolean b
  | .notContains => (arrayContainsValue rt left rightValue ignoreCase).map fun b => .boolean !b
  | .lengthEquals => left.length.map fun n => .boolean (n.strictEquals rightValue)
  | .lengthNotEquals => left.length.map fun n => .boolean !(n.strictEquals rightValue)
  | .lengthGt => length Ordering.isGT
  | .lengthLt => length Ordering.isLT
  | .lengthGte => length Ordering.isGE
  | .lengthLte => length Ordering.isLE
  | .empty => left.length.map fun n => .boolean (n.strictEquals (.number (.ofNat 0)))
  | .notEmpty => left.length.map fun n => .boolean !(n.strictEquals (.number (.ofNat 0)))
  | operation => executeObject operation leftValue

def executeBoolean (ignoreCase : Bool) (operation : FilterOperation)
    (leftValue rightValue : Value) : Except NativeError Value :=
  match operation with
  | .empty => answer !(valueExists leftValue)
  | .notEmpty => answer (valueExists leftValue)
  | .true => .ok leftValue
  | .false => answer !leftValue.truthy
  | .equals => answer (leftValue.strictEquals rightValue)
  | .notEquals => answer !(leftValue.strictEquals rightValue)
  | operation => executeArray rt ignoreCase operation leftValue rightValue

def executeDateTime (ignoreCase : Bool) (operation : FilterOperation)
    (leftValue rightValue : Value) : Except NativeError Value :=
  let millis (holds : Option Ordering → Bool) := do
    let left ← leftValue.toMillis
    let right ← rightValue.toMillis
    return Value.boolean (holds (left.compare right))
  let order (holds : Ordering → Bool) := millis fun order => (order.map holds).getD false
  match operation with
  | .empty => answer !(valueExists leftValue)
  | .notEmpty => answer (valueExists leftValue)
  | operation =>
    if !leftValue.truthy || !rightValue.truthy then answer false
    else
      match operation with
      | .equals => millis fun order => order = some .eq
      | .notEquals => millis fun order => !(order = some .eq)
      | .after => order Ordering.isGT
      | .before => order Ordering.isLT
      | .afterOrEquals => order Ordering.isGE
      | .beforeOrEquals => order Ordering.isLE
      | operation => executeBoolean rt ignoreCase operation leftValue rightValue

def executeNumber (ignoreCase : Bool) (operation : FilterOperation)
    (leftValue rightValue : Value) : Except NativeError Value :=
  let order (holds : Ordering → Bool) := do
    return compared holds (← leftValue.compare rt.toConversions rightValue)
  match operation with
  | .empty => answer !(valueExists leftValue)
  | .notEmpty => answer (valueExists leftValue)
  | .equals => answer (leftValue.strictEquals rightValue)
  | .notEquals => answer !(leftValue.strictEquals rightValue)
  | .gt => order Ordering.isGT
  | .lt => order Ordering.isLT
  | .gte => order Ordering.isGE
  | .lte => order Ordering.isLE
  | operation => executeDateTime rt ignoreCase operation leftValue rightValue

def lowerCased : Value → Value
  | .string s => .string (rt.toLocaleLowerCase s)
  | v => v

def executeString (ignoreCase : Bool) (operation : FilterOperation)
    (leftValue rightValue : Value) : Except NativeError Value :=
  let leftValue := if ignoreCase then lowerCased rt leftValue else leftValue
  let rightValue :=
    if ignoreCase ∧ ¬ (operation = .regex ∨ operation = .notRegex) then lowerCased rt rightValue
    else rightValue
  let left := leftValue.orElse (.string "")
  let right := rightValue.orElse (.string "")
  match operation with
  | .empty => left.length.map fun n => .boolean (n.strictEquals (.number (.ofNat 0)))
  | .notEmpty => left.length.map fun n => .boolean !(n.strictEquals (.number (.ofNat 0)))
  | .equals => answer (left.strictEquals right)
  | .notEquals => answer !(left.strictEquals right)
  | .contains => (left.includes rt.toConversions right).map fun b => .boolean b
  | .notContains => (left.includes rt.toConversions right).map fun b => .boolean !b
  | .startsWith => (left.startsWith rt.toConversions right).map fun b => .boolean b
  | .notStartsWith => (left.startsWith rt.toConversions right).map fun b => .boolean !b
  | .endsWith => (left.endsWith rt.toConversions right).map fun b => .boolean b
  | .notEndsWith => (left.endsWith rt.toConversions right).map fun b => .boolean !b
  | .regex => (testRegex rt right left).map fun b => .boolean b
  | .notRegex => (testRegex rt right left).map fun b => .boolean !b
  | _ => answer false

def executeType (ignoreCase : Bool) (type : FilterOperatorType) (operation : FilterOperation)
    (values : ParsedValues) : Except NativeError Value :=
  match type with
  | .string => executeString rt ignoreCase operation values.left values.right
  | .number => executeNumber rt ignoreCase operation values.left values.right
  | .dateTime => executeDateTime rt ignoreCase operation values.left values.right
  | .boolean => executeBoolean rt ignoreCase operation values.left values.right
  | .array => executeArray rt ignoreCase operation values.left values.right
  | .object => executeObject operation values.left
  | .any => answer false

/-- The operation on two values that were read. -/
def executeOperation (ignoreCase : Bool) (type : FilterOperatorType) (operation : FilterOperation)
    (values : ParsedValues) : Except NativeError Value :=
  match operation with
  | .exists => answer (valueExists values.left)
  | .notExists => answer !(valueExists values.left)
  | operation => executeType rt ignoreCase type operation values

def executeFilterCondition (condition : FilterConditionValue) (filterOptions : FilterOptionsValue)
    (metadata : FilterConditionMetadata) : Except Thrown Value := do
  match ← parseFilterConditionValues rt condition filterOptions metadata with
  | .error error => throw (.filterError error)
  | .ok values =>
    (executeOperation rt (!filterOptions.caseSensitive) condition.operator.type
      condition.operator.operation values).mapError .native

/-! ### The editor's check -/

def issueKey (name : String) (index : ℕ) : String := name ++ "." ++ toString index

def checkCondition (name : String) (options : FilterOptionsValue)
    (issues : OrderedMap String (List String)) (condition : FilterConditionValue) (index : ℕ) :
    Except Thrown (OrderedMap String (List String)) :=
  match parseFilterConditionValues rt condition options
      { index := some index, unresolvedExpressions := true, errorFormat := some .inline } with
  | .ok _ | .error (.native _) => .ok issues
  | .error (.filterError error) =>
    -- A list that is not there has no `push`.
    match issues.get? (issueKey name index) with
    | none => .error (.native .typeError)
    | some messages => .ok (issues.set (issueKey name index) (messages ++ [error.message]))

def validateFilterParameter (name : String) (value : FilterValue) :
    Except Thrown (OrderedMap String (List String)) :=
  value.conditions.zipIdx.foldlM
    (fun issues entry => checkCondition rt name value.options issues entry.1 entry.2)
    OrderedMap.empty

/-! ### The check and the execution -/

section Check
variable {rt : Runtime} {condition : FilterConditionValue} {options : FilterOptionsValue}
  {metadata : FilterConditionMetadata} {name : String} {value : FilterValue}

/-- The left value parses, and the right one does when the operator needs it. -/
def Readable (rt : Runtime) (options : FilterOptionsValue) (condition : FilterConditionValue) : Prop :=
  (parsedLeftValue rt condition options).isValid ∧
    ((parsedRightValue rt condition options).isValid ∨ condition.operator.singleValue)

/-- Both values can be turned into a text. -/
def Printable (rt : Runtime) (condition : FilterConditionValue) : Prop :=
  (∃ text, rt.toText condition.leftValue = .ok text) ∧
    ∃ text, rt.toText condition.rightValue = .ok text

def RaisesFilterError (rt : Runtime) (condition : FilterConditionValue)
    (options : FilterOptionsValue) (metadata : FilterConditionMetadata) : Prop :=
  ∃ error, executeFilterCondition rt condition options metadata = .error (.filterError error)

/-- No value is an expression that is still to be resolved. -/
def FilterValue.Resolved (value : FilterValue) : Prop :=
  ∀ condition ∈ value.conditions,
    isExpression condition.leftValue = false ∧ isExpression condition.rightValue = false

def Reported (issues : OrderedMap String (List String)) (key : String) : Prop :=
  ∃ messages, issues.get? key = some messages ∧ messages ≠ []

/-- The check reports the conditions that the execution raises an error on, and nothing else. -/
def CheckAgrees (rt : Runtime) (name : String) (value : FilterValue) (itemIndex : Option ℕ) : Prop :=
  ∃ issues, validateFilterParameter rt name value = .ok issues ∧
    (∀ index condition, value.conditions[index]? = some condition →
      (Reported issues (issueKey name index) ↔ RaisesFilterError rt condition value.options
        { index := some index, itemIndex := itemIndex })) ∧
    ∀ key, Reported issues key → ∃ index < value.conditions.length, key = issueKey name index

/-- The parser throws no error of its own. -/
theorem parse_error_native {thrown : Thrown}
    (h : parseFilterConditionValues rt condition options metadata = .error thrown) :
    ∃ error, thrown = .native error := by
  rw [parseFilterConditionValues] at h
  cases hleft : rt.toText condition.leftValue with
  | error error =>
    rw [hleft] at h
    exact ⟨error, (Except.error.inj h).symm⟩
  | ok left =>
    cases hright : rt.toText condition.rightValue with
    | error error =>
      rw [hleft, hright] at h
      exact ⟨error, (Except.error.inj h).symm⟩
    | ok right =>
      rw [hleft, hright] at h
      simp only [Except.mapError, bind, Except.bind] at h
      split_ifs at h <;> cases h

/-- Without expressions the parser returns an error exactly for what it cannot read. -/
theorem parse_returns_error_iff (hresolved : metadata.unresolvedExpressions = false) :
    (∃ error, parseFilterConditionValues rt condition options metadata = .ok (.error error)) ↔
      Printable rt condition ∧ ¬ Readable rt options condition := by
  rw [parseFilterConditionValues, Printable, Readable, hresolved]
  cases hleft : rt.toText condition.leftValue with
  | error error =>
    refine iff_of_false (fun h => ?_) fun h => ?_
    · obtain ⟨error', h⟩ := h
      cases h
    · obtain ⟨⟨⟨text, htext⟩, -⟩, -⟩ := h
      cases htext
  | ok left =>
    cases hright : rt.toText condition.rightValue with
    | error error =>
      refine iff_of_false (fun h => ?_) fun h => ?_
      · obtain ⟨error', h⟩ := h
        cases h
      · obtain ⟨⟨-, text, htext⟩, -⟩ := h
        cases htext
    | ok right =>
      rw [and_iff_right ⟨⟨left, rfl⟩, right, rfl⟩]
      simp only [Except.mapError, bind, Except.bind, Bool.false_and, Bool.or_false]
      cases (parsedLeftValue rt condition options).isValid <;>
        cases (parsedRightValue rt condition options).isValid <;>
          cases condition.operator.singleValue <;> simp [pure, Except.pure]
      all_goals split_ifs <;> simp

theorem raisesFilterError_iff (hresolved : metadata.unresolvedExpressions = false) :
    RaisesFilterError rt condition options metadata ↔
      Printable rt condition ∧ ¬ Readable rt options condition := by
  rw [← parse_returns_error_iff hresolved, RaisesFilterError, executeFilterCondition]
  cases hparse : parseFilterConditionValues rt condition options metadata with
  | error thrown =>
    obtain ⟨error, rfl⟩ := parse_error_native hparse
    refine iff_of_false ?_ ?_ <;> rintro ⟨error', h⟩ <;> cases h
  | ok result =>
    cases result with
    | error error => exact iff_of_true ⟨error, rfl⟩ ⟨error, rfl⟩
    | ok values =>
      refine iff_of_false ?_ ?_
      · rintro ⟨error, h⟩
        cases hvalue : executeOperation rt (!options.caseSensitive) condition.operator.type
            condition.operator.operation values with
        | error error' =>
          simp only [bind, Except.bind, hvalue] at h
          cases h
        | ok v =>
          simp only [bind, Except.bind, hvalue] at h
          cases h
      · rintro ⟨error, h⟩
        cases h

theorem checkCondition_eq (issues : OrderedMap String (List String)) (index : ℕ) :
    checkCondition rt name options issues condition index = .ok issues := by
  rw [checkCondition]
  split
  · rfl
  · rfl
  · next h =>
    obtain ⟨error, herror⟩ := parse_error_native h
    cases herror

theorem validateFilterParameter_eq :
    validateFilterParameter rt name value = .ok OrderedMap.empty := by
  rw [validateFilterParameter]
  generalize value.conditions.zipIdx = conditions
  induction conditions with
  | nil => rfl
  | cons condition conditions ih =>
    rw [List.foldlM_cons, checkCondition_eq]
    exact ih

theorem not_reported_empty (key : String) : ¬ Reported OrderedMap.empty key := by
  rintro ⟨messages, h, -⟩
  cases h

/-- A condition that the execution raises an error on is not reported. -/
theorem not_checkAgrees {itemIndex : Option ℕ} (hcondition : condition ∈ value.conditions)
    (hprintable : Printable rt condition) (hunreadable : ¬ Readable rt value.options condition) :
    ¬ CheckAgrees rt name value itemIndex := by
  rintro ⟨issues, hissues, hiff, -⟩
  rw [validateFilterParameter_eq] at hissues
  obtain rfl := Except.ok.inj hissues
  obtain ⟨index, hindex⟩ := List.mem_iff_getElem?.mp hcondition
  refine not_reported_empty _ ((hiff index condition hindex).mpr ?_)
  exact (raisesFilterError_iff rfl).mpr ⟨hprintable, hunreadable⟩

/-- Nothing is ever reported, so the check agrees with an execution that raises no such error. -/
theorem checkAgrees_iff (rt : Runtime) (name : String) (value : FilterValue)
    (itemIndex : Option ℕ) : CheckAgrees rt name value itemIndex ↔
      ∀ condition ∈ value.conditions, Readable rt value.options condition ∨
        ¬ Printable rt condition := by
  constructor
  · intro h condition hcondition
    by_contra hnot
    obtain ⟨hunreadable, hprintable⟩ := not_or.mp hnot
    exact not_checkAgrees hcondition (not_not.mp hprintable) hunreadable h
  · intro h
    refine ⟨OrderedMap.empty, validateFilterParameter_eq, fun index condition hindex => ?_,
      fun key hkey => ?_⟩
    · refine iff_of_false (not_reported_empty _) fun hraise => ?_
      obtain ⟨hprintable, hunreadable⟩ := (raisesFilterError_iff rfl).mp hraise
      rcases h condition (List.mem_of_getElem? hindex) with hread | hprint
      · exact hunreadable hread
      · exact hprint hprintable
    · exact absurd hkey (not_reported_empty key)

/-- A runtime that reads numbers only. -/
def numbersOnly : Runtime where
  toText := fun
    | .string s => .ok s
    | _ => .error .typeError
  numberOf := fun _ => .nan
  toLocaleLowerCase := id
  regExp := fun _ _ => .error .syntaxError
  validateFieldType := fun
    | _, .number n, .number, _ => .valid (.number n)
    | _, _, _, _ => .invalid "'filter' expects a number but we got 'ten'"

def textsAsNumbers : FilterValue where
  options := { caseSensitive := true, typeValidation := .strict, version := some 1 }
  conditions :=
    [{ leftValue := .string "ten", operator := { type := .number, operation := .equals }
       rightValue := .string "ten" }]

/-- The execution raises an error on two texts that are compared as numbers. -/
theorem textsAsNumbers_not_checkAgrees : ¬ ∀ rt name (value : FilterValue) itemIndex,
    value.Resolved → CheckAgrees rt name value itemIndex := by
  intro h
  refine not_checkAgrees (List.mem_singleton.mpr rfl) ⟨⟨"ten", rfl⟩, "ten", rfl⟩ ?_
    (h numbersOnly "conditions" textsAsNumbers none ?_)
  · rintro ⟨hleft, -⟩
    cases hleft
  · intro condition hcondition
    obtain rfl := List.mem_singleton.mp hcondition
    exact ⟨by decide, by decide⟩

end Check

end N8n.FilterParameter
