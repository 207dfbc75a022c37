import Mathlib.Algebra.Order.Ring.Rat
import N8n.Foundations.JsonValues

/-!
# The fuzzy comparison of two values

The comparison is a chain of guarded cases: a case gives the answer or leaves it to the cases after
it. Each case that looks at the types of both values stands beside its mirror image.
-/

namespace N8n.NodesBase
open N8n.JsonValues

/-- Equality up to the content, the parser of JSON texts, the text of a number, and the lower case
of a text in the locale of the process. -/
structure Comparing where
  isEqual : Value → Value → Bool
  jsonParse : String → Option Value
  toString : ℚ → String
  toLocaleLowerCase : String → String

namespace Comparing
variable (c : Comparing)

def isFalsy : Value → Bool
  | .null => true
  | .string value => value = ""
  | .array items => items.length = 0
  | _ => false

/-- A text that is no JSON is equal to nothing. -/
def parseStringAndCompareToObject (str : String) (arr : Value) : Bool :=
  match c.jsonParse str with
  | some parsedArray => c.isEqual parsedArray arr
  | none => false

/-- Both types are the same, so we do strict comparison. -/
def sameTypes (item1 item2 : Value) : Option Bool :=
  if !item1.isNull && !item2.isNull && item1.typeof = item2.typeof then some (c.isEqual item1 item2)
  else none

/-- `null`, `0` and `"0"`, which the second value is when the first is `null`. -/
def isNullOrZero : Value → Bool
  | .null => true
  | .number n => n = 0
  | .string s => s = "0"
  | _ => false

/-- Null, 0 and "0" treated as equal. -/
def nullsAndZeros (compareVersion : ℚ) (item1 item2 : Value) : Option Bool :=
  if compareVersion ≥ 2 then
    if item1.isNull && isNullOrZero item2 then some true
    else if item2.isNull && isNullOrZero item1 then some true
    else none
  else none

/-- Null, empty strings, empty arrays all treated as the same, and as a missing field. -/
def falsyValues (item1 item2 : Value) : Option Bool :=
  if isFalsy item1 && isFalsy item2 then some true
  else if isFalsy item1 && item2.isUndefined then some true
  else if item1.isUndefined && isFalsy item2 then some true
  else none

/-- Compare numbers and strings representing that number. -/
def numberAndString : Value → Value → Option Bool
  | .number item1, .string item2 => some (c.toString item1 = item2)
  | .string item1, .number item2 => some (item1 = c.toString item2)
  | _, _ => none

/-- Compare objects/arrays and their stringified version. -/
def objectAndString (item1 item2 : Value) : Option Bool :=
  match item1, item2 with
  | .array _, .string str | .object _, .string str =>
    some (c.parseStringAndCompareToObject str item1)
  | .string str, .array _ | .string str, .object _ =>
    some (c.parseStringAndCompareToObject str item2)
  | _, _ => none

/-- Compare booleans and strings representing the boolean. -/
def booleanAndString : Value → Value → Option Bool
  | .boolean item1, .string item2 =>
    if item1 = true ∧ c.toLocaleLowerCase item2 = "true" then some true
    else if item1 = false ∧ c.toLocaleLowerCase item2 = "false" then some true
    else none
  | .string item1, .boolean item2 =>
    if item2 = true ∧ c.toLocaleLowerCase item1 = "true" then some true
    else if item2 = false ∧ c.toLocaleLowerCase item1 = "false" then some true
    else none
  | _, _ => none

/-- Compare booleans and the numbers 0 and 1. -/
def booleanAndNumber : Value → Value → Option Bool
  | .boolean item1, .number item2 =>
    if item1 = true ∧ item2 = 1 then some true
    else if item1 = false ∧ item2 = 0 then some true
    else none
  | .number item1, .boolean item2 =>
    if item2 = true ∧ item1 = 1 then some true
    else if item2 = false ∧ item1 = 0 then some true
    else none
  | _, _ => none

/-- Compare booleans and the strings 0 and 1. -/
def booleanAndDigit : Value → Value → Option Bool
  | .boolean item1, .string item2 =>
    if item1 = true ∧ item2 = "1" then some true
    else if item1 = false ∧ item2 = "0" then some true
    else none
  | .string item1, .boolean item2 =>
    if item2 = true ∧ item1 = "1" then some true
    else if item2 = false ∧ item1 = "0" then some true
    else none
  | _, _ => none

def fuzzyCompare (useFuzzyCompare : Bool) (compareVersion : ℚ) (item1 item2 : Value) : Bool :=
  if !useFuzzyCompare then c.isEqual item1 item2
  else
    (c.sameTypes item1 item2 <|> nullsAndZeros compareVersion item1 item2 <|>
      falsyValues item1 item2 <|> c.numberAndString item1 item2 <|>
      c.objectAndString item1 item2 <|> c.booleanAndString item1 item2 <|>
      booleanAndNumber item1 item2 <|> booleanAndDigit item1 item2).getD (c.isEqual item1 item2)

/-! ### Either order of the values -/

/-- What lodash says of `isEqual`. -/
def EqualityLaws : Prop := Equivalence fun item1 item2 => c.isEqual item1 item2 = true

section Symmetry
variable {c}

theorem EqualityLaws.comm (h : c.EqualityLaws) (item1 item2 : Value) :
    c.isEqual item1 item2 = c.isEqual item2 item1 :=
  Bool.eq_iff_iff.mpr ⟨fun h' => h.symm h', fun h' => h.symm h'⟩

theorem sameTypes_comm (h : c.EqualityLaws) (item1 item2 : Value) :
    c.sameTypes item1 item2 = c.sameTypes item2 item1 := by
  simp only [sameTypes, h.comm item1 item2, Bool.and_comm (!item1.isNull),
    eq_comm (a := item1.typeof)]

theorem nullsAndZeros_comm (compareVersion : ℚ) (item1 item2 : Value) :
    nullsAndZeros compareVersion item1 item2 = nullsAndZeros compareVersion item2 item1 := by
  cases item1 <;> cases item2 <;> rfl

theorem falsyValues_comm (item1 item2 : Value) :
    falsyValues item1 item2 = falsyValues item2 item1 := by
  simp only [falsyValues]
  cases isFalsy item1 <;> cases isFalsy item2 <;> simp

theorem numberAndString_comm (item1 item2 : Value) :
    c.numberAndString item1 item2 = c.numberAndString item2 item1 := by
  cases item1 <;> cases item2 <;> simp [numberAndString, eq_comm]

theorem objectAndString_comm (item1 item2 : Value) :
    c.objectAndString item1 item2 = c.objectAndString item2 item1 := by
  cases item1 <;> cases item2 <;> rfl

theorem booleanAndString_comm (item1 item2 : Value) :
    c.booleanAndString item1 item2 = c.booleanAndString item2 item1 := by
  cases item1 <;> cases item2 <;> rfl

theorem booleanAndNumber_comm (item1 item2 : Value) :
    booleanAndNumber item1 item2 = booleanAndNumber item2 item1 := by
  cases item1 <;> cases item2 <;> rfl

theorem booleanAndDigit_comm (item1 item2 : Value) :
    booleanAndDigit item1 item2 = booleanAndDigit item2 item1 := by
  cases item1 <;> cases item2 <;> rfl

/-- Every case of the chain answers both orders in the same way, so the first that answers does. -/
theorem fuzzyCompare_comm (h : c.EqualityLaws) (useFuzzyCompare : Bool) (compareVersion : ℚ)
    (item1 item2 : Value) :
    c.fuzzyCompare useFuzzyCompare compareVersion item1 item2 =
      c.fuzzyCompare useFuzzyCompare compareVersion item2 item1 := by
  unfold fuzzyCompare
  rw [sameTypes_comm h, nullsAndZeros_comm, falsyValues_comm, numberAndString_comm,
    objectAndString_comm, booleanAndString_comm, booleanAndNumber_comm, booleanAndDigit_comm,
    h.comm item1 item2]

theorem fuzzyCompare_self (h : c.EqualityLaws) (compareVersion : ℚ) (item : Value) :
    c.fuzzyCompare true compareVersion item item = true := by
  cases hnull : item.isNull with
  | true =>
    have hitem : item = .null := by
      cases item with
      | null => rfl
      | _ => cases hnull
    subst hitem
    by_cases hversion : compareVersion ≥ 2
    · simp [fuzzyCompare, sameTypes, nullsAndZeros, hversion, Value.isNull, isNullOrZero]
    · simp [fuzzyCompare, sameTypes, nullsAndZeros, hversion, Value.isNull, falsyValues, isFalsy]
  | false => simp [fuzzyCompare, sameTypes, hnull, h.refl item]

/-- The comparison does not depend on which value comes first, and every value equals itself. -/
theorem fuzzyCompare_comm_self (h : c.EqualityLaws) (compareVersion : ℚ) :
    (∀ item1 item2, c.fuzzyCompare true compareVersion item1 item2 =
      c.fuzzyCompare true compareVersion item2 item1) ∧
    ∀ item, c.fuzzyCompare true compareVersion item item = true :=
  ⟨fuzzyCompare_comm h true compareVersion, fuzzyCompare_self h compareVersion⟩

end Symmetry

section Example

/-- Texts of one digit, and the only texts that parse are those of the empty array and object. -/
def plain : Comparing where
  isEqual item1 item2 := item1 = item2
  jsonParse str := if str = "[]" then some (.array []) else if str = "{}" then some (.object [])
    else none
  toString n := if n = 0 then "0" else "1"
  toLocaleLowerCase str := str.toLower

theorem plain_equalityLaws : plain.EqualityLaws :=
  ⟨fun _ => decide_eq_true rfl, fun h => decide_eq_true (of_decide_eq_true h).symm,
    fun h h' => decide_eq_true ((of_decide_eq_true h).trans (of_decide_eq_true h'))⟩

/-- In version 2 a missing value is equal to an empty text, and that is not equal to zero. -/
theorem plain_comm_self :
    plain.fuzzyCompare true 2 .undefined (.string "") = true ∧
    plain.fuzzyCompare true 2 (.number 0) (.string "") = false ∧
    (∀ item1 item2, plain.fuzzyCompare true 2 item1 item2 =
      plain.fuzzyCompare true 2 item2 item1) ∧
    ∀ item, plain.fuzzyCompare true 2 item item = true :=
  ⟨by decide +kernel, by decide +kernel, fuzzyCompare_comm_self plain_equalityLaws 2⟩

end Example
end Comparing
end N8n.NodesBase
