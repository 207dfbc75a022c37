import Mathlib.Data.Rat.Defs
import N8n.Foundations.OrderedMap

/-!
# JSON values

The values that programs exchange as JSON, with `undefined` for what is missing and the functions
that every object inherits. Two arrays or objects with the same content are the same value here.
-/

namespace N8n.JsonValues

inductive Value where
  | undefined
  | null
  | boolean (value : Bool)
  | number (value : ℚ)
  | string (value : String)
  | array (items : List Value)
  | object (properties : List (String × Value))
  | builtin (name : String)

namespace Value

def typeof : Value → String
  | undefined => "undefined"
  | null | array _ | object _ => "object"
  | boolean _ => "boolean"
  | number _ => "number"
  | string _ => "string"
  | builtin _ => "function"

def isNull : Value → Bool
  | null => true
  | _ => false

def isUndefined : Value → Bool
  | undefined => true
  | _ => false

def truthy : Value → Bool
  | undefined | null => false
  | boolean b => b
  | number n => n ≠ 0
  | string s => s ≠ ""
  | array _ | object _ | builtin _ => true

mutual

/-- Equality of content, the properties of objects in their order. -/
def same : Value → Value → Bool
  | undefined, undefined | null, null => true
  | boolean a, boolean b => a = b
  | number m, number n => m = n
  | string s, string t => s = t
  | array v, array w => sameItems v w
  | object v, object w => sameProperties v w
  | builtin s, builtin t => s = t
  | _, _ => false

def sameItems : List Value → List Value → Bool
  | [], [] => true
  | v :: vs, w :: ws => v.same w && sameItems vs ws
  | _, _ => false

def sameProperties : List (String × Value) → List (String × Value) → Bool
  | [], [] => true
  | (s, v) :: vs, (t, w) :: ws => s = t && v.same w && sameProperties vs ws
  | _, _ => false

end

mutual

theorem same_iff : ∀ v w : Value, v.same w = true ↔ v = w
  | array vs, w => by
    cases w with
    | array ws => simpa [same] using sameItems_iff vs ws
    | _ => simp [same]
  | object vs, w => by
    cases w with
    | object ws => simpa [same] using sameProperties_iff vs ws
    | _ => simp [same]
  | undefined, w | null, w | boolean _, w | number _, w | string _, w | builtin _, w => by
    cases w <;> simp [same]

theorem sameItems_iff : ∀ vs ws : List Value, sameItems vs ws = true ↔ vs = ws
  | [], ws => by cases ws <;> simp [sameItems]
  | v :: vs, ws => by
    cases ws with
    | nil => simp [sameItems]
    | cons w ws => simp [sameItems, same_iff v w, sameItems_iff vs ws]

theorem sameProperties_iff : ∀ vs ws : List (String × Value),
    sameProperties vs ws = true ↔ vs = ws
  | [], ws => by cases ws <;> simp [sameProperties]
  | (s, v) :: vs, ws => by
    cases ws with
    | nil => simp [sameProperties]
    | cons w ws => simp [sameProperties, same_iff v w.2, sameProperties_iff vs ws, Prod.ext_iff]

end

instance : DecidableEq Value := fun v w => decidable_of_iff _ (same_iff v w)

end Value

/-- An object of which only the own properties are known. -/
abbrev Properties := OrderedMap String Value

/-- A property of an object, or what objects inherit under its name. -/
def Properties.get (inherited : String → Value) (properties : Properties) (key : String) : Value :=
  (properties.get? key).getD (inherited key)

theorem Properties.get_of_get? {inherited : String → Value} {properties : Properties} {key : String}
    {value : Value} (h : properties.get? key = some value) :
    properties.get inherited key = value := by
  rw [Properties.get, h, Option.getD_some]

theorem Properties.get_of_not_mem {inherited : String → Value} {properties : Properties}
    {key : String} (h : key ∉ properties.keys) : properties.get inherited key = inherited key := by
  rw [Properties.get, OrderedMap.get?_eq_none.mpr h, Option.getD_none]

end N8n.JsonValues
