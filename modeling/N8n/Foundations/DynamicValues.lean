import Mathlib.Data.Rat.Defs
import Mathlib.Data.List.Infix
import Mathlib.Data.List.Lex

/-!
# Values of a language without static types

Objects and arrays are equal only to themselves. An operation that its operand does not have raises
a type error.
-/

namespace N8n.DynamicValues

inductive Number where
  | nan
  | negInfinity
  | finite (value : ℚ)
  | infinity
  deriving DecidableEq

/-- An object that is a point in time has its milliseconds. -/
inductive Value where
  | undefined
  | null
  | boolean (value : Bool)
  | number (value : Number)
  | string (value : String)
  | array (ref : ℕ) (items : List Value)
  | object (ref : ℕ) (properties : List (String × Value)) (millis : Option Number)

inductive NativeError where
  | typeError
  | syntaxError
  deriving DecidableEq, Repr

/-- What depends on a locale, on how numbers are written, or on the methods of an object. -/
structure Conversions where
  toText : Value → Except NativeError String
  numberOf : String → Number
  toLocaleLowerCase : String → String
  regExp : String → String → Except NativeError (String → Bool)

namespace Number

def equals (x y : Number) : Bool := x ≠ nan && x = y

/-- The order of two numbers, when both are numbers. -/
def compare : Number → Number → Option Ordering
  | nan, _ | _, nan => none
  | finite x, finite y => some (compareOfLessAndEq x y)
  | negInfinity, negInfinity | infinity, infinity => some .eq
  | negInfinity, _ | _, infinity => some .lt
  | _, negInfinity | infinity, _ => some .gt

def ofNat (n : ℕ) : Number := finite n

end Number

/-- The code units of a text. -/
def units (s : String) : List ℕ :=
  s.toList.flatMap fun c =>
    if c.toNat < 0x10000 then [c.toNat]
    else [0xD800 + (c.toNat - 0x10000) / 0x400, 0xDC00 + (c.toNat - 0x10000) % 0x400]

namespace Value

def typeof : Value → String
  | undefined => "undefined"
  | null | array _ _ | object _ _ _ => "object"
  | boolean _ => "boolean"
  | number _ => "number"
  | string _ => "string"

def isNaN : Value → Bool
  | number .nan => true
  | _ => false

def truthy : Value → Bool
  | undefined | null => false
  | boolean b => b
  | number n => n ≠ .nan && n ≠ .finite 0
  | string s => s ≠ ""
  | array _ _ | object _ _ _ => true

/-- The value itself, or a default when it is missing. -/
def orElse (default : Value) : Value → Value
  | undefined | null => default
  | v => v

def strictEquals : Value → Value → Bool
  | undefined, undefined | null, null => true
  | boolean a, boolean b => a = b
  | number m, number n => m.equals n
  | string s, string t => s = t
  | array r _, array r' _ | object r _ _, object r' _ _ => r = r'
  | _, _ => false

/-- Equality in which the number that is not a number is equal to itself. -/
def sameValue (v w : Value) : Bool := v.strictEquals w || v.isNaN && w.isNaN

def length : Value → Except NativeError Value
  | undefined | null => .error .typeError
  | string s => .ok (number (.ofNat (units s).length))
  | array _ items => .ok (number (.ofNat items.length))
  | object _ properties _ => .ok ((properties.lookup "length").getD undefined)
  | boolean _ | number _ => .ok undefined

def keys : Value → Except NativeError (List String)
  | undefined | null => .error .typeError
  | string s => .ok ((List.range (units s).length).map toString)
  | array _ items => .ok ((List.range items.length).map toString)
  | object _ properties _ => .ok (properties.map Prod.fst)
  | boolean _ | number _ => .ok []

def toMillis : Value → Except NativeError Number
  | object _ _ (some millis) => .ok millis
  | _ => .error .typeError

section Conversions
variable (c : Conversions)

def includes (v w : Value) : Except NativeError Bool :=
  match v with
  | string s => (c.toText w).map fun t => decide (t.toList <:+: s.toList)
  | array _ items => .ok (items.any w.sameValue)
  | _ => .error .typeError

def startsWith (v w : Value) : Except NativeError Bool :=
  match v with
  | string s => (c.toText w).map fun t => decide (t.toList <+: s.toList)
  | _ => .error .typeError

def endsWith (v w : Value) : Except NativeError Bool :=
  match v with
  | string s => (c.toText w).map fun t => decide (t.toList <:+ s.toList)
  | _ => .error .typeError

def toPrimitive : Value → Except NativeError Value
  | object _ _ (some millis) => .ok (number millis)
  | object r properties none => (c.toText (object r properties none)).map string
  | array r items => (c.toText (array r items)).map string
  | v => .ok v

def toNumber : Value → Number
  | null => .finite 0
  | boolean b => .finite (if b then 1 else 0)
  | number n => n
  | string s => c.numberOf s
  | _ => .nan

/-- How the relational operators order two values, when they do. -/
def compare (v w : Value) : Except NativeError (Option Ordering) := do
  match ← toPrimitive c v, ← toPrimitive c w with
  | string s, string t => return some (compareOfLessAndEq (units s) (units t))
  | v, w => return (toNumber c v).compare (toNumber c w)

end Conversions

end Value

end N8n.DynamicValues
