import N8n.Foundations.DynamicValues
import N8n.NodeParameters.FromAI

/-!
# Validation of the types of fields

A value is converted to the type of its field, or refused. The conversions that depend on how
numbers and points in time are written, and the parsers, are parameters; a parser gives `none` for
what it cannot parse. The types are those whose values are converted to something simpler.
-/

namespace N8n.TypeValidation
open DynamicValues (Value Number)

structure Conversions where
  numberText : Number → String
  numberOf : String → Number
  dateText : Number → String
  stringify : Value → String
  parse : String → Option Value
  parseJSObject : String → Option Value

inductive FieldType where
  | stringAlphanumeric
  | number
  | boolean
  | object
  | array
  | url
  deriving DecidableEq, Repr

def FieldType.name : FieldType → String
  | .stringAlphanumeric => "string-alphanumeric"
  | .number => "number"
  | .boolean => "boolean"
  | .object => "object"
  | .array => "array"
  | .url => "url"

structure ValidationResult where
  valid : Bool
  newValue : Option Value
  errorMessage : Option String

section Parsing
variable (c : Conversions)

mutual

/-- What `String` gives. An object with a property `toString` of its own, which is no function here,
has no text. -/
def toText : Value → Except String String
  | .undefined => .ok "undefined"
  | .null => .ok "null"
  | .boolean b => .ok (if b then "true" else "false")
  | .number n => .ok (c.numberText n)
  | .string s => .ok s
  | .array _ items => (itemTexts items).map (String.intercalate ",")
  | .object _ properties millis =>
    if "toString" ∈ properties.map Prod.fst then .error "Cannot convert object to primitive value"
    else .ok ((millis.map c.dateText).getD "[object Object]")

/-- The texts that an array joins. -/
def itemTexts : List Value → Except String (List String)
  | [] => .ok []
  | .undefined :: items | .null :: items => do return "" :: (← itemTexts items)
  | item :: items => do return (← toText item) :: (← itemTexts items)

end

/-- What `Number` gives. -/
def toNumber : Value → Except String Number
  | .undefined => .ok .nan
  | .null => .ok (.finite 0)
  | .boolean b => .ok (.finite (if b then 1 else 0))
  | .number n => .ok n
  | .string s => .ok (c.numberOf s)
  | .object _ _ (some millis) => .ok millis
  | value => (toText c value).map c.numberOf

def tryToParseNumber (value : Value) : Except String Number := do
  let number ← toNumber c value
  if number = .nan then throw "Failed to parse value to number" else return number

def tryToParseString : Value → String
  | .null => c.stringify .null
  | .array r items => c.stringify (.array r items)
  | .object r properties millis => c.stringify (.object r properties millis)
  | .undefined => ""
  | .string s => s
  | .boolean b => if b then "true" else "false"
  | .number n => c.numberText n

/-- The match with `/^[a-zA-Z_][a-zA-Z0-9_]*$/`. -/
def isAlphanumericName (text : String) : Bool :=
  match text.toList with
  | [] => false
  | first :: rest => (first.isAlpha || first = '_') && rest.all fun ch => ch.isAlphanum || ch = '_'

def tryToParseAlphanumericString (value : Value) : Except String String :=
  let parsed := tryToParseString c value
  if isAlphanumericName parsed then .ok parsed else .error "Value is not a valid alphanumeric string"

def booleanOf (num : Number) : Except String Bool :=
  if num = .finite 0 then .ok false
  else if num = .finite 1 then .ok true
  else .error "Failed to parse value as boolean"

def tryToParseBoolean : Value → Except String Bool
  | .boolean b => .ok b
  | .string s =>
    if s.toLower ∈ ["true", "false"] then .ok (s.toLower = "true")
    else if FromAI.trim s.toList = [] then .error "Failed to parse value as boolean"
    else booleanOf (c.numberOf s)
  | value => do booleanOf (← toNumber c value)

def replaceQuotes (text : String) : String :=
  String.ofList (text.toList.map fun ch => if ch = '\'' then '"' else ch)

def tryToParseArray (value : Value) : Except String Value :=
  match value with
  | .array r items => .ok (.array r items)
  | value =>
    match toText c value with
    | .error _ => .error "Value is not a valid array"
    | .ok text =>
      match (c.parse text).or (c.parse (replaceQuotes text)) with
      | some (.array r items) => .ok (.array r items)
      | _ => .error "Value is not a valid array"

/-- `jsonParse` with `acceptJSObject`. -/
def jsonParse (text : String) : Option Value := (c.parse text).or (c.parseJSObject text)

def tryToParseObject (value : Value) : Except String Value :=
  match value with
  | .object r properties millis => .ok (.object r properties millis)
  | value =>
    match toText c value with
    | .error _ => .error "Value is not a valid object"
    | .ok text =>
      match jsonParse c text with
      | some .null => .ok .null
      | some (.object r properties millis) => .ok (.object r properties millis)
      | _ => .error "Value is not a valid object"

def hasScheme (text : String) : Bool := "://".toList <:+: text.toList

def startsWithText (start text : List Char) : Bool :=
  start.isPrefixOf text && ((text.drop start.length).head?).any fun ch => !FromAI.isWhitespace ch

/-- The match with `/^(https?|ftp|file):\/\/\S+|www\.\S+/`. -/
def urlPattern (text : String) : Bool :=
  (["http://", "https://", "ftp://", "file://"].any fun scheme =>
    startsWithText scheme.toList text.toList) ||
    text.toList.tails.any (startsWithText "www.".toList)

def withScheme : Value → Value
  | .string s => if hasScheme s then .string s else .string ("http://" ++ s)
  | value => value

def tryToParseUrl (value : Value) : Except String String := do
  let text ← toText c (withScheme value)
  if urlPattern text then return text else throw ("The value \"" ++ text ++ "\" is not a valid url.")

def getValueDescription : Value → String
  | .null => "'null'"
  | .array _ _ => "array"
  | .object _ _ _ => "object"
  | value => "'" ++ ((toText c value).toOption.getD "") ++ "'"

/-- An array counts. -/
def isObject : Value → Bool
  | .array _ _ | .object _ _ _ => true
  | _ => false

def isArray : Value → Bool
  | .array _ _ => true
  | _ => false

def isMissing : Value → Bool
  | .null | .undefined => true
  | _ => false

def resultOf (errorMessage : String) : Except String Value → ValidationResult
  | .ok value => ⟨true, some value, none⟩
  | .error _ => ⟨false, none, some errorMessage⟩

def validateFieldType (fieldName : String) (value : Value) (type : FieldType) (strict : Bool) :
    ValidationResult :=
  if isMissing value then ⟨true, none, none⟩
  else
    let defaultErrorMessage := "'" ++ fieldName ++ "' expects a " ++ type.name ++ " but we got " ++
      getValueDescription c value
    let invalid : ValidationResult := ⟨false, none, some defaultErrorMessage⟩
    match type with
    | .stringAlphanumeric =>
      resultOf "Value is not a valid alphanumeric string, only letters, numbers and underscore allowed"
        ((tryToParseAlphanumericString c value).map Value.string)
    | .number =>
      if strict && value.typeof ≠ "number" then invalid
      else resultOf defaultErrorMessage ((tryToParseNumber c value).map Value.number)
    | .boolean =>
      if strict && value.typeof ≠ "boolean" then invalid
      else resultOf defaultErrorMessage ((tryToParseBoolean c value).map Value.boolean)
    | .object =>
      if strict && !isObject value then invalid
      else resultOf defaultErrorMessage (tryToParseObject c value)
    | .array =>
      if strict && !isArray value then invalid
      else resultOf defaultErrorMessage (tryToParseArray c value)
    | .url => resultOf defaultErrorMessage ((tryToParseUrl c value).map Value.string)

end Parsing

/-! ### Values that stay valid -/

def HasType : FieldType → Value → Prop
  | .stringAlphanumeric, value | .url, value => ∃ s, value = .string s
  | .number, value => ∃ n, n ≠ .nan ∧ value = .number n
  | .boolean, value => ∃ b, value = .boolean b
  | .object, value => ∃ r properties millis, value = .object r properties millis
  | .array, value => ∃ r items, value = .array r items

def StaysValid (c : Conversions) (value : Value) (type : FieldType) (strict : Bool) : Prop :=
  ∀ fieldName newValue, (validateFieldType c fieldName value type strict).valid = true →
    (validateFieldType c fieldName value type strict).newValue = some newValue →
      HasType type newValue ∧ (validateFieldType c fieldName newValue type strict).valid = true ∧
        (validateFieldType c fieldName newValue type strict).newValue = some newValue

/-- A text that `jsonParse` turns into `null`. -/
def DenotesNull (c : Conversions) (value : Value) : Prop :=
  ∃ text, toText c value = .ok text ∧ jsonParse c text = some .null

/-- A text that is taken for an URL although it has no scheme. -/
def LacksScheme (c : Conversions) (value : Value) : Prop :=
  ∃ text, toText c value = .ok text ∧ urlPattern text = true ∧ hasScheme text = false

/-- The two kinds of values that are not converted as they should be. -/
def Converts (c : Conversions) (value : Value) (strict : Bool) : FieldType → Prop
  | .object => isMissing value = false → (∀ r properties millis, value ≠ .object r properties millis) →
      (strict = true → isArray value = true) → ¬ DenotesNull c value
  | .url => isMissing value = false → (∀ s, value ≠ .string s) → ¬ LacksScheme c value
  | _ => True

/-! ### What is accepted -/

section Accepted
variable {c : Conversions} {value w : Value} {type : FieldType} {strict : Bool} {fieldName : String}

/-- The new value of a value that is not missing. -/
def Accepted (c : Conversions) (strict : Bool) (value w : Value) : FieldType → Prop
  | .stringAlphanumeric => ∃ s, tryToParseAlphanumericString c value = .ok s ∧ w = .string s
  | .number => (strict = true → value.typeof = "number") ∧
      ∃ n, tryToParseNumber c value = .ok n ∧ w = .number n
  | .boolean => (strict = true → value.typeof = "boolean") ∧
      ∃ b, tryToParseBoolean c value = .ok b ∧ w = .boolean b
  | .object => (strict = true → isObject value = true) ∧ tryToParseObject c value = .ok w
  | .array => (strict = true → isArray value = true) ∧ tryToParseArray c value = .ok w
  | .url => ∃ s, tryToParseUrl c value = .ok s ∧ w = .string s

theorem newValue_resultOf {message : String} {parsed : Except String Value} :
    (resultOf message parsed).newValue = some w ↔ parsed = .ok w := by
  cases parsed <;> simp [resultOf]

theorem map_eq_ok {α : Type} {f : α → Value} {parsed : Except String α} :
    parsed.map f = .ok w ↔ ∃ a, parsed = .ok a ∧ w = f a := by
  cases parsed <;> simp [Except.map, eq_comm]

theorem newValue_unless {refused : Bool} {invalid result : ValidationResult}
    (hinvalid : invalid.newValue = none) :
    (if refused then invalid else result).newValue = some w ↔
      refused = false ∧ result.newValue = some w := by
  cases refused <;> simp [hinvalid]

theorem newValue_iff :
    (validateFieldType c fieldName value type strict).newValue = some w ↔
      isMissing value = false ∧ Accepted c strict value w type := by
  rw [validateFieldType]
  cases hmissing : isMissing value with
  | true => simp
  | false =>
    simp only [Bool.false_eq_true, if_false, true_and]
    cases type with
    | stringAlphanumeric => simp only [newValue_resultOf, map_eq_ok, Accepted]
    | url => simp only [newValue_resultOf, map_eq_ok, Accepted]
    | number =>
      rw [newValue_unless rfl, newValue_resultOf, map_eq_ok, Accepted]
      cases strict <;> simp
    | boolean =>
      rw [newValue_unless rfl, newValue_resultOf, map_eq_ok, Accepted]
      cases strict <;> simp
    | object =>
      rw [newValue_unless rfl, newValue_resultOf, Accepted]
      cases strict <;> simp
    | array =>
      rw [newValue_unless rfl, newValue_resultOf, Accepted]
      cases strict <;> simp

theorem valid_of_newValue
    (h : (validateFieldType c fieldName value type strict).newValue = some w) :
    (validateFieldType c fieldName value type strict).valid = true := by
  have hresultOf : ∀ {message : String} {parsed : Except String Value},
      (resultOf message parsed).newValue = some w → (resultOf message parsed).valid = true := by
    intro message parsed
    cases parsed <;> simp [resultOf]
  have hunless : ∀ {refused : Bool} {invalid : ValidationResult} {message : String}
      {parsed : Except String Value}, invalid.newValue = none →
      (if refused then invalid else resultOf message parsed).newValue = some w →
        (if refused then invalid else resultOf message parsed).valid = true := by
    intro refused invalid message parsed hinvalid hnew
    cases refused with
    | false => exact hresultOf hnew
    | true => simp [hinvalid] at hnew
  rw [validateFieldType] at h ⊢
  split at h
  · cases h
  · next hmissing =>
    rw [if_neg hmissing]
    cases type with
    | stringAlphanumeric => exact hresultOf h
    | url => exact hresultOf h
    | number => exact hunless rfl h
    | boolean => exact hunless rfl h
    | object => exact hunless rfl h
    | array => exact hunless rfl h

theorem staysValid_iff_accepted :
    StaysValid c value type strict ↔ ∀ w, isMissing value = false → Accepted c strict value w type →
      HasType type w ∧ isMissing w = false ∧ Accepted c strict w w type := by
  constructor
  · intro h w hmissing haccepted
    have hnew : (validateFieldType c "" value type strict).newValue = some w :=
      newValue_iff.mpr ⟨hmissing, haccepted⟩
    obtain ⟨htype, -, hagain⟩ := h "" w (valid_of_newValue hnew) hnew
    exact ⟨htype, newValue_iff.mp hagain⟩
  · intro h fieldName w _ hnew
    obtain ⟨hmissing, haccepted⟩ := newValue_iff.mp hnew
    obtain ⟨htype, hagain⟩ := h w hmissing haccepted
    have hnewAgain : (validateFieldType c fieldName w type strict).newValue = some w :=
      newValue_iff.mpr hagain
    exact ⟨htype, valid_of_newValue hnewAgain, hnewAgain⟩

/-! ### The types one by one -/

theorem accepted_stringAlphanumeric (h : Accepted c strict value w .stringAlphanumeric) :
    HasType .stringAlphanumeric w ∧ isMissing w = false ∧
      Accepted c strict w w .stringAlphanumeric := by
  obtain ⟨s, hparsed, rfl⟩ := h
  have hname : isAlphanumericName s = true := by
    rw [tryToParseAlphanumericString] at hparsed
    split at hparsed
    · next hname => rwa [← Except.ok.inj hparsed]
    · cases hparsed
  exact ⟨⟨s, rfl⟩, rfl, s, if_pos hname, rfl⟩

theorem tryToParseNumber_eq_ok {n : Number} :
    tryToParseNumber c value = .ok n ↔ toNumber c value = .ok n ∧ n ≠ .nan := by
  rw [tryToParseNumber]
  cases hnumber : toNumber c value with
  | error message => exact ⟨nofun, nofun⟩
  | ok number =>
    by_cases hnan : number = .nan
    · subst hnan
      refine ⟨nofun, ?_⟩
      rintro ⟨⟨⟩, hne⟩
      exact absurd rfl hne
    · rw [show (Except.ok number >>= fun number : Number =>
          if number = .nan then throw "Failed to parse value to number" else pure number :
            Except String Number) = .ok number from if_neg hnan, Except.ok.injEq]
      exact ⟨fun heq => ⟨heq, heq ▸ hnan⟩, And.left⟩

theorem accepted_number (h : Accepted c strict value w .number) :
    HasType .number w ∧ isMissing w = false ∧ Accepted c strict w w .number := by
  obtain ⟨-, n, hparsed, rfl⟩ := h
  have hnan := (tryToParseNumber_eq_ok.mp hparsed).2
  exact ⟨⟨n, hnan, rfl⟩, rfl, fun _ => rfl, n, tryToParseNumber_eq_ok.mpr ⟨rfl, hnan⟩, rfl⟩

theorem accepted_boolean (h : Accepted c strict value w .boolean) :
    HasType .boolean w ∧ isMissing w = false ∧ Accepted c strict w w .boolean := by
  obtain ⟨-, b, -, rfl⟩ := h
  exact ⟨⟨b, rfl⟩, rfl, fun _ => rfl, b, rfl, rfl⟩

theorem isArray_of_tryToParseArray (h : tryToParseArray c value = .ok w) :
    ∃ r items, w = .array r items := by
  unfold tryToParseArray at h
  split at h
  · exact ⟨_, _, (Except.ok.inj h).symm⟩
  · split at h
    · cases h
    · split at h
      · exact ⟨_, _, (Except.ok.inj h).symm⟩
      · cases h

theorem accepted_array (h : Accepted c strict value w .array) :
    HasType .array w ∧ isMissing w = false ∧ Accepted c strict w w .array := by
  obtain ⟨r, items, rfl⟩ := isArray_of_tryToParseArray h.2
  exact ⟨⟨r, items, rfl⟩, rfl, fun _ => rfl, rfl⟩

theorem tryToParseObject_eq_ok (hvalue : ∀ r properties millis, value ≠ .object r properties millis) :
    tryToParseObject c value = .ok w ↔ ∃ text, toText c value = .ok text ∧
      jsonParse c text = some w ∧ (w = .null ∨ HasType .object w) := by
  unfold tryToParseObject
  split
  · exact absurd rfl (hvalue _ _ _)
  · cases htext : toText c value with
    | error message => simp
    | ok text =>
      cases hparsed : jsonParse c text with
      | none => simp [hparsed]
      | some o =>
        simp only [Except.ok.injEq, exists_eq_left', hparsed, Option.some.injEq]
        cases o with
        | null =>
          exact ⟨fun h => ⟨Except.ok.inj h, .inl (Except.ok.inj h).symm⟩, fun h => congrArg _ h.1⟩
        | object r properties millis =>
          exact ⟨fun h => ⟨Except.ok.inj h, .inr ⟨r, properties, millis, (Except.ok.inj h).symm⟩⟩,
            fun h => congrArg _ h.1⟩
        | _ =>
          refine ⟨nofun, ?_⟩
          rintro ⟨rfl, h | ⟨_, _, _, h⟩⟩ <;> cases h

theorem isObject_iff (hvalue : ∀ r properties millis, value ≠ .object r properties millis) :
    isObject value = true ↔ isArray value = true := by
  cases value with
  | object r properties millis => exact absurd rfl (hvalue r properties millis)
  | _ => simp [isObject, isArray]

theorem accepted_object_iff (strict : Bool) :
    (∀ w, isMissing value = false → Accepted c strict value w .object →
      HasType .object w ∧ isMissing w = false ∧ Accepted c strict w w .object) ↔
      Converts c value strict .object := by
  by_cases hobject : ∃ r properties millis, value = .object r properties millis
  · obtain ⟨r, properties, millis, rfl⟩ := hobject
    refine ⟨fun _ _ hvalue => absurd rfl (hvalue r properties millis), fun _ w _ haccepted => ?_⟩
    obtain rfl : .object r properties millis = w := Except.ok.inj haccepted.2
    exact ⟨⟨r, properties, millis, rfl⟩, rfl, haccepted⟩
  · have hvalue : ∀ r properties millis, value ≠ .object r properties millis :=
      fun r properties millis heq => hobject ⟨r, properties, millis, heq⟩
    constructor
    · rintro h hmissing - hstrict ⟨text, htext, hnull⟩
      obtain ⟨⟨r, properties, millis, heq⟩, -⟩ := h .null hmissing
        ⟨fun hs => (isObject_iff hvalue).mpr (hstrict hs),
          (tryToParseObject_eq_ok hvalue).mpr ⟨text, htext, hnull, .inl rfl⟩⟩
      cases heq
    · rintro h w hmissing ⟨hstrict, hparsed⟩
      obtain ⟨text, htext, hw, rfl | htype⟩ := (tryToParseObject_eq_ok hvalue).mp hparsed
      · exact absurd ⟨text, htext, hw⟩
          (h hmissing hvalue fun hs => (isObject_iff hvalue).mp (hstrict hs))
      · obtain ⟨r, properties, millis, rfl⟩ := htype
        exact ⟨⟨r, properties, millis, rfl⟩, rfl, fun _ => rfl, rfl⟩

theorem tryToParseUrl_eq_ok {s : String} :
    tryToParseUrl c value = .ok s ↔ toText c (withScheme value) = .ok s ∧ urlPattern s = true := by
  rw [tryToParseUrl]
  cases htext : toText c (withScheme value) with
  | error message => exact ⟨nofun, nofun⟩
  | ok text =>
    by_cases hurl : urlPattern text = true
    · rw [show (Except.ok text >>= fun text : String => if urlPattern text then pure text
          else throw ("The value \"" ++ text ++ "\" is not a valid url.") : Except String String) =
            .ok text from if_pos hurl, Except.ok.injEq]
      exact ⟨fun heq => ⟨heq, heq ▸ hurl⟩, And.left⟩
    · rw [show (Except.ok text >>= fun text : String => if urlPattern text then pure text
          else throw ("The value \"" ++ text ++ "\" is not a valid url.") : Except String String) =
            .error _ from if_neg hurl, Except.ok.injEq]
      refine ⟨nofun, ?_⟩
      rintro ⟨rfl, hurl'⟩
      exact absurd hurl' hurl

theorem hasScheme_http (s : String) : hasScheme ("http://" ++ s) = true := by
  rw [hasScheme, decide_eq_true_eq, String.toList_append]
  exact ⟨"http".toList, s.toList, rfl⟩

theorem withScheme_of_hasScheme {s : String} (h : hasScheme s = true) :
    withScheme (.string s) = .string s := by
  rw [withScheme, if_pos h]

theorem accepted_of_hasScheme {s : String} (hscheme : hasScheme s = true)
    (hurl : urlPattern s = true) (strict : Bool) :
    HasType .url (.string s) ∧ isMissing (.string s) = false ∧
      Accepted c strict (.string s) (.string s) .url := by
  refine ⟨⟨s, rfl⟩, rfl, s, tryToParseUrl_eq_ok.mpr ⟨?_, hurl⟩, rfl⟩
  rw [withScheme_of_hasScheme hscheme, toText]

theorem accepted_url_iff (strict : Bool) :
    (∀ w, isMissing value = false → Accepted c strict value w .url →
      HasType .url w ∧ isMissing w = false ∧ Accepted c strict w w .url) ↔
      Converts c value strict .url := by
  by_cases hstring : ∃ s, value = .string s
  · obtain ⟨s, rfl⟩ := hstring
    refine ⟨fun _ _ hvalue => absurd rfl (hvalue s), ?_⟩
    rintro - w - ⟨t, hparsed, rfl⟩
    obtain ⟨htext, hurl⟩ := tryToParseUrl_eq_ok.mp hparsed
    refine accepted_of_hasScheme ?_ hurl strict
    rw [withScheme] at htext
    split at htext
    · next hscheme =>
      rw [toText] at htext
      rwa [← Except.ok.inj htext]
    · rw [toText] at htext
      rw [← Except.ok.inj htext]
      exact hasScheme_http s
  · have hvalue : ∀ s, value ≠ .string s := fun s heq => hstring ⟨s, heq⟩
    have hsame : withScheme value = value := by
      cases value with
      | string s => exact absurd rfl (hvalue s)
      | _ => rfl
    constructor
    · rintro h hmissing - ⟨text, htext, hurl, hscheme⟩
      obtain ⟨-, -, s, hparsed, heq⟩ := h (.string text) hmissing
        ⟨text, tryToParseUrl_eq_ok.mpr ⟨by rw [hsame, htext], hurl⟩, rfl⟩
      obtain rfl := Value.string.inj heq
      obtain ⟨hagain, -⟩ := tryToParseUrl_eq_ok.mp hparsed
      rw [withScheme, if_neg (by simp [hscheme]), toText] at hagain
      have hlength := congrArg (fun s : String => s.toList.length) (Except.ok.inj hagain)
      simp only [String.toList_append, List.length_append] at hlength
      exact absurd hlength (by simp)
    · rintro h w hmissing ⟨s, hparsed, rfl⟩
      obtain ⟨htext, hurl⟩ := tryToParseUrl_eq_ok.mp hparsed
      rw [hsame] at htext
      refine accepted_of_hasScheme ?_ hurl strict
      by_contra hscheme
      exact h hmissing hvalue ⟨s, htext, hurl, by simpa using hscheme⟩

end Accepted

theorem staysValid_iff (c : Conversions) (value : Value) (type : FieldType) (strict : Bool) :
    StaysValid c value type strict ↔ Converts c value strict type := by
  rw [staysValid_iff_accepted]
  cases type with
  | stringAlphanumeric => exact ⟨fun _ => trivial, fun _ w _ h => accepted_stringAlphanumeric h⟩
  | number => exact ⟨fun _ => trivial, fun _ w _ h => accepted_number h⟩
  | boolean => exact ⟨fun _ => trivial, fun _ w _ h => accepted_boolean h⟩
  | array => exact ⟨fun _ => trivial, fun _ w _ h => accepted_array h⟩
  | object => exact accepted_object_iff strict
  | url => exact accepted_url_iff strict

/-! ### A text that denotes `null` -/

section Example

/-- The parsers and conversions on the text `null`. -/
def onNull : Conversions where
  numberText _ := "NaN"
  numberOf _ := .nan
  dateText _ := "Invalid Date"
  stringify _ := "null"
  parse text := if text = "null" then some .null else none
  parseJSObject _ := none

theorem null_not_staysValid : ¬ StaysValid onNull (.string "null") .object false := by
  intro h
  obtain ⟨⟨r, properties, millis, heq⟩, -⟩ := h "json" .null rfl rfl
  cases heq

end Example

end N8n.TypeValidation
