import N8n.Foundations.JsonValues

/-!
# Relaxed JSON

What is not JSON is read as a JavaScript object literal: a parser builds the syntax tree, which is
turned into a value. `text` is what `String` gives for a value, and the parsers of JSON and of
JavaScript are parameters. The properties of an object stand in the order of the text.
-/

namespace N8n.RelaxedJson
open JsonValues (Value)

mutual

/-- `missing` is the `null` of an element that is left out. -/
inductive SyntaxNode where
  | objectExpression (properties : List ObjectMember)
  | arrayExpression (elements : List SyntaxNode)
  | identifier (name : String)
  | literal (value : Value)
  | unaryExpression (operator : String) (argument : SyntaxNode)
  | missing
  | other (type : String)

inductive ObjectMember where
  | property (key value : SyntaxNode)
  | spreadElement (argument : SyntaxNode)

end

inductive Statement where
  | expressionStatement (expression : SyntaxNode)
  | other (type : String)

def toPropertyKey (text : Value → String) : Value → String
  | .string s => s
  | value => text value

/-- A later entry with the same key takes the place of the earlier one. -/
def fromEntries (entries : List (String × Value)) : List (String × Value) :=
  entries.foldl (fun properties e => OrderedMap.setEntry e.1 e.2 properties) []

section ToValue
variable (text : Value → String)

mutual

def syntaxNodeToValue : SyntaxNode → Value
  | .objectExpression properties => .object (fromEntries (entriesOf properties))
  | .identifier name => .string name
  | .literal value => value
  | .arrayExpression elements => .array (valuesOf elements)
  | .unaryExpression _ _ | .missing | .other _ => .undefined

def valuesOf : List SyntaxNode → List Value
  | [] => []
  | element :: elements => syntaxNodeToValue element :: valuesOf elements

def entriesOf : List ObjectMember → List (String × Value)
  | [] => []
  | .property key value :: properties =>
      (toPropertyKey text (syntaxNodeToValue key), syntaxNodeToValue value) :: entriesOf properties
  | .spreadElement _ :: properties => entriesOf properties

end

def objectExpression? : Statement → Option SyntaxNode
  | .expressionStatement (.objectExpression properties) => some (.objectExpression properties)
  | _ => none

/-- `none` when the parser raises. -/
def parseJSObject (esprimaParse : String → Option (List Statement)) (objectAsString : String) :
    Option Value :=
  (esprimaParse ("(" ++ objectAsString ++ ")")).map fun body =>
    ((body.findSome? objectExpression?).map (syntaxNodeToValue text)).getD .undefined

end ToValue

/-- A fallback that is a function is given by its result. -/
structure JSONParseOptions where
  acceptJSObject : Bool
  fallbackValue : Option Value
  errorMessage : Option String

inductive JSONParseError where
  | syntaxError
  | applicationError (message : String)
  deriving DecidableEq, Repr

def jsonParse (text : Value → String) (parse : String → Option Value)
    (esprimaParse : String → Option (List Statement)) (jsonString : String)
    (options : JSONParseOptions) : Except JSONParseError Value :=
  match parse jsonString with
  | some value => .ok value
  | none =>
    match if options.acceptJSObject then parseJSObject text esprimaParse jsonString else none with
    | some value => .ok value
    | none =>
      match options.fallbackValue with
      | some value => .ok value
      | none =>
        match options.errorMessage.filter (· ≠ "") with
        | some message => .error (.applicationError message)
        | none => .error .syntaxError

/-! ### The tree of a value -/

section Tree
variable (text : Value → String)

inductive IsKey : SyntaxNode → String → Prop
  | identifier (name : String) : IsKey (.identifier name) name
  | string (name : String) : IsKey (.literal (.string name)) name
  | number (n : ℚ) : IsKey (.literal (.number n)) (text (.number n))

mutual

/-- The standard tree of a JSON value, whose numbers are literals, or literals with a minus. -/
inductive IsTree : SyntaxNode → Value → Prop
  | null : IsTree (.literal .null) .null
  | boolean (b : Bool) : IsTree (.literal (.boolean b)) (.boolean b)
  | string (s : String) : IsTree (.literal (.string s)) (.string s)
  | number (n : ℚ) : 0 ≤ n → IsTree (.literal (.number n)) (.number n)
  | minus (n : ℚ) : 0 ≤ n → IsTree (.unaryExpression "-" (.literal (.number n))) (.number (-n))
  | array {elements : List SyntaxNode} {values : List Value} :
      AreElements elements values → IsTree (.arrayExpression elements) (.array values)
  | object {members : List ObjectMember} {properties : List (String × Value)} :
      AreMembers members properties → (properties.map Prod.fst).Nodup →
        IsTree (.objectExpression members) (.object properties)

inductive AreElements : List SyntaxNode → List Value → Prop
  | nil : AreElements [] []
  | cons {element : SyntaxNode} {elements : List SyntaxNode} {value : Value} {values : List Value} :
      IsTree element value → AreElements elements values →
        AreElements (element :: elements) (value :: values)

inductive AreMembers : List ObjectMember → List (String × Value) → Prop
  | nil : AreMembers [] []
  | cons {key node : SyntaxNode} {members : List ObjectMember} {name : String} {value : Value}
      {properties : List (String × Value)} :
      IsKey text key name → IsTree node value → AreMembers members properties →
        AreMembers (.property key node :: members) ((name, value) :: properties)

end

end Tree

mutual

/-- A number is written with a minus, at any depth. -/
def SyntaxNode.hasMinus : SyntaxNode → Bool
  | .objectExpression properties => membersHaveMinus properties
  | .arrayExpression elements => elementsHaveMinus elements
  | .unaryExpression operator _ => operator = "-"
  | .identifier _ | .literal _ | .missing | .other _ => false

def elementsHaveMinus : List SyntaxNode → Bool
  | [] => false
  | element :: elements => element.hasMinus || elementsHaveMinus elements

def membersHaveMinus : List ObjectMember → Bool
  | [] => false
  | .property _ value :: members => value.hasMinus || membersHaveMinus members
  | .spreadElement _ :: members => membersHaveMinus members

end

/-! ### What the tree is turned into -/

section Kept
variable {text : Value → String}

theorem toPropertyKey_of_isKey {key : SyntaxNode} {name : String} (h : IsKey text key name) :
    toPropertyKey text (syntaxNodeToValue text key) = name := by
  cases h <;> simp [syntaxNodeToValue, toPropertyKey]

theorem foldl_setEntry {entries properties : List (String × Value)}
    (h : ((properties ++ entries).map Prod.fst).Nodup) :
    entries.foldl (fun properties e => OrderedMap.setEntry e.1 e.2 properties) properties =
      properties ++ entries := by
  induction entries generalizing properties with
  | nil => simp
  | cons e entries ih =>
    have hnew : e.1 ∉ properties.map Prod.fst := by
      rw [List.map_append, List.nodup_append] at h
      exact fun hmem => h.2.2 e.1 hmem e.1 (by simp) rfl
    rw [List.foldl_cons, OrderedMap.setEntry_of_notMem hnew, ih (by simpa using h),
      List.append_assoc, List.singleton_append]

theorem fromEntries_eq {entries : List (String × Value)} (h : (entries.map Prod.fst).Nodup) :
    fromEntries entries = entries :=
  foldl_setEntry h

theorem AreMembers.keys {members : List ObjectMember} {properties : List (String × Value)}
    (h : AreMembers text members properties) :
    (entriesOf text members).map Prod.fst = properties.map Prod.fst := by
  induction properties generalizing members with
  | nil => cases h; simp [entriesOf]
  | cons e properties ih =>
    cases h with
    | cons hkey htree hrest => simp [entriesOf, toPropertyKey_of_isKey hkey, ih hrest]

mutual

theorem IsTree.toValue_iff : ∀ {node : SyntaxNode} {value : Value}, IsTree text node value →
    (syntaxNodeToValue text node = value ↔ node.hasMinus = false)
  | _, _, .null => by simp [syntaxNodeToValue, SyntaxNode.hasMinus]
  | _, _, .boolean b => by simp [syntaxNodeToValue, SyntaxNode.hasMinus]
  | _, _, .string s => by simp [syntaxNodeToValue, SyntaxNode.hasMinus]
  | _, _, .number n _ => by simp [syntaxNodeToValue, SyntaxNode.hasMinus]
  | _, _, .minus n _ => by simp [syntaxNodeToValue, SyntaxNode.hasMinus]
  | _, _, .array helements => by
    rw [syntaxNodeToValue, Value.array.injEq, SyntaxNode.hasMinus]
    exact helements.toValue_iff
  | _, _, .object hmembers hnodup => by
    rw [syntaxNodeToValue, Value.object.injEq, SyntaxNode.hasMinus,
      fromEntries_eq (hmembers.keys.symm ▸ hnodup)]
    exact hmembers.toValue_iff

theorem AreElements.toValue_iff : ∀ {elements : List SyntaxNode} {values : List Value},
    AreElements text elements values →
      (valuesOf text elements = values ↔ elementsHaveMinus elements = false)
  | _, _, .nil => by simp [valuesOf, elementsHaveMinus]
  | _, _, .cons helement helements => by
    rw [valuesOf, List.cons.injEq, elementsHaveMinus, Bool.or_eq_false_iff, helement.toValue_iff,
      helements.toValue_iff]

theorem AreMembers.toValue_iff : ∀ {members : List ObjectMember}
    {properties : List (String × Value)}, AreMembers text members properties →
      (entriesOf text members = properties ↔ membersHaveMinus members = false)
  | _, _, .nil => by simp [entriesOf, membersHaveMinus]
  | _, _, .cons hkey hnode hmembers => by
    rw [entriesOf, List.cons.injEq, Prod.mk.injEq, membersHaveMinus, Bool.or_eq_false_iff,
      hnode.toValue_iff, hmembers.toValue_iff]
    simp [toPropertyKey_of_isKey hkey]

end

/-- Relaxed JSON keeps a value exactly if no number of it is written with a minus. -/
theorem jsonParse_eq_iff (text : Value → String) (parse : String → Option Value)
    (esprimaParse : String → Option (List Statement)) {node : SyntaxNode}
    {properties : List (String × Value)} (htree : IsTree text node (.object properties))
    {jsonString : String} (hjson : parse jsonString = none)
    (hesprima : esprimaParse ("(" ++ jsonString ++ ")") = some [.expressionStatement node])
    (options : JSONParseOptions) (haccept : options.acceptJSObject = true) :
    jsonParse text parse esprimaParse jsonString options = .ok (.object properties) ↔
      node.hasMinus = false := by
  have hparsed : jsonParse text parse esprimaParse jsonString options =
      .ok (syntaxNodeToValue text node) := by
    cases htree with
    | object hmembers hnodup =>
      simp [jsonParse, hjson, haccept, parseJSObject, hesprima, objectExpression?]
  rw [hparsed, Except.ok.injEq]
  exact htree.toValue_iff

end Kept

/-! ### A number with a minus -/

section Example

/-- The text of the example is not JSON. -/
def noJson (_ : String) : Option Value := none

def textOf : Value → String
  | .number n => toString n
  | _ => ""

/-- The parser for a text that is an object with the number as the property `a`. -/
def esprimaOf (objectAsString : String) (number : SyntaxNode) (code : String) :
    Option (List Statement) :=
  if code = "(" ++ objectAsString ++ ")" then
    some [.expressionStatement (.objectExpression [.property (.identifier "a") number])]
  else none

def relaxed : JSONParseOptions := ⟨true, none, none⟩

theorem isTree_member {number : SyntaxNode} {n : ℚ} (h : IsTree textOf number (.number n)) :
    IsTree textOf (.objectExpression [.property (.identifier "a") number])
      (.object [("a", .number n)]) :=
  .object (.cons (.identifier "a") h .nil) (List.nodup_singleton _)

def minusOne : SyntaxNode := .unaryExpression "-" (.literal (.number 1))

theorem negative_not_kept :
    IsTree textOf (.objectExpression [.property (.identifier "a") minusOne])
        (.object [("a", .number (-1))]) ∧
      jsonParse textOf noJson (esprimaOf "{a: -1}" minusOne) "{a: -1}" relaxed ≠
        .ok (.object [("a", .number (-1))]) := by
  refine ⟨isTree_member (.minus 1 (by decide)), ?_⟩
  have hparsed : jsonParse textOf noJson (esprimaOf "{a: -1}" minusOne) "{a: -1}" relaxed =
      .ok (.object [("a", .undefined)]) := by
    rfl
  rw [hparsed]
  simp

theorem positive_kept :
    jsonParse textOf noJson (esprimaOf "{a: 1}" (.literal (.number 1))) "{a: 1}" relaxed =
      .ok (.object [("a", .number 1)]) :=
  (jsonParse_eq_iff textOf noJson (esprimaOf "{a: 1}" (.literal (.number 1)))
    (isTree_member (.number 1 (by decide))) rfl rfl relaxed rfl).mpr (by decide)

end Example

end N8n.RelaxedJson
