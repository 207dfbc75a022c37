import N8n.Foundations.MemberAccess
import N8n.Foundations.FoldM
import Mathlib.Data.Rat.Defs

/-!
# Expressions are sanitized

Before an expression runs, its accesses to members are looked through. A name that is forbidden
and stands in the code is refused at once. A key that is only computed when the expression runs
is passed to the sanitizer, which is a function of the data.
-/

namespace N8n.ExpressionSandboxing
open MemberAccess (Node Language)
open FoldM

inductive Literal where
  | string (s : String)
  | number (n : ℚ)
  | boolean (b : Bool)
  | null
  | regExp (source : String)
  deriving DecidableEq, Repr

def Literal.string? : Literal → Option String
  | .string s => some s
  | _ => none

structure ExpressionError where
  message : String
  deriving DecidableEq, Repr

def unsafeObjectProperties : List String :=
  ["__proto__", "prototype", "constructor", "getPrototypeOf"]

def isSafeObjectProperty (property : String) : Bool := property ∉ unsafeObjectProperties

def sanitizerName : String := "__sanitize"

def cannotAccess (name : String) : ExpressionError :=
  ⟨"Cannot access \"" ++ name ++ "\" due to security concerns"⟩

/-- The error for a value, of which the set of names holds at most its text. -/
def refused (text : Option String) : Option ExpressionError :=
  text.bind fun name => if isSafeObjectProperty name then none else some (cannotAccess name)

/-- The error for a key, with the text of those values that are strings. -/
def refusedValue {V : Type} (text : V → Option String) (v : V) : Option ExpressionError :=
  refused (text v)

/-- `type.endsWith('Literal')` -/
def isLiteralType (type : String) : Bool := decide ("Literal".toList <:+ type.toList)

/-- The text of a node that is a literal. -/
def valueText : Node Literal → Option String
  | .literal _ value => value.string?
  | _ => none

section Sanitize
variable (dataNode : Node Literal)

/-- `dataNode.__sanitize(property)` -/
def sanitizerCall (property : Node Literal) : Node Literal :=
  .other "CallExpression"
    [.memberExpression dataNode (.identifier sanitizerName) false false, property]

def visitMemberExpression (object property : Node Literal) (computed isOptional : Bool) :
    Except ExpressionError (Node Literal) :=
  let node := .memberExpression object property computed isOptional
  if computed = false then
    match property with
    | .identifier name => if isSafeObjectProperty name then .ok node else .error (cannotAccess name)
    | property =>
      .error ⟨"Unknown property type " ++ property.type ++ " while sanitising expression"⟩
  else if property.type = "StringLiteral" ∨ property.type = "Literal" then
    match refused (valueText property) with
    | none => .ok node
    | some e => .error e
  else if isLiteralType property.type then .ok node
  -- the access that takes its place is not an optional one
  else .ok (.memberExpression object (sanitizerCall dataNode property) true false)

mutual

/-- The parts of a node are visited before the node. -/
def prototypeSanitizer : Node Literal → Except ExpressionError (Node Literal)
  | .identifier name => .ok (.identifier name)
  | .literal type value => .ok (.literal type value)
  | .memberExpression object property computed isOptional => do
    let object ← prototypeSanitizer object
    let property ← prototypeSanitizer property
    visitMemberExpression dataNode object property computed isOptional
  | .other type children => do .ok (.other type (← sanitizeAll children))

def sanitizeAll : List (Node Literal) → Except ExpressionError (List (Node Literal))
  | [] => .ok []
  | node :: nodes => do .ok ((← prototypeSanitizer node) :: (← sanitizeAll nodes))

end

theorem sanitizeAll_eq_mapM (nodes : List (Node Literal)) :
    sanitizeAll dataNode nodes = nodes.mapM (prototypeSanitizer dataNode) := by
  induction nodes with
  | nil => rfl
  | cons node nodes ih =>
    rw [sanitizeAll, List.mapM_cons, ih]
    rfl

end Sanitize

/-! ### What is checked -/

/-- A computed key that is looked at: a literal, or what the sanitizer is called with. A template
is neither, and the call is lost on an optional access. -/
def IsChecked (isOptional : Bool) : Node Literal → Prop
  | .literal type value =>
    type = "StringLiteral" ∨ type = "Literal" ∨ isLiteralType type = true ∧ value.string? = none
  | property => isLiteralType property.type = false ∧ isOptional = false

mutual

def KeysChecked : Node Literal → Prop
  | .memberExpression object property computed isOptional =>
    KeysChecked object ∧ KeysChecked property ∧ (computed = true → IsChecked isOptional property)
  | .other _ children => AllKeysChecked children
  | _ => True

def AllKeysChecked : List (Node Literal) → Prop
  | [] => True
  | node :: nodes => KeysChecked node ∧ AllKeysChecked nodes

end

mutual

/-- No name that is forbidden stands in the code as the name of a member. -/
def NamesSafe : Node Literal → Prop
  | .memberExpression object property computed _ =>
    NamesSafe object ∧ NamesSafe property ∧
      if computed then
        property.type = "StringLiteral" ∨ property.type = "Literal" →
          refused (valueText property) = none
      else ∃ name, property = .identifier name ∧ isSafeObjectProperty name = true
  | .other _ children => AllNamesSafe children
  | _ => True

def AllNamesSafe : List (Node Literal) → Prop
  | [] => True
  | node :: nodes => NamesSafe node ∧ AllNamesSafe nodes

end

theorem allNamesSafe_iff (nodes : List (Node Literal)) :
    AllNamesSafe nodes ↔ ∀ node ∈ nodes, NamesSafe node := by
  induction nodes with
  | nil => simp [AllNamesSafe]
  | cons node nodes ih => rw [AllNamesSafe, ih, List.forall_mem_cons]

theorem allKeysChecked_iff (nodes : List (Node Literal)) :
    AllKeysChecked nodes ↔ ∀ node ∈ nodes, KeysChecked node := by
  induction nodes with
  | nil => simp [AllKeysChecked]
  | cons node nodes ih => rw [AllKeysChecked, ih, List.forall_mem_cons]

section Guarded
variable {dataNode : Node Literal} {M : Type → Type} [Monad M] [LawfulMonad M] {V R : Type}
  {S : Language M Literal V R ExpressionError} {text : V → Option String}

/-- The call of the sanitizer gives the value of its argument, or throws. -/
def CallsSanitizer (S : Language M Literal V R ExpressionError) (text : V → Option String)
    (dataNode : Node Literal) : Prop :=
  ∀ property : M R,
    S.other "CallExpression"
      [S.denote (.memberExpression dataNode (.identifier sanitizerName) false false), property] =
      (do
        let v ← property >>= S.getValue
        match refusedValue text v with
        | none => pure (S.putValue v)
        | some e => S.throw e)

/-- What becomes of an access, once its parts were visited. -/
theorem visitMemberExpression_cases {object property node : Node Literal}
    {computed isOptional : Bool}
    (h : visitMemberExpression dataNode object property computed isOptional = .ok node) :
    node = .memberExpression object property computed isOptional ∧
      ((computed = false ∧ ∃ name, property = .identifier name ∧ isSafeObjectProperty name = true) ∨
        (computed = true ∧ (property.type = "StringLiteral" ∨ property.type = "Literal") ∧
          refused (valueText property) = none) ∨
        (computed = true ∧ ¬ (property.type = "StringLiteral" ∨ property.type = "Literal") ∧
          isLiteralType property.type = true)) ∨
    computed = true ∧ ¬ (property.type = "StringLiteral" ∨ property.type = "Literal") ∧
      isLiteralType property.type = false ∧
      node = .memberExpression object (sanitizerCall dataNode property) true false := by
  simp only [visitMemberExpression] at h
  cases computed with
  | false =>
    cases property with
    | identifier name =>
      simp only [if_true] at h
      split_ifs at h with hsafe
      exact Or.inl ⟨(Except.ok.inj h).symm, Or.inl ⟨rfl, name, rfl, hsafe⟩⟩
    | literal => cases h
    | memberExpression => cases h
    | other => cases h
  | true =>
    simp only [Bool.true_eq_false, if_false] at h
    split_ifs at h with htype hends
    · cases hrefused : refused (valueText property) with
      | none =>
        rw [hrefused] at h
        exact Or.inl ⟨(Except.ok.inj h).symm, Or.inr (Or.inl ⟨rfl, htype, rfl⟩)⟩
      | some e =>
        rw [hrefused] at h
        cases h
    · exact Or.inl ⟨(Except.ok.inj h).symm, Or.inr (Or.inr ⟨rfl, htype, hends⟩)⟩
    · exact Or.inr ⟨rfl, htype, by simpa using hends, (Except.ok.inj h).symm⟩

/-- A node stays a node of its kind. -/
theorem prototypeSanitizer_kind {node node' : Node Literal}
    (h : prototypeSanitizer dataNode node = .ok node') :
    (∀ type value, node' = .literal type value ↔ node = .literal type value) ∧
      (∀ name, node' = .identifier name ↔ node = .identifier name) ∧ node'.type = node.type := by
  cases node with
  | identifier name => rw [← Except.ok.inj h]; simp
  | literal type value => rw [← Except.ok.inj h]; simp
  | other type children =>
    obtain ⟨_, _, h⟩ := bind_eq_ok.mp h
    rw [← Except.ok.inj h]
    exact ⟨by simp, by simp, rfl⟩
  | memberExpression object property computed isOptional =>
    obtain ⟨object', _, h⟩ := bind_eq_ok.mp h
    obtain ⟨property', _, h⟩ := bind_eq_ok.mp h
    rcases visitMemberExpression_cases h with ⟨rfl, _⟩ | ⟨_, _, _, rfl⟩ <;>
      exact ⟨by simp, by simp, rfl⟩

theorem valueText_prototypeSanitizer {node node' : Node Literal}
    (h : prototypeSanitizer dataNode node = .ok node') : valueText node' = valueText node := by
  obtain ⟨hliteral, _⟩ := prototypeSanitizer_kind h
  cases node with
  | literal type value => rw [(hliteral type value).mpr rfl]
  | identifier name => cases node' <;> simp_all [valueText]
  | memberExpression => cases node' <;> simp_all [valueText]
  | other => cases node' <;> simp_all [valueText]

theorem prototypeSanitizer_ok_iff (node : Node Literal) :
    (∃ node', prototypeSanitizer dataNode node = .ok node') ↔ NamesSafe node := by
  induction node using Node.induct with
  | identifier name => simp [prototypeSanitizer, NamesSafe]
  | literal type value => simp [prototypeSanitizer, NamesSafe]
  | other type children ih =>
    rw [NamesSafe, allNamesSafe_iff, prototypeSanitizer, sanitizeAll_eq_mapM]
    constructor
    · rintro ⟨node', h⟩
      obtain ⟨children', hchildren, _⟩ := bind_eq_ok.mp h
      exact fun child hchild => (ih child hchild).mp (mapM_ok_iff.mp ⟨_, hchildren⟩ child hchild)
    · intro h
      obtain ⟨children', hchildren⟩ :=
        mapM_ok_iff.mpr fun child hchild => (ih child hchild).mpr (h child hchild)
      exact ⟨.other type children', by rw [hchildren]; rfl⟩
  | memberExpression object property computed isOptional ihobject ihproperty =>
    rw [NamesSafe, prototypeSanitizer]
    constructor
    · rintro ⟨node', h⟩
      obtain ⟨object', hobject, h⟩ := bind_eq_ok.mp h
      obtain ⟨property', hproperty, h⟩ := bind_eq_ok.mp h
      obtain ⟨_, hidentifier, htype⟩ := prototypeSanitizer_kind hproperty
      refine ⟨ihobject.mp ⟨object', hobject⟩, ihproperty.mp ⟨property', hproperty⟩, ?_⟩
      rw [← htype, ← valueText_prototypeSanitizer hproperty]
      rcases visitMemberExpression_cases h with
        ⟨_, ⟨rfl, name, hname, hsafe⟩ | ⟨rfl, _, hrefused⟩ | ⟨rfl, hnot, _⟩⟩ | ⟨rfl, hnot, _⟩
      · exact ⟨name, (hidentifier name).mp hname, hsafe⟩
      · exact fun _ => hrefused
      · exact fun hstring => absurd hstring hnot
      · exact fun hstring => absurd hstring hnot
    · rintro ⟨hobject, hproperty, hkey⟩
      obtain ⟨object', hobject⟩ := ihobject.mpr hobject
      obtain ⟨property', hproperty⟩ := ihproperty.mpr hproperty
      obtain ⟨_, hidentifier, htype⟩ := prototypeSanitizer_kind hproperty
      rw [← htype, ← valueText_prototypeSanitizer hproperty] at hkey
      rw [hobject, ok_bind, hproperty, ok_bind]
      simp only [visitMemberExpression]
      cases computed with
      | false =>
        obtain ⟨name, hname, hsafe⟩ := hkey
        obtain rfl := (hidentifier name).mpr hname
        exact ⟨.memberExpression object' (.identifier name) false isOptional, by simp [hsafe]⟩
      | true =>
        simp only [Bool.true_eq_false, if_false]
        split_ifs with hstring
        · rw [hkey hstring]
          exact ⟨_, rfl⟩
        · exact ⟨_, rfl⟩
        · exact ⟨_, rfl⟩

/-- The key of a computed access that is left as it is. -/
theorem refused_of_isChecked {type : String} {value : Literal} {isOptional : Bool}
    (hchecked : IsChecked isOptional (.literal type value))
    (hkept : (type = "StringLiteral" ∨ type = "Literal") → refused value.string? = none) :
    refused value.string? = none := by
  rcases hchecked with htype | htype | ⟨_, hstring⟩
  · exact hkept (Or.inl htype)
  · exact hkept (Or.inr htype)
  · rw [hstring]
    rfl

omit [LawfulMonad M] in
theorem denote_sanitizerCall (hsanitizer : CallsSanitizer S text dataNode) (property : Node Literal) :
    S.denote (sanitizerCall dataNode property) = (do
      let v ← S.denote property >>= S.getValue
      match refusedValue text v with
      | none => pure (S.putValue v)
      | some e => S.throw e) := by
  rw [sanitizerCall, Language.denote, Language.denoteAll, Language.denoteAll, Language.denoteAll]
  exact hsanitizer _

/-- The call of the sanitizer in the place of the key is as good as a guard. -/
theorem denote_sanitized (hsanitizer : CallsSanitizer S text dataNode)
    {object object' property property' : Node Literal}
    (hobject : S.denote object' = (S.guarded (refusedValue text)).denote object)
    (hproperty : S.denote property' = (S.guarded (refusedValue text)).denote property) :
    S.denote (.memberExpression object' (sanitizerCall dataNode property') true false) =
      (S.guarded (refusedValue text)).denote (.memberExpression object property true false) := by
  rw [Language.denote, Language.denote, denote_sanitizerCall hsanitizer, hobject, hproperty]
  refine bind_congr fun o => bind_congr fun _ => ?_
  rw [bind_assoc, bind_assoc (x := _ >>= _)]
  refine bind_congr fun k => ?_
  cases hrefused : refusedValue text k with
  | none =>
    have hmember : (S.guarded (refusedValue text)).member o k = S.member o k :=
      Language.guarded_member_of_none hrefused o
    rw [hmember, pure_bind, S.getValue_putValue, pure_bind]
  | some e =>
    have hmember : (S.guarded (refusedValue text)).member o k = S.throw e :=
      Language.guarded_member_of_some hrefused o
    rw [hmember, S.throw_bind]

theorem exists_literal {property : Node Literal} {isOptional : Bool}
    (hchecked : IsChecked isOptional property) (htype : isLiteralType property.type = true) :
    ∃ type value, property = .literal type value := by
  cases property with
  | literal type value => exact ⟨type, value, rfl⟩
  | identifier name => simp [hchecked.1] at htype
  | memberExpression object property computed isOptional => simp [hchecked.1] at htype
  | other type children => simp [hchecked.1] at htype

/-- An access that stays as it is has a key that the guard lets pass. -/
theorem denote_kept {object object' property : Node Literal} {isOptional : Bool}
    (hliteral : ∀ value, text (S.ofLiteral value) = value.string?)
    (hobject : S.denote object' = (S.guarded (refusedValue text)).denote object)
    (hchecked : IsChecked isOptional property) (htype : isLiteralType property.type = true)
    (hkept : (property.type = "StringLiteral" ∨ property.type = "Literal") →
      refused (valueText property) = none) :
    S.denote (.memberExpression object' property true isOptional) =
      (S.guarded (refusedValue text)).denote (.memberExpression object property true isOptional) := by
  obtain ⟨type, value, rfl⟩ := exists_literal hchecked htype
  have hrefused : refusedValue text (S.ofLiteral value) = none := by
    rw [refusedValue, hliteral]
    exact refused_of_isChecked hchecked hkept
  rw [Language.denote, Language.denote, hobject]
  refine bind_congr fun o => bind_congr fun _ => ?_
  have hmember := Language.guarded_member_of_none (S := S) hrefused o
  simp only [Language.denote, pure_bind, S.getValue_putValue]
  change _ = S.getValue (S.putValue (S.ofLiteral value)) >>= fun k =>
    (S.guarded (refusedValue text)).member o k
  rw [S.getValue_putValue, pure_bind, hmember]

theorem denote_prototypeSanitizer (hsanitizer : CallsSanitizer S text dataNode)
    (hliteral : ∀ value, text (S.ofLiteral value) = value.string?)
    (hname : ∀ name, text (S.ofName name) = some name) (node : Node Literal) :
    ∀ node', KeysChecked node → prototypeSanitizer dataNode node = .ok node' →
      S.denote node' = (S.guarded (refusedValue text)).denote node := by
  induction node using Node.induct with
  | identifier name =>
    intro node' _ h
    rw [← Except.ok.inj h]
    rfl
  | literal type value =>
    intro node' _ h
    rw [← Except.ok.inj h]
    rfl
  | other type children ih =>
    intro node' hkeys h
    obtain ⟨children', hchildren, h⟩ := bind_eq_ok.mp h
    obtain rfl := Except.ok.inj h
    rw [sanitizeAll_eq_mapM] at hchildren
    rw [Language.denote, Language.denote, Language.denoteAll_eq_map, Language.denoteAll_eq_map,
      map_of_mapM hchildren fun child hchild child' hsanitized =>
        ih child hchild child' ((allKeysChecked_iff children).mp hkeys child hchild) hsanitized]
    rfl
  | memberExpression object property computed isOptional ihobject ihproperty =>
    intro node' hkeys h
    obtain ⟨hobject, hproperty, hchecked⟩ := hkeys
    obtain ⟨object', hobject', h⟩ := bind_eq_ok.mp h
    obtain ⟨property', hproperty', h⟩ := bind_eq_ok.mp h
    have hobject := ihobject object' hobject hobject'
    have hproperty := ihproperty property' hproperty hproperty'
    obtain ⟨hkind, hidentifier, htype⟩ := prototypeSanitizer_kind hproperty'
    cases computed with
    | false =>
      obtain ⟨rfl, ⟨_, name, rfl, hsafe⟩ | ⟨hfalse, _⟩ | ⟨hfalse, _⟩⟩ | ⟨hfalse, _⟩ :=
        visitMemberExpression_cases h
      · obtain rfl := (hidentifier name).mp rfl
        have hrefused : refusedValue text (S.ofName name) = none := by
          rw [refusedValue, hname, refused, Option.bind_some, if_pos hsafe]
        rw [Language.denote, Language.denote, hobject]
        exact bind_congr fun o => bind_congr fun _ =>
          (Language.guarded_member_of_none hrefused o).symm
      · cases hfalse
      · cases hfalse
      · cases hfalse
    | true =>
      have hchecked := hchecked rfl
      obtain ⟨rfl, ⟨hfalse, _⟩ | ⟨_, hstring, hrefused⟩ | ⟨_, hnot, hends⟩⟩ | ⟨_, hnot, hends, rfl⟩ :=
        visitMemberExpression_cases h
      · cases hfalse
      · have hends : isLiteralType property.type = true := by
          rw [← htype]
          rcases hstring with hstring | hstring <;> rw [hstring] <;> decide
        obtain ⟨type, value, rfl⟩ := exists_literal hchecked hends
        obtain rfl := (hkind type value).mpr rfl
        exact denote_kept hliteral hobject hchecked hends fun _ => hrefused
      · rw [htype] at hends hnot
        obtain ⟨type, value, rfl⟩ := exists_literal hchecked hends
        obtain rfl := (hkind type value).mpr rfl
        exact denote_kept hliteral hobject hchecked hends fun hstring => absurd hstring hnot
      · rw [htype] at hends
        have hoptional : isOptional = false := by
          cases property with
          | literal type value =>
            rcases hchecked with rfl | rfl | ⟨hliteral, _⟩
            · exact absurd (Or.inl htype) hnot
            · exact absurd (Or.inr htype) hnot
            · exact absurd (hliteral.symm.trans hends) (by simp)
          | identifier => exact hchecked.2
          | memberExpression => exact hchecked.2
          | other => exact hchecked.2
        subst hoptional
        exact denote_sanitized hsanitizer hobject hproperty

/-- A template is a literal by its type, so its text is not looked at. -/
example :
    let access : Node Literal :=
      .memberExpression (.identifier "$json") (.other "TemplateLiteral" []) true false
    prototypeSanitizer dataNode access = .ok access :=
  rfl

end Guarded

/-! ### A language with one object -/

section Sample

inductive SampleValue where
  | text (s : String)
  | data
  | sanitizer
  | object
  | undefined
  deriving DecidableEq

def SampleValue.text? : SampleValue → Option String
  | .text s => some s
  | _ => none

/-- The variable `key` holds a forbidden name. -/
def sampleIdentifier (name : String) : SampleValue :=
  if name = "this" then .data else if name = "key" then .text "constructor" else .object

def sampleMember (o key : SampleValue) : SampleValue :=
  if o = .data ∧ key = .text sanitizerName then .sanitizer else key

def sampleCall (callee argument : SampleValue) : Except ExpressionError SampleValue :=
  if callee = .sanitizer then
    match refusedValue SampleValue.text? argument with
    | none => .ok argument
    | some e => .error e
  else .ok .undefined

def sampleLanguage :
    Language (Except ExpressionError) Literal SampleValue SampleValue ExpressionError where
  identifier name := .ok (sampleIdentifier name)
  ofLiteral value := (value.string?.map SampleValue.text).getD .undefined
  ofName name := .text name
  putValue v := v
  getValue v := .ok v
  skip _ _ := .ok ()
  member o key := .ok (sampleMember o key)
  other type parts :=
    match parts with
    | [callee, argument] =>
      if type = "CallExpression" then do sampleCall (← callee) (← argument) else .ok .undefined
    | _ => .ok .undefined
  throw e := .error e
  getValue_putValue _ := rfl
  throw_bind _ _ := rfl

theorem sampleLanguage_callsSanitizer :
    CallsSanitizer sampleLanguage SampleValue.text? (.identifier "this") := by
  intro property
  cases property with
  | error e => rfl
  | ok v => rfl

/-- `$json[key]` -/
def computedAccess : Node Literal :=
  .memberExpression (.identifier "$json") (.identifier "key") true false

end Sample
end N8n.ExpressionSandboxing
