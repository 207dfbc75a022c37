import N8n.NodeHelpers.CollectLoop

/-!
# Defaults that are dropped and filled in again

What a call without defaults keeps of the parameters, and when a second call with
defaults gives back what it gives for the parameters themselves.
-/

namespace N8n

open OrderedMap (lookupEntry setEntry)
open FoldM

/-- The two ways in which parameters are asked for. -/
def withoutDefaults : ReturnFlags := ⟨false, false⟩

def withDefaults : ReturnFlags := ⟨true, false⟩

section Conditions
variable (context : NodeContext)

/-- The properties in their order, and the values that display rules look at. -/
structure FirstPass (properties : List INodeProperties) (root : Option INodeParameters)
    (parentType : Option ParentType) (values : INodeParameters)
    (ordered : List (INodeProperties × CollectionCall)) (check : INodeParameters) : Prop where
  order : inResolveOrder (collectionCalls context properties) = .ok ordered
  check : displayCheckValues context (collectionCalls context properties) root parentType
    (some values) ordered = .ok check

def keepsSimple (parentType : Option ParentType) : INodeProperties → ParameterValue → Bool
  | .simple _ _ default _, value => isKept parentType default value
  | _, _ => false

def Shown (check : INodeParameters) (root : Option INodeParameters) (property : INodeProperties) :
    Prop :=
  CollectCall.isDisplayed context check root property = .ok true

/-- The value of a simple property is kept, or it is what the default stands for. -/
def SimpleRestored (ordered : List (INodeProperties × CollectionCall)) (check : INodeParameters)
    (root : Option INodeParameters) (parentType : Option ParentType) (values : INodeParameters) :
    INodeProperties → Prop
  | .simple name type default _ => ∀ value, lookupEntry name values = some value →
    (∀ q ∈ ordered, q.1.name = name → Shown context check root q.1 → q.1.isSimple = true) ∧
    ((∃ q ∈ ordered, q.1.name = name ∧ Shown context check root q.1 ∧
        keepsSimple parentType q.1 value = true) ∨
      (parentType ≠ some .collection ∧
        simpleValue type default none = simpleValue type default (some value)))
  | _ => True

mutual

/-- Something is kept of the value of a collection. -/
inductive Keeps : INodeProperties → INodeParameters → ParameterValue → Prop
  | collection {name default displayOptions multipleValues options root value} :
    Keeps (.collection name default displayOptions multipleValues options) root value
  | multiple {name default displayOptions options root value} (hentries : value.entries ≠ []) :
    Keeps (.fixedCollection name default displayOptions (some true) options) root value
  | empty {name default displayOptions options root value} (htruthy : value.truthy = true)
    (hentries : value.entries = []) :
    Keeps (.fixedCollection name default displayOptions (some false) options) root value
  | onlyOne {name default displayOptions options root entries} :
    Keeps (.fixedCollection name default displayOptions (some false) options) root (.obj entries)
  | single {name default displayOptions multipleValues options root value e values item}
    (hmultiple : multipleValues ≠ some true) (he : e ∈ value.entries)
    (hvalues : lookupEntry e.1 options = some values) (hitem : e.2.asParameters = some item)
    (hkeeps : KeepsAny values (some root) (some .fixedCollection) item) :
    Keeps (.fixedCollection name default displayOptions multipleValues options) root value

/-- Something is kept of the parameters. -/
inductive KeepsAny : List INodeProperties → Option INodeParameters → Option ParentType →
    INodeParameters → Prop
  | simple {properties root parentType values ordered check p value}
    (hpass : FirstPass context properties root parentType values ordered check)
    (hp : p ∈ ordered) (hshown : Shown context check root p.1)
    (hvalue : lookupEntry p.1.name values = some value)
    (hkeeps : keepsSimple parentType p.1 value = true) :
    KeepsAny properties root parentType values
  | collection {properties root parentType values ordered check p value}
    (hpass : FirstPass context properties root parentType values ordered check)
    (hp : p ∈ ordered) (hshown : Shown context check root p.1)
    (hvalue : lookupEntry p.1.name values = some value)
    (hkeeps : Keeps p.1 (root.getD check) value) :
    KeepsAny properties root parentType values

end

/-- No property is displayed. -/
def ShowsNothing (properties : List INodeProperties) (root : Option INodeParameters)
    (parentType : Option ParentType) (values : INodeParameters) : Prop :=
  ∀ ordered check, FirstPass context properties root parentType values ordered check →
    ∀ p ∈ ordered, CollectCall.isDisplayed context check root p.1 = .ok false

mutual

/-- The value of a collection comes back. -/
inductive CollectionRestored :
    INodeProperties → INodeParameters → Option ParentType → ParameterValue → Prop
  | values {name default displayOptions options root parentType value} :
    CollectionRestored (.collection name default displayOptions (some true) options) root
      parentType value
  | collection {name default displayOptions multipleValues options root parentType value}
    (hrestored : ParametersRestored options (some root) (some .collection) value.asParameters) :
    CollectionRestored (.collection name default displayOptions multipleValues options) root
      parentType value
  | multiple {name default displayOptions options root parentType entries}
    (hnodup : (entries.map Prod.fst).Nodup)
    (hrestored : ∀ e ∈ entries, ∀ values items item, lookupEntry e.1 options = some values →
      e.2.items = .ok items → item ∈ items →
      ParametersRestored values (some root) (some .fixedCollection) item.asParameters)
    (hempty : entries = [] → parentType ≠ some .collection ∧ default.entries = []) :
    CollectionRestored (.fixedCollection name default displayOptions (some true) options) root
      parentType (.obj entries)
  | single {name default displayOptions multipleValues options root parentType entries}
    (hmultiple : multipleValues ≠ some true) (hnodup : (entries.map Prod.fst).Nodup)
    (hrestored : ∀ e ∈ entries, ∀ values, lookupEntry e.1 options = some values →
      ParametersRestored values (some root) (some .fixedCollection) e.2.asParameters)
    (hkept : ∀ e ∈ entries, ∀ values item, lookupEntry e.1 options = some values →
      e.2.asParameters = some item →
      KeepsAny context values (some root) (some .fixedCollection) item ∨
        ShowsNothing context values (some root) (some .fixedCollection) item)
    (hempty : (∀ e ∈ entries, ∀ values item, lookupEntry e.1 options = some values →
        e.2.asParameters = some item →
        ¬ KeepsAny context values (some root) (some .fixedCollection) item) →
      parentType ≠ some .collection ∧ default.entries = []) :
    CollectionRestored (.fixedCollection name default displayOptions multipleValues options) root
      parentType (.obj entries)
  | onlyDefaults {name default displayOptions options root parentType entries}
    (hrestored : ∀ e ∈ entries, ∀ values, lookupEntry e.1 options = some values →
      ParametersRestored values (some root) (some .fixedCollection) e.2.asParameters)
    (hdefaults : ∀ e ∈ entries, ∀ values item, lookupEntry e.1 options = some values →
      e.2.asParameters = some item →
      ¬ KeepsAny context values (some root) (some .fixedCollection) item) :
    CollectionRestored (.fixedCollection name default displayOptions (some false) options) root
      parentType (.obj entries)

/-- Every value that is not kept is a default that nothing else depends on. -/
inductive ParametersRestored : List INodeProperties → Option INodeParameters →
    Option ParentType → Option INodeParameters → Prop
  | intro {properties root parentType values}
    (hstored : ∀ ordered check,
      FirstPass context properties root parentType values ordered check →
      EveryStored context (displayCheckCall root parentType (some values))
        (duplicateNames properties)
        (SimpleRestored context ordered check root parentType values) ordered ⟨[], []⟩)
    (hsimple : ∀ ordered check,
      FirstPass context properties root parentType values ordered check →
      ∀ p ∈ ordered, Shown context check root p.1 →
        SimpleRestored context ordered check root parentType values p.1)
    (halone : ∀ ordered check,
      FirstPass context properties root parentType values ordered check →
      ∀ p ∈ ordered, ∀ q ∈ ordered, p.1.isSimple = false → Shown context check root p.1 →
        Shown context check root q.1 → q.1.name = p.1.name → q = p)
    (hcollection : ∀ ordered check,
      FirstPass context properties root parentType values ordered check →
      ∀ p ∈ ordered, Shown context check root p.1 → p.1.isSimple = false →
        ∀ value, lookupEntry p.1.name values = some value →
          CollectionRestored p.1 (root.getD check) parentType value) :
    ParametersRestored properties root parentType (some values)

end

end Conditions
end N8n
