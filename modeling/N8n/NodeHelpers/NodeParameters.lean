import N8n.NodeHelpers.ResolveOrder

/-!
# The parameters of a node

`getNodeParameters` goes through a list of properties and collects the values of those
that are displayed, with the defaults filled in or without the values that are defaults.
What is displayed is decided on the values of the simple properties with their defaults,
which a first pass over the same properties collects. Collections hold lists of
properties of their own. A parameter that should be an object and is something else has
none of the names that are asked for.
-/

namespace N8n

inductive SimpleType where
  | boolean
  | number
  | options
  | resourceLocator
  | other (name : String)
  deriving DecidableEq, Repr

inductive INodeProperties where
  | simple (name : String) (type : SimpleType) (default : ParameterValue)
      (displayOptions : Option IDisplayOptions)
  | collection (name : String) (default : ParameterValue)
      (displayOptions : Option IDisplayOptions) (multipleValues : Option Bool)
      (options : List INodeProperties)
  | fixedCollection (name : String) (default : ParameterValue)
      (displayOptions : Option IDisplayOptions) (multipleValues : Option Bool)
      (options : List (String × List INodeProperties))

inductive ParentType where
  | collection
  | fixedCollection
  deriving DecidableEq, Repr

structure ReturnFlags where
  returnDefaults : Bool
  returnNoneDisplayed : Bool
  deriving DecidableEq, Repr

namespace INodeProperties

def name : INodeProperties → String
  | .simple name .. | .collection name .. | .fixedCollection name .. => name

def displayOptions : INodeProperties → Option IDisplayOptions
  | .simple _ _ _ displayOptions | .collection _ _ displayOptions .. |
    .fixedCollection _ _ displayOptions .. => displayOptions

def isSimple : INodeProperties → Bool
  | .simple .. => true
  | _ => false

end INodeProperties

section Induction
variable {P : INodeProperties → Prop}

mutual

theorem INodeProperties.induct
    (simple : ∀ name type default displayOptions, P (.simple name type default displayOptions))
    (collection : ∀ name default displayOptions multipleValues options, (∀ p ∈ options, P p) →
      P (.collection name default displayOptions multipleValues options))
    (fixedCollection : ∀ name default displayOptions multipleValues options,
      (∀ o ∈ options, ∀ p ∈ o.2, P p) →
      P (.fixedCollection name default displayOptions multipleValues options)) :
    ∀ property, P property
  | .simple .. => simple ..
  | .collection _ _ _ _ options =>
    collection _ _ _ _ _ (INodeProperties.inductAll simple collection fixedCollection options)
  | .fixedCollection _ _ _ _ options =>
    fixedCollection _ _ _ _ _
      (INodeProperties.inductOptions simple collection fixedCollection options)

theorem INodeProperties.inductAll
    (simple : ∀ name type default displayOptions, P (.simple name type default displayOptions))
    (collection : ∀ name default displayOptions multipleValues options, (∀ p ∈ options, P p) →
      P (.collection name default displayOptions multipleValues options))
    (fixedCollection : ∀ name default displayOptions multipleValues options,
      (∀ o ∈ options, ∀ p ∈ o.2, P p) →
      P (.fixedCollection name default displayOptions multipleValues options)) :
    ∀ properties : List INodeProperties, ∀ p ∈ properties, P p
  | [] => fun _ hp => absurd hp List.not_mem_nil
  | property :: properties => List.forall_mem_cons.mpr
    ⟨INodeProperties.induct simple collection fixedCollection property,
      INodeProperties.inductAll simple collection fixedCollection properties⟩

theorem INodeProperties.inductOptions
    (simple : ∀ name type default displayOptions, P (.simple name type default displayOptions))
    (collection : ∀ name default displayOptions multipleValues options, (∀ p ∈ options, P p) →
      P (.collection name default displayOptions multipleValues options))
    (fixedCollection : ∀ name default displayOptions multipleValues options,
      (∀ o ∈ options, ∀ p ∈ o.2, P p) →
      P (.fixedCollection name default displayOptions multipleValues options)) :
    ∀ options : List (String × List INodeProperties), ∀ o ∈ options, ∀ p ∈ o.2, P p
  | [] => fun _ ho => absurd ho List.not_mem_nil
  | (_, values) :: options => List.forall_mem_cons.mpr
    ⟨INodeProperties.inductAll simple collection fixedCollection values,
      INodeProperties.inductOptions simple collection fixedCollection options⟩

end

end Induction

namespace ParameterValue

def asParameters : ParameterValue → Option INodeParameters
  | .obj entries => some entries
  | value => if value.truthy then some [] else none

/-- The keys of the value with what they lead to. -/
def entries : ParameterValue → List (String × ParameterValue)
  | .obj entries => entries
  | .arr items => items.zipIdx.map fun e => (toString e.2, e.1)
  | .str s => s.toList.zipIdx.map fun e => (toString e.2, .str e.1.toString)
  | _ => []

/-- The items of a `for` loop over the value. -/
def items : ParameterValue → Except Failure (List ParameterValue)
  | .arr items => .ok items
  | .str s => .ok (s.toList.map fun c => .str c.toString)
  | _ => .error .typeError

def isObject : ParameterValue → Bool
  | .null | .arr _ | .obj _ => true
  | _ => false

/-- The default of a resource locator, marked as one. -/
def withLocator (default : ParameterValue) : ParameterValue :=
  .obj (default.entries.foldl (fun o e => OrderedMap.setEntry e.1 e.2 o) [("__rl", .bool true)])

end ParameterValue

open ParameterValue
open OrderedMap (lookupEntry setEntry)

/-- `??` -/
def orDefault (value : Option ParameterValue) (default : ParameterValue) : ParameterValue :=
  match value with
  | none | some .null => default
  | some value => value

/-- The value of a simple property when defaults are returned. -/
def simpleValue (type : SimpleType) (default : ParameterValue) (value : Option ParameterValue) :
    ParameterValue :=
  match type with
  | .boolean | .number | .options => value.getD default
  | .resourceLocator =>
    if default.isObject then value.getD default.withLocator else orDefault value default
  | .other _ => orDefault value default

/-- The value of a simple property stays when only other values than defaults are returned. -/
def isKept (parentType : Option ParentType) (default value : ParameterValue) : Bool :=
  value ≠ default || parentType = some .collection

/-- What a collection adds to the parameters. `setOnly` leaves out the values that display rules
look at, and `nodeValues` ends the call. -/
inductive Resolved where
  | unset
  | set (value : ParameterValue)
  | setOnly (value : ParameterValue)
  | nodeValues

/-- A call for the properties of a collection. -/
abbrev PropertiesCall :=
  ReturnFlags → Option INodeParameters → Option ParentType → Option INodeParameters →
    Except Failure INodeParameters

/-- The value of a collection, from the root and from what is there. -/
abbrev CollectionCall :=
  ReturnFlags → INodeParameters → Option ParameterValue → Except Failure Resolved

def collectionValue (default : ParameterValue) (multipleValues : Option Bool)
    (options : PropertiesCall) : CollectionCall := fun flags root value =>
  match value with
  | some value =>
    if multipleValues = some true then .ok (.set value)
    else do .ok (.set (.obj (← options flags (some root) (some .collection) value.asParameters)))
  | none =>
    if flags.returnDefaults = false then .ok .unset
    else if multipleValues = some true then
      match default with
      | .arr items => .ok (.set (.arr items))
      | _ => .ok (.set (.arr []))
    else .ok (.set default)

section FixedCollection
variable (options : List (String × PropertiesCall)) (flags : ReturnFlags) (root : INodeParameters)

def multipleItems (itemName : String) (itemValue : ParameterValue) : Except Failure ParameterValue := do
  let items ← itemValue.items
  let values ← items.mapM fun nodeValue =>
    match lookupEntry itemName options with
    | none => .error (.applicationError "Could not find property option")
    | some call =>
      ParameterValue.obj <$> call flags (some root) (some .fixedCollection) nodeValue.asParameters
  .ok (.arr values)

def multipleCollections :
    List (String × ParameterValue) → INodeParameters → Except Failure INodeParameters
  | [], collectionValues => .ok collectionValues
  | (itemName, itemValue) :: rest, collectionValues => do
    multipleCollections rest
      (setEntry itemName (← multipleItems options flags root itemName itemValue) collectionValues)

/-- `value` is what is there; `entries` may be those of the default. -/
def singleCollections (value : Option ParameterValue) :
    List (String × ParameterValue) → INodeParameters → Except Failure INodeParameters
  | [], collectionValues => .ok collectionValues
  | (itemName, itemValue) :: rest, collectionValues =>
    match lookupEntry itemName options with
    | none => singleCollections value rest collectionValues
    | some call =>
      if value = none then .error .typeError
      else do
        let parameters ← call flags (some root) (some .fixedCollection) itemValue.asParameters
        singleCollections value rest
          (if parameters.isEmpty then collectionValues
            else setEntry itemName (.obj parameters) collectionValues)

end FixedCollection

def fixedCollectionValue (default : ParameterValue) (multipleValues : Option Bool)
    (options : List (String × PropertiesCall)) : CollectionCall := fun flags root value =>
  let propertyValues := if flags.returnDefaults then some (value.getD default) else value
  let onlyOne := flags.returnDefaults = false ∧ multipleValues = some false
  if onlyOne ∧ propertyValues.any (fun v => v.truthy && v.entries.isEmpty) then .ok .nodeValues
  else do
    let entries := propertyValues.elim [] (·.entries)
    let collectionValues ←
      if multipleValues = some true then multipleCollections options flags root entries []
      else singleCollections options flags root value entries []
    if collectionValues ≠ [] ∨ flags.returnDefaults then .ok (.set (.obj collectionValues))
    else
      -- an item with default values only is not to get lost
      match propertyValues with
      | some (.obj (e :: es)) =>
        if onlyOne then .ok (.setOnly (.obj ((e :: es).map fun e => (e.1, .obj []))))
        else .ok .unset
      | _ => .ok .unset

/-! ### One list of properties -/

structure CollectState where
  nodeParameters : INodeParameters
  nodeParametersFull : INodeParameters

def CollectState.set (s : CollectState) (name : String) (value : ParameterValue) : CollectState :=
  ⟨setEntry name value s.nodeParameters, setEntry name value s.nodeParametersFull⟩

/-- The arguments of a call. Without `nodeValuesDisplayCheck` the display rules look at what the
call itself has collected. -/
structure CollectCall where
  flags : ReturnFlags
  onlySimpleTypes : Bool
  nodeValues : Option INodeParameters
  parentType : Option ParentType
  nodeValuesDisplayCheck : Option INodeParameters
  nodeValuesRoot : Option INodeParameters

namespace CollectCall
variable (context : NodeContext) (c : CollectCall)

def value (name : String) : Option ParameterValue := c.nodeValues.bind (lookupEntry name)

def displayCheck (s : CollectState) : INodeParameters :=
  c.nodeValuesDisplayCheck.getD s.nodeParametersFull

def root (s : CollectState) : INodeParameters := c.nodeValuesRoot.getD (c.displayCheck s)

/-- The value is not defined, so the property is left out. -/
def skips (name : String) : Bool :=
  c.nodeValues.isNone || ((c.value name).isNone &&
    (!c.flags.returnDefaults || c.parentType = some .collection))

/-- Simple properties whose name occurs more than once are always checked. -/
def shows (duplicateParameterNames : List String) (property : INodeProperties) (s : CollectState) :
    Except Failure Bool :=
  if c.flags.returnNoneDisplayed = false ∨
      (property.isSimple ∧ property.name ∈ duplicateParameterNames) then
    displayParameter context (c.displayCheck s) (c.root s) property.displayOptions
  else .ok true

/-- `none` stands for the return of the node values. -/
def store (property : INodeProperties) (collection : CollectionCall) (s : CollectState) :
    Except Failure (Option CollectState) :=
  match property with
  | .simple name type default _ =>
    if c.flags.returnDefaults then .ok (some (s.set name (simpleValue type default (c.value name))))
    else
      match c.value name with
      | none => .ok (some s)
      | some value =>
        .ok (some (if isKept c.parentType default value then s.set name value else s))
  | property =>
    if c.onlySimpleTypes then .ok (some s)
    else do
      match ← collection c.flags (c.root s) (c.value property.name) with
      | .unset => .ok (some s)
      | .set value => .ok (some (s.set property.name value))
      | .setOnly value =>
        .ok (some { s with nodeParameters := setEntry property.name value s.nodeParameters })
      | .nodeValues => .ok none

def visit (duplicateParameterNames : List String) (property : INodeProperties)
    (collection : CollectionCall) (s : CollectState) : Except Failure (Option CollectState) :=
  if c.skips property.name then .ok (some s)
  else do
    if ← c.shows context duplicateParameterNames property s then c.store property collection s
    else .ok (some s)

def visitAll (duplicateParameterNames : List String) :
    List (INodeProperties × CollectionCall) → CollectState → Except Failure INodeParameters
  | [], s => .ok s.nodeParameters
  | (property, collection) :: properties, s => do
    match ← c.visit context duplicateParameterNames property collection s with
    | none => .ok (c.nodeValues.getD [])
    | some s => visitAll duplicateParameterNames properties s

end CollectCall

/-- The names that occur more than once. -/
def duplicateNames (properties : List INodeProperties) : List String :=
  (properties.map (·.name)).filter fun name => 1 < (properties.map (·.name)).count name

def resolveOrder (properties : List INodeProperties) : Except Failure (List ℕ) :=
  getParameterResolveOrder (properties.map (·.name))
    (getParameterDependencies (properties.map fun property => (property.name, property.displayOptions)))

section Properties
variable (context : NodeContext) (properties : List (INodeProperties × CollectionCall))
  (nodeValuesRoot : Option INodeParameters) (parentType : Option ParentType)
  (nodeValues : Option INodeParameters)

def displayCheckCall : CollectCall :=
  ⟨⟨true, true⟩, true, nodeValues, parentType, none, nodeValuesRoot⟩

/-- The values that display rules look at. -/
def displayCheckValues (ordered : List (INodeProperties × CollectionCall)) :
    Except Failure INodeParameters :=
  (displayCheckCall nodeValuesRoot parentType nodeValues).visitAll context
    (duplicateNames (properties.map (·.1))) ordered ⟨[], []⟩

def inResolveOrder : Except Failure (List (INodeProperties × CollectionCall)) := do
  let order ← resolveOrder (properties.map (·.1))
  .ok (order.filterMap (properties[·]?))

def getPropertiesParameters (flags : ReturnFlags) : Except Failure INodeParameters := do
  let ordered ← inResolveOrder properties
  let nodeValuesDisplayCheck ←
    if flags.returnNoneDisplayed then .ok none
    else some <$> displayCheckValues context properties nodeValuesRoot parentType nodeValues ordered
  CollectCall.visitAll context
    ⟨flags, false, nodeValues, parentType, nodeValuesDisplayCheck, nodeValuesRoot⟩
    (duplicateNames (properties.map (·.1))) ordered ⟨[], []⟩

end Properties

def propertiesCall (context : NodeContext) (properties : List (INodeProperties × CollectionCall)) :
    PropertiesCall := fun flags nodeValuesRoot parentType nodeValues =>
  getPropertiesParameters context properties nodeValuesRoot parentType nodeValues flags

/-! ### Properties in properties -/

mutual

def collectionCall (context : NodeContext) : INodeProperties → CollectionCall
  | .simple .. => fun _ _ _ => .ok .unset
  | .collection _ default _ multipleValues options =>
    collectionValue default multipleValues
      (propertiesCall context (collectionCalls context options))
  | .fixedCollection _ default _ multipleValues options =>
    fixedCollectionValue default multipleValues (optionCalls context options)

def collectionCalls (context : NodeContext) :
    List INodeProperties → List (INodeProperties × CollectionCall)
  | [] => []
  | property :: properties =>
    (property, collectionCall context property) :: collectionCalls context properties

def optionCalls (context : NodeContext) :
    List (String × List INodeProperties) → List (String × PropertiesCall)
  | [] => []
  | (itemName, values) :: options =>
    (itemName, propertiesCall context (collectionCalls context values)) ::
      optionCalls context options

end

def getNodeParameters (context : NodeContext) (nodePropertiesArray : List INodeProperties)
    (nodeValues : Option INodeParameters) (returnDefaults returnNoneDisplayed : Bool) :
    Except Failure INodeParameters :=
  propertiesCall context (collectionCalls context nodePropertiesArray)
    ⟨returnDefaults, returnNoneDisplayed⟩ none none nodeValues

end N8n
