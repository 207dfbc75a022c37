import N8n.NodeHelpers.DisplayParameter
import N8n.Workflow.AccessPatterns
import N8n.Workflow.ConnectionTables

/-!
# Renaming a node

The name of a node stands in the node, in the expressions of all nodes and at both ends of
its connections. The nodes are kept under their names and the connections by destination are
made from those by source, and both are part of what a workflow is here. A property that the
source sets to `undefined` is one that is not there, and a node that is called like a
property that every object inherits is like any other node.
-/

namespace N8n

open OrderedMap (lookupEntry setEntry)

structure NodeWithParameters extends INode where
  parameters : INodeParameters

namespace RenameNode

variable (currentName newName : String)

def rewriteText (s : String) : String :=
  String.ofList (AccessPatterns.applyAccessPatterns s.toList currentName.toList newName.toList)

mutual

def renameNodeInParameterValue (hasRenamableContent : Bool) : ParameterValue → ParameterValue
  | .null => .obj []
  | .bool b => .bool b
  | .num n => .num n
  | .str s =>
    if s.startsWith "=" || hasRenamableContent then .str (rewriteText currentName newName s)
    else .str s
  | .arr items => .arr (renameItems items)
  | .obj entries => .obj (renameEntries hasRenamableContent entries)

/-- The elements of an array are renamed without the content that only expressions have. -/
def renameItems : List ParameterValue → List ParameterValue
  | [] => []
  | item :: items => renameNodeInParameterValue false item :: renameItems items

def renameEntries (hasRenamableContent : Bool) :
    List (String × ParameterValue) → List (String × ParameterValue)
  | [] => []
  | (name, value) :: entries =>
    (name, renameNodeInParameterValue hasRenamableContent value) ::
      renameEntries hasRenamableContent entries

end

def NODES_WITH_RENAMABLE_CONTENT : List String :=
  ["n8n-nodes-base.code", "n8n-nodes-base.function", "n8n-nodes-base.functionItem",
    "n8n-nodes-base.aiTransform"]

def NODES_WITH_RENAMEABLE_TOPLEVEL_HTML_CONTENT : List String :=
  ["n8n-nodes-base.mailgun", "n8n-nodes-base.html"]

def NODES_WITH_RENAMABLE_FORM_HTML_CONTENT : List String := ["n8n-nodes-base.form"]

def renameProperty (name : String) (rename : ParameterValue → ParameterValue)
    (parameters : INodeParameters) : INodeParameters :=
  match lookupEntry name parameters with
  | none => parameters
  | some value => setEntry name (rename value) parameters

def renameFormField (renameField : ParameterValue → ParameterValue) : ParameterValue → ParameterValue
  | .obj formFieldValue =>
    if lookupEntry "fieldType" formFieldValue = some (.str "html") then
      .obj (renameProperty "html" renameField formFieldValue)
    else .obj formFieldValue
  | value => value

def renameFormFields (renameField : ParameterValue → ParameterValue) (parameters : INodeParameters) :
    INodeParameters :=
  match lookupEntry "formFields" parameters with
  | some (.obj formFields) =>
    match lookupEntry "values" formFields with
    | some (.arr values) =>
      setEntry "formFields"
        (.obj (setEntry "values" (.arr (values.map (renameFormField renameField))) formFields))
        parameters
    | _ => parameters
  | _ => parameters

def renameInParameters (type : String) (parameters : INodeParameters) : INodeParameters :=
  let renameContent := renameNodeInParameterValue currentName newName true
  let parameters := renameEntries currentName newName false parameters
  let parameters :=
    if type ∈ NODES_WITH_RENAMABLE_CONTENT then renameProperty "jsCode" renameContent parameters
    else parameters
  let parameters :=
    if type ∈ NODES_WITH_RENAMEABLE_TOPLEVEL_HTML_CONTENT then
      renameProperty "html" renameContent parameters
    else parameters
  if type ∈ NODES_WITH_RENAMABLE_FORM_HTML_CONTENT then renameFormFields renameContent parameters
  else parameters

def renameInNode (node : NodeWithParameters) : NodeWithParameters :=
  { node with parameters := renameInParameters currentName newName node.type node.parameters }

def renameTarget (connection : Connection) : Connection :=
  if connection.node = currentName then { connection with node := newName } else connection

abbrev ByType := OrderedMap NodeConnectionType (List (Option (List Connection)))

def renameTargets (byType : ByType) : ByType :=
  byType.mapValues (List.map (Option.map (List.map (renameTarget currentName newName))))

def restrictedKeys : List String :=
  ["hasOwnProperty", "isPrototypeOf", "propertyIsEnumerable", "toLocaleString", "toString",
    "valueOf", "constructor", "prototype", "__proto__", "__defineGetter__", "__defineSetter__",
    "__lookupGetter__", "__lookupSetter__"]

def isRestricted (toLowerCase : String → String) (name : String) : Bool :=
  decide (toLowerCase name ∈ restrictedKeys.map toLowerCase)

end RenameNode

structure WorkflowTables where
  nodes : OrderedMap String NodeWithParameters
  connectionsBySourceNode : IConnections
  connectionsByDestinationNode : IConnections
  keyed : nodes.Keyed fun node => node.name
  byDestination : connectionsByDestinationNode = getConnectionsByDestination connectionsBySourceNode

structure UserError where
  message : String
  description : String
  deriving DecidableEq, Repr

namespace WorkflowTables
open RenameNode

/-- The tables of a new workflow. -/
def create (nodes : List NodeWithParameters) (connections : IConnections) : WorkflowTables where
  nodes := OrderedMap.empty.setAll (fun node => node.name) nodes
  connectionsBySourceNode := connections
  connectionsByDestinationNode := getConnectionsByDestination connections
  keyed := OrderedMap.keyed_empty.setAll nodes
  byDestination := rfl

/-- The value is set under the new key, and the old key is deleted. -/
def moveKey {α : Type} (currentName newName : String) (f : α → α) (m : OrderedMap String α) :
    OrderedMap String α :=
  match m.get? currentName with
  | none => m
  | some a => (m.set newName (f a)).delete currentName

def renamedNodes (currentName newName : String) (nodes : OrderedMap String NodeWithParameters) :
    OrderedMap String NodeWithParameters :=
  (moveKey currentName newName (fun node => { node with name := newName }) nodes).mapValues
    (renameInNode currentName newName)

theorem keyed_renamedNodes {currentName newName : String} {nodes : OrderedMap String NodeWithParameters}
    (h : nodes.Keyed fun node => node.name) :
    (renamedNodes currentName newName nodes).Keyed fun node => node.name := by
  intro k node hnode
  rw [renamedNodes, OrderedMap.get?_mapValues] at hnode
  obtain ⟨moved, hmoved, rfl⟩ := Option.map_eq_some_iff.mp hnode
  change k = moved.name
  rw [moveKey] at hmoved
  cases hcurrent : nodes.get? currentName with
  | none =>
    rw [hcurrent] at hmoved
    exact h k moved hmoved
  | some current =>
    simp only [hcurrent, OrderedMap.get?_delete, OrderedMap.get?_set] at hmoved
    split_ifs at hmoved with _ hk
    · rw [← Option.some.inj hmoved, hk]
    · exact h k moved hmoved

def renamedConnections (currentName newName : String) (connections : IConnections) : IConnections :=
  (moveKey currentName newName id connections).mapValues (renameTargets currentName newName)

def renameNode (toLowerCase : String → String) (workflow : WorkflowTables)
    (currentName newName : String) : Except UserError WorkflowTables :=
  if isRestricted toLowerCase newName then
    .error ⟨s!"Node name \"{newName}\" is a restricted name.",
      "Node names cannot be any of the following: " ++ ", ".intercalate restrictedKeys⟩
  else
    let connections := renamedConnections currentName newName workflow.connectionsBySourceNode
    .ok {
      nodes := renamedNodes currentName newName workflow.nodes
      connectionsBySourceNode := connections
      connectionsByDestinationNode := getConnectionsByDestination connections
      keyed := keyed_renamedNodes workflow.keyed
      byDestination := rfl }

end WorkflowTables
end N8n
