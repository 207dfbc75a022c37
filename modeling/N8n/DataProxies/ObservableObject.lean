import N8n.Foundations.PlainData
import N8n.Foundations.Runs

/-!
# Observable static data

The static data of a workflow is wrapped, level by level, in proxies that note writes in
`__dataChanged` of the root. A value that is assigned later is stored as it is. The
property `__dataChanged` itself is kept apart from the data: an own property of that name
is turned into the mark when the data is wrapped, and accesses by that name are not
accesses to the data.
-/

namespace N8n.ObservableObject

open PlainData
open OrderedMap (lookupEntry setEntry lookupEntry_setEntry)

/-- A value as the workflow holds it: each container says whether it stands behind a proxy. -/
inductive Observed where
  | primitive (p : Primitive)
  | container (observed : Bool) (shape : Shape) (entries : List (Key × Observed))

mutual

def Observed.wrap (observed : Bool) : Value → Observed
  | .primitive p => .primitive p
  | .container shape entries => .container observed shape (wrapEntries observed entries)

def wrapEntries (observed : Bool) : List (Key × Value) → List (Key × Observed)
  | [] => []
  | (k, v) :: entries => (k, Observed.wrap observed v) :: wrapEntries observed entries

end

mutual

def Observed.content : Observed → Value
  | .primitive p => .primitive p
  | .container _ shape entries => .container shape (contentEntries entries)

def contentEntries : List (Key × Observed) → List (Key × Value)
  | [] => []
  | (k, o) :: entries => (k, o.content) :: contentEntries entries

end

def dataChangedKey : Key := .name "__dataChanged"

/-- The children of the object that `create` is called with. -/
def createEntries (target : List (Key × Value)) : List (Key × Observed) :=
  wrapEntries true (withoutEntries dataChangedKey target)

structure Outcome where
  value : Observed
  marks : Bool
  succeeds : Bool

/-- A write to the container that the path leads to. The trap of a nested container marks
the root before it passes the write on. -/
def Observed.write
    (reflect : Shape → List (Key × Observed) → Option (Shape × List (Key × Observed))) :
    List Key → Observed → Outcome
  | _, .primitive p => ⟨.primitive p, false, false⟩
  | [], .container observed shape entries =>
    match reflect shape entries with
    | some (shape, entries) => ⟨.container observed shape entries, observed, true⟩
    | none => ⟨.container observed shape entries, observed, false⟩
  | k :: path, .container observed shape entries =>
    match lookupEntry k entries with
    | none => ⟨.container observed shape entries, false, false⟩
    | some child =>
      let out := child.write reflect path
      ⟨.container observed shape (setEntry k out.value entries), out.marks, out.succeeds⟩

def Observed.valueAt : List Key → Observed → Option Observed
  | [], o => some o
  | _ :: _, .primitive _ => none
  | k :: path, .container _ _ entries =>
    match lookupEntry k entries with
    | none => none
    | some child => child.valueAt path

structure StaticData where
  dataChanged : Bool
  entries : List (Key × Observed)
  testStaticData : List (Key × Value)

namespace StaticData
variable (lang : Language)

def create (target testStaticData : List (Key × Value)) : StaticData :=
  ⟨false, createEntries target, testStaticData⟩

def root (s : StaticData) : Observed := .container true .object s.entries

/-- The test of `ignoreEmptyOnFirstChild`. Without a result `Object.keys` throws. -/
def ignoresEmpty (s : StaticData) (k : Key) (value : Observed) : Option Bool :=
  match property lang .primitive .object s.entries k with
  | .primitive .undefined =>
    match value with
    | .primitive .null => none
    | .primitive _ => some false
    | .container _ _ entries => some entries.isEmpty
  | _ => some false

def set (s : StaticData) (k : Key) (value : Observed) : StaticData × Bool :=
  match s.ignoresEmpty lang k value with
  | none => (s, false)
  | some ignored =>
    ({ s with dataChanged := s.dataChanged || !ignored, entries := setEntry k value s.entries },
      true)

def deleteProperty (s : StaticData) (k : Key) : StaticData :=
  { s with dataChanged := true, entries := deleteEntry k s.entries }

def writeBelow
    (reflect : Shape → List (Key × Observed) → Option (Shape × List (Key × Observed)))
    (k : Key) (path : List Key) (s : StaticData) : StaticData × Bool :=
  match lookupEntry k s.entries with
  | none => (s, false)
  | some child =>
    let out := child.write reflect path
    ({ s with dataChanged := s.dataChanged || out.marks, entries := setEntry k out.value s.entries },
      out.succeeds)

structure ApplicationError where
  message : String
  contextType : Option String
  deriving DecidableEq, Repr

def staticDataKey (type : String) (node : Option String) : Except ApplicationError Key :=
  if type = "global" then .ok (.name "global")
  else if type = "node" then
    match node with
    | none => .error ⟨"The request data of context type \"node\" the node parameter has to be set!",
        none⟩
    | some name => .ok (.name ("node:" ++ name))
  else .error ⟨"Unknown context type. Only `global` and `node` are supported.", some type⟩

def isTruthy : Value → Bool
  | .container _ _ => true
  | .primitive .undefined => false
  | .primitive .null => false
  | .primitive (.bool b) => b
  | .primitive (.num q) => decide (q ≠ 0)
  | .primitive (.str s) => decide (s ≠ "")
  | .primitive (.builtin _) => true

def getStaticData (s : StaticData) (type : String) (node : Option String) :
    StaticData × Except ApplicationError Observed :=
  match staticDataKey type node with
  | .error e => (s, .error e)
  | .ok key =>
    let test := property lang .primitive .object s.testStaticData key
    if isTruthy test then (s, .ok (.wrap false test))
    else
      match property lang Observed.primitive .object s.entries key with
      | .primitive .undefined =>
        -- the new object is wrapped by itself, with the root as its parent
        let s := (s.set lang key (.container true .object [])).1
        (s, .ok (property lang Observed.primitive .object s.entries key))
      | value => (s, .ok value)

end StaticData

inductive Access where
  | get (path : List Key) (k : Key)
  | set (path : List Key) (k : Key) (value : Value)
  | delete (path : List Key) (k : Key)
  | getStaticData (type : String) (node : Option String)

namespace StaticData
variable (lang : Language)

def access (s : StaticData) : Access → StaticData × Result Observed
  | .get path k => (s,
    match s.root.valueAt path with
    | some (.container _ shape entries) => .value (property lang .primitive shape entries k)
    | _ => .error)
  | .set [] k value =>
    let (s, succeeds) := s.set lang k (.wrap false value)
    (s, if succeeds then .done else .error)
  | .set (j :: path) k value =>
    let (s, succeeds) := s.writeBelow
      (fun shape entries => assign shape entries k (.wrap false value) (lang.toLength value)) j path
    (s, if succeeds then .done else .error)
  | .delete [] k => (s.deleteProperty k, .bool true)
  | .delete (j :: path) k =>
    let (s, succeeds) := s.writeBelow (fun shape entries => remove shape entries k) j path
    (s, .bool succeeds)
  | .getStaticData type node =>
    match s.getStaticData lang type node with
    | (s, .ok value) => (s, .value value)
    | (s, .error _) => (s, .error)

end StaticData

def Access.onData : Access → Bool
  | .get _ k => decide (k ≠ dataChangedKey)
  | .set _ k _ => decide (k ≠ dataChangedKey)
  | .delete _ k => decide (k ≠ dataChangedKey)
  | .getStaticData _ _ => true

def Step (lang : Language) (s : StaticData) (e : Access) (s' : StaticData) : Prop :=
  e.onData = true ∧ s' = (s.access lang e).1

end N8n.ObservableObject
