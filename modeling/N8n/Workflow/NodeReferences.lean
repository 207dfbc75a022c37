import N8n.Workflow.AccessPatterns
import N8n.Foundations.OpenedParts

/-!
# The references that a renaming is for

A reference has the name of a node between two quotes that are alike, or after `$node.` where
no character of an identifier follows. The references are found in one pass over the
expression. After a dot a name needs brackets when it has characters that no identifier has.
-/

namespace N8n.AccessPatterns

/-- A name between an opening and one of the texts that close it. -/
def named? («open» : Text) (closes : List Text) (previousName newName s : Text) :
    Option (Text × ℕ) :=
  ((after? «open» s).bind (after? previousName)).bind fun s =>
    closes.findSome? fun close =>
      (after? close s).map fun _ =>
        («open» ++ newName ++ close, «open».length + previousName.length + close.length)

theorem match?_eq (pattern : AccessPattern) (previousName newName s : Text) :
    pattern.match? previousName newName s =
      pattern.opens.findSome? fun «open» => named? «open» pattern.closes previousName newName s :=
  rfl

def callForms : List (Text × Text) :=
  [("$('".toList, "')".toList), ("$(\"".toList, "\")".toList)]

def bracketForms : List (Text × Text) :=
  [("$node['".toList, "']".toList), ("$node[\"".toList, "\"]".toList)]

def itemsForms : List (Text × Text) :=
  [("$items('".toList, "'".toList), ("$items(\"".toList, "\"".toList)]

def isIdentifierChar (c : Char) : Bool := c.isAlphanum || decide (c = '_') || decide (c = '$')

def dotReference? (previousName replacement s : Text) : Option (Text × ℕ) :=
  ((after? "$node.".toList s).bind (after? previousName)).bind fun rest =>
    if rest.head?.any isIdentifierChar then none
    else some (replacement, "$node.".length + previousName.length)

/-- A reference at the beginning of a text, with what it becomes and its length. -/
def reference? (forms : List (Text × Text)) (dotted : Text) (previousName newName s : Text) :
    Option (Text × ℕ) :=
  (forms.findSome? fun form => named? form.1 [form.2] previousName newName s).or
    (dotReference? previousName dotted s)

/-- A name after `$node`, in brackets where it needs them. -/
def nodeProperty (newName : Text) : Text :=
  if hasDotNotationBannedChar newName then "$node[\"".toList ++ newName ++ "\"]".toList
  else "$node.".toList ++ newName

def renameReferences (expression previousName newName : Text) : Text :=
  replace (reference? (callForms ++ bracketForms ++ itemsForms) (nodeProperty newName)
    previousName newName) expression

/-- The references but those by `$items` have the new name, and none has got brackets yet. -/
def renameNames (expression previousName newName : Text) : Text :=
  replace (reference? (callForms ++ bracketForms) ("$node.".toList ++ newName)
    previousName newName) expression

def openings : Openings Char where
  mark := '$'
  words := ["$('".toList, "$(\"".toList, "$node['".toList, "$node[\"".toList, "$node.".toList,
    "$items('".toList, "$items(\"".toList]
  starts := by
    have h : ∀ o ∈ ["$('".toList, "$(\"".toList, "$node['".toList, "$node[\"".toList,
        "$node.".toList, "$items('".toList, "$items(\"".toList],
        o = '$' :: o.tail ∧ '$' ∉ o.tail := by decide
    exact fun o ho => ⟨o.tail, h o ho⟩
  alone := by decide

def quotes : List Char := ['\'', '"']

/-- No opening begins in a name where the text goes on as given. -/
def Undisturbed (name rest : Text) : Prop :=
  ∀ v, v <:+ name → v ≠ [] → ∀ o ∈ openings.words, ¬ o <+: v ++ rest

/-- Where the patterns find the references and nothing else. -/
structure OnlyReferences (expression previousName newName : Text) : Prop where
  /-- No opening begins in a name between quotes. -/
  quotable : ∀ q ∈ quotes, openings.Free (previousName ++ [q]) ∧ openings.Free (newName ++ [q])
  alike : ∀ q ∈ quotes, ∀ q' ∈ quotes, q ≠ q' →
    (∀ close ∈ [("$(".toList, ")".toList), ("$node[".toList, "]".toList),
        ("$items(".toList, ",".toList), ("$items(".toList, ")".toList)],
      ¬ close.1 ++ q :: (previousName ++ q' :: close.2) <:+: expression)
  items : ∀ q ∈ quotes, ∀ rest,
    "$items(".toList ++ q :: (previousName ++ q :: rest) <:+ expression →
      rest.head? = some ',' ∨ rest.head? = some ')'
  dot : ∀ rest, "$node.".toList ++ (previousName ++ rest) <:+ expression →
    ¬ rest.head?.any isIdentifierChar ∧ Undisturbed previousName rest ∧
      Undisturbed newName rest ∧
      (hasDotNotationBannedChar newName → rest.head? = some ' ' ∨ rest.head? = some '.')
  /-- The rewriting to brackets finds the new name in these references only. -/
  brackets : hasDotNotationBannedChar newName → "$node.".toList <:+: expression →
    (∀ before c rest, renameNames expression previousName newName = before ++ c :: rest →
      (dottedName? newName (c :: rest)).isSome → c = '.' ∧ "$node".toList <:+ before) ∧
    (previousName = newName ∨ ∀ c ∈ [' ', '.'],
      ¬ "$node.".toList ++ (newName ++ [c]) <:+: expression)

end N8n.AccessPatterns
