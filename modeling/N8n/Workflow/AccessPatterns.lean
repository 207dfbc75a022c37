import Mathlib.Data.List.Infix
import Mathlib.Data.Char

/-!
# References to nodes in expressions

An expression refers to a node by `$('name')`, `$node['name']`, `$node.name` or
`$items('name')`. Renaming a node rewrites the text pattern by pattern, each one over what
the one before has left. Texts are lists of characters. A pattern of the source is a
regular expression with the escaped name between two groups, which is matched here by
what may stand before and after the name.
-/

namespace N8n.AccessPatterns

abbrev Text := List Char

/-- Claims about the characters of a text are decided along the text, not over all characters. -/
scoped instance (priority := 2000) (s : Text) (p : Char → Prop) [DecidablePred p] :
    Decidable (∀ c ∈ s, p c) := List.decidableBAll p s

scoped instance (priority := 2000) (s : Text) (p : Char → Prop) [DecidablePred p] :
    Decidable (∃ c ∈ s, p c) := List.decidableBEx p s

/-- The rest of a text that starts with the given one. -/
def after? : Text → Text → Option Text
  | [], s => some s
  | _ :: _, [] => none
  | c :: p, d :: s => if c = d then after? p s else none

/-- The matches of a global regular expression are replaced from left to right. A match gives the
replacement and the length of what it replaces. -/
def replaceFrom (m : Text → Option (Text × ℕ)) : ℕ → Text → Text
  | _, [] => []
  | skip + 1, _ :: s => replaceFrom m skip s
  | 0, c :: s =>
    match m (c :: s) with
    | none => c :: replaceFrom m 0 s
    | some (replacement, length) => replacement ++ replaceFrom m (length - 1) s

def replace (m : Text → Option (Text × ℕ)) (expression : Text) : Text := replaceFrom m 0 expression

def includes (expression sub : Text) : Bool := decide (sub <:+: expression)

structure AccessPattern where
  checkPattern : Text
  /-- What the groups before and after the name match, the first alternative first. -/
  opens : List Text
  closes : List Text

def AccessPattern.match? (pattern : AccessPattern) (previousName newName : Text) (s : Text) :
    Option (Text × ℕ) :=
  pattern.opens.findSome? fun «open» =>
    ((after? «open» s).bind (after? previousName)).bind fun s =>
      pattern.closes.findSome? fun close =>
        (after? close s).map fun _ =>
          («open» ++ newName ++ close, «open».length + previousName.length + close.length)

def callPattern : AccessPattern where
  checkPattern := "$(".toList
  opens := ["$('".toList, "$(\"".toList]
  closes := ["')".toList, "\")".toList]

def bracketPattern : AccessPattern where
  checkPattern := "$node[".toList
  opens := ["$node['".toList, "$node[\"".toList]
  closes := ["']".toList, "\"]".toList]

def dotPattern : AccessPattern where
  checkPattern := "$node.".toList
  opens := ["$node.".toList]
  closes := [".".toList, []]

def itemsPattern : AccessPattern where
  checkPattern := "$items(".toList
  opens := ["$items('".toList, "$items(\"".toList]
  closes := ["',".toList, "\",".toList, "')".toList, "\")".toList]

def bannedChars : Text := "\\ `!@#$%^&*()_+-=[]\x7b\x7d;':\"|,.<>?~".toList

def hasDotNotationBannedChar (nodeName : Text) : Bool :=
  nodeName.head?.any Char.isDigit || nodeName.any fun c => decide (c ∈ bannedChars)

def lineTerminators : Text := ['\n', '\r', Char.ofNat 0x2028, Char.ofNat 0x2029]

/-- The regular expression has `.` before the name, which matches any character of a line. -/
def dottedName? (newName : Text) : Text → Option (Text × ℕ)
  | [] => none
  | c :: s =>
    if c ∈ lineTerminators then none
    else
      match after? newName s with
      | some (' ' :: _) => some ("[\"".toList ++ newName ++ "\"] ".toList, newName.length + 2)
      | some ('.' :: _) => some ("[\"".toList ++ newName ++ "\"].".toList, newName.length + 2)
      | _ => none

def dotCallback (expression newName : Text) : Text :=
  if hasDotNotationBannedChar newName then replace (dottedName? newName) expression else expression

def AccessPattern.apply (pattern : AccessPattern) (callback : Text → Text)
    (previousName newName expression : Text) : Text :=
  if includes expression pattern.checkPattern then
    callback (replace (pattern.match? previousName newName) expression)
  else expression

def applyAccessPatterns (expression previousName newName : Text) : Text :=
  if includes expression previousName then
    itemsPattern.apply id previousName newName
      (dotPattern.apply (dotCallback · newName) previousName newName
        (bracketPattern.apply id previousName newName
          (callPattern.apply id previousName newName expression)))
  else expression

end N8n.AccessPatterns
