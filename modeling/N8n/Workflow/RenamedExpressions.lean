import N8n.Workflow.RenamedReferences

/-!
# The four patterns

Over the parts of an expression every pattern renames the parts that its openings begin, and
what all of them leave is what renaming the references leaves.
-/

namespace N8n.AccessPatterns

open OrderedMap (lookupEntry)
open Openings (text)

section Passes
variable {previousName newName t : Text} {parts : List Part}

theorem suffix_map {g : Part → Part} {part' : Part} {rest' : List Part}
    (h : part' :: rest' <:+ parts.map g) :
    ∃ part rest, part :: rest <:+ parts ∧ part' = g part ∧ rest' = rest.map g := by
  obtain ⟨before', h⟩ := h
  obtain ⟨before, after, rfl, -, hafter⟩ := List.map_eq_append_iff.mp h.symm
  obtain ⟨part, rest, rfl, rfl, rfl⟩ := List.map_eq_cons_iff.mp hafter
  exact ⟨part, rest, List.suffix_append _ _, rfl, rfl⟩

/-- What the first two patterns leave of a part. -/
def quotedPart (previousName newName : Text) (part : Part) : Part :=
  renamePart bracketPattern.forms previousName newName
    (renamePart callPattern.forms previousName newName part)

theorem quotedPart_fst (part : Part) : (quotedPart previousName newName part).1 = part.1 := by
  rw [quotedPart, renamePart_fst, renamePart_fst]

theorem quotedPart_dot {part : Part} (h : part.1 = dotWord) :
    quotedPart previousName newName part = part := by
  have hcall : renamePart callPattern.forms previousName newName part = part :=
    renamePart_of_lookup (by rw [h]; rfl)
  rw [quotedPart, hcall, renamePart_of_lookup (by rw [h]; rfl)]

theorem split_quotedPart (h : OnlyReferences (t ++ text parts) previousName newName)
    (hparts : openings.Split parts) :
    openings.Split (parts.map (quotedPart previousName newName)) := by
  have hname : ∀ q ∈ quotes, openings.Free (newName ++ [q]) := fun q hq => (h.quotable q hq).2
  have hcall : openings.Split
      (parts.map (renamePart callPattern.forms previousName newName)) :=
    quotedForms_call.split_map hname hparts
  have hbracket : openings.Split ((parts.map (renamePart callPattern.forms previousName newName)).map
      (renamePart bracketPattern.forms previousName newName)) :=
    quotedForms_bracket.split_map hname hcall
  rwa [List.map_map] at hbracket

theorem replace_quoted (h : OnlyReferences (t ++ text parts) previousName newName)
    (ht : openings.Free t) (hparts : openings.Split parts) :
    replace (bracketPattern.match? previousName newName)
        (replace (callPattern.match? previousName newName) (t ++ text parts)) =
      t ++ text (parts.map (quotedPart previousName newName)) := by
  have hold : ∀ q ∈ quotes, openings.Free (previousName ++ [q]) := fun q hq => (h.quotable q hq).1
  rw [match?_forms, match?_forms, quotedForms_call.replace_eq hold ht hparts,
    quotedForms_bracket.replace_eq hold ht
      (quotedForms_call.split_map (fun q hq => (h.quotable q hq).2) hparts), List.map_map]
  rfl

theorem lookup_dotForms {o : Text} {closes : List Text}
    (h : lookupEntry o dotPattern.forms = some closes) : o = dotWord := by
  change (if dotWord = o then some dotPattern.closes else none) = some closes at h
  split_ifs at h with ho
  exact ho.symm

theorem replace_dot (h : OnlyReferences (t ++ text parts) previousName newName)
    (ht : openings.Free t) (hparts : openings.Split parts) :
    replace (dotPattern.match? previousName newName)
        (t ++ text (parts.map (quotedPart previousName newName))) =
      t ++ text (parts.map fun part =>
        renamePart dotPattern.forms previousName newName (quotedPart previousName newName part)) := by
  have hquoted := split_quotedPart h hparts
  have hopened : ∀ form ∈ dotPattern.forms, form.1 ∈ openings.words := by decide
  have hmap : (parts.map fun part =>
      renamePart dotPattern.forms previousName newName (quotedPart previousName newName part)) =
      (parts.map (quotedPart previousName newName)).map
        (renamePart dotPattern.forms previousName newName) := by
    rw [List.map_map]
    rfl
  rw [match?_forms, hmap]
  refine replace_parts (formsMatch?_opened hopened) ht hquoted ?_
  intro part' rest' hsuffix'
  have hrest' := (split_of_suffix hquoted hsuffix').tail
  refine actsOn_renamePart hopened (by decide) (by decide)
    (hquoted part' (hsuffix'.subset List.mem_cons_self)).1 hrest' ?_
  rintro closes after hlookup heq -
  have hword := lookup_dotForms hlookup
  obtain ⟨⟨o, body⟩, rest, hsuffix, rfl, rfl⟩ := suffix_map hsuffix'
  rw [quotedPart_fst] at hword
  dsimp only at hword
  subst hword
  rw [quotedPart_dot rfl] at heq ⊢
  have hhead : (rest.map (quotedPart previousName newName)).head?.map Prod.fst =
      rest.head?.map Prod.fst := by
    cases rest with
    | nil => rfl
    | cons part rest =>
      simp only [List.map_cons, List.head?_cons, Option.map_some, quotedPart_fst]
  refine isPrefix_of_undisturbed hrest' hhead (free_of_quotable (h.quotable '\'' (by decide)).1)
    (fun after heq => ?_) heq
  have hdot := suffix_text (t := t) hsuffix
  dsimp only at hdot
  rw [heq] at hdot
  exact (h.dot after hdot).2.1

/-! ### The patterns and the references -/

theorem tail?_congr {closes closes' : List Text} {body : Text}
    (h : ∀ tail, body = previousName ++ tail →
      ((∃ close ∈ closes, close <+: tail) ↔ ∃ close ∈ closes', close <+: tail)) :
    tail? closes previousName body = tail? closes' previousName body := by
  apply Option.ext
  intro tail
  rw [tail?_eq_some, tail?_eq_some]
  exact and_congr_right fun hbody => h tail hbody

theorem renamePart_congr {forms forms' : List (Text × List Text)} {closes closes' : List Text}
    {part : Part} (hlookup : lookupEntry part.1 forms = some closes)
    (hlookup' : lookupEntry part.1 forms' = some closes')
    (htail : tail? closes previousName part.2 = tail? closes' previousName part.2) :
    renamePart forms previousName newName part = renamePart forms' previousName newName part := by
  rw [renamePart, renamePart, hlookup, hlookup', Option.bind_some, Option.bind_some, htail]

/-- Where the quotes are alike, the closing with the other quote does not stand. -/
theorem tail?_alike {closes : List Text} {«open» close body : Text} {q : Char} {rest : List Part}
    (hsuffix : («open» ++ [q], body) :: rest <:+ parts) (hmem : q :: close ∈ closes)
    (hother : ∀ close' ∈ closes, ∃ q' ∈ quotes, close' = q' :: close)
    (halike : ∀ q' ∈ quotes, q ≠ q' →
      ¬ «open» ++ q :: (previousName ++ q' :: close) <:+: t ++ text parts) :
    tail? closes previousName body = tail? [q :: close] previousName body := by
  refine tail?_congr fun tail hbody => ?_
  constructor
  · rintro ⟨close', hclose, after, rfl⟩
    obtain ⟨q', hq', rfl⟩ := hother close' hclose
    by_cases hq : q = q'
    · exact ⟨_, List.mem_singleton.mpr rfl, hq ▸ List.prefix_append _ _⟩
    · refine absurd ?_ (halike q' hq' hq)
      have hpart := suffix_text (t := t) hsuffix
      dsimp only at hpart
      rw [hbody] at hpart
      refine List.IsInfix.trans ?_ hpart.isInfix
      refine List.IsPrefix.isInfix ⟨after ++ text rest, ?_⟩
      simp
  · rintro ⟨close', hclose, hstarts⟩
    exact ⟨_, hmem, List.mem_singleton.mp hclose ▸ hstarts⟩

/-- A part before the first pass over the calls by `$items`. -/
def namesPart (previousName newName : Text) (dot : Text → Part) (part : Part) : Part :=
  referencePart (single (callForms ++ bracketForms)) dot previousName newName part

def plainDot (newName tail : Text) : Part := (dotWord, newName ++ tail)

theorem mem_words {o : Text} (h : o ∈ openings.words) :
    o = dotWord ∨ (∃ q ∈ quotes, o = "$(".toList ++ [q]) ∨
      (∃ q ∈ quotes, o = "$node[".toList ++ [q]) ∨ ∃ q ∈ quotes, o = "$items(".toList ++ [q] := by
  revert o
  decide

theorem call_lookups : ∀ q ∈ quotes,
    lookupEntry ("$(".toList ++ [q]) callPattern.forms = some callPattern.closes ∧
    lookupEntry ("$(".toList ++ [q]) bracketPattern.forms = none ∧
    lookupEntry ("$(".toList ++ [q]) dotPattern.forms = none ∧
    lookupEntry ("$(".toList ++ [q]) (single (callForms ++ bracketForms)) = some [[q, ')']] ∧
    "$(".toList ++ [q] ≠ dotWord := by decide

theorem bracket_lookups : ∀ q ∈ quotes,
    lookupEntry ("$node[".toList ++ [q]) callPattern.forms = none ∧
    lookupEntry ("$node[".toList ++ [q]) bracketPattern.forms = some bracketPattern.closes ∧
    lookupEntry ("$node[".toList ++ [q]) dotPattern.forms = none ∧
    lookupEntry ("$node[".toList ++ [q]) (single (callForms ++ bracketForms)) = some [[q, ']']] ∧
    "$node[".toList ++ [q] ≠ dotWord := by decide

theorem items_lookups : ∀ q ∈ quotes,
    lookupEntry ("$items(".toList ++ [q]) callPattern.forms = none ∧
    lookupEntry ("$items(".toList ++ [q]) bracketPattern.forms = none ∧
    lookupEntry ("$items(".toList ++ [q]) dotPattern.forms = none ∧
    lookupEntry ("$items(".toList ++ [q]) (single (callForms ++ bracketForms)) = none ∧
    "$items(".toList ++ [q] ≠ dotWord := by decide

theorem renamePart_dotForms {body : Text} :
    renamePart dotPattern.forms previousName newName (dotWord, body) =
      match after? previousName body with
      | none => (dotWord, body)
      | some tail => plainDot newName tail := by
  have hlookup : lookupEntry dotWord dotPattern.forms = some dotPattern.closes := rfl
  have htail : tail? dotPattern.closes previousName body = after? previousName body := by
    apply Option.ext
    intro tail
    rw [tail?_eq_some, after?_eq_some]
    exact and_iff_left ⟨[], by decide, List.nil_prefix⟩
  rw [renamePart]
  dsimp only
  rw [hlookup, Option.bind_some, htail]
  rfl

theorem dotPart_eq (h : OnlyReferences (t ++ text parts) previousName newName)
    (hparts : openings.Split parts) {part : Part} {rest : List Part}
    (hsuffix : part :: rest <:+ parts) :
    renamePart dotPattern.forms previousName newName (quotedPart previousName newName part) =
      namesPart previousName newName (plainDot newName) part := by
  have hword := (hparts part (hsuffix.subset List.mem_cons_self)).1
  have hfst : ∀ forms forms' : List (Text × List Text), lookupEntry part.1 forms' = none →
      renamePart forms' previousName newName (renamePart forms previousName newName part) =
        renamePart forms previousName newName part :=
    fun forms forms' hnone => renamePart_of_lookup (by rw [renamePart_fst, hnone])
  have hself : ∀ forms : List (Text × List Text), lookupEntry part.1 forms = none →
      renamePart forms previousName newName part = part := fun _ hnone => renamePart_of_lookup hnone
  rw [namesPart, referencePart]
  obtain ⟨o, body⟩ := part
  rcases mem_words hword with rfl | ⟨q, hq, rfl⟩ | ⟨q, hq, rfl⟩ | ⟨q, hq, rfl⟩
  · rw [quotedPart_dot rfl, if_pos rfl]
    exact renamePart_dotForms
  · obtain ⟨hcall, hbracket, hdot, hnames, hne⟩ := call_lookups q hq
    have hcloses : ∀ q ∈ quotes, [q, ')'] ∈ callPattern.closes := by decide
    rw [if_neg hne, quotedPart, hfst _ _ hbracket, hfst _ _ hdot]
    exact renamePart_congr hcall hnames (tail?_alike (t := t) hsuffix (hcloses q hq) (by decide)
      fun q' hq' hqq' => h.alike q hq q' hq' hqq' (_, _) List.mem_cons_self)
  · obtain ⟨hcall, hbracket, hdot, hnames, hne⟩ := bracket_lookups q hq
    have hcloses : ∀ q ∈ quotes, [q, ']'] ∈ bracketPattern.closes := by decide
    rw [if_neg hne, quotedPart, hself _ hcall, hfst _ _ hdot]
    exact renamePart_congr hbracket hnames (tail?_alike (t := t) hsuffix (hcloses q hq) (by decide)
      fun q' hq' hqq' => h.alike q hq q' hq' hqq' (_, _)
        (List.mem_cons_of_mem _ List.mem_cons_self))
  · obtain ⟨hcall, hbracket, hdot, hnames, hne⟩ := items_lookups q hq
    rw [if_neg hne, quotedPart, hself _ hcall, hself _ hbracket, hself _ hdot, hself _ hnames]

abbrev allForms : List (Text × List Text) := single (callForms ++ bracketForms ++ itemsForms)

theorem allForms_lookups : ∀ q ∈ quotes,
    lookupEntry ("$(".toList ++ [q]) allForms = some [[q, ')']] ∧
    lookupEntry ("$(".toList ++ [q]) itemsPattern.forms = none ∧
    lookupEntry ("$node[".toList ++ [q]) allForms = some [[q, ']']] ∧
    lookupEntry ("$node[".toList ++ [q]) itemsPattern.forms = none ∧
    lookupEntry ("$items(".toList ++ [q]) allForms = some [[q]] ∧
    lookupEntry ("$items(".toList ++ [q]) itemsPattern.forms = some itemsPattern.closes := by decide

theorem mem_itemsCloses : ∀ close ∈ itemsPattern.closes, ∃ q ∈ quotes, ∃ c, close = [q, c] ∧
    ("$items(".toList, [c]) ∈ [("$(".toList, ")".toList), ("$node[".toList, "]".toList),
      ("$items(".toList, ",".toList), ("$items(".toList, ")".toList)] := by
  have h : ∀ close ∈ itemsPattern.closes, close = [close.getD 0 ' ', close.getD 1 ' '] ∧
      close.getD 0 ' ' ∈ quotes ∧ ("$items(".toList, [close.getD 1 ' ']) ∈
        [("$(".toList, ")".toList), ("$node[".toList, "]".toList),
          ("$items(".toList, ",".toList), ("$items(".toList, ")".toList)] := by decide
  exact fun close hclose => ⟨_, (h close hclose).2.1, _, (h close hclose).1, (h close hclose).2.2⟩

theorem head?_text (hparts : openings.Split parts) {c : Char} (h : (text parts).head? = some c) :
    c = '$' := by
  cases parts with
  | nil => cases h
  | cons part parts =>
    obtain ⟨rest, hrest, -⟩ := openings.starts _ (hparts part List.mem_cons_self).1
    rw [text, hrest] at h
    exact (Option.some.inj h).symm

theorem tail?_items (h : OnlyReferences (t ++ text parts) previousName newName)
    (hparts : openings.Split parts) {q : Char} (hq : q ∈ quotes) {body : Text} {rest : List Part}
    (hsuffix : ("$items(".toList ++ [q], body) :: rest <:+ parts) :
    tail? itemsPattern.closes previousName body = tail? [[q]] previousName body := by
  have hpart := suffix_text (t := t) hsuffix
  dsimp only at hpart
  refine tail?_congr fun tail hbody => ?_
  constructor
  · rintro ⟨close, hclose, after, rfl⟩
    obtain ⟨q', hq', c, rfl, hmem⟩ := mem_itemsCloses close hclose
    by_cases hqq' : q = q'
    · exact ⟨[q], List.mem_singleton.mpr rfl, hqq' ▸ ⟨c :: after, rfl⟩⟩
    · refine absurd ?_ (h.alike q hq q' hq' hqq' _ hmem)
      rw [hbody] at hpart
      refine List.IsInfix.trans (List.IsPrefix.isInfix ⟨after ++ text rest, ?_⟩) hpart.isInfix
      simp
  · rintro ⟨close, hclose, after, rfl⟩
    obtain rfl := List.mem_singleton.mp hclose
    rw [hbody] at hpart
    have hitems := h.items q hq (after ++ text rest) (by simpa using hpart)
    cases after with
    | nil =>
      rw [List.nil_append] at hitems
      rcases hitems with hitems | hitems
      · exact absurd (head?_text (split_of_suffix hparts hsuffix).tail hitems) (by decide)
      · exact absurd (head?_text (split_of_suffix hparts hsuffix).tail hitems) (by decide)
    | cons c after =>
      have hc : c = ',' ∨ c = ')' := by simpa using hitems
      refine ⟨[q, c], ?_, after, rfl⟩
      have hcloses : ∀ q ∈ quotes, [q, ','] ∈ itemsPattern.closes ∧ [q, ')'] ∈ itemsPattern.closes := by
        decide
      rcases hc with rfl | rfl
      · exact (hcloses q hq).1
      · exact (hcloses q hq).2

theorem itemsPart_eq (h : OnlyReferences (t ++ text parts) previousName newName)
    (hparts : openings.Split parts) {dot : Text → Part}
    (hdot : ∀ tail, lookupEntry (dot tail).1 itemsPattern.forms = none) {part : Part}
    {rest : List Part} (hsuffix : part :: rest <:+ parts) :
    renamePart itemsPattern.forms previousName newName (namesPart previousName newName dot part) =
      referencePart allForms dot previousName newName part := by
  have hword := (hparts part (hsuffix.subset List.mem_cons_self)).1
  rw [namesPart, referencePart, referencePart]
  obtain ⟨o, body⟩ := part
  rcases mem_words hword with rfl | ⟨q, hq, rfl⟩ | ⟨q, hq, rfl⟩ | ⟨q, hq, rfl⟩
  · rw [if_pos rfl, if_pos rfl]
    cases after? previousName body with
    | none => exact renamePart_of_lookup rfl
    | some tail => exact renamePart_of_lookup (hdot tail)
  · obtain ⟨-, -, -, hnames, hne⟩ := call_lookups q hq
    obtain ⟨hall, hitems, -⟩ := allForms_lookups q hq
    rw [if_neg hne, if_neg hne]
    exact (renamePart_of_lookup (by rw [renamePart_fst]; exact hitems)).trans
      (renamePart_congr hnames hall rfl)
  · obtain ⟨-, -, -, hnames, hne⟩ := bracket_lookups q hq
    obtain ⟨-, -, hall, hitems, -⟩ := allForms_lookups q hq
    rw [if_neg hne, if_neg hne]
    exact (renamePart_of_lookup (by rw [renamePart_fst]; exact hitems)).trans
      (renamePart_congr hnames hall rfl)
  · obtain ⟨-, -, -, hnames, hne⟩ := items_lookups q hq
    obtain ⟨-, -, -, -, hall, hitems⟩ := allForms_lookups q hq
    have hself : renamePart (single (callForms ++ bracketForms)) previousName newName
        ("$items(".toList ++ [q], body) = ("$items(".toList ++ [q], body) :=
      renamePart_of_lookup hnames
    rw [if_neg hne, if_neg hne, hself]
    exact renamePart_congr hitems hall (tail?_items h hparts hq hsuffix)

end Passes

end N8n.AccessPatterns
