import N8n.Workflow.OnlyReferences

/-!
# Names in which no opening begins

A name that can be used after a dot has no `$`. Where the name before has none either, the
parts of an expression stay what they are, and renaming is right for no other expressions
than those with nothing but references.
-/

namespace N8n.AccessPatterns

open OrderedMap (lookupEntry)
open Openings (text)

section Names
variable {previousName newName name rest t : Text} {parts : List Part}

theorem dollar_notMem (h : hasDotNotationBannedChar newName = false) : '$' ∉ newName := by
  intro hmem
  rw [hasDotNotationBannedChar, Bool.or_eq_false_iff, List.any_eq_false] at h
  exact h.2 '$' hmem (by decide)

theorem quotable_of_notMem (h : '$' ∉ name) : ∀ q ∈ quotes, openings.Free (name ++ [q]) := by
  intro q hq
  have hquote : ∀ q ∈ quotes, q ≠ '$' := by decide
  refine Openings.free_of_notMem fun hmem => ?_
  rcases List.mem_append.mp hmem with hmem | hmem
  · exact h hmem
  · exact hquote q hq (List.mem_singleton.mp hmem).symm

theorem undisturbed_of_notMem (h : '$' ∉ name) : Undisturbed name rest := by
  intro v hv hne o ho hstarts
  obtain ⟨after, rfl, -⟩ := openings.starts o ho
  cases v with
  | nil => exact hne rfl
  | cons c v =>
    have hc := (List.cons_prefix_cons.mp hstarts).1
    exact h (hv.subset (hc ▸ List.mem_cons_self))

theorem free_renamePart (forms : List (Text × List Text)) (h : '$' ∉ newName) {part : Part}
    (hpart : openings.Free part.2) :
    openings.Free (renamePart forms previousName newName part).2 := by
  rw [renamePart]
  cases htail : (lookupEntry part.1 forms).bind (tail? · previousName part.2) with
  | none => exact hpart
  | some tail =>
    obtain ⟨closes, -, htail⟩ := Option.bind_eq_some_iff.mp htail
    refine Openings.free_append h (hpart.of_infix ?_)
    rw [(tail?_eq_some.mp htail).1]
    exact (List.suffix_append _ _).isInfix

/-! ### What the patterns leave -/

def codePart (previousName newName : Text) (part : Part) : Part :=
  renamePart itemsPattern.forms previousName newName
    (renamePart dotPattern.forms previousName newName (quotedPart previousName newName part))

theorem codePart_fst (part : Part) : (codePart previousName newName part).1 = part.1 := by
  rw [codePart, renamePart_fst, renamePart_fst, quotedPart_fst]

theorem split_map {f : Part → Part} (hparts : openings.Split parts)
    (hfst : ∀ part, (f part).1 = part.1)
    (hfree : ∀ part, openings.Free part.2 → openings.Free (f part).2) :
    openings.Split (parts.map f) := by
  intro part' hpart'
  obtain ⟨part, hpart, rfl⟩ := List.mem_map.mp hpart'
  rw [hfst]
  exact ⟨(hparts part hpart).1, hfree part (hparts part hpart).2⟩

theorem replace_dotForms (hold : '$' ∉ previousName) (ht : openings.Free t)
    (hparts : openings.Split parts) :
    replace (dotPattern.match? previousName newName) (t ++ text parts) =
      t ++ text (parts.map (renamePart dotPattern.forms previousName newName)) := by
  have hopened : ∀ form ∈ dotPattern.forms, form.1 ∈ openings.words := by decide
  rw [match?_forms]
  refine replace_parts (formsMatch?_opened hopened) ht hparts fun part rest hsuffix => ?_
  refine actsOn_renamePart hopened (by decide) (by decide)
    (hparts part (hsuffix.subset List.mem_cons_self)).1 (split_of_suffix hparts hsuffix).tail ?_
  intro closes after _ heq _
  exact (split_of_suffix hparts hsuffix).tail.isPrefix hold ⟨after, heq.symm⟩

theorem applyAccessPatterns_parts (hold : '$' ∉ previousName)
    (hnew : hasDotNotationBannedChar newName = false) (ht : openings.Free t)
    (hparts : openings.Split parts) (hincludes : previousName <:+: t ++ text parts) :
    applyAccessPatterns (t ++ text parts) previousName newName =
      t ++ text (parts.map (codePart previousName newName)) := by
  have hcode : includes (t ++ text parts) previousName = true := decide_eq_true hincludes
  have hdollar := dollar_notMem hnew
  have hquotable := quotable_of_notMem hold
  have hcallback : (dotCallback · newName) = id := by
    funext s
    rw [dotCallback, hnew]
    rfl
  have hcall := split_map (f := renamePart callPattern.forms previousName newName) hparts
    (renamePart_fst _ _ _) fun _ => free_renamePart _ hdollar
  have hbracket := split_map (f := renamePart bracketPattern.forms previousName newName) hcall
    (renamePart_fst _ _ _) fun _ => free_renamePart _ hdollar
  have hdot := split_map (f := renamePart dotPattern.forms previousName newName) hbracket
    (renamePart_fst _ _ _) fun _ => free_renamePart _ hdollar
  rw [applyAccessPatterns, if_pos hcode, hcallback, apply_id _ (by decide), apply_id _ (by decide),
    apply_id _ (by decide), apply_id _ (by decide), match?_forms callPattern,
    match?_forms bracketPattern, match?_forms itemsPattern,
    quotedForms_call.replace_eq hquotable ht hparts,
    quotedForms_bracket.replace_eq hquotable ht hcall, replace_dotForms hold ht hbracket,
    quotedForms_items.replace_eq hquotable ht hdot, List.map_map, List.map_map, List.map_map]
  rfl

/-! ### What the references are -/

/-- A part with its reference renamed, which depends on the text after a name after a dot. -/
def specPart (previousName newName : Text) (part : Part) (rest : List Part) : Part :=
  if part.1 = dotWord then
    match after? previousName part.2 with
    | none => part
    | some tail =>
      if (tail ++ text rest).head?.any isIdentifierChar then part else plainDot newName tail
  else renamePart allForms previousName newName part

theorem specPart_fst (part : Part) (rest : List Part) :
    (specPart previousName newName part rest).1 = part.1 := by
  rw [specPart]
  split_ifs with ho
  · split
    · rfl
    · split_ifs
      · rfl
      · exact ho.symm
  · exact renamePart_fst _ _ _ _

theorem free_specPart (hnew : '$' ∉ newName) {part : Part} (rest : List Part)
    (hpart : openings.Free part.2) : openings.Free (specPart previousName newName part rest).2 := by
  rw [specPart]
  split_ifs with ho
  · cases hafter : after? previousName part.2 with
    | none => exact hpart
    | some tail =>
      dsimp only
      split_ifs
      · exact hpart
      · refine Openings.free_append hnew (hpart.of_infix ?_)
        rw [after?_eq_some.mp hafter]
        exact (List.suffix_append _ _).isInfix
  · exact free_renamePart _ hnew hpart

theorem actsOn_specPart (hold : '$' ∉ previousName) (hnew : hasDotNotationBannedChar newName = false)
    {part : Part} (hpart : part.1 ∈ openings.words) {rest : List Part}
    (hrest : openings.Split rest) :
    ActsOn (reference? (callForms ++ bracketForms ++ itemsForms) (nodeProperty newName)
      previousName newName) (specPart previousName newName · rest) part (text rest) := by
  obtain ⟨o, body⟩ := part
  rw [ActsOn, reference?_eq]
  dsimp only at hpart ⊢
  by_cases ho : o = dotWord
  · subst ho
    have hlookup : lookupEntry dotWord allForms = none := rfl
    rw [formsMatch?_part quotedForms_references.opened quotedForms_references.nodup hpart, hlookup,
      Option.bind_none, Option.none_or, dotReference?_dot, specPart, if_pos rfl]
    cases hafter : after? previousName body with
    | none =>
      refine Or.inl ⟨?_, rfl⟩
      cases hafter' : after? previousName (body ++ text rest) with
      | none => rfl
      | some after =>
        obtain ⟨tail, rfl⟩ := hrest.isPrefix hold ⟨after, (after?_eq_some.mp hafter').symm⟩
        rw [after?_eq_some.mpr rfl] at hafter
        cases hafter
    | some tail =>
      obtain rfl := after?_eq_some.mp hafter
      have hwhole : after? previousName (previousName ++ tail ++ text rest) =
          some (tail ++ text rest) := after?_eq_some.mpr (List.append_assoc _ _ _)
      rw [hwhole, Option.bind_some]
      dsimp only
      by_cases hident : (tail ++ text rest).head?.any isIdentifierChar
      · rw [if_pos hident, if_pos hident]
        exact Or.inl ⟨rfl, rfl⟩
      · rw [if_neg hident, if_neg hident]
        refine Or.inr ⟨_, _, rfl, Nat.add_pos_left (by decide) _, ?_, ?_⟩
        · simp only [List.length_append]
          omega
        · rw [nodeProperty, hnew, ← List.append_assoc, List.drop_left' (by simp only [List.length_append])]
          rw [if_neg Bool.false_ne_true, plainDot, List.append_assoc]
          rfl
  · rw [dotReference?_other hpart ho, Option.or_none]
    have hself : specPart previousName newName (o, body) rest =
        renamePart allForms previousName newName (o, body) := by
      rw [specPart, if_neg ho]
    rw [hself]
    exact quotedForms_references.actsOn (quotable_of_notMem hold)
      (show (o, body).1 ∈ _ from hpart) hrest

theorem renameReferences_parts (hold : '$' ∉ previousName)
    (hnew : hasDotNotationBannedChar newName = false) (ht : openings.Free t)
    (hparts : openings.Split parts) :
    renameReferences (t ++ text parts) previousName newName =
      t ++ text (mapParts (specPart previousName newName) parts) := by
  refine replace_mapParts (reference?_opened quotedForms_references) ht hparts
    fun part rest hsuffix => ?_
  exact actsOn_specPart hold hnew (hparts part (hsuffix.subset List.mem_cons_self)).1
    (split_of_suffix hparts hsuffix).tail

/-! ### Part by part -/

theorem split_mapParts {f : Part → List Part → Part} (hparts : openings.Split parts)
    (hfst : ∀ part rest, (f part rest).1 = part.1)
    (hfree : ∀ part rest, openings.Free part.2 → openings.Free (f part rest).2) :
    openings.Split (mapParts f parts) := by
  induction parts with
  | nil => simp [mapParts, Openings.Split]
  | cons part parts ih =>
    intro part' hpart'
    rcases List.mem_cons.mp hpart' with rfl | hpart'
    · have hpart := hparts part List.mem_cons_self
      exact ⟨hfst part parts ▸ hpart.1, hfree part parts hpart.2⟩
    · exact ih hparts.tail part' hpart'

/-- Two changes that keep the openings and give the same text do the same to every part. -/
theorem mapParts_inj {f g : Part → List Part → Part} (hparts : openings.Split parts)
    (hffst : ∀ part rest, (f part rest).1 = part.1) (hgfst : ∀ part rest, (g part rest).1 = part.1)
    (hf : ∀ part rest, openings.Free part.2 → openings.Free (f part rest).2)
    (hg : ∀ part rest, openings.Free part.2 → openings.Free (g part rest).2)
    (h : text (mapParts f parts) = text (mapParts g parts)) {part : Part} {rest : List Part}
    (hsuffix : part :: rest <:+ parts) : f part rest = g part rest := by
  induction parts with
  | nil => exact absurd (List.suffix_nil.mp hsuffix) (List.cons_ne_nil _ _)
  | cons first parts ih =>
    have hfirst := hparts first List.mem_cons_self
    rw [mapParts, mapParts, text, text, hffst, hgfst] at h
    obtain ⟨hbody, htext⟩ := Openings.body_eq (split_mapParts hparts.tail hffst hf)
      (split_mapParts hparts.tail hgfst hg) (hf first parts hfirst.2) (hg first parts hfirst.2) h
    rcases List.suffix_cons_iff.mp hsuffix with heq | hsuffix
    · obtain ⟨rfl, rfl⟩ := List.cons.inj heq
      exact Prod.ext ((hffst _ _).trans (hgfst _ _).symm) hbody
    · exact ih hparts.tail htext hsuffix

theorem codePart_eq_specPart (hold : '$' ∉ previousName)
    (hnew : hasDotNotationBannedChar newName = false) (ht : openings.Free t)
    (hparts : openings.Split parts) (hincludes : previousName <:+: t ++ text parts)
    (h : applyAccessPatterns (t ++ text parts) previousName newName =
      renameReferences (t ++ text parts) previousName newName) {part : Part} {rest : List Part}
    (hsuffix : part :: rest <:+ parts) :
    codePart previousName newName part = specPart previousName newName part rest := by
  have hdollar := dollar_notMem hnew
  rw [applyAccessPatterns_parts hold hnew ht hparts hincludes,
    renameReferences_parts hold hnew ht hparts, ← mapParts_eq_map] at h
  refine mapParts_inj (f := fun part _ => codePart previousName newName part) hparts
    (fun part _ => codePart_fst part) specPart_fst (fun part _ hpart => ?_)
    (fun part rest hpart => free_specPart hdollar rest hpart) (List.append_cancel_left h) hsuffix
  exact free_renamePart _ hdollar (free_renamePart _ hdollar
    (free_renamePart _ hdollar (free_renamePart _ hdollar hpart)))

/-! ### The condition is needed -/

theorem renamePart_renamed {forms : List (Text × List Text)} {closes : List Text} {o tail : Text}
    (hlookup : lookupEntry o forms = some closes) (h : ∃ close ∈ closes, close <+: tail) :
    renamePart forms previousName newName (o, previousName ++ tail) = (o, newName ++ tail) := by
  rw [renamePart]
  dsimp only
  rw [hlookup, Option.bind_some, tail?_eq_some.mpr ⟨rfl, h⟩]

theorem renamePart_kept {forms : List (Text × List Text)} {closes : List Text} {o tail : Text}
    (hlookup : lookupEntry o forms = some closes) (h : ¬ ∃ close ∈ closes, close <+: tail) :
    renamePart forms previousName newName (o, previousName ++ tail) =
      (o, previousName ++ tail) := by
  rw [renamePart]
  dsimp only
  rw [hlookup, Option.bind_some]
  cases htail : tail? closes previousName (previousName ++ tail) with
  | none => rfl
  | some tail' =>
    obtain ⟨heq, hclose⟩ := tail?_eq_some.mp htail
    exact absurd (List.append_cancel_left heq ▸ hclose) h

theorem renamePart_twice (forms' : List (Text × List Text)) {forms : List (Text × List Text)}
    {part : Part} (h : lookupEntry part.1 forms' = none) :
    renamePart forms' previousName newName (renamePart forms previousName newName part) =
      renamePart forms previousName newName part :=
  renamePart_of_lookup (by rw [renamePart_fst, h])

theorem codePart_call {q : Char} (hq : q ∈ quotes) (body : Text) :
    codePart previousName newName ("$(".toList ++ [q], body) =
      renamePart callPattern.forms previousName newName ("$(".toList ++ [q], body) := by
  obtain ⟨-, hbracket, hdot, -⟩ := call_lookups q hq
  obtain ⟨-, hitems, -⟩ := allForms_lookups q hq
  rw [codePart, quotedPart, renamePart_twice bracketPattern.forms hbracket,
    renamePart_twice dotPattern.forms hdot, renamePart_twice itemsPattern.forms hitems]

theorem codePart_bracket {q : Char} (hq : q ∈ quotes) (body : Text) :
    codePart previousName newName ("$node[".toList ++ [q], body) =
      renamePart bracketPattern.forms previousName newName ("$node[".toList ++ [q], body) := by
  obtain ⟨hcall, -, hdot, -⟩ := bracket_lookups q hq
  obtain ⟨-, -, -, hitems, -⟩ := allForms_lookups q hq
  have hself : renamePart callPattern.forms previousName newName ("$node[".toList ++ [q], body) =
      ("$node[".toList ++ [q], body) := renamePart_of_lookup hcall
  rw [codePart, quotedPart, hself, renamePart_twice dotPattern.forms hdot,
    renamePart_twice itemsPattern.forms hitems]

theorem codePart_items {q : Char} (hq : q ∈ quotes) (body : Text) :
    codePart previousName newName ("$items(".toList ++ [q], body) =
      renamePart itemsPattern.forms previousName newName ("$items(".toList ++ [q], body) := by
  obtain ⟨hcall, hbracket, hdot, -⟩ := items_lookups q hq
  have hself : ∀ forms : List (Text × List Text),
      lookupEntry ("$items(".toList ++ [q]) forms = none →
      renamePart forms previousName newName ("$items(".toList ++ [q], body) =
        ("$items(".toList ++ [q], body) := fun _ hnone => renamePart_of_lookup hnone
  rw [codePart, quotedPart, hself _ hcall, hself _ hbracket, hself _ hdot]

theorem codePart_dot (tail : Text) :
    codePart previousName newName (dotWord, previousName ++ tail) = plainDot newName tail := by
  have hafter : after? previousName (previousName ++ tail) = some tail := after?_eq_some.mpr rfl
  rw [codePart, quotedPart_dot rfl, renamePart_dotForms, hafter]
  exact renamePart_of_lookup rfl

theorem specPart_quoted {o body : Text} (ho : o ≠ dotWord) (rest : List Part) :
    specPart previousName newName (o, body) rest =
      renamePart allForms previousName newName (o, body) := by
  rw [specPart, if_neg ho]

section Needed
variable (ht : openings.Free t) (hparts : openings.Split parts) (hold : '$' ∉ previousName)
  (hne : previousName ≠ newName)
  (h : ∀ part rest, part :: rest <:+ parts →
    codePart previousName newName part = specPart previousName newName part rest)
include ht hparts hold hne h

/-- A closing that a pattern knows besides the one of the references does not stand. -/
theorem not_infix_of_parts {o close : Text} {forms : List (Text × List Text)}
    {closes closes' : List Text} (ho : o ∈ openings.words) (hdot : o ≠ dotWord)
    (hcode : ∀ body, codePart previousName newName (o, body) =
      renamePart forms previousName newName (o, body))
    (hlookup : lookupEntry o forms = some closes) (hlookup' : lookupEntry o allForms = some closes')
    (hclose : close ∈ closes) (hdollar : '$' ∉ close)
    (hother : ∀ close' ∈ closes', ∀ after, ¬ close' <+: close ++ after) :
    ¬ o ++ (previousName ++ close) <:+: t ++ text parts := by
  rintro ⟨before, after, heq⟩
  obtain ⟨⟨o', body⟩, rest, hsuffix, rfl, hbody⟩ :=
    hparts.exists_suffix ho ht (s := previousName ++ close ++ after) ⟨before, by rw [← heq]; simp⟩
  have hrest := (split_of_suffix hparts hsuffix).tail
  obtain ⟨tail, rfl⟩ := hrest.isPrefix (s := previousName ++ close) (t := body)
    (by rw [List.mem_append, not_or]; exact ⟨hold, hdollar⟩) ⟨after, hbody⟩
  have hpart := h _ _ hsuffix
  rw [hcode, specPart_quoted hdot, List.append_assoc,
    renamePart_renamed hlookup ⟨close, hclose, List.prefix_append _ _⟩,
    renamePart_kept hlookup' (by rintro ⟨close', hclose', hstarts⟩; exact hother close' hclose' tail hstarts)]
    at hpart
  exact hne (List.append_cancel_right (Prod.mk.inj hpart).2).symm

theorem alike_of_parts {«open» close tail : Text} {pattern : AccessPattern} {q q' : Char}
    (hword : «open» ++ [q] ∈ openings.words) (hdot : «open» ++ [q] ≠ dotWord)
    (hcode : ∀ body, codePart previousName newName («open» ++ [q], body) =
      renamePart pattern.forms previousName newName («open» ++ [q], body))
    (hlookup : lookupEntry («open» ++ [q]) pattern.forms = some pattern.closes)
    (hlookup' : lookupEntry («open» ++ [q]) allForms = some [q :: tail])
    (hclose : q' :: close ∈ pattern.closes) (hdollar : '$' ∉ q' :: close) (hqq' : q ≠ q') :
    ¬ «open» ++ q :: (previousName ++ q' :: close) <:+: t ++ text parts := by
  have hnot := not_infix_of_parts ht hparts hold hne h hword hdot hcode hlookup hlookup' hclose
    hdollar fun close' hclose' after hstarts => ?_
  · rw [List.append_assoc] at hnot
    exact hnot
  · obtain rfl := List.mem_singleton.mp hclose'
    exact hqq' (List.cons_prefix_cons.mp hstarts).1

theorem items_of_parts {q : Char} (hq : q ∈ quotes) {rest : Text}
    (hrest : "$items(".toList ++ q :: (previousName ++ q :: rest) <:+ t ++ text parts) :
    rest.head? = some ',' ∨ rest.head? = some ')' := by
  have hword : ∀ q ∈ quotes, "$items(".toList ++ [q] ∈ openings.words := by decide
  obtain ⟨-, -, -, -, hdot⟩ := items_lookups q hq
  obtain ⟨-, -, -, -, hall, hitems⟩ := allForms_lookups q hq
  obtain ⟨⟨o, body⟩, parts', hsuffix, rfl, hbody⟩ :=
    hparts.exists_suffix (s := previousName ++ q :: rest) (hword q hq) ht (by simpa using hrest)
  have hparts' := (split_of_suffix hparts hsuffix).tail
  obtain ⟨tail, rfl⟩ := isPrefix_of_quotable hq (quotable_of_notMem hold q hq) hparts' hbody.symm
  rw [List.append_assoc, List.append_cancel_left_eq] at hbody
  cases tail with
  | nil =>
    have hhead : (text parts').head? = some q := by rw [← List.nil_append (text parts'), ← hbody]; rfl
    have hquote : ∀ q ∈ quotes, q ≠ '$' := by decide
    exact absurd (head?_text hparts' hhead) (hquote q hq)
  | cons c tail =>
    obtain ⟨rfl, rfl⟩ := List.cons.inj hbody
    by_contra hnot
    have hkept : ¬ ∃ close ∈ itemsPattern.closes, close <+: q :: tail := by
      rintro ⟨close, hclose, after, heq⟩
      obtain ⟨q', -, c, rfl, -⟩ := mem_itemsCloses close hclose
      obtain ⟨rfl, rfl⟩ := List.cons.inj heq
      refine hnot ?_
      have hc : ∀ close ∈ itemsPattern.closes, close[1]? = some ',' ∨ close[1]? = some ')' := by
        decide
      exact hc _ hclose
    have hquote : [q] <+: q :: tail := ⟨tail, rfl⟩
    have hpart := h _ _ hsuffix
    rw [codePart_items hq, specPart_quoted hdot, renamePart_kept hitems hkept,
      renamePart_renamed hall ⟨[q], List.mem_singleton.mpr rfl, hquote⟩] at hpart
    exact hne (List.append_cancel_right (Prod.mk.inj hpart).2)

theorem onlyReferences_of_parts (hnew : hasDotNotationBannedChar newName = false) :
    OnlyReferences (t ++ text parts) previousName newName where
  quotable q hq := ⟨quotable_of_notMem hold q hq, quotable_of_notMem (dollar_notMem hnew) q hq⟩
  alike q hq q' hq' hqq' close hclose := by
    have hwords : ∀ q ∈ quotes, "$(".toList ++ [q] ∈ openings.words ∧
        "$node[".toList ++ [q] ∈ openings.words ∧ "$items(".toList ++ [q] ∈ openings.words := by
      decide
    have hcloses : ∀ q ∈ quotes, [q, ')'] ∈ callPattern.closes ∧ [q, ']'] ∈ bracketPattern.closes ∧
        [q, ','] ∈ itemsPattern.closes ∧ [q, ')'] ∈ itemsPattern.closes := by decide
    have hdollar : ∀ q ∈ quotes, '$' ∉ [q, ')'] ∧ '$' ∉ [q, ']'] ∧ '$' ∉ [q, ','] := by decide
    obtain ⟨hcall, hbracket, hitems⟩ := hwords q hq
    obtain ⟨hcallAll, -, hbracketAll, -, hitemsAll, hitemsOwn⟩ := allForms_lookups q hq
    simp only [List.mem_cons, List.not_mem_nil, or_false] at hclose
    rcases hclose with rfl | rfl | rfl | rfl
    · exact alike_of_parts ht hparts hold hne h hcall (call_lookups q hq).2.2.2.2
        (codePart_call hq) (call_lookups q hq).1 hcallAll (hcloses q' hq').1 (hdollar q' hq').1 hqq'
    · exact alike_of_parts ht hparts hold hne h hbracket (bracket_lookups q hq).2.2.2.2
        (codePart_bracket hq) (bracket_lookups q hq).2.1 hbracketAll (hcloses q' hq').2.1
        (hdollar q' hq').2.1 hqq'
    · exact alike_of_parts ht hparts hold hne h hitems (items_lookups q hq).2.2.2.2
        (codePart_items hq) hitemsOwn hitemsAll (hcloses q' hq').2.2.1 (hdollar q' hq').2.2 hqq'
    · exact alike_of_parts ht hparts hold hne h hitems (items_lookups q hq).2.2.2.2
        (codePart_items hq) hitemsOwn hitemsAll (hcloses q' hq').2.2.2 (hdollar q' hq').1 hqq'
  items q hq rest hrest := items_of_parts ht hparts hold hne h hq hrest
  dot rest hrest := by
    refine ⟨?_, undisturbed_of_notMem hold, undisturbed_of_notMem (dollar_notMem hnew), fun hbanned => ?_⟩
    · obtain ⟨⟨o, body⟩, parts', hsuffix, rfl, hbody⟩ :=
        hparts.exists_suffix (s := previousName ++ rest) dotWord_mem ht hrest
      obtain ⟨tail, rfl⟩ := (split_of_suffix hparts hsuffix).tail.isPrefix hold ⟨rest, hbody⟩
      rw [List.append_assoc, List.append_cancel_left_eq] at hbody
      subst hbody
      have hafter : after? previousName (previousName ++ tail) = some tail := after?_eq_some.mpr rfl
      intro hident
      have hpart := h _ _ hsuffix
      rw [codePart_dot, specPart, if_pos rfl] at hpart
      dsimp only at hpart
      rw [hafter] at hpart
      dsimp only at hpart
      rw [if_pos hident] at hpart
      exact hne (List.append_cancel_right (Prod.mk.inj hpart).2).symm
    · rw [hnew] at hbanned
      cases hbanned
  brackets hbanned := by
    rw [hnew] at hbanned
    cases hbanned

end Needed

end Names

end N8n.AccessPatterns
