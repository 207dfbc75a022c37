import N8n.Workflow.RenamedParts

/-!
# What renaming a node does to an expression

The patterns are taken one after the other over the parts of the expression. Where they find
the references and nothing else, what they leave is the expression with its references renamed.
-/

namespace N8n.AccessPatterns

open OrderedMap (lookupEntry)
open Openings (text)

def AccessPattern.forms (pattern : AccessPattern) : List (Text × List Text) :=
  pattern.opens.map fun o => (o, pattern.closes)

theorem match?_forms (pattern : AccessPattern) (previousName newName : Text) :
    pattern.match? previousName newName = formsMatch? pattern.forms previousName newName := by
  funext s
  rw [match?_eq, formsMatch?, AccessPattern.forms, List.findSome?_map]
  rfl

def single (forms : List (Text × Text)) : List (Text × List Text) :=
  forms.map fun form => (form.1, [form.2])

structure QuotedForms (forms : List (Text × List Text)) : Prop where
  opened : ∀ form ∈ forms, form.1 ∈ openings.words
  nodup : (forms.map Prod.fst).Nodup
  unmarked : ∀ form ∈ forms, ∀ close ∈ form.2, openings.mark ∉ close
  quoted : ∀ form ∈ forms, ∀ close ∈ form.2, ∃ q ∈ quotes, close.head? = some q

theorem quotedForms_call : QuotedForms callPattern.forms :=
  ⟨by decide, by decide, by decide, by decide⟩

theorem quotedForms_bracket : QuotedForms bracketPattern.forms :=
  ⟨by decide, by decide, by decide, by decide⟩

theorem quotedForms_items : QuotedForms itemsPattern.forms :=
  ⟨by decide, by decide, by decide, by decide⟩

theorem quotedForms_names : QuotedForms (single (callForms ++ bracketForms)) :=
  ⟨by decide, by decide, by decide, by decide⟩

theorem quotedForms_references :
    QuotedForms (single (callForms ++ bracketForms ++ itemsForms)) :=
  ⟨by decide, by decide, by decide, by decide⟩

/-! ### Names between quotes -/

section Quoted
variable {forms : List (Text × List Text)} {previousName newName t : Text} {parts : List Part}

theorem renamePart_fst (forms : List (Text × List Text)) (previousName newName : Text)
    (part : Part) : (renamePart forms previousName newName part).1 = part.1 := by
  rw [renamePart]
  split <;> rfl

theorem renamePart_of_lookup {part : Part} (h : lookupEntry part.1 forms = none) :
    renamePart forms previousName newName part = part := by
  rw [renamePart, h, Option.bind_none]

theorem QuotedForms.actsOn (hforms : QuotedForms forms)
    (hname : ∀ q ∈ quotes, openings.Free (previousName ++ [q])) {part : Part}
    (hpart : part.1 ∈ openings.words) (hparts : openings.Split parts) :
    ActsOn (formsMatch? forms previousName newName) (renamePart forms previousName newName) part
      (text parts) := by
  refine actsOn_renamePart hforms.opened hforms.nodup hforms.unmarked hpart hparts ?_
  rintro closes rest hlookup heq ⟨close, hclose, rest', rfl⟩
  have hform := (OrderedMap.lookupEntry_eq_some hforms.nodup).mp hlookup
  obtain ⟨q, hq, hhead⟩ := hforms.quoted _ hform close hclose
  obtain ⟨close', rfl⟩ := List.head?_eq_some_iff.mp hhead
  exact isPrefix_of_quotable hq (hname q hq) hparts heq

theorem QuotedForms.replace_eq (hforms : QuotedForms forms)
    (hname : ∀ q ∈ quotes, openings.Free (previousName ++ [q])) (ht : openings.Free t)
    (hparts : openings.Split parts) :
    replace (formsMatch? forms previousName newName) (t ++ text parts) =
      t ++ text (parts.map (renamePart forms previousName newName)) := by
  refine replace_parts (formsMatch?_opened hforms.opened) ht hparts fun part rest hsuffix => ?_
  refine hforms.actsOn hname (hparts part (hsuffix.subset List.mem_cons_self)).1 ?_
  exact fun part hpart => hparts part (hsuffix.subset (List.mem_cons_of_mem _ hpart))

theorem QuotedForms.free_renamePart (hforms : QuotedForms forms)
    (hname : ∀ q ∈ quotes, openings.Free (newName ++ [q])) {part : Part}
    (hpart : openings.Free part.2) :
    openings.Free (renamePart forms previousName newName part).2 := by
  rw [renamePart]
  cases htail : (lookupEntry part.1 forms).bind (tail? · previousName part.2) with
  | none => exact hpart
  | some tail =>
    obtain ⟨closes, hlookup, htail⟩ := Option.bind_eq_some_iff.mp htail
    obtain ⟨hbody, close, hclose, rest, rfl⟩ := tail?_eq_some.mp htail
    have hform := (OrderedMap.lookupEntry_eq_some hforms.nodup).mp hlookup
    obtain ⟨q, hq, hhead⟩ := hforms.quoted _ hform close hclose
    obtain ⟨close', rfl⟩ := List.head?_eq_some_iff.mp hhead
    refine free_quoted hq (hname q hq) (hpart.of_infix ?_)
    rw [hbody]
    exact ((List.suffix_cons q _).trans (List.suffix_append previousName _)).isInfix

theorem QuotedForms.split_map (hforms : QuotedForms forms)
    (hname : ∀ q ∈ quotes, openings.Free (newName ++ [q])) (hparts : openings.Split parts) :
    openings.Split (parts.map (renamePart forms previousName newName)) := by
  intro part' hpart'
  obtain ⟨part, hpart, rfl⟩ := List.mem_map.mp hpart'
  rw [renamePart_fst]
  exact ⟨(hparts part hpart).1, hforms.free_renamePart hname (hparts part hpart).2⟩

end Quoted

/-! ### Names after a dot -/

section Dot
variable {previousName newName t : Text} {parts : List Part}

def dotWord : Text := "$node.".toList

/-- A part with a reference renamed, where `dot` makes the part of a name after a dot. -/
def referencePart (forms : List (Text × List Text)) (dot : Text → Part)
    (previousName newName : Text) (part : Part) : Part :=
  if part.1 = dotWord then
    match after? previousName part.2 with
    | none => part
    | some tail => dot tail
  else renamePart forms previousName newName part

theorem suffix_text {part : Part} {rest : List Part} (h : part :: rest <:+ parts) :
    part.1 ++ (part.2 ++ text rest) <:+ t ++ text parts := by
  obtain ⟨before, rfl⟩ := h
  rw [Openings.text_append]
  exact List.suffix_append_of_suffix (List.suffix_append _ _)

theorem split_of_suffix {rest : List Part} (hparts : openings.Split parts) (h : rest <:+ parts) :
    openings.Split rest := fun part hpart => hparts part (h.subset hpart)

theorem dot_name (h : OnlyReferences (t ++ text parts) previousName newName)
    (hparts : openings.Split parts) {body : Text} {rest : List Part} (hsuffix : (dotWord, body) :: rest <:+ parts)
    {after : Text} (heq : body ++ text rest = previousName ++ after) : previousName <+: body := by
  have hrest := (split_of_suffix hparts hsuffix).tail
  refine isPrefix_of_undisturbed hrest rfl (free_of_quotable (h.quotable '\'' (by decide)).1) ?_ heq
  intro after heq
  have hdot := suffix_text (t := t) hsuffix
  dsimp only at hdot
  rw [heq] at hdot
  exact (h.dot after hdot).2.1

theorem dot_tail (h : OnlyReferences (t ++ text parts) previousName newName) {tail : Text}
    {rest : List Part}
    (hsuffix : (dotWord, previousName ++ tail) :: rest <:+ parts) :
    ¬ (tail ++ text rest).head?.any isIdentifierChar ∧
      Undisturbed newName (tail ++ text rest) ∧
      (hasDotNotationBannedChar newName →
        (tail ++ text rest).head? = some ' ' ∨ (tail ++ text rest).head? = some '.') := by
  have hdot := suffix_text (t := t) hsuffix
  rw [List.append_assoc] at hdot
  obtain ⟨hend, -, hnew, hbanned⟩ := h.dot _ hdot
  exact ⟨hend, hnew, hbanned⟩

theorem dotReference?_dot (previousName dotted s : Text) :
    dotReference? previousName dotted (dotWord ++ s) =
      (after? previousName s).bind fun rest =>
        if rest.head?.any isIdentifierChar then none
        else some (dotted, dotWord.length + previousName.length) := by
  have hword : after? dotWord (dotWord ++ s) = some s := after?_eq_some.mpr rfl
  rw [dotReference?]
  change ((after? dotWord (dotWord ++ s)).bind _).bind _ = _
  rw [hword]
  rfl

theorem dotReference?_other {o s : Text} {dotted : Text} (ho : o ∈ openings.words)
    (hne : o ≠ dotWord) : dotReference? previousName dotted (o ++ s) = none := by
  have hafter : after? dotWord (o ++ s) = none := by
    rw [← Option.not_isSome_iff_eq_none, isSome_after?]
    exact fun hstarts => hne (Openings.eq_of_isPrefix ho (by decide) hstarts).symm
  rw [dotReference?]
  change ((after? dotWord (o ++ s)).bind _).bind _ = none
  rw [hafter]
  rfl

theorem reference?_eq (forms : List (Text × Text)) (dotted s : Text) :
    reference? forms dotted previousName newName s =
      (formsMatch? (single forms) previousName newName s).or
        (dotReference? previousName dotted s) := by
  rw [reference?, formsMatch?, single, List.findSome?_map]
  rfl

theorem actsOn_reference (h : OnlyReferences (t ++ text parts) previousName newName)
    (hparts : openings.Split parts) {forms : List (Text × Text)} {dotted : Text} {dot : Text → Part}
    (hforms : QuotedForms (single forms)) (hlookup : lookupEntry dotWord (single forms) = none)
    (hdot : ∀ tail, (dot tail).1 ++ (dot tail).2 = dotted ++ tail) {part : Part} {rest : List Part}
    (hsuffix : part :: rest <:+ parts) :
    ActsOn (reference? forms dotted previousName newName)
      (referencePart (single forms) dot previousName newName) part (text rest) := by
  have hrest := (split_of_suffix hparts hsuffix).tail
  have hpart := (hparts part (hsuffix.subset List.mem_cons_self)).1
  obtain ⟨o, body⟩ := part
  rw [ActsOn, referencePart, reference?_eq]
  dsimp only at hpart ⊢
  split_ifs with ho
  · subst ho
    rw [formsMatch?_part hforms.opened hforms.nodup hpart, hlookup, Option.bind_none,
      Option.none_or, dotReference?_dot]
    cases hafter : after? previousName body with
    | none =>
      refine Or.inl ⟨?_, rfl⟩
      cases hafter' : after? previousName (body ++ text rest) with
      | none => rfl
      | some after =>
        obtain ⟨tail, rfl⟩ := dot_name h hparts hsuffix (after?_eq_some.mp hafter')
        rw [after?_eq_some.mpr rfl] at hafter
        cases hafter
    | some tail =>
      obtain rfl := after?_eq_some.mp hafter
      refine Or.inr ⟨dotted, dotWord.length + previousName.length, ?_, ?_, ?_, ?_⟩
      · rw [List.append_assoc, after?_eq_some.mpr rfl, Option.bind_some,
          if_neg (dot_tail h hsuffix).1]
      · exact Nat.add_pos_left (by decide) _
      · simp only [List.length_append]
        omega
      · dsimp only
        rw [hdot, ← List.append_assoc, List.drop_left' (by simp only [List.length_append])]
  · rw [dotReference?_other hpart ho, Option.or_none]
    exact hforms.actsOn (fun q hq => (h.quotable q hq).1) (show (o, body).1 ∈ _ from hpart) hrest

theorem reference?_opened {forms : List (Text × Text)} {dotted : Text}
    (hforms : QuotedForms (single forms)) :
    Opened (reference? forms dotted previousName newName) := by
  intro s hs
  rw [reference?, Option.isSome_or, Bool.or_eq_true] at hs
  rcases hs with hs | hs
  · have hopened : Opened (formsMatch? (single forms) previousName newName) :=
      formsMatch?_opened hforms.opened
    refine hopened s ?_
    rw [formsMatch?, single, List.findSome?_map]
    exact hs
  · obtain ⟨found, hfound⟩ := Option.isSome_iff_exists.mp hs
    obtain ⟨rest, hrest, -⟩ := Option.bind_eq_some_iff.mp hfound
    obtain ⟨after, hafter, -⟩ := Option.bind_eq_some_iff.mp hrest
    exact ⟨dotWord, by decide, after, (after?_eq_some.mp hafter).symm⟩

theorem replace_reference (h : OnlyReferences (t ++ text parts) previousName newName)
    (ht : openings.Free t) (hparts : openings.Split parts) {forms : List (Text × Text)}
    {dotted : Text} {dot : Text → Part} (hforms : QuotedForms (single forms))
    (hlookup : lookupEntry dotWord (single forms) = none)
    (hdot : ∀ tail, (dot tail).1 ++ (dot tail).2 = dotted ++ tail) :
    replace (reference? forms dotted previousName newName) (t ++ text parts) =
      t ++ text (parts.map (referencePart (single forms) dot previousName newName)) :=
  replace_parts (reference?_opened hforms) ht hparts fun _ _ hsuffix =>
    actsOn_reference h hparts hforms hlookup hdot hsuffix

end Dot

end N8n.AccessPatterns
