import N8n.Workflow.RenamedExpressions

/-!
# Expressions with nothing but references

The rewriting to brackets looks for the new name everywhere in the text. Where it finds the
name in the references only, and the patterns find the references only, renaming a node in an
expression renames the references and leaves everything else.
-/

namespace N8n.AccessPatterns

open OrderedMap (lookupEntry)
open Openings (text)

/-! ### Brackets -/

section Brackets
variable {previousName newName t : Text} {parts : List Part}

theorem dottedName?_eq_some {d : Char} (hd : d ∈ [' ', '.']) (newName s : Text) :
    dottedName? newName ('.' :: (newName ++ d :: s)) =
      some ("[\"".toList ++ newName ++ ("\"]".toList ++ [d]), newName.length + 2) := by
  have hafter : after? newName (newName ++ d :: s) = some (d :: s) := after?_eq_some.mpr rfl
  rw [dottedName?, if_neg (by decide), hafter]
  rcases List.mem_cons.mp hd with rfl | hd
  · rfl
  · obtain rfl := List.mem_singleton.mp hd
    rfl

theorem isPrefix_of_dottedName? {c : Char} {s : Text} (h : (dottedName? newName (c :: s)).isSome) :
    ∃ d ∈ [' ', '.'], newName ++ [d] <+: s := by
  rw [dottedName?] at h
  split_ifs at h with hc
  · cases h
  · split at h
    next after hafter =>
      exact ⟨' ', by decide, after, by rw [after?_eq_some.mp hafter]; simp⟩
    next after hafter =>
      exact ⟨'.', by decide, after, by rw [after?_eq_some.mp hafter]; simp⟩
    next => cases h

def bracketDot (newName tail : Text) : Part :=
  ("$node[\"".toList, newName ++ ("\"]".toList ++ tail))

theorem dotWord_mem : dotWord ∈ openings.words := by decide

theorem namesPart_fst (part : Part) :
    (namesPart previousName newName (plainDot newName) part).1 = part.1 := by
  rw [namesPart, referencePart]
  split_ifs with h
  · split
    · rfl
    · exact h.symm
  · exact renamePart_fst _ _ _ _

theorem namesPart_dot (dot : Text → Part) (tail : Text) :
    namesPart previousName newName dot (dotWord, previousName ++ tail) = dot tail := by
  have hafter : after? previousName (previousName ++ tail) = some tail := after?_eq_some.mpr rfl
  rw [namesPart, referencePart, if_pos rfl]
  dsimp only
  rw [hafter]

theorem namesPart_dot_self {body : Text} (dot : Text → Part) (h : ¬ previousName <+: body) :
    namesPart previousName newName dot (dotWord, body) = (dotWord, body) := by
  have hafter : after? previousName body = none := by
    rw [← Option.not_isSome_iff_eq_none, isSome_after?]
    exact h
  rw [namesPart, referencePart, if_pos rfl]
  dsimp only
  rw [hafter]

theorem namesPart_quoted {part : Part} (dot : Text → Part) (h : part.1 ≠ dotWord) :
    namesPart previousName newName dot part =
      renamePart (single (callForms ++ bracketForms)) previousName newName part := by
  rw [namesPart, referencePart, if_neg h]

theorem head?_map_fst {f : Part → Part} (hf : ∀ part, (f part).1 = part.1) (rest : List Part) :
    (rest.map f).head?.map Prod.fst = rest.head?.map Prod.fst := by
  cases rest with
  | nil => rfl
  | cons part rest => simp only [List.map_cons, List.head?_cons, Option.map_some, hf]

theorem exists_suffix {part : Part} (h : part ∈ parts) : ∃ rest, part :: rest <:+ parts := by
  obtain ⟨before, rest, rfl⟩ := List.append_of_mem h
  exact ⟨rest, List.suffix_append _ _⟩

theorem infix_text {part : Part} (h : part ∈ parts) : part.1 <:+: t ++ text parts := by
  obtain ⟨rest, hsuffix⟩ := exists_suffix h
  exact (List.prefix_append part.1 _).isInfix.trans (suffix_text (t := t) hsuffix).isInfix

theorem split_namesPart_of (h : OnlyReferences (t ++ text parts) previousName newName)
    (hparts : openings.Split parts) {dot : Text → Part}
    (hdot : ∀ tail rest, (dotWord, previousName ++ tail) :: rest <:+ parts →
      openings.Free tail → (dot tail).1 ∈ openings.words ∧ openings.Free (dot tail).2) :
    openings.Split (parts.map (namesPart previousName newName dot)) := by
  intro part' hpart'
  obtain ⟨part, hpart, rfl⟩ := List.mem_map.mp hpart'
  obtain ⟨hword, hfree⟩ := hparts part hpart
  obtain ⟨rest, hsuffix⟩ := exists_suffix hpart
  obtain ⟨o, body⟩ := part
  by_cases ho : o = dotWord
  · subst ho
    by_cases hname : previousName <+: body
    · obtain ⟨tail, rfl⟩ := hname
      rw [namesPart_dot]
      exact hdot tail rest hsuffix (hfree.of_infix (List.suffix_append _ _).isInfix)
    · rw [namesPart_dot_self _ hname]
      exact ⟨hword, hfree⟩
  · rw [namesPart_quoted _ ho]
    exact ⟨by rw [renamePart_fst]; exact hword,
      quotedForms_names.free_renamePart (fun q hq => (h.quotable q hq).2) hfree⟩

theorem split_namesPart (h : OnlyReferences (t ++ text parts) previousName newName)
    (hparts : openings.Split parts) :
    openings.Split (parts.map (namesPart previousName newName (plainDot newName))) :=
  split_namesPart_of h hparts fun _ _ hsuffix htail =>
    ⟨dotWord_mem, free_of_undisturbed (dot_tail h hsuffix).2.1 htail⟩

theorem split_bracketPart (h : OnlyReferences (t ++ text parts) previousName newName)
    (hparts : openings.Split parts) :
    openings.Split (parts.map (namesPart previousName newName (bracketDot newName))) := by
  have hword : "$node[\"".toList ∈ openings.words := by decide
  refine split_namesPart_of h hparts fun tail _ _ htail => ⟨hword, ?_⟩
  have hbracket : openings.Free ([']'] ++ tail) := Openings.free_append (by decide) htail
  exact free_quoted (by decide) (h.quotable '"' (by decide)).2 hbracket

/-- A name and one character more go as far into the next part as its opening is long. -/
theorem isPrefix_of_heads {parts' : List Part} {name body : Text} {d : Char}
    (hparts : openings.Split parts')
    (hopen : parts'.head?.map Prod.fst = parts.head?.map Prod.fst) (hname : openings.Free name)
    (h : name ++ [d] <+: body ++ text parts') : name ++ [d] <+: body ++ text parts := by
  by_cases hbody : name ++ [d] <+: body
  · exact hbody.trans (List.prefix_append _ _)
  · obtain ⟨after, hafter⟩ := h
    obtain ⟨v, o, hsplit, -, ho, hhead, hstarts⟩ := exists_overlap hparts hafter.symm hbody
    rw [hopen] at hhead
    cases parts with
    | nil => cases hhead
    | cons part parts =>
      obtain rfl := Option.some.inj hhead
      have hv : v <+: part.1 := by
        rcases List.prefix_or_prefix_of_prefix hstarts (List.prefix_append v after) with ⟨w, rfl⟩ | hv
        · rcases List.eq_nil_or_concat w with rfl | ⟨w, c, rfl⟩
          · rw [List.append_nil]
          · refine absurd ⟨body, w, ?_⟩ (hname _ ho)
            have hinit : body ++ part.1 ++ w ++ [c] = name ++ [d] := by
              rw [hsplit]
              simp
            exact List.append_inj_left' hinit rfl
        · exact hv
      rw [hsplit, List.prefix_append_right_inj, text]
      exact hv.trans (List.prefix_append _ _)

/-- Where the name matches in a part, the part is opened by `$node.` and the match is at the dot. -/
def AtDot (m : Text → Option (Text × ℕ)) (part : Part) (rest : Text) : Prop :=
  ∀ before c after, part.1 ++ part.2 = before ++ c :: after → (m (c :: (after ++ rest))).isSome →
    before ++ [c] = dotWord ∧ part.1 = dotWord

theorem replaceFrom_atDot {m : Text → Option (Text × ℕ)} {part : Part} {rest : Text}
    (h : AtDot m part rest) (hdot : part.1 = dotWord → m ('.' :: (part.2 ++ rest)) = none) :
    replaceFrom m 0 (part.1 ++ (part.2 ++ rest)) = part.1 ++ (part.2 ++ replaceFrom m 0 rest) := by
  rw [← List.append_assoc, ← List.append_assoc]
  refine replaceFrom_append fun before c after hsplit => ?_
  rw [← Option.not_isSome_iff_eq_none]
  intro hsome
  obtain ⟨hword, hopen⟩ := h before c after hsplit hsome
  have hbody : part.2 = after := by
    have hcut : dotWord ++ part.2 = dotWord ++ after := by
      rw [← hopen, hsplit, ← hword.trans hopen.symm]
      simp
    exact List.append_cancel_left hcut
  have hc : c = '.' := by
    have hlast := congrArg List.getLast? hword
    rw [List.getLast?_append_of_ne_nil _ (List.cons_ne_nil c [])] at hlast
    exact Option.some.inj hlast
  rw [hc, ← hbody, hdot hopen] at hsome
  cases hsome

theorem replaceFrom_bracket {tail rest : Text} {d : Char} (hd : d ∈ [' ', '.'])
    (h : AtDot (dottedName? newName) (plainDot newName (d :: tail)) rest) :
    replaceFrom (dottedName? newName) 0 (dotWord ++ ((newName ++ d :: tail) ++ rest)) =
      "$node[\"".toList ++ ((newName ++ ("\"]".toList ++ d :: tail)) ++
        replaceFrom (dottedName? newName) 0 rest) := by
  have hnode : ∀ s, dotWord ++ s = "$node".toList ++ '.' :: s := fun _ => rfl
  have hlong : ∀ {before : Text} {c : Char}, before ++ [c] = dotWord → before.length = 5 := by
    intro before c hword
    have hlength := congrArg List.length hword
    rw [List.length_append] at hlength
    exact Nat.succ.inj hlength
  have hmatch := dottedName?_eq_some hd newName (tail ++ rest)
  have hfirst : replaceFrom (dottedName? newName) 0
      ("$node".toList ++ '.' :: ((newName ++ d :: tail) ++ rest)) = "$node".toList ++
        replaceFrom (dottedName? newName) 0 ('.' :: ((newName ++ d :: tail) ++ rest)) := by
    refine replaceFrom_append fun before c after hsplit => ?_
    rw [← Option.not_isSome_iff_eq_none]
    intro hsome
    have hlength := congrArg List.length hsplit
    have hword := (h before c (after ++ '.' :: (newName ++ d :: tail)) ?_ ?_).1
    · rw [List.length_append, hlong hword, List.length_cons] at hlength
      have h5 : "$node".toList.length = 5 := rfl
      omega
    · rw [plainDot, hnode, hsplit]
      simp
    · simpa using hsome
  have hlast : replaceFrom (dottedName? newName) 0 (tail ++ rest) =
      tail ++ replaceFrom (dottedName? newName) 0 rest := by
    refine replaceFrom_append fun before c after hsplit => ?_
    rw [← Option.not_isSome_iff_eq_none]
    intro hsome
    have hword := (h (dotWord ++ (newName ++ d :: before)) c after ?_ hsome).1
    · have h5 := hlong hword
      rw [List.length_append] at h5
      have h6 : dotWord.length = 6 := rfl
      omega
    · rw [plainDot, hsplit]
      simp
  have hmatched : replaceFrom (dottedName? newName) 0 ('.' :: ((newName ++ d :: tail) ++ rest)) =
      ("[\"".toList ++ newName ++ ("\"]".toList ++ [d])) ++
        replaceFrom (dottedName? newName) 0 (tail ++ rest) := by
    have hsplit : '.' :: ((newName ++ d :: tail) ++ rest) =
        '.' :: (newName ++ d :: (tail ++ rest)) := by simp
    have hdrop : '.' :: (newName ++ d :: (tail ++ rest)) =
        ('.' :: (newName ++ [d])) ++ (tail ++ rest) := by simp
    rw [hsplit, replaceFrom_match hmatch (List.cons_ne_nil _ _) (by omega), hdrop,
      List.drop_left' (by simp)]
  rw [hnode, hfirst, hmatched, hlast]
  have hopen : "$node".toList ++ "[\"".toList = "$node[\"".toList := rfl
  rw [← hopen]
  simp

abbrev plainParts (previousName newName : Text) (parts : List Part) : List Part :=
  parts.map (namesPart previousName newName (plainDot newName))

theorem renameNames_eq (h : OnlyReferences (t ++ text parts) previousName newName)
    (ht : openings.Free t) (hparts : openings.Split parts) :
    renameNames (t ++ text parts) previousName newName =
      t ++ text (plainParts previousName newName parts) :=
  replace_reference h ht hparts quotedForms_names rfl fun tail => by
    rw [plainDot, ← List.append_assoc]
    rfl

theorem dotWord_isSuffix {before : Text} {c : Char} (hc : c = '.')
    (h : "$node".toList <:+ before) : dotWord <:+ before ++ [c] := by
  obtain ⟨start, rfl⟩ := h
  exact ⟨start, by rw [hc, List.append_assoc]; rfl⟩

theorem atDot_namesPart (h : OnlyReferences (t ++ text parts) previousName newName)
    (ht : openings.Free t) (hparts : openings.Split parts)
    (hbanned : hasDotNotationBannedChar newName = true) (hdot : dotWord <:+: t ++ text parts)
    {part : Part} {rest : List Part} (hsuffix : part :: rest <:+ parts) :
    AtDot (dottedName? newName) (namesPart previousName newName (plainDot newName) part)
      (text (plainParts previousName newName rest)) := by
  have honly := (h.brackets hbanned hdot).1
  rw [renameNames_eq h ht hparts] at honly
  have hpart := split_namesPart h hparts _
    (List.mem_map_of_mem (hsuffix.subset List.mem_cons_self))
  obtain ⟨pre, rfl⟩ := hsuffix
  intro before c after hcut hsome
  have hwhole : t ++ text (plainParts previousName newName (pre ++ part :: rest)) =
      (t ++ (text (plainParts previousName newName pre) ++ before)) ++
        c :: (after ++ text (plainParts previousName newName rest)) := by
    rw [plainParts, List.map_append, Openings.text_append, List.map_cons, text,
      ← List.append_assoc (namesPart _ _ _ _).1, hcut]
    simp
  obtain ⟨hc, hbefore⟩ := honly _ c _ hwhole hsome
  have hsuffix := dotWord_isSuffix hc hbefore
  rw [← List.append_assoc, List.append_assoc] at hsuffix
  obtain ⟨hopen, hword⟩ := Openings.eq_of_isSuffix hpart.1 (by decide) hpart.2
    ⟨after, by rw [hcut]; simp⟩ (by simp) hsuffix
  exact ⟨hword.trans hopen.symm, hopen.symm⟩

/-- A name that is no reference keeps its dot. -/
theorem no_dottedName? (h : OnlyReferences (t ++ text parts) previousName newName)
    (hparts : openings.Split parts) (hbanned : hasDotNotationBannedChar newName = true)
    (hdot : dotWord <:+: t ++ text parts) {body : Text} {rest : List Part}
    (hsuffix : (dotWord, body) :: rest <:+ parts) (hname : ¬ previousName <+: body) :
    dottedName? newName ('.' :: (body ++ text (plainParts previousName newName rest))) = none := by
  rw [← Option.not_isSome_iff_eq_none]
  intro hsome
  obtain ⟨d, hd, hstarts⟩ := isPrefix_of_dottedName? hsome
  have hfree := free_of_quotable (h.quotable '\'' (by decide)).2
  have hrest : openings.Split (plainParts previousName newName rest) := fun part hpart =>
    split_namesPart h hparts part
      (List.map_subset _ (List.Subset.trans (List.subset_cons_self _ _) hsuffix.subset) hpart)
  have hold : newName ++ [d] <+: body ++ text rest :=
    isPrefix_of_heads hrest (head?_map_fst namesPart_fst rest) hfree hstarts
  rcases (h.brackets hbanned hdot).2 with rfl | hother
  · obtain ⟨after, hafter⟩ := hold
    rw [List.append_assoc] at hafter
    exact hname (dot_name h hparts hsuffix hafter.symm)
  · refine hother d hd (List.IsInfix.trans ?_ (suffix_text (t := t) hsuffix).isInfix)
    exact ((List.prefix_append_right_inj _).mpr hold).isInfix

/-- A reference after a dot goes on with a blank or a dot. -/
theorem bracket_tail (h : OnlyReferences (t ++ text parts) previousName newName)
    (hparts : openings.Split parts) (hbanned : hasDotNotationBannedChar newName = true)
    {tail : Text} {rest : List Part}
    (hsuffix : (dotWord, previousName ++ tail) :: rest <:+ parts) :
    ∃ d after, tail = d :: after ∧ d ∈ [' ', '.'] := by
  have hhead := (dot_tail h hsuffix).2.2 hbanned
  cases tail with
  | nil =>
    rw [List.nil_append] at hhead
    rcases hhead with hhead | hhead
    · exact absurd (head?_text (split_of_suffix hparts hsuffix).tail hhead) (by decide)
    · exact absurd (head?_text (split_of_suffix hparts hsuffix).tail hhead) (by decide)
  | cons d after =>
    refine ⟨d, after, rfl, ?_⟩
    simpa using hhead

theorem replaceFrom_namesPart (h : OnlyReferences (t ++ text parts) previousName newName)
    (ht : openings.Free t) (hparts : openings.Split parts)
    (hbanned : hasDotNotationBannedChar newName = true) (hdot : dotWord <:+: t ++ text parts)
    {part : Part} {rest : List Part} (hsuffix : part :: rest <:+ parts) :
    replaceFrom (dottedName? newName) 0 (text (plainParts previousName newName (part :: rest))) =
      (namesPart previousName newName (bracketDot newName) part).1 ++
        ((namesPart previousName newName (bracketDot newName) part).2 ++
          replaceFrom (dottedName? newName) 0 (text (plainParts previousName newName rest))) := by
  have hatDot := atDot_namesPart h ht hparts hbanned hdot hsuffix
  rw [plainParts, List.map_cons, text]
  obtain ⟨o, body⟩ := part
  by_cases ho : o = dotWord
  · subst ho
    by_cases hname : previousName <+: body
    · obtain ⟨tail, rfl⟩ := hname
      obtain ⟨d, after, rfl, hd⟩ := bracket_tail h hparts hbanned hsuffix
      rw [namesPart_dot] at hatDot ⊢
      rw [namesPart_dot]
      exact replaceFrom_bracket hd hatDot
    · have hnone := no_dottedName? h hparts hbanned hdot hsuffix hname
      rw [namesPart_dot_self _ hname] at hatDot ⊢
      rw [namesPart_dot_self _ hname]
      exact replaceFrom_atDot hatDot fun _ => hnone
  · rw [namesPart_quoted _ ho] at hatDot ⊢
    rw [namesPart_quoted _ ho]
    refine replaceFrom_atDot hatDot fun hopen => ?_
    rw [renamePart_fst] at hopen
    exact absurd hopen ho

/-- The rewriting to brackets changes the references after a dot and nothing else. -/
theorem replace_brackets (h : OnlyReferences (t ++ text parts) previousName newName)
    (ht : openings.Free t) (hparts : openings.Split parts)
    (hbanned : hasDotNotationBannedChar newName = true) (hdot : dotWord <:+: t ++ text parts) :
    replace (dottedName? newName) (t ++ text (plainParts previousName newName parts)) =
      t ++ text (parts.map (namesPart previousName newName (bracketDot newName))) := by
  have honly := (h.brackets hbanned hdot).1
  rw [renameNames_eq h ht hparts] at honly
  have hstart : replaceFrom (dottedName? newName) 0
      (t ++ text (plainParts previousName newName parts)) =
      t ++ replaceFrom (dottedName? newName) 0 (text (plainParts previousName newName parts)) := by
    refine replaceFrom_append fun before c after hcut => ?_
    rw [← Option.not_isSome_iff_eq_none]
    intro hsome
    obtain ⟨hc, hbefore⟩ := honly before c _ (by rw [hcut, List.append_assoc, List.cons_append]) hsome
    refine ht dotWord (by decide) ((dotWord_isSuffix hc hbefore).isInfix.trans ?_)
    exact ⟨[], after, by rw [hcut]; simp⟩
  -- the rest is changed part by part
  have hrest : ∀ rest : List Part, rest <:+ parts →
      replaceFrom (dottedName? newName) 0 (text (plainParts previousName newName rest)) =
        text (rest.map (namesPart previousName newName (bracketDot newName))) := by
    intro rest
    induction rest with
    | nil => exact fun _ => rfl
    | cons part rest ih =>
      intro hsuffix
      rw [replaceFrom_namesPart h ht hparts hbanned hdot hsuffix,
        ih ((List.suffix_cons _ _).trans hsuffix), List.map_cons, text]
  rw [replace, hstart, hrest parts (List.suffix_refl _)]

end Brackets

/-! ### The whole expression -/

section Expression
variable {previousName newName t : Text} {parts : List Part}

theorem match?_isPrefix {pattern : AccessPattern} {s : Text}
    (h : (pattern.match? previousName newName s).isSome) : ∃ o ∈ pattern.opens, o <+: s := by
  obtain ⟨found, hfound⟩ := Option.isSome_iff_exists.mp h
  rw [match?_eq] at hfound
  obtain ⟨o, ho, hnamed⟩ := List.exists_of_findSome?_eq_some hfound
  exact ⟨o, ho, named?_isPrefix (by rw [hnamed]; rfl)⟩

theorem replace_of_not_includes {pattern : AccessPattern} {s : Text}
    (hcheck : ∀ o ∈ pattern.opens, pattern.checkPattern <+: o)
    (h : includes s pattern.checkPattern = false) :
    replace (pattern.match? previousName newName) s = s := by
  refine replace_eq_self fun u hu => ?_
  rw [← Option.not_isSome_iff_eq_none]
  intro hsome
  obtain ⟨o, ho, hstarts⟩ := match?_isPrefix hsome
  exact of_decide_eq_false h (((hcheck o ho).trans hstarts).isInfix.trans hu.isInfix)

theorem apply_id {pattern : AccessPattern} (s : Text)
    (hcheck : ∀ o ∈ pattern.opens, pattern.checkPattern <+: o) :
    pattern.apply id previousName newName s = replace (pattern.match? previousName newName) s := by
  rw [AccessPattern.apply]
  split_ifs with h
  · rfl
  · rw [replace_of_not_includes hcheck (eq_false_of_ne_true h)]

def newDot (newName tail : Text) : Part :=
  if hasDotNotationBannedChar newName then bracketDot newName tail else plainDot newName tail

theorem newDot_text (newName tail : Text) :
    (newDot newName tail).1 ++ (newDot newName tail).2 = nodeProperty newName ++ tail := by
  rw [newDot, nodeProperty]
  split_ifs
  · delta bracketDot
    simp
  · rw [plainDot, ← List.append_assoc]
    rfl

theorem newDot_eq (newName : Text) :
    newDot newName = if hasDotNotationBannedChar newName then bracketDot newName
      else plainDot newName := by
  funext tail
  rw [newDot]
  split_ifs <;> rfl

theorem apply_dot (h : OnlyReferences (t ++ text parts) previousName newName)
    (ht : openings.Free t) (hparts : openings.Split parts) :
    dotPattern.apply (dotCallback · newName) previousName newName
        (t ++ text (parts.map (quotedPart previousName newName))) =
      t ++ text (parts.map (namesPart previousName newName (newDot newName))) := by
  have hplain : replace (dotPattern.match? previousName newName)
      (t ++ text (parts.map (quotedPart previousName newName))) =
      t ++ text (plainParts previousName newName parts) := by
    rw [replace_dot h ht hparts, plainParts]
    congr 2
    refine List.map_congr_left fun part hpart => ?_
    obtain ⟨rest, hsuffix⟩ := exists_suffix hpart
    exact dotPart_eq h hparts hsuffix
  have hquoted := split_quotedPart h hparts
  have hcheck : ∀ o ∈ dotPattern.opens, dotPattern.checkPattern <+: o := by decide
  rw [AccessPattern.apply, newDot_eq]
  by_cases hincludes : includes (t ++ text (parts.map (quotedPart previousName newName)))
      dotPattern.checkPattern = true
  · rw [if_pos hincludes, hplain, dotCallback]
    split_ifs with hbanned
    · obtain ⟨part', hpart', hopen⟩ :=
        hquoted.exists_part dotWord_mem ht (of_decide_eq_true hincludes)
      obtain ⟨part, hpart, rfl⟩ := List.mem_map.mp hpart'
      rw [quotedPart_fst] at hopen
      exact replace_brackets h ht hparts hbanned (hopen ▸ infix_text hpart)
    · rfl
  · rw [if_neg hincludes]
    rw [← replace_of_not_includes hcheck (eq_false_of_ne_true hincludes), hplain]
    congr 2
    refine List.map_congr_left fun part hpart => ?_
    -- no part is opened by `$node.`
    have hopen : part.1 ≠ dotWord := by
      intro hopen
      have hinside := infix_text (t := t)
        (List.mem_map_of_mem (f := quotedPart previousName newName) hpart)
      rw [quotedPart_fst, hopen] at hinside
      exact hincludes (decide_eq_true hinside)
    rw [namesPart_quoted _ hopen, namesPart_quoted _ hopen]

/-- Where the patterns find the references only, the references are renamed. -/
theorem applyAccessPatterns_eq {expression : Text}
    (h : OnlyReferences expression previousName newName) (hincludes : previousName <:+: expression) :
    applyAccessPatterns expression previousName newName =
      renameReferences expression previousName newName := by
  obtain ⟨t, parts, rfl, ht, hparts⟩ := openings.exists_split expression
  have hcode : includes (t ++ text parts) previousName = true := decide_eq_true hincludes
  rw [applyAccessPatterns, if_pos hcode, apply_id _ (by decide),
    apply_id _ (by decide), apply_id _ (by decide), replace_quoted h ht hparts,
    apply_dot h ht hparts, match?_forms]
  have hsplit : openings.Split (parts.map (namesPart previousName newName (newDot newName))) := by
    rw [newDot_eq]
    split_ifs
    · exact split_bracketPart h hparts
    · exact split_namesPart h hparts
  rw [quotedForms_items.replace_eq (fun q hq => (h.quotable q hq).1) ht hsplit, List.map_map,
    renameReferences, replace_reference h ht hparts quotedForms_references rfl (newDot_text newName)]
  congr 2
  refine List.map_congr_left fun part hpart => ?_
  obtain ⟨rest, hsuffix⟩ := exists_suffix hpart
  refine itemsPart_eq h hparts (fun tail => ?_) hsuffix
  rw [newDot]
  split_ifs <;> rfl

end Expression

end N8n.AccessPatterns
