import N8n.Workflow.NodeReferences
import N8n.Foundations.OrderedMap
import Mathlib.Tactic.SplitIfs

/-!
# Renaming part by part

An expression is split where its openings stand. A pattern that is opened by these words
changes every part on its own, as long as no opening begins in a name.
-/

namespace N8n.AccessPatterns

open OrderedMap (lookupEntry)
open Openings (text)

theorem after?_eq_some {p s t : Text} : after? p s = some t ↔ s = p ++ t := by
  induction p generalizing s with
  | nil => simp [after?]
  | cons c p ih =>
    cases s with
    | nil => simp [after?]
    | cons d s =>
      rw [after?]
      split_ifs with h
      · rw [ih, h, List.cons_append, List.cons.injEq]
        exact ⟨fun h => ⟨rfl, h⟩, fun h => h.2⟩
      · rw [List.cons_append, List.cons.injEq]
        exact ⟨nofun, fun h' => absurd h'.1.symm h⟩

theorem isSome_after? {p s : Text} : (after? p s).isSome ↔ p <+: s := by
  rw [Option.isSome_iff_exists]
  exact ⟨fun ⟨t, ht⟩ => ⟨t, (after?_eq_some.mp ht).symm⟩, fun ⟨t, ht⟩ => ⟨t, after?_eq_some.mpr ht.symm⟩⟩

/-! ### Replacing -/

section Replace
variable {m : Text → Option (Text × ℕ)}

theorem replaceFrom_drop (m : Text → Option (Text × ℕ)) (n : ℕ) (s : Text) :
    replaceFrom m n s = replaceFrom m 0 (s.drop n) := by
  induction n generalizing s with
  | zero => rfl
  | succ n ih =>
    cases s with
    | nil => rfl
    | cons c s => rw [replaceFrom, List.drop_succ_cons, ih]

/-- Nothing is replaced before the first match. -/
theorem replaceFrom_append {s rest : Text}
    (h : ∀ before c after, s = before ++ c :: after → m (c :: (after ++ rest)) = none) :
    replaceFrom m 0 (s ++ rest) = s ++ replaceFrom m 0 rest := by
  induction s with
  | nil => rfl
  | cons c s ih =>
    rw [List.cons_append, replaceFrom, h [] c s rfl]
    dsimp only
    rw [ih fun before d after hs => h (c :: before) d after (by rw [hs, List.cons_append]),
      List.cons_append]

theorem replaceFrom_match {s replacement : Text} {n : ℕ} (h : m s = some (replacement, n))
    (hs : s ≠ []) (hn : 0 < n) : replaceFrom m 0 s = replacement ++ replaceFrom m 0 (s.drop n) := by
  obtain ⟨n, rfl⟩ := Nat.exists_eq_succ_of_ne_zero hn.ne'
  cases s with
  | nil => exact absurd rfl hs
  | cons c s =>
    rw [replaceFrom, h]
    dsimp only
    rw [replaceFrom_drop, Nat.succ_sub_one, List.drop_succ_cons]

theorem replace_eq_self {s : Text} (h : ∀ t, t <:+ s → m t = none) : replace m s = s := by
  have hnone : replaceFrom m 0 (s ++ []) = s ++ replaceFrom m 0 [] :=
    replaceFrom_append fun before c after hs => by
      rw [List.append_nil]
      exact h _ (hs ▸ List.suffix_append _ _)
  rwa [List.append_nil, replaceFrom, List.append_nil] at hnone

end Replace

/-! ### One part -/

section Parts
variable {m : Text → Option (Text × ℕ)}

abbrev Part := Text × Text

/-- A match at the opening of a part changes the part and no more. -/
def ActsOn (m : Text → Option (Text × ℕ)) (f : Part → Part) (part : Part) (rest : Text) : Prop :=
  (m (part.1 ++ (part.2 ++ rest)) = none ∧ f part = part) ∨
    ∃ replacement n, m (part.1 ++ (part.2 ++ rest)) = some (replacement, n) ∧ 0 < n ∧
      n ≤ (part.1 ++ part.2).length ∧
      (f part).1 ++ (f part).2 = replacement ++ (part.1 ++ part.2).drop n

/-- The pattern only matches where an opening begins. -/
def Opened (m : Text → Option (Text × ℕ)) : Prop :=
  ∀ s, (m s).isSome → ∃ o ∈ openings.words, o <+: s

theorem replaceFrom_free (hm : Opened m) {t : Text} {parts : List Part}
    (ht : openings.Free t) (hparts : openings.Split parts) :
    replaceFrom m 0 (t ++ text parts) = t ++ replaceFrom m 0 (text parts) := by
  refine replaceFrom_append fun before c after hsplit => ?_
  rw [← Option.not_isSome_iff_eq_none, ← List.cons_append]
  intro hsome
  obtain ⟨o, ho, hstarts⟩ := hm _ hsome
  exact hparts.not_isPrefix ht (hsplit ▸ List.suffix_append _ _) (List.cons_ne_nil _ _) ho hstarts

/-- Every part is changed by itself and what follows it. -/
def mapParts (f : Part → List Part → Part) : List Part → List Part
  | [] => []
  | part :: parts => f part parts :: mapParts f parts

theorem mapParts_eq_map (f : Part → Part) (parts : List Part) :
    mapParts (fun part _ => f part) parts = parts.map f := by
  induction parts with
  | nil => rfl
  | cons part parts ih => rw [mapParts, ih, List.map_cons]

theorem replace_mapParts (hm : Opened m) {f : Part → List Part → Part} {t : Text}
    {parts : List Part} (ht : openings.Free t) (hparts : openings.Split parts)
    (hf : ∀ part rest, part :: rest <:+ parts → ActsOn m (f · rest) part (text rest)) :
    replace m (t ++ text parts) = t ++ text (mapParts f parts) := by
  rw [replace, replaceFrom_free hm ht hparts]
  congr 1
  clear ht
  induction parts with
  | nil => rfl
  | cons part parts ih =>
    have hrest := ih hparts.tail fun part rest hsuffix =>
      hf part rest (hsuffix.trans (List.suffix_cons _ _))
    obtain ⟨ho, hfree⟩ := hparts part List.mem_cons_self
    obtain ⟨rest, hword, -⟩ := openings.starts _ ho
    have hbody := Openings.free_part ho hword hfree
    rw [mapParts, text, text, ← hrest]
    rcases hf part parts (List.suffix_refl _) with ⟨hnone, hself⟩ | ⟨replacement, n, hsome, hpos, hle, heq⟩
    · dsimp only at hself
      rw [hself]
      rw [hword] at hnone ⊢
      rw [List.cons_append] at hnone
      rw [List.cons_append, replaceFrom, hnone]
      dsimp only
      rw [← List.append_assoc, replaceFrom_free hm hbody hparts.tail, List.cons_append,
        List.append_assoc]
    · dsimp only at heq
      rw [replaceFrom_match hsome (by rw [hword]; exact List.cons_ne_nil _ _) hpos,
        ← List.append_assoc part.1, List.drop_append_of_le_length hle, ← List.append_assoc,
        heq, List.append_assoc]
      congr 1
      refine replaceFrom_free hm (hbody.of_infix ?_) hparts.tail
      obtain ⟨n, rfl⟩ := Nat.exists_eq_succ_of_ne_zero hpos.ne'
      rw [hword, List.cons_append, List.drop_succ_cons]
      exact (List.drop_suffix _ _).isInfix

theorem replace_parts (hm : Opened m) {f : Part → Part} {t : Text} {parts : List Part}
    (ht : openings.Free t) (hparts : openings.Split parts)
    (hf : ∀ part rest, part :: rest <:+ parts → ActsOn m f part (text rest)) :
    replace m (t ++ text parts) = t ++ text (parts.map f) := by
  rw [replace_mapParts hm ht hparts hf, mapParts_eq_map]

end Parts

/-! ### Names between an opening and a closing -/

section Forms
variable {forms : List (Text × List Text)} {closes : List Text} {previousName newName : Text}

def formsMatch? (forms : List (Text × List Text)) (previousName newName s : Text) :
    Option (Text × ℕ) :=
  forms.findSome? fun form => named? form.1 form.2 previousName newName s

/-- What follows the name in a part, where one of the texts closes it. -/
def tail? (closes : List Text) (previousName body : Text) : Option Text :=
  (after? previousName body).filter fun tail => closes.any fun close => (after? close tail).isSome

def renamePart (forms : List (Text × List Text)) (previousName newName : Text) (part : Part) :
    Part :=
  match (lookupEntry part.1 forms).bind (tail? · previousName part.2) with
  | none => part
  | some tail => (part.1, newName ++ tail)

theorem tail?_eq_some {body tail : Text} :
    tail? closes previousName body = some tail ↔
      body = previousName ++ tail ∧ ∃ close ∈ closes, close <+: tail := by
  rw [tail?, Option.filter_eq_some_iff, after?_eq_some]
  simp only [List.any_eq_true, isSome_after?]

theorem named?_eq_none {o s : Text} (h : ∀ close ∈ closes, ¬ o ++ (previousName ++ close) <+: s) :
    named? o closes previousName newName s = none := by
  rw [named?, Option.bind_eq_none_iff]
  intro rest hrest
  obtain ⟨t, ht, hrest⟩ := Option.bind_eq_some_iff.mp hrest
  rw [List.findSome?_eq_none_iff]
  intro close hclose
  rw [Option.map_eq_none_iff, ← Option.not_isSome_iff_eq_none, isSome_after?]
  rintro ⟨u, rfl⟩
  refine h close hclose ⟨u, ?_⟩
  rw [after?_eq_some.mp ht, after?_eq_some.mp hrest]
  simp

theorem named?_eq_some (previousName newName o : Text) {rest : Text}
    (h : ∃ close ∈ closes, close <+: rest) :
    ∃ close ∈ closes, close <+: rest ∧
      named? o closes previousName newName (o ++ (previousName ++ rest)) =
        some (o ++ newName ++ close, o.length + previousName.length + close.length) := by
  rw [named?, after?_eq_some.mpr rfl, Option.bind_some, after?_eq_some.mpr rfl, Option.bind_some]
  cases hfound : closes.findSome? fun close => (after? close rest).map fun _ =>
      (o ++ newName ++ close, o.length + previousName.length + close.length) with
  | none =>
    obtain ⟨close, hclose, hstarts⟩ := h
    have hnone := List.findSome?_eq_none_iff.mp hfound close hclose
    rw [Option.map_eq_none_iff, ← Option.not_isSome_iff_eq_none, isSome_after?] at hnone
    exact absurd hstarts hnone
  | some found =>
    obtain ⟨close, hclose, hfound⟩ := List.exists_of_findSome?_eq_some hfound
    obtain ⟨_, hafter, rfl⟩ := Option.map_eq_some_iff.mp hfound
    exact ⟨close, hclose, isSome_after?.mp (by rw [hafter]; rfl), rfl⟩

theorem named?_isPrefix {o s : Text} (h : (named? o closes previousName newName s).isSome) :
    o <+: s := by
  obtain ⟨found, hfound⟩ := Option.isSome_iff_exists.mp h
  obtain ⟨rest, hrest, -⟩ := Option.bind_eq_some_iff.mp hfound
  obtain ⟨t, ht, -⟩ := Option.bind_eq_some_iff.mp hrest
  exact ⟨t, (after?_eq_some.mp ht).symm⟩

theorem formsMatch?_opened (hforms : ∀ form ∈ forms, form.1 ∈ openings.words) :
    Opened (formsMatch? forms previousName newName) := by
  intro s hs
  obtain ⟨found, hfound⟩ := Option.isSome_iff_exists.mp hs
  obtain ⟨form, hform, hnamed⟩ := List.exists_of_findSome?_eq_some hfound
  exact ⟨form.1, hforms form hform, named?_isPrefix (by rw [hnamed]; rfl)⟩

/-- Only the form with the opening of a part can match there. -/
theorem formsMatch?_part (hforms : ∀ form ∈ forms, form.1 ∈ openings.words)
    (hnodup : (forms.map Prod.fst).Nodup) {o rest : Text} (ho : o ∈ openings.words) :
    formsMatch? forms previousName newName (o ++ rest) =
      (lookupEntry o forms).bind fun closes =>
        named? o closes previousName newName (o ++ rest) := by
  have hother : ∀ form ∈ forms, form.1 ≠ o →
      named? form.1 form.2 previousName newName (o ++ rest) = none := by
    intro form hform hne
    rw [← Option.not_isSome_iff_eq_none]
    exact fun hsome => hne (Openings.eq_of_isPrefix ho (hforms form hform) (named?_isPrefix hsome))
  induction forms with
  | nil => rfl
  | cons form forms ih =>
    rw [List.map_cons, List.nodup_cons] at hnodup
    have hrest := ih (fun form hform => hforms form (List.mem_cons_of_mem _ hform)) hnodup.2
      fun form hform => hother form (List.mem_cons_of_mem _ hform)
    rw [formsMatch?, List.findSome?_cons]
    rw [formsMatch?] at hrest
    obtain ⟨o', closes⟩ := form
    rw [lookupEntry]
    split_ifs with h
    · obtain rfl := h
      rw [OrderedMap.lookupEntry_eq_none.mpr hnodup.1, Option.bind_none] at hrest
      rw [hrest, Option.bind_some]
      cases named? o' closes previousName newName (o' ++ rest) <;> rfl
    · rw [hother _ List.mem_cons_self h, hrest]

theorem actsOn_renamePart (hforms : ∀ form ∈ forms, form.1 ∈ openings.words)
    (hnodup : (forms.map Prod.fst).Nodup)
    (hcloses : ∀ form ∈ forms, ∀ close ∈ form.2, openings.mark ∉ close)
    {part : Part} {parts : List Part} (hpart : part.1 ∈ openings.words)
    (hparts : openings.Split parts)
    (hname : ∀ closes rest, lookupEntry part.1 forms = some closes →
      part.2 ++ text parts = previousName ++ rest → (∃ close ∈ closes, close <+: rest) →
      previousName <+: part.2) :
    ActsOn (formsMatch? forms previousName newName) (renamePart forms previousName newName) part
      (text parts) := by
  obtain ⟨o, body⟩ := part
  rw [ActsOn, formsMatch?_part hforms hnodup hpart, renamePart]
  dsimp only at hpart hname ⊢
  cases hlookup : lookupEntry o forms with
  | none => exact Or.inl ⟨rfl, rfl⟩
  | some closes =>
    have hform : (o, closes) ∈ forms := (OrderedMap.lookupEntry_eq_some hnodup).mp hlookup
    rw [Option.bind_some, Option.bind_some]
    cases htail : tail? closes previousName body with
    | none =>
      refine Or.inl ⟨named?_eq_none fun close hclose hstarts => ?_, rfl⟩
      obtain ⟨rest, hrest⟩ := (List.prefix_append_right_inj o).mp hstarts
      rw [List.append_assoc] at hrest
      obtain ⟨tail, rfl⟩ := hname closes _ hlookup hrest.symm ⟨close, hclose, rest, rfl⟩
      rw [List.append_assoc, List.append_cancel_left_eq] at hrest
      have hclosed := hparts.isPrefix (hcloses _ hform close hclose) ⟨rest, hrest⟩
      rw [tail?_eq_some.mpr ⟨rfl, close, hclose, hclosed⟩] at htail
      cases htail
    | some tail =>
      obtain ⟨rfl, close, hclose, hstarts⟩ := tail?_eq_some.mp htail
      obtain ⟨close, hclose, hstarts, hnamed⟩ := named?_eq_some previousName newName o
        ⟨close, hclose, hstarts.trans (List.prefix_append tail (text parts))⟩
      obtain ⟨rest, rfl⟩ := hparts.isPrefix (hcloses _ hform close hclose) hstarts
      refine Or.inr ⟨_, _, by rw [List.append_assoc]; exact hnamed, ?_, ?_, ?_⟩
      · obtain ⟨_, rfl, -⟩ := openings.starts o hpart
        simp only [List.length_cons]
        omega
      · simp only [List.length_append]
        omega
      · have hdrop : o ++ (previousName ++ (close ++ rest)) =
            (o ++ previousName ++ close) ++ rest := by simp
        rw [hdrop, List.drop_left' (by simp only [List.length_append])]
        simp

end Forms

/-! ### Names in their parts -/

section Names
variable {name body rest : Text} {parts : List Part} {q : Char}

theorem quote_notMem_dropLast : ∀ o ∈ openings.words, ∀ q ∈ quotes, q ∉ o.dropLast := by decide

/-- A name that goes past a part goes on with the beginning of the next opening. -/
theorem exists_overlap (hparts : openings.Split parts) (h : body ++ text parts = name ++ rest)
    (hname : ¬ name <+: body) :
    ∃ v o, name = body ++ v ∧ v ≠ [] ∧ o ∈ openings.words ∧ parts.head?.map Prod.fst = some o ∧
      o <+: v ++ rest := by
  rcases List.prefix_or_prefix_of_prefix ⟨rest, h.symm⟩ (List.prefix_append body (text parts)) with
    hstarts | ⟨v, rfl⟩
  · exact absurd hstarts hname
  · rw [List.append_assoc, List.append_cancel_left_eq] at h
    have hne : v ≠ [] := by
      rintro rfl
      exact hname (by rw [List.append_nil])
    cases parts with
    | nil => exact absurd (List.append_eq_nil_iff.mp h.symm).1 hne
    | cons part parts =>
      exact ⟨v, part.1, rfl, hne, (hparts part List.mem_cons_self).1, rfl, _, h⟩

/-- What begins in a name before a quote ends with the quote. -/
theorem isPrefix_quoted {o v : Text} (ho : o ∈ openings.words) (hq : q ∈ quotes)
    (h : o <+: v ++ q :: rest) : o <+: v ++ [q] := by
  have hsplit : v ++ q :: rest = (v ++ [q]) ++ rest := by simp
  rcases List.prefix_or_prefix_of_prefix h (hsplit ▸ List.prefix_append (v ++ [q]) rest) with
    h | ⟨w, rfl⟩
  · exact h
  · cases w with
    | nil => rw [List.append_nil]
    | cons c w =>
      refine absurd ?_ (quote_notMem_dropLast _ ho q hq)
      rw [List.dropLast_append_of_ne_nil (List.cons_ne_nil c w)]
      simp

theorem isPrefix_of_quotable (hq : q ∈ quotes) (hname : openings.Free (name ++ [q]))
    (hparts : openings.Split parts) (h : body ++ text parts = name ++ q :: rest) :
    name <+: body := by
  by_contra hnot
  obtain ⟨v, o, rfl, -, ho, -, hstarts⟩ := exists_overlap hparts h hnot
  have hinside := (isPrefix_quoted ho hq hstarts).isInfix
  exact hname o ho (hinside.trans (by rw [List.append_assoc]; exact (List.suffix_append _ _).isInfix))

theorem free_of_quotable (hname : openings.Free (name ++ [q])) : openings.Free name :=
  hname.of_infix (List.prefix_append _ _).isInfix

theorem free_quoted (hq : q ∈ quotes) (hname : openings.Free (name ++ [q]))
    (hrest : openings.Free rest) : openings.Free (name ++ q :: rest) := by
  have hmark : openings.mark ≠ q := by
    rintro rfl
    exact absurd hq (by decide)
  intro o ho hinside
  rcases Openings.infix_append hinside with ⟨v, hv, -, hstarts⟩ | hinside
  · exact hname o ho ((isPrefix_quoted ho hq hstarts).isInfix.trans
      (List.suffix_append_self_iff.mpr hv).isInfix)
  · exact Openings.free_append (s := [q]) (by simpa using hmark) hrest o ho hinside

/-- That a name stays in its part depends on the openings that follow only. -/
theorem isPrefix_of_undisturbed {parts' : List Part} {rest' : Text} (hparts : openings.Split parts')
    (hopen : parts'.head?.map Prod.fst = parts.head?.map Prod.fst) (hname : openings.Free name)
    (hu : ∀ rest, body ++ text parts = name ++ rest → Undisturbed name rest)
    (h : body ++ text parts' = name ++ rest') : name <+: body := by
  by_contra hnot
  obtain ⟨v, o, rfl, hne, ho, hhead, hstarts⟩ := exists_overlap hparts h hnot
  rw [hopen] at hhead
  cases parts with
  | nil => cases hhead
  | cons part parts =>
    obtain rfl := Option.some.inj hhead
    rcases List.prefix_or_prefix_of_prefix hstarts (List.prefix_append v rest') with h | ⟨w, hw⟩
    · exact hname _ ho (h.isInfix.trans (List.suffix_append _ _).isInfix)
    · refine hu (w ++ (part.2 ++ text parts)) ?_ v (List.suffix_append _ _) hne _ ho ?_
      · rw [text, ← hw, List.append_assoc, List.append_assoc]
      · rw [← List.append_assoc, hw]
        exact List.prefix_append _ _

theorem free_of_undisturbed {tail : Text} (hu : Undisturbed name (tail ++ text parts))
    (htail : openings.Free tail) : openings.Free (name ++ tail) := by
  intro o ho hinside
  rcases Openings.infix_append hinside with ⟨v, hv, hne, hstarts⟩ | hinside
  · refine hu v hv hne o ho (hstarts.trans ?_)
    rw [← List.append_assoc]
    exact List.prefix_append _ _
  · exact htail o ho hinside

end Names

end N8n.AccessPatterns
