import Mathlib.Data.List.Infix

/-!
# Texts with openings

Some words open a part of a text. They start with a mark that stands nowhere else in them, and
none is the beginning of another one, so no two of them overlap and a text is split at them in
one way only.
-/

namespace N8n

structure Openings (α : Type*) where
  mark : α
  words : List (List α)
  starts : ∀ o ∈ words, ∃ rest, o = mark :: rest ∧ mark ∉ rest
  alone : ∀ o ∈ words, ∀ o' ∈ words, o <+: o' → o = o'

namespace Openings
variable {α : Type*} (W : Openings α)

/-- No word stands in the text. -/
def Free (t : List α) : Prop := ∀ o ∈ W.words, ¬ o <:+: t

/-- The text of parts, each with the word that opens it and what follows. -/
def text : List (List α × List α) → List α
  | [] => []
  | part :: parts => part.1 ++ (part.2 ++ text parts)

def Split (parts : List (List α × List α)) : Prop :=
  ∀ part ∈ parts, part.1 ∈ W.words ∧ W.Free part.2

variable {W}

theorem Split.tail {part : List α × List α} {parts : List (List α × List α)}
    (h : W.Split (part :: parts)) : W.Split parts :=
  fun part hpart => h part (List.mem_cons_of_mem _ hpart)

theorem Free.of_infix {s t : List α} (h : W.Free t) (hs : s <:+: t) : W.Free s :=
  fun o ho hinside => h o ho (hinside.trans hs)

theorem text_append (parts parts' : List (List α × List α)) :
    text (parts ++ parts') = text parts ++ text parts' := by
  induction parts with
  | nil => rfl
  | cons part parts ih =>
    rw [List.cons_append, text, text, ih, List.append_assoc, List.append_assoc]

/-- The parts start with the mark, so a text without it does not reach into them. -/
theorem Split.isPrefix {parts : List (List α × List α)} (hparts : W.Split parts) {s t : List α}
    (hs : W.mark ∉ s) (h : s <+: t ++ text parts) : s <+: t := by
  rcases List.prefix_or_prefix_of_prefix h (List.prefix_append t (text parts)) with h' | ⟨u, rfl⟩
  · exact h'
  · cases u with
    | nil => rw [List.append_nil]
    | cons c u =>
      cases parts with
      | nil =>
        rw [text, List.append_nil] at h
        exact h
      | cons part parts =>
        obtain ⟨rest, hrest, -⟩ := W.starts _ (hparts part List.mem_cons_self).1
        rw [text, hrest, List.prefix_append_right_inj, List.cons_append,
          List.cons_prefix_cons] at h
        exact absurd (h.1 ▸ List.mem_append_right _ List.mem_cons_self) hs

/-- No word begins in a text without words, whatever parts follow. -/
theorem Split.not_isPrefix {parts : List (List α × List α)} (hparts : W.Split parts)
    {t v o : List α} (ht : W.Free t) (hv : v <:+ t) (hne : v ≠ []) (ho : o ∈ W.words) :
    ¬ o <+: v ++ text parts := by
  intro hstarts
  obtain ⟨rest, rfl, hrest⟩ := W.starts o ho
  cases v with
  | nil => exact hne rfl
  | cons c v =>
    rw [List.cons_append, List.cons_prefix_cons] at hstarts
    obtain ⟨rfl, hstarts⟩ := hstarts
    have hword : W.mark :: rest <+: W.mark :: v :=
      List.cons_prefix_cons.mpr ⟨rfl, hparts.isPrefix hrest hstarts⟩
    exact ht _ ho (hword.isInfix.trans hv.isInfix)

theorem free_append {s t : List α} (hs : W.mark ∉ s) (ht : W.Free t) : W.Free (s ++ t) := by
  induction s with
  | nil => exact ht
  | cons c s ih =>
    rw [List.mem_cons, not_or] at hs
    intro o ho hinside
    rcases List.infix_cons_iff.mp hinside with h | h
    · obtain ⟨rest, rfl, -⟩ := W.starts o ho
      exact hs.1 (List.cons_prefix_cons.mp h).1
    · exact ih hs.2 o ho h

theorem free_nil : W.Free [] := by
  intro o ho h
  obtain ⟨rest, rfl, -⟩ := W.starts o ho
  exact absurd (List.infix_nil.mp h) (List.cons_ne_nil _ _)

theorem free_of_notMem {s : List α} (hs : W.mark ∉ s) : W.Free s := by
  have hfree := free_append hs (free_nil : W.Free [])
  rwa [List.append_nil] at hfree

/-- After its mark a part has no word. -/
theorem free_part {o t rest : List α} (ho : o ∈ W.words) (hrest : o = W.mark :: rest)
    (ht : W.Free t) : W.Free (rest ++ t) := by
  obtain ⟨rest', rfl, hnone⟩ := W.starts o ho
  obtain rfl := (List.cons.inj hrest).2
  exact free_append hnone ht

theorem exists_split (s : List α) :
    ∃ t parts, s = t ++ text parts ∧ W.Free t ∧ W.Split parts := by
  induction s with
  | nil =>
    exact ⟨[], [], rfl, free_nil, by simp [Split]⟩
  | cons c s ih =>
    obtain ⟨t, parts, rfl, ht, hparts⟩ := ih
    by_cases hword : ∃ o ∈ W.words, o <+: c :: (t ++ text parts)
    · obtain ⟨o, ho, hstarts⟩ := hword
      obtain ⟨rest, rfl, hrest⟩ := W.starts o ho
      obtain ⟨rfl, hrests⟩ := List.cons_prefix_cons.mp hstarts
      obtain ⟨body, rfl⟩ := hparts.isPrefix hrest hrests
      refine ⟨[], (W.mark :: rest, body) :: parts, by simp [text], free_nil, ?_⟩
      intro part hpart
      rcases List.mem_cons.mp hpart with rfl | hpart
      · exact ⟨ho, ht.of_infix (List.suffix_append _ _).isInfix⟩
      · exact hparts part hpart
    · refine ⟨c :: t, parts, rfl, fun o ho h => ?_, hparts⟩
      rcases List.infix_cons_iff.mp h with h | h
      · exact hword ⟨o, ho, h.trans (List.prefix_append (c :: t) (text parts))⟩
      · exact ht o ho h

theorem eq_of_isPrefix {o o' t : List α} (ho : o ∈ W.words) (ho' : o' ∈ W.words)
    (h : o' <+: o ++ t) : o' = o := by
  rcases List.prefix_or_prefix_of_prefix h (List.prefix_append o t) with h' | h'
  · exact W.alone _ ho' _ ho h'
  · exact (W.alone _ ho _ ho' h').symm

/-- A word that ends in a part is the word that opens it. -/
theorem eq_of_isSuffix {x o o' w t : List α} (ho : o ∈ W.words) (ho' : o' ∈ W.words)
    (ht : W.Free t) (hw : w <+: o ++ t) (hne : w ≠ []) (h : o' <:+ x ++ w) : o' = o ∧ w = o := by
  obtain ⟨rest, hrest, hnone⟩ := W.starts o ho
  obtain ⟨rest', hrest', hnone'⟩ := W.starts o' ho'
  have hfree := free_part ho hrest ht
  cases w with
  | nil => exact absurd rfl hne
  | cons c w =>
    have hw' := hw
    rw [hrest, List.cons_append, List.cons_prefix_cons] at hw'
    obtain ⟨rfl, hw'⟩ := hw'
    have hwhole : o' = W.mark :: w → o' = o ∧ W.mark :: w = o := fun heq =>
      have ho'' := eq_of_isPrefix ho ho' (heq ▸ hw)
      ⟨ho'', heq ▸ ho''⟩
    rcases List.suffix_or_suffix_of_suffix h (List.suffix_append x (W.mark :: w)) with h | h
    · rcases List.suffix_cons_iff.mp h with h | h
      · exact hwhole h
      · exact absurd (h.isInfix.trans hw'.isInfix) (hfree o' ho')
    · rw [hrest'] at h
      rcases List.suffix_cons_iff.mp h with h | h
      · exact hwhole (hrest'.trans h.symm)
      · exact absurd (h.subset List.mem_cons_self) hnone'

/-- A word in two texts begins in the first one or stands in the second one. -/
theorem infix_append {o s t : List α} (h : o <:+: s ++ t) :
    (∃ v, v <:+ s ∧ v ≠ [] ∧ o <+: v ++ t) ∨ o <:+: t := by
  induction s with
  | nil => exact Or.inr h
  | cons c s ih =>
    rw [List.cons_append] at h
    rcases List.infix_cons_iff.mp h with h | h
    · exact Or.inl ⟨c :: s, List.suffix_refl _, List.cons_ne_nil _ _, h⟩
    · rcases ih h with ⟨v, hv, hne, h⟩ | h
      · exact Or.inl ⟨v, hv.trans (List.suffix_cons _ _), hne, h⟩
      · exact Or.inr h

theorem suffix_append_cases {s t u : List α} (h : s <:+ t ++ u) :
    (∃ v, v <:+ t ∧ v ≠ [] ∧ s = v ++ u) ∨ s <:+ u := by
  induction t with
  | nil => exact Or.inr h
  | cons c t ih =>
    rw [List.cons_append] at h
    rcases List.suffix_cons_iff.mp h with rfl | h
    · exact Or.inl ⟨c :: t, List.suffix_refl _, List.cons_ne_nil _ _, rfl⟩
    · rcases ih h with ⟨v, hv, hne, rfl⟩ | h
      · exact Or.inl ⟨v, hv.trans (List.suffix_cons _ _), hne, rfl⟩
      · exact Or.inr h

/-- Every word in a text opens one of its parts. -/
theorem Split.exists_suffix {parts : List (List α × List α)} (hparts : W.Split parts)
    {o s t : List α} (ho : o ∈ W.words) (ht : W.Free t) (h : o ++ s <:+ t ++ text parts) :
    ∃ part rest, part :: rest <:+ parts ∧ part.1 = o ∧ s = part.2 ++ text rest := by
  induction parts generalizing t with
  | nil =>
    rw [text, List.append_nil] at h
    exact absurd ((List.prefix_append o s).isInfix.trans h.isInfix) (ht o ho)
  | cons part parts ih =>
    rcases suffix_append_cases h with ⟨v, hv, hne, heq⟩ | h
    · exact absurd ⟨s, heq⟩ (hparts.not_isPrefix ht hv hne ho)
    · obtain ⟨hword, hfree⟩ := hparts part List.mem_cons_self
      obtain ⟨rest, hrest, -⟩ := W.starts _ hword
      rw [text, hrest, List.cons_append] at h
      rcases List.suffix_cons_iff.mp h with heq | h
      · rw [← List.cons_append, ← hrest] at heq
        obtain rfl := eq_of_isPrefix hword ho ⟨s, heq⟩
        exact ⟨part, parts, List.suffix_refl _, rfl, List.append_cancel_left heq⟩
      · rw [← List.append_assoc] at h
        obtain ⟨part', rest', hsuffix, hpart'⟩ :=
          ih hparts.tail (free_part hword hrest hfree) h
        exact ⟨part', rest', hsuffix.trans (List.suffix_cons _ _), hpart'⟩

theorem Split.exists_part {parts : List (List α × List α)} (hparts : W.Split parts) {o t : List α}
    (ho : o ∈ W.words) (ht : W.Free t) (h : o <:+: t ++ text parts) :
    ∃ part ∈ parts, part.1 = o := by
  obtain ⟨before, after, h⟩ := h
  obtain ⟨part, rest, hsuffix, heq, -⟩ := hparts.exists_suffix ho ht (s := after)
    ⟨before, by rw [← List.append_assoc, h]⟩
  exact ⟨part, hsuffix.subset List.mem_cons_self, heq⟩

/-- The parts of a text are determined by the text. -/
theorem body_eq {o t t' : List α} {parts parts' : List (List α × List α)}
    (hparts : W.Split parts) (hparts' : W.Split parts') (ht : W.Free t) (ht' : W.Free t')
    (h : o ++ (t ++ text parts) = o ++ (t' ++ text parts')) :
    t = t' ∧ text parts = text parts' := by
  have hbody := List.append_cancel_left h
  have hlong : ∀ {u u' : List α} {ps ps' : List (List α × List α)}, W.Split ps → W.Split ps' →
      W.Free u' → u ++ text ps = u' ++ text ps' → u <+: u' → u = u' := by
    rintro u u' ps ps' hps hps' hu' heq ⟨v, rfl⟩
    rw [List.append_assoc, List.append_cancel_left_eq] at heq
    by_contra hne
    have hv : v ≠ [] := by
      rintro rfl
      exact hne (List.append_nil _).symm
    cases ps with
    | nil => exact hv (List.append_eq_nil_iff.mp heq.symm).1
    | cons part ps =>
      exact hps'.not_isPrefix hu' (List.suffix_append u v) hv (hps part List.mem_cons_self).1
        ⟨part.2 ++ text ps, heq⟩
  have heq : t = t' := by
    rcases List.prefix_or_prefix_of_prefix (List.prefix_append t (text parts))
        (hbody ▸ List.prefix_append t' (text parts')) with h | h
    · exact hlong hparts hparts' ht' hbody h
    · exact (hlong hparts' hparts ht hbody.symm h).symm
  exact ⟨heq, List.append_cancel_left (heq ▸ hbody)⟩

end Openings
end N8n
