import N8n.Workflow.PlainNames

/-!
# Which expressions are renamed right

Besides the expressions with nothing but references, those are renamed right that do not have
the name at all, and any expression when the name stays as it is and can be used after a dot.
-/

namespace N8n.AccessPatterns

open Openings (text)

section Matches
variable {previousName newName : Text}

theorem named?_spec {o s replacement : Text} {closes : List Text} {n : ℕ}
    (h : named? o closes previousName newName s = some (replacement, n)) :
    ∃ close rest, s = o ++ (previousName ++ (close ++ rest)) ∧
      replacement = o ++ newName ++ close ∧
      n = o.length + previousName.length + close.length := by
  obtain ⟨after, hafter, hfound⟩ := Option.bind_eq_some_iff.mp h
  obtain ⟨after', hafter', hname⟩ := Option.bind_eq_some_iff.mp hafter
  obtain ⟨close, -, hclose⟩ := List.exists_of_findSome?_eq_some hfound
  obtain ⟨rest, hrest, heq⟩ := Option.map_eq_some_iff.mp hclose
  obtain ⟨rfl, rfl⟩ := Prod.mk.inj heq
  refine ⟨close, rest, ?_, rfl, rfl⟩
  rw [after?_eq_some.mp hafter', after?_eq_some.mp hname, after?_eq_some.mp hrest]

/-- A text that matches has the name. -/
def Names (m : Text → Option (Text × ℕ)) (previousName : Text) : Prop :=
  ∀ s found, m s = some found → previousName <:+: s

/-- A match is replaced by itself. -/
def Keeps (m : Text → Option (Text × ℕ)) : Prop :=
  ∀ s replacement n, m s = some (replacement, n) → 0 < n ∧ replacement ++ s.drop n = s

theorem names_formsMatch? (forms : List (Text × List Text)) :
    Names (formsMatch? forms previousName newName) previousName := by
  intro s found h
  obtain ⟨form, -, hnamed⟩ := List.exists_of_findSome?_eq_some h
  obtain ⟨close, rest, rfl, -, -⟩ := named?_spec hnamed
  exact ⟨form.1, close ++ rest, by simp⟩

theorem keeps_formsMatch? {forms : List (Text × List Text)}
    (hforms : ∀ form ∈ forms, form.1 ∈ openings.words) : Keeps (formsMatch? forms newName newName) := by
  intro s replacement n h
  obtain ⟨form, hform, hnamed⟩ := List.exists_of_findSome?_eq_some h
  obtain ⟨close, rest, rfl, rfl, rfl⟩ := named?_spec hnamed
  obtain ⟨word, hword, -⟩ := openings.starts _ (hforms form hform)
  refine ⟨by rw [hword, List.length_cons]; omega, ?_⟩
  have hsplit : form.1 ++ (newName ++ (close ++ rest)) =
      (form.1 ++ newName ++ close) ++ rest := by simp
  rw [hsplit, List.drop_left' (by simp only [List.length_append])]

theorem dotReference?_spec {dotted s replacement : Text} {n : ℕ}
    (h : dotReference? previousName dotted s = some (replacement, n)) :
    ∃ rest, s = dotWord ++ (previousName ++ rest) ∧ replacement = dotted ∧
      n = dotWord.length + previousName.length := by
  obtain ⟨after, hafter, hfound⟩ := Option.bind_eq_some_iff.mp h
  obtain ⟨after', hafter', hname⟩ := Option.bind_eq_some_iff.mp hafter
  split_ifs at hfound
  obtain ⟨rfl, rfl⟩ := Prod.mk.inj (Option.some.inj hfound)
  refine ⟨after, ?_, rfl, rfl⟩
  rw [after?_eq_some.mp hafter', after?_eq_some.mp hname]
  rfl

theorem names_reference? (forms : List (Text × Text)) (dotted : Text) :
    Names (reference? forms dotted previousName newName) previousName := by
  rintro s ⟨replacement, n⟩ h
  rw [reference?_eq, Option.or_eq_some_iff] at h
  rcases h with h | ⟨-, h⟩
  · exact names_formsMatch? _ s _ h
  · obtain ⟨rest, rfl, -, -⟩ := dotReference?_spec h
    exact ⟨dotWord, rest, by simp⟩

theorem keeps_reference? {forms : List (Text × Text)}
    (hforms : ∀ form ∈ single forms, form.1 ∈ openings.words) :
    Keeps (reference? forms (dotWord ++ newName) newName newName) := by
  intro s replacement n h
  rw [reference?_eq, Option.or_eq_some_iff] at h
  rcases h with h | ⟨-, h⟩
  · exact keeps_formsMatch? hforms s replacement n h
  · obtain ⟨rest, rfl, rfl, rfl⟩ := dotReference?_spec h
    refine ⟨Nat.add_pos_left (by decide) _, ?_⟩
    rw [← List.append_assoc, List.drop_left' List.length_append]

theorem replace_of_not_infix {m : Text → Option (Text × ℕ)} {s : Text}
    (hm : Names m previousName) (h : ¬ previousName <:+: s) : replace m s = s := by
  refine replace_eq_self fun u hu => ?_
  cases hfound : m u with
  | none => rfl
  | some found => exact absurd ((hm u _ hfound).trans hu.isInfix) h

theorem replace_same {m : Text → Option (Text × ℕ)} (hm : Keeps m) (s : Text) :
    replace m s = s := by
  rw [replace]
  induction hlength : s.length using Nat.strong_induction_on generalizing s with
  | _ length ih =>
    cases s with
    | nil => rfl
    | cons c s =>
      subst hlength
      cases hfound : m (c :: s) with
      | none =>
        rw [replaceFrom, hfound]
        dsimp only
        rw [ih s.length (Nat.lt_succ_self _) s rfl]
      | some found =>
        obtain ⟨hpos, hsame⟩ := hm _ _ _ hfound
        rw [replaceFrom_match hfound (List.cons_ne_nil _ _) hpos,
          ih _ (by rw [List.length_drop, List.length_cons]; omega) _ rfl]
        exact hsame

end Matches

theorem applyAccessPatterns_same {name : Text} (hname : hasDotNotationBannedChar name = false)
    (expression : Text) :
    applyAccessPatterns expression name name = renameReferences expression name name := by
  have hcallback : (dotCallback · name) = id := by
    funext s
    rw [dotCallback, hname]
    rfl
  have hproperty : nodeProperty name = dotWord ++ name := by
    rw [nodeProperty, hname]
    rfl
  have hpass : ∀ pattern : AccessPattern, (∀ form ∈ pattern.forms, form.1 ∈ openings.words) →
      (∀ o ∈ pattern.opens, pattern.checkPattern <+: o) →
      ∀ s, pattern.apply id name name s = s := by
    intro pattern hopened hcheck s
    rw [apply_id s hcheck, match?_forms, replace_same (keeps_formsMatch? hopened)]
  rw [renameReferences, hproperty, replace_same (keeps_reference? quotedForms_references.opened),
    applyAccessPatterns, hcallback, hpass callPattern (by decide) (by decide),
    hpass bracketPattern (by decide) (by decide), hpass dotPattern (by decide) (by decide),
    hpass itemsPattern (by decide) (by decide), ite_self]

theorem onlyReferences_dot : OnlyReferences "$node.a.b".toList "a".toList "b c".toList where
  quotable := by
    change ∀ q ∈ quotes, (∀ o ∈ openings.words, ¬ o <:+: "a".toList ++ [q]) ∧
      ∀ o ∈ openings.words, ¬ o <:+: "b c".toList ++ [q]
    decide
  alike := by decide
  items q _ rest hrest := by
    have hnone : ¬ "$items(".toList <:+: "$node.a.b".toList := by decide
    exact absurd ((List.prefix_append _ _).isInfix.trans hrest.isInfix) hnone
  dot rest hrest := by
    have hsuffixes : ∀ s ∈ "$node.a.b".toList.tails, after? "$node.a".toList s = none ∨
        after? "$node.a".toList s = some ".b".toList := by decide
    have hafter : after? "$node.a".toList ("$node.".toList ++ ("a".toList ++ rest)) = some rest :=
      after?_eq_some.mpr rfl
    rcases hsuffixes _ (List.mem_tails _ _ |>.mpr hrest) with h | h
    · rw [hafter] at h
      cases h
    · rw [hafter] at h
      obtain rfl := Option.some.inj h
      exact ⟨by decide, undisturbed_of_notMem (by decide), undisturbed_of_notMem (by decide),
        fun _ => Or.inr rfl⟩
  brackets _ _ := by
    refine ⟨fun before c rest hsplit hsome => ?_, Or.inr (by decide)⟩
    have hnames : renameNames "$node.a.b".toList "a".toList "b c".toList =
        "$node.b c.b".toList := by decide
    have hcheck : ∀ s ∈ "$node.b c.b".toList.tails, ∀ t ∈ "$node.b c.b".toList.inits,
        t ++ s = "$node.b c.b".toList → (dottedName? "b c".toList s).isSome →
          s.head? = some '.' ∧ "$node".toList <:+ t := by decide
    rw [hnames] at hsplit
    have hfound := hcheck (c :: rest) ((List.mem_tails _ _).mpr ⟨before, hsplit.symm⟩) before
      ((List.mem_inits _ _).mpr ⟨_, hsplit.symm⟩) hsplit.symm hsome
    exact ⟨Option.some.inj hfound.1, hfound.2⟩

end N8n.AccessPatterns
