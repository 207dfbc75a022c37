import Mathlib.Init

/-!
# Loops that can fail

Rules for `List.foldlM` in `Except`: a loop whose rounds succeed from every state
of an invariant succeeds, and what it collects is what its rounds collect.
-/

namespace N8n.FoldM

universe u v

variable {σ α β : Type u} {ε : Type v} {f : σ → α → Except ε σ}

theorem ok_bind (a : α) (g : α → Except ε β) : (Except.ok a >>= g) = g a := rfl

theorem bind_eq_ok {x : Except ε α} {g : α → Except ε β} {b : β} :
    (x >>= g) = .ok b ↔ ∃ a, x = .ok a ∧ g a = .ok b := by
  cases x with
  | error e => simp [bind, Except.bind]
  | ok a => simp [ok_bind]

theorem map_eq_ok {x : Except ε α} {f : α → β} {b : β} :
    f <$> x = .ok b ↔ ∃ a, x = .ok a ∧ f a = b := by
  cases x with
  | error e => exact ⟨nofun, nofun⟩
  | ok a => exact ⟨fun h => ⟨a, rfl, Except.ok.inj h⟩, fun ⟨_, ha, hb⟩ => by cases ha; rw [← hb]; rfl⟩

theorem bind_ne_error {x : Except ε α} {g : α → Except ε β} {e : ε} (hx : x ≠ .error e)
    (hg : ∀ a, x = .ok a → g a ≠ .error e) : (x >>= g) ≠ .error e := by
  cases x with
  | error e' => exact fun h => hx (congrArg Except.error (Except.error.inj h))
  | ok a => exact hg a rfl

theorem forM_ok_iff {f : α → Except ε Unit} {l : List α} :
    l.forM f = .ok () ↔ ∀ a ∈ l, f a = .ok () := by
  induction l with
  | nil => simp [pure, Except.pure]
  | cons a l ih =>
    rw [List.forall_mem_cons]
    change (f a >>= fun _ => l.forM f) = .ok () ↔ _
    cases hfa : f a with
    | error e => simp [bind, Except.bind]
    | ok u => exact ih.trans (and_iff_right rfl).symm

theorem mapM_congr {f g : α → Except ε α} {l l' : List α} (h : l.mapM f = .ok l')
    (hfg : ∀ a ∈ l, ∀ b, f a = .ok b → g b = g a) : l'.mapM g = l.mapM g := by
  induction l generalizing l' with
  | nil =>
    obtain rfl := Except.ok.inj h
    rfl
  | cons a l ih =>
    rw [List.mapM_cons] at h
    obtain ⟨b, hb, h⟩ := bind_eq_ok.mp h
    obtain ⟨bs, hbs, h⟩ := bind_eq_ok.mp h
    obtain rfl := Except.ok.inj h
    rw [List.mapM_cons, List.mapM_cons, hfg a List.mem_cons_self b hb,
      ih hbs fun c hc => hfg c (List.mem_cons_of_mem a hc)]

/-- What comes out of a loop is given back by a second one. -/
theorem mapM_again {f : α → Except ε β} {g : β → Except ε β} {l : List α} {l' : List β}
    (h : l.mapM f = .ok l') (hfg : ∀ a ∈ l, ∀ b, f a = .ok b → g b = .ok b) :
    l'.mapM g = .ok l' := by
  induction l generalizing l' with
  | nil =>
    obtain rfl := Except.ok.inj h
    rfl
  | cons a l ih =>
    rw [List.mapM_cons] at h
    obtain ⟨b, hb, h⟩ := bind_eq_ok.mp h
    obtain ⟨bs, hbs, h⟩ := bind_eq_ok.mp h
    obtain rfl := Except.ok.inj h
    rw [List.mapM_cons, hfg a List.mem_cons_self b hb,
      ok_bind, ih hbs fun c hc => hfg c (List.mem_cons_of_mem a hc)]
    rfl

/-- What a loop gives for each element, seen through two functions that agree. -/
theorem map_of_mapM {γ : Type*} {f : α → Except ε β} {g : β → γ} {g' : α → γ} {l : List α}
    {l' : List β} (h : l.mapM f = .ok l') (hfg : ∀ a ∈ l, ∀ b, f a = .ok b → g b = g' a) :
    l'.map g = l.map g' := by
  induction l generalizing l' with
  | nil =>
    obtain rfl := Except.ok.inj h
    rfl
  | cons a l ih =>
    rw [List.mapM_cons] at h
    obtain ⟨b, hb, h⟩ := bind_eq_ok.mp h
    obtain ⟨bs, hbs, h⟩ := bind_eq_ok.mp h
    obtain rfl := Except.ok.inj h
    rw [List.map_cons, List.map_cons, hfg a List.mem_cons_self b hb,
      ih hbs fun c hc => hfg c (List.mem_cons_of_mem a hc)]

theorem mapM_ok_iff {f : α → Except ε β} {l : List α} :
    (∃ l', l.mapM f = .ok l') ↔ ∀ a ∈ l, ∃ b, f a = .ok b := by
  induction l with
  | nil => exact ⟨fun _ _ ha => absurd ha List.not_mem_nil, fun _ => ⟨[], rfl⟩⟩
  | cons a l ih =>
    rw [List.forall_mem_cons, ← ih, List.mapM_cons]
    constructor
    · rintro ⟨l', h⟩
      obtain ⟨b, hb, h⟩ := bind_eq_ok.mp h
      obtain ⟨bs, hbs, _⟩ := bind_eq_ok.mp h
      exact ⟨⟨b, hb⟩, bs, hbs⟩
    · rintro ⟨⟨b, hb⟩, bs, hbs⟩
      exact ⟨b :: bs, by rw [hb, ok_bind, hbs]; rfl⟩

theorem length_of_mapM_ok {f : α → Except ε β} {l : List α} {l' : List β} (h : l.mapM f = .ok l') :
    l'.length = l.length := by
  induction l generalizing l' with
  | nil =>
    obtain rfl := Except.ok.inj h
    rfl
  | cons a l ih =>
    rw [List.mapM_cons] at h
    obtain ⟨b, -, h⟩ := bind_eq_ok.mp h
    obtain ⟨bs, hbs, h⟩ := bind_eq_ok.mp h
    obtain rfl := Except.ok.inj h
    rw [List.length_cons, List.length_cons, ih hbs]

theorem exists_of_mem_mapM {f : α → Except ε β} {l : List α} {l' : List β} (h : l.mapM f = .ok l')
    {b : β} (hb : b ∈ l') : ∃ a, f a = .ok b := by
  induction l generalizing l' with
  | nil =>
    obtain rfl := Except.ok.inj h
    cases hb
  | cons a l ih =>
    rw [List.mapM_cons] at h
    obtain ⟨c, hc, h⟩ := bind_eq_ok.mp h
    obtain ⟨cs, hcs, h⟩ := bind_eq_ok.mp h
    obtain rfl := Except.ok.inj h
    rcases List.mem_cons.mp hb with rfl | hb
    · exact ⟨a, hc⟩
    · exact ih hcs hb

theorem foldlM_cons_ok {l : List α} {s s' : σ} {a : α} (h : f s a = .ok s') :
    (a :: l).foldlM f s = l.foldlM f s' := by
  rw [List.foldlM_cons, h]
  rfl

theorem foldlM_collects (Inv : σ → Prop) (elems : σ → β → Prop) (adds : α → β → Prop)
    {l : List α} {s : σ} (hs : Inv s) (hstep : ∀ s a, Inv s → a ∈ l → ∃ s', f s a = .ok s' ∧ Inv s' ∧
      ∀ b, elems s' b ↔ elems s b ∨ adds a b) :
    ∃ s', l.foldlM f s = .ok s' ∧ Inv s' ∧ ∀ b, elems s' b ↔ elems s b ∨ ∃ a ∈ l, adds a b := by
  induction l generalizing s with
  | nil => exact ⟨s, rfl, hs, by simp⟩
  | cons a l ih =>
    obtain ⟨t, ht, hInv, helems⟩ := hstep s a hs List.mem_cons_self
    obtain ⟨s', hs', hInv', helems'⟩ :=
      ih hInv (fun s b hs hb => hstep s b hs (List.mem_cons_of_mem a hb))
    refine ⟨s', (foldlM_cons_ok ht).trans hs', hInv', fun b => ?_⟩
    rw [helems', helems, or_assoc]
    simp only [List.mem_cons, exists_eq_or_imp]

/-- What each round brings about from what the rounds before it did holds of all rounds. -/
theorem foldlM_prefixes (I : List α → σ → Prop) {l : List α} {s s' : σ} (hs : I [] s)
    (hstep : ∀ done a s s', done ++ [a] <+: l → I done s → f s a = .ok s' → I (done ++ [a]) s')
    (h : l.foldlM f s = .ok s') : I l s' := by
  have hall : ∀ done rest s, done ++ rest = l → I done s → rest.foldlM f s = .ok s' → I l s' := by
    intro done rest
    induction rest generalizing done with
    | nil =>
      intro s hl hI hok
      rw [List.append_nil] at hl
      exact hl ▸ Except.ok.inj hok ▸ hI
    | cons a rest ih =>
      intro s hl hI hok
      rw [List.foldlM_cons] at hok
      obtain ⟨t, ht, hok⟩ := bind_eq_ok.mp hok
      have hdone : done ++ [a] ++ rest = l := by rw [List.append_assoc]; exact hl
      exact ih (done ++ [a]) t hdone (hstep done a s t ⟨rest, hdone⟩ hI ht) hok
  exact hall [] l s rfl hs h

theorem foldlM_mono {g : σ → α → Except ε σ} {l : List α} {s s' : σ}
    (hfg : ∀ s a s', a ∈ l → f s a = .ok s' → g s a = .ok s') (h : l.foldlM f s = .ok s') :
    l.foldlM g s = .ok s' := by
  induction l generalizing s with
  | nil => exact h
  | cons a l ih =>
    rw [List.foldlM_cons] at h
    obtain ⟨t, ht, h⟩ := bind_eq_ok.mp h
    rw [foldlM_cons_ok (hfg s a t List.mem_cons_self ht)]
    exact ih (fun s b s' hb => hfg s b s' (List.mem_cons_of_mem a hb)) h

theorem foldlM_preserves (Inv : σ → Prop) {l : List α} {s s' : σ} (hs : Inv s)
    (hstep : ∀ s a s', Inv s → a ∈ l → f s a = .ok s' → Inv s') (h : l.foldlM f s = .ok s') :
    Inv s' := by
  induction l generalizing s with
  | nil => exact Except.ok.inj h ▸ hs
  | cons a l ih =>
    rw [List.foldlM_cons] at h
    cases ht : f s a with
    | error e =>
      rw [ht] at h
      cases h
    | ok t =>
      rw [ht] at h
      exact ih (hstep s a t hs List.mem_cons_self ht)
        (fun s b s' hs hb => hstep s b s' hs (List.mem_cons_of_mem a hb)) h

/-- What each round brings about and the later rounds keep holds in the end. -/
theorem foldlM_all (Inv : σ → Prop) (done : σ → α → Prop) {l : List α} {s s' : σ} (hs : Inv s)
    (hstep : ∀ s a s', Inv s → a ∈ l → f s a = .ok s' → Inv s' ∧ done s' a)
    (hkeep : ∀ s a s' b, Inv s → a ∈ l → f s a = .ok s' → done s b → done s' b)
    (h : l.foldlM f s = .ok s') : Inv s' ∧ ∀ b, done s b ∨ b ∈ l → done s' b := by
  induction l generalizing s with
  | nil =>
    obtain rfl := Except.ok.inj h
    exact ⟨hs, fun b hb => hb.resolve_right List.not_mem_nil⟩
  | cons a l ih =>
    rw [List.foldlM_cons] at h
    obtain ⟨t, ht, h⟩ := bind_eq_ok.mp h
    obtain ⟨hInv, hdone⟩ := hstep s a t hs List.mem_cons_self ht
    obtain ⟨hInv', hall⟩ := ih hInv
      (fun s b s' hs hb => hstep s b s' hs (List.mem_cons_of_mem a hb))
      (fun s b s' c hs hb => hkeep s b s' c hs (List.mem_cons_of_mem a hb)) h
    refine ⟨hInv', fun b hb => hall b ?_⟩
    rcases hb with hb | hb
    · exact Or.inl (hkeep s a t b hs List.mem_cons_self ht hb)
    · rcases List.mem_cons.mp hb with rfl | hb
      · exact Or.inl hdone
      · exact Or.inr hb

theorem forall_of_foldlM {P : α → Prop} {l : List α} {s s' : σ}
    (hstep : ∀ s a s', f s a = .ok s' → P a) (h : l.foldlM f s = .ok s') : ∀ a ∈ l, P a := by
  have hall := foldlM_all (fun _ => True) (fun _ a => P a) trivial
    (fun s a s' _ _ hok => ⟨trivial, hstep s a s' hok⟩) (fun _ _ _ _ _ _ _ hdone => hdone) h
  exact fun a ha => hall.2 a (Or.inr ha)

theorem foldlM_congr {g : σ → α → Except ε σ} (Inv : σ → Prop) {l : List α} {s : σ} (hs : Inv s)
    (hstep : ∀ s a s', Inv s → a ∈ l → f s a = .ok s' → Inv s')
    (heq : ∀ s a, Inv s → a ∈ l → f s a = g s a) : l.foldlM f s = l.foldlM g s := by
  induction l generalizing s with
  | nil => rfl
  | cons a l ih =>
    rw [List.foldlM_cons, List.foldlM_cons, ← heq s a hs List.mem_cons_self]
    cases ht : f s a with
    | error e => rfl
    | ok t =>
      exact ih (hstep s a t hs List.mem_cons_self ht)
        (fun s b s' hs hb => hstep s b s' hs (List.mem_cons_of_mem a hb))
        (fun s b hs hb => heq s b hs (List.mem_cons_of_mem a hb))

end N8n.FoldM
