import N8n.DataProxies.ObservableObject

/-!
# Which changes of the static data are noticed

As long as nothing is marked, the static data is what it was made of, all behind proxies,
and empty objects that were added at the first level. An empty object that was assigned
does not stand behind a proxy, so what is written into it later goes unnoticed, and an
empty array passes for an empty object.
-/

namespace N8n.ObservableObject

open PlainData
open OrderedMap (lookupEntry setEntry lookupEntry_setEntry setEntry_lookupEntry)

section Content
variable {b : Bool}

mutual

theorem content_wrap : ∀ v : Value, (Observed.wrap b v).content = v
  | .primitive p => by rw [Observed.wrap, Observed.content]
  | .container shape entries => by
    rw [Observed.wrap, Observed.content, contentEntries_wrapEntries entries]

theorem contentEntries_wrapEntries : ∀ entries : List (Key × Value),
    contentEntries (wrapEntries b entries) = entries
  | [] => by rw [wrapEntries, contentEntries]
  | (k, v) :: entries => by
    rw [wrapEntries, contentEntries, content_wrap v, contentEntries_wrapEntries entries]

end

theorem lookupEntry_wrapEntries (k : Key) (entries : List (Key × Value)) :
    lookupEntry k (wrapEntries b entries) = (lookupEntry k entries).map (Observed.wrap b) := by
  induction entries with
  | nil => rfl
  | cons e entries ih =>
    rw [wrapEntries, lookupEntry, lookupEntry, ih]
    split_ifs <;> rfl

theorem lookupEntry_contentEntries (k : Key) (entries : List (Key × Observed)) :
    lookupEntry k (contentEntries entries) = (lookupEntry k entries).map Observed.content := by
  induction entries with
  | nil => rfl
  | cons e entries ih =>
    rw [contentEntries, lookupEntry, lookupEntry, ih]
    split_ifs <;> rfl

/-- What a wrapped value leads to is wrapped alike. -/
theorem valueAt_wrap {o : Observed} {path : List Key} {v : Value}
    (h : (Observed.wrap b v).valueAt path = some o) : ∃ v', o = .wrap b v' := by
  induction path generalizing v with
  | nil => exact ⟨v, (Option.some.inj h).symm⟩
  | cons k path ih =>
    cases v with
    | primitive p => simp [Observed.wrap, Observed.valueAt] at h
    | container shape entries =>
      rw [Observed.wrap, Observed.valueAt, lookupEntry_wrapEntries] at h
      cases hk : lookupEntry k entries with
      | none => simp [hk] at h
      | some child =>
        rw [hk] at h
        exact ih h

end Content

/-! ### Writes that mark nothing -/

section Write
variable {reflect : Shape → List (Key × Observed) → Option (Shape × List (Key × Observed))}

/-- A write that reaches no container outside the proxies and marks nothing changes nothing. -/
theorem write_value_of_unmarked {path : List Key} {o : Observed}
    (hraw : ∀ shape entries, o.valueAt path ≠ some (.container false shape entries))
    (hmarks : (o.write reflect path).marks = false) : (o.write reflect path).value = o := by
  induction path generalizing o with
  | nil =>
    cases o with
    | primitive p => simp [Observed.write]
    | container observed shape entries =>
      cases observed with
      | false => exact absurd rfl (hraw shape entries)
      | true =>
        rw [Observed.write] at hmarks
        split at hmarks <;> simp at hmarks
  | cons k path ih =>
    cases o with
    | primitive p => simp [Observed.write]
    | container observed shape entries =>
      rw [Observed.write] at hmarks ⊢
      cases hk : lookupEntry k entries with
      | none => rfl
      | some child =>
        simp only [hk] at hmarks ⊢
        rw [ih (fun shape entries h => hraw shape entries (by rw [Observed.valueAt, hk]; exact h))
          hmarks, setEntry_lookupEntry hk]

end Write

/-! ### The static data before anything is marked -/

def AddsEmptyObjects (initial entries : List (Key × Value)) : Prop :=
  ∀ k, lookupEntry k entries = lookupEntry k initial ∨
    lookupEntry k initial = none ∧ lookupEntry k entries = some (.container .object [])

/-- The same of the wrapped data: what was there stands behind proxies. -/
def OnlyAdded (initial : List (Key × Value)) (entries : List (Key × Observed)) : Prop :=
  ∀ k, lookupEntry k entries = (lookupEntry k initial).map (.wrap true) ∨
    lookupEntry k initial = none ∧ ∃ b, lookupEntry k entries = some (.container b .object [])

section Added
variable {initial : List (Key × Value)} {entries : List (Key × Observed)} {k : Key}

theorem OnlyAdded.addsEmptyObjects (h : OnlyAdded initial entries) :
    AddsEmptyObjects initial (contentEntries entries) := by
  intro k
  rw [lookupEntry_contentEntries]
  rcases h k with hk | ⟨hnone, b, hk⟩
  · left
    rw [hk, Option.map_map]
    cases lookupEntry k initial with
    | none => rfl
    | some v => simp [content_wrap]
  · right
    exact ⟨hnone, by rw [hk]; rfl⟩

theorem OnlyAdded.initial_eq_none (h : OnlyAdded initial entries) (hk : lookupEntry k entries = none) :
    lookupEntry k initial = none := by
  rcases h k with h | ⟨hnone, _⟩
  · rw [hk] at h
    exact Option.map_eq_none_iff.mp h.symm
  · exact hnone

theorem OnlyAdded.setEntry (h : OnlyAdded initial entries) (hk : lookupEntry k entries = none)
    (b : Bool) : OnlyAdded initial (setEntry k (.container b .object []) entries) := by
  intro k'
  rw [lookupEntry_setEntry]
  split_ifs with hkk
  · exact Or.inr ⟨hkk ▸ h.initial_eq_none hk, b, rfl⟩
  · exact h k'

/-- Nothing stands where a property of the data is undefined. -/
theorem OnlyAdded.eq_none (h : OnlyAdded initial entries)
    (hinitial : ∀ k, lookupEntry k initial ≠ some .undefined) {lang : Language}
    (hk : property lang Observed.primitive .object entries k = .primitive .undefined) :
    lookupEntry k entries = none := by
  cases he : lookupEntry k entries with
  | none => rfl
  | some o =>
    obtain rfl : o = .primitive .undefined := by
      simpa [property, ownProperty, Shape.lengthOf, he] using hk
    rcases h k with h | ⟨_, b, h⟩
    · rw [he] at h
      obtain ⟨v, hv, hw⟩ := Option.map_eq_some_iff.mp h.symm
      cases v with
      | container shape entries => simp [Observed.wrap] at hw
      | primitive p =>
        obtain rfl : p = .undefined := by simpa [Observed.wrap] using hw
        exact absurd hv (hinitial k)
    · rw [he] at h
      simp at h

/-- Below the first level only the empty objects that were added can stand behind no proxy. -/
theorem OnlyAdded.of_raw (h : OnlyAdded initial entries) {j : Key} {path : List Key} {shape : Shape}
    {raw : List (Key × Observed)}
    (hraw : (Observed.container true .object entries).valueAt (j :: path) =
      some (.container false shape raw)) :
    path = [] ∧ lookupEntry j entries = some (.container false .object []) := by
  rw [Observed.valueAt] at hraw
  rcases h j with hj | ⟨_, b, hj⟩
  · rw [hj] at hraw
    cases hv : lookupEntry j initial with
    | none => simp [hv] at hraw
    | some v =>
      rw [hv] at hraw
      obtain ⟨v', hv'⟩ := valueAt_wrap hraw
      cases v' <;> simp [Observed.wrap] at hv'
  · rw [hj] at hraw
    cases path with
    | nil =>
      simp only [Observed.valueAt, Option.some.injEq, Observed.container.injEq] at hraw
      exact ⟨rfl, by rw [hj, hraw.1]⟩
    | cons k path => simp [Observed.valueAt, lookupEntry] at hraw

end Added

namespace StaticData

def ChangeNoticed (initial : List (Key × Value)) (s : StaticData) : Prop :=
  s.dataChanged = true ∨ AddsEmptyObjects initial (contentEntries s.entries)

def Inv (initial : List (Key × Value)) (s : StaticData) : Prop :=
  s.dataChanged = true ∨ OnlyAdded initial s.entries

/-- A set that goes to a container which stands behind no proxy goes unnoticed, and so does
the set of an empty array where nothing stands at the first level. -/
def notices (lang : Language) (s : StaticData) : Access → Bool
  | .set [] k value =>
    !(value.isArray && s.ignoresEmpty lang k (.wrap false value) == some true)
  | .set (j :: path) _ _ =>
    match s.root.valueAt (j :: path) with
    | some (.container false _ _) => false
    | _ => true
  | _ => true

def Notices (lang : Language) (s : StaticData) (e : Access) : Prop :=
  s.dataChanged = true ∨ s.notices lang e = true

variable {lang : Language} {initial : List (Key × Value)} {s : StaticData}

theorem Inv.changeNoticed (h : s.Inv initial) : s.ChangeNoticed initial :=
  h.imp_right OnlyAdded.addsEmptyObjects

/-! ### Steps -/

theorem set_dataChanged (k : Key) (value : Observed) (h : s.dataChanged = true) :
    (s.set lang k value).1.dataChanged = true := by
  rw [StaticData.set]
  split <;> simp [h]

theorem writeBelow_dataChanged
    (reflect : Shape → List (Key × Observed) → Option (Shape × List (Key × Observed)))
    (k : Key) (path : List Key) (h : s.dataChanged = true) :
    (s.writeBelow reflect k path).1.dataChanged = true := by
  rw [writeBelow]
  split <;> simp [h]

theorem getStaticData_dataChanged (type : String) (node : Option String)
    (h : s.dataChanged = true) : (s.getStaticData lang type node).1.dataChanged = true := by
  rw [getStaticData]
  split
  · exact h
  · dsimp only
    split_ifs
    · exact h
    · split
      · exact set_dataChanged _ _ h
      · exact h

theorem ignoresEmpty_eq_true {k : Key} {value : Observed}
    (h : s.ignoresEmpty lang k value = some true) :
    property lang Observed.primitive .object s.entries k = .primitive .undefined ∧
      ∃ b shape, value = .container b shape [] := by
  unfold ignoresEmpty at h
  split at h
  · rename_i hk
    refine ⟨hk, ?_⟩
    cases value with
    | primitive p => cases p <;> simp at h
    | container b shape entries =>
      obtain rfl : entries = [] := by simpa using h
      exact ⟨b, shape, rfl⟩
  · simp at h

/-- The mark stays. -/
theorem access_dataChanged (e : Access) (h : s.dataChanged = true) :
    (s.access lang e).1.dataChanged = true := by
  cases e with
  | get path k => exact h
  | set path k value =>
    cases path with
    | nil => exact set_dataChanged k _ h
    | cons j path => exact writeBelow_dataChanged _ j path h
  | delete path k =>
    cases path with
    | nil => rfl
    | cons j path => exact writeBelow_dataChanged _ j path h
  | getStaticData type node =>
    have hs := @getStaticData_dataChanged lang s type node h
    rw [access]
    split <;> rename_i heq <;> rw [heq] at hs <;> exact hs

theorem valueAt_root {j : Key} {path : List Key} {child : Observed}
    (hj : lookupEntry j s.entries = some child) :
    s.root.valueAt (j :: path) = child.valueAt path := by
  rw [root, Observed.valueAt, hj]

theorem inv_writeBelow
    (reflect : Shape → List (Key × Observed) → Option (Shape × List (Key × Observed)))
    {j : Key} {path : List Key} (h : OnlyAdded initial s.entries)
    (hraw : ∀ shape entries, s.root.valueAt (j :: path) ≠ some (.container false shape entries)) :
    (s.writeBelow reflect j path).1.Inv initial := by
  rw [writeBelow]
  cases hj : lookupEntry j s.entries with
  | none => exact Or.inr h
  | some child =>
    cases hmarks : (child.write reflect path).marks with
    | true => exact Or.inl (by simp [hmarks])
    | false =>
      refine Or.inr ?_
      have hvalue := write_value_of_unmarked (o := child)
        (fun shape entries he => hraw shape entries (by rw [valueAt_root hj]; exact he)) hmarks
      simpa [hvalue, setEntry_lookupEntry hj] using h

/-- A delete finds nothing to take from an object that was added. -/
theorem inv_delete (k j : Key) (path : List Key) (h : OnlyAdded initial s.entries) :
    (s.writeBelow (fun shape entries => remove shape entries k) j path).1.Inv initial := by
  by_cases hraw : ∃ shape raw, s.root.valueAt (j :: path) = some (.container false shape raw)
  · obtain ⟨shape, raw, hraw⟩ := hraw
    obtain ⟨rfl, hj⟩ := h.of_raw hraw
    right
    rw [writeBelow, hj]
    simpa [Observed.write, remove, Shape.lengthOf, deleteEntry, setEntry_lookupEntry hj] using h
  · exact inv_writeBelow _ h fun shape raw he => hraw ⟨shape, raw, he⟩

theorem inv_set (hinitial : ∀ k, lookupEntry k initial ≠ some .undefined) (k : Key) (value : Value)
    (h : OnlyAdded initial s.entries) (hnotices : s.notices lang (.set [] k value) = true) :
    (s.set lang k (.wrap false value)).1.Inv initial := by
  rw [StaticData.set]
  cases hi : s.ignoresEmpty lang k (.wrap false value) with
  | none => exact Or.inr h
  | some ignored =>
    cases ignored with
    | false => exact Or.inl (by simp)
    | true =>
      obtain ⟨hprop, b, shape, hvalue⟩ := ignoresEmpty_eq_true hi
      have hnone := h.eq_none hinitial hprop
      refine Or.inr ?_
      cases value with
      | primitive p => simp [Observed.wrap] at hvalue
      | container shape entries =>
        cases shape with
        | array n => simp [notices, Value.isArray, hi] at hnotices
        | object =>
          rw [hvalue]
          rw [Observed.wrap] at hvalue
          simp only [Observed.container.injEq] at hvalue
          rw [← hvalue.2.1]
          exact h.setEntry hnone b

theorem inv_getStaticData (hinitial : ∀ k, lookupEntry k initial ≠ some .undefined) (type : String)
    (node : Option String) (h : OnlyAdded initial s.entries) :
    (s.getStaticData lang type node).1.Inv initial := by
  rw [getStaticData]
  split
  · exact Or.inr h
  · dsimp only
    split_ifs
    · exact Or.inr h
    · split
      · rename_i key _ _ _ hprop
        have hignores : s.ignoresEmpty lang key (.container true .object []) = some true := by
          simp [ignoresEmpty, hprop]
        rw [StaticData.set, hignores]
        exact Or.inr (h.setEntry (h.eq_none hinitial hprop) true)
      · exact Or.inr h

theorem access_inv (hinitial : ∀ k, lookupEntry k initial ≠ some .undefined) {e : Access}
    (h : s.Inv initial) (he : s.Notices lang e) : (s.access lang e).1.Inv initial := by
  rcases h with h | h
  · exact Or.inl (access_dataChanged e h)
  rcases he with he | he
  · exact Or.inl (access_dataChanged e he)
  cases e with
  | get path k => exact Or.inr h
  | set path k value =>
    cases path with
    | nil => exact inv_set hinitial k value h he
    | cons j path =>
      refine inv_writeBelow _ h fun shape raw hraw => ?_
      simp [notices, hraw] at he
  | delete path k =>
    cases path with
    | nil => exact Or.inl rfl
    | cons j path => exact inv_delete k j path h
  | getStaticData type node =>
    have hs := @inv_getStaticData lang initial s hinitial type node h
    rw [access]
    split <;> rename_i heq <;> rw [heq] at hs <;> exact hs

theorem ignoresEmpty_of_not_notices {k : Key} {value : Value}
    (h : s.notices lang (.set [] k value) = false) :
    s.ignoresEmpty lang k (.wrap false value) = some true ∧
      ∃ n entries, value = .container (.array n) entries := by
  rw [notices, Bool.not_eq_false', Bool.and_eq_true, beq_iff_eq] at h
  refine ⟨h.2, ?_⟩
  cases value with
  | primitive p => simp [Value.isArray] at h
  | container shape entries =>
    cases shape with
    | object => simp [Value.isArray] at h
    | array n => exact ⟨n, entries, rfl⟩

theorem raw_of_not_notices {j k : Key} {path : List Key} {value : Value}
    (h : s.notices lang (.set (j :: path) k value) = false) :
    ∃ shape raw, s.root.valueAt (j :: path) = some (.container false shape raw) := by
  rw [notices] at h
  split at h
  · rename_i hraw
    exact ⟨_, _, hraw⟩
  · simp at h

/-- A set that is not noticed is missed at once. -/
theorem access_unnoticed (hinitial : ∀ k, lookupEntry k initial ≠ some .undefined) {e : Access}
    (h : s.Inv initial) (he : ¬ s.Notices lang e) :
    ¬ (s.access lang e).1.ChangeNoticed initial := by
  rw [Notices, not_or, Bool.not_eq_true, Bool.not_eq_true] at he
  have hadded : OnlyAdded initial s.entries := h.resolve_left (by simp [he.1])
  cases e with
  | get path k => simp [notices] at he
  | delete path k => simp [notices] at he
  | getStaticData type node => simp [notices] at he
  | set path k value =>
    cases path with
    | nil =>
      obtain ⟨hignores, n, entries, rfl⟩ := ignoresEmpty_of_not_notices he.2
      have hprop := (ignoresEmpty_eq_true hignores).1
      have hnone := hadded.initial_eq_none (hadded.eq_none hinitial hprop)
      rw [access, StaticData.set, hignores]
      rintro (hc | hc)
      · simp [he.1] at hc
      · have hk := hc k
        simp [lookupEntry_contentEntries, lookupEntry_setEntry, content_wrap, hnone] at hk
    | cons j path =>
      obtain ⟨shape, raw, hraw⟩ := raw_of_not_notices he.2
      obtain ⟨rfl, hj⟩ := hadded.of_raw hraw
      rw [access, writeBelow, hj]
      simp only [Observed.write, assign, Shape.lengthOf, Shape.grow, setEntry]
      rintro (hc | hc)
      · simp [he.1] at hc
      · have hnone : lookupEntry j initial = none := by
          rcases hadded j with h | h
          · rw [hj] at h
            obtain ⟨v, _, hv⟩ := Option.map_eq_some_iff.mp h.symm
            cases v <;> simp [Observed.wrap] at hv
          · exact h.1
        have hjc := hc j
        simp [lookupEntry_contentEntries, lookupEntry_setEntry, Observed.content, contentEntries,
          hnone] at hjc

end StaticData

/-! ### Runs -/

theorem ne_undefined_of_isJson {k : Key} {target : List (Key × Value)}
    (h : isJsonEntries target = true) :
    lookupEntry k (withoutEntries dataChangedKey target) ≠ some .undefined := by
  intro hk
  induction target with
  | nil => simp [withoutEntries, lookupEntry] at hk
  | cons e target ih =>
    obtain ⟨j, v⟩ := e
    rw [isJsonEntries, Bool.and_eq_true] at h
    rw [withoutEntries] at hk
    split_ifs at hk
    · exact ih h.2 hk
    · rw [lookupEntry] at hk
      split_ifs at hk
      · cases v with
        | container shape entries => simp [Value.without, Value.undefined] at hk
        | primitive p =>
          obtain rfl : p = .undefined := by simpa [Value.without, Value.undefined] using hk
          simp [Value.isJson] at h
      · exact ih h.2 hk

theorem inv_create (target testStaticData : List (Key × Value)) :
    (StaticData.create target testStaticData).Inv (withoutEntries dataChangedKey target) :=
  Or.inr fun k => Or.inl (lookupEntry_wrapEntries k _)

/-- Every change is noticed exactly when nothing is set where no proxy stands, and no empty array
where nothing stands at the first level, unless a change was noticed before. -/
theorem changeNoticed_iff {lang : Language} {target testStaticData : List (Key × Value)}
    {tr : List (Access × StaticData)}
    (hjson : (Value.container .object target).isJson = true)
    (hr : Runs.Run (Step lang) (.create target testStaticData) tr) :
    Runs.Always (fun s => s.ChangeNoticed (withoutEntries dataChangedKey target))
        (.create target testStaticData) tr ↔
      Runs.EveryStep (fun s e => s.Notices lang e) (.create target testStaticData) tr := by
  rw [Value.isJson, Bool.and_eq_true] at hjson
  have hinitial := fun k => @ne_undefined_of_isJson k target hjson.2
  refine hr.always_iff_everyStep (inv_create target testStaticData)
    (fun s h => h.changeNoticed) ?_ ?_
  · rintro s e s' h he ⟨_, rfl⟩
    exact StaticData.access_inv hinitial h he
  · rintro s e s' h he ⟨_, rfl⟩
    exact StaticData.access_unnoticed hinitial h he

def accessed (accesses : List Access) : List (Access × StaticData) :=
  Runs.trace (fun s e => (s.access .builtins e).1) (.create [] []) accesses

/-- `staticData.a = {b: 1}; staticData.a.b = 2` -/
theorem nonEmptyObject_changeNoticed :
    Runs.Always (fun s => s.ChangeNoticed []) (.create [] []) (accessed
      [.set [] (.name "a") (.container .object [(.name "b", .primitive (.num 1))]),
        .set [.name "a"] (.name "b") (.primitive (.num 2))]) := by
  exact (@changeNoticed_iff .builtins [] [] _ rfl
    (.cons ⟨rfl, rfl⟩ (.cons ⟨rfl, rfl⟩ (.nil _)))).mpr ⟨Or.inr rfl, Or.inl (by decide), trivial⟩

/-- `staticData.a = {}; staticData.a.b = 1` -/
theorem emptyObject_changeMissed :
    ¬ ∀ (target : List (Key × Value)) (tr : List (Access × StaticData)),
      (Value.container .object target).isJson = true →
      Runs.Run (Step .builtins) (.create target []) tr →
      (Runs.finalState (.create target []) tr).ChangeNoticed
        (withoutEntries dataChangedKey target) := by
  intro h
  have hfinal := h [] (accessed [.set [] (.name "a") (.container .object []),
    .set [.name "a"] (.name "b") (.primitive (.num 1))]) rfl
    (.cons ⟨rfl, rfl⟩ (.cons ⟨rfl, rfl⟩ (.nil _)))
  rcases hfinal with hc | hc
  · exact absurd hc (by decide)
  · have hcontent : contentEntries (Runs.finalState (StaticData.create [] []) (accessed
        [.set [] (.name "a") (.container .object []),
          .set [.name "a"] (.name "b") (.primitive (.num 1))])).entries =
        [(.name "a", .container .object [(.name "b", .primitive (.num 1))])] := rfl
    have ha := hc (.name "a")
    rw [hcontent] at ha
    simp [lookupEntry, withoutEntries] at ha

end N8n.ObservableObject
