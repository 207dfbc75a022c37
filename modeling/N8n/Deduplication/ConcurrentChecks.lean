import Mathlib.Logic.Function.Basic
import N8n.Deduplication.DeduplicationHelper
import N8n.Foundations.Runs

/-!
# Checks of one history that interleave

A check finds the row, adds to its copy and writes the copy back. Where there was no row the
write is an insertion, which fails once another check has inserted one; an update replaces
whatever the row holds by then.
-/

namespace N8n.Deduplication
open N8n.Runs

variable {ι η : Type}

/-- A call of `checkProcessedAndRecord` in mode `entries`, by the operation it waits for. -/
inductive Check (ι η : Type) where
  | notStarted
  | finding (items : List ι)
  | writing (items : List ι) (processedData : Option (ProcessedData η))
  | resolved (output : DeduplicationOutput ι)
  | rejected
  deriving DecidableEq, Repr

structure Checks (ι η : Type) where
  row : Option (ProcessedData η)
  calls : ℕ → Check ι η

namespace Checks

inductive Event (ι : Type) where
  | call (id : ℕ) (items : List ι)
  | find (id : ℕ)
  | write (id : ℕ)
  deriving DecidableEq, Repr

def update (s : Checks ι η) (id : ℕ) (check : Check ι η) : Checks ι η :=
  { s with calls := Function.update s.calls id check }

section
variable [DecidableEq η] (hashing : Hashing ι η)

inductive Step : Checks ι η → Event ι → Checks ι η → Prop
  | call {s : Checks ι η} {id : ℕ} {items : List ι} :
      s.calls id = .notStarted → Step s (.call id items) (s.update id (.finding items))
  | find {s : Checks ι η} {id : ℕ} {items : List ι} :
      s.calls id = .finding items → validateMode s.row = .ok () →
      Step s (.find id) (s.update id (.writing items s.row))
  | findInvalid {s : Checks ι η} {id : ℕ} {items : List ι} {error : DeduplicationError} :
      s.calls id = .finding items → validateMode s.row = .error error →
      Step s (.find id) (s.update id .rejected)
  | write {s : Checks ι η} {id : ℕ} {items : List ι} {processedData row : Option (ProcessedData η)} :
      s.calls id = .writing items processedData →
      (handleHashedItems hashing none items processedData).1.apply s.row = some row →
      Step s (.write id) { s.update id
        (.resolved (handleHashedItems hashing none items processedData).2) with row }
  | writeFailed {s : Checks ι η} {id : ℕ} {items : List ι}
      {processedData : Option (ProcessedData η)} :
      s.calls id = .writing items processedData →
      (handleHashedItems hashing none items processedData).1.apply s.row = none →
      Step s (.write id) (s.update id .rejected)

end

def Initial (s : Checks ι η) : Prop := ∀ id, s.calls id = .notStarted

/-- No two calls that resolved report the same item as new, and what they report is stored. -/
def ReportsAgree (hashing : Hashing ι η) (s : Checks ι η) : Prop :=
  (∀ id output id' output', s.calls id = .resolved output → s.calls id' = .resolved output' →
    id ≠ id' → ∀ item ∈ output.new, ∀ item' ∈ output'.new,
      hashing.toText item ≠ hashing.toText item') ∧
  ∀ id output, s.calls id = .resolved output → ∀ item ∈ output.new ++ output.processed,
    hashing.createValueHash item ∈ storedHashes s.row

/-- An update finds the row as the call read it. -/
def UpdatesWhatItRead (s : Checks ι η) : Event ι → Prop
  | .write id => ∀ items processedData, s.calls id = .writing items (some processedData) →
      s.row = some processedData
  | _ => True

section
variable {hashing : Hashing ι η} {s s' : Checks ι η} {id id' : ℕ} {check : Check ι η}

@[simp] theorem update_row : (s.update id check).row = s.row := rfl

@[simp] theorem update_calls_self : (s.update id check).calls id = check :=
  Function.update_self ..

theorem update_calls_of_ne (h : id' ≠ id) : (s.update id check).calls id' = s.calls id' :=
  Function.update_of_ne h ..

/-- Only a call that is not over goes on. -/
theorem resolved_update {output : DeduplicationOutput ι} (h : s.calls id' = .resolved output)
    (hid : ∀ output, s.calls id ≠ .resolved output) :
    (s.update id check).calls id' = .resolved output := by
  rw [update_calls_of_ne, h]
  rintro rfl
  exact hid _ h

theorem ReportsAgree.update (h : ReportsAgree hashing s) (hcheck : ∀ output, check ≠ .resolved output) :
    ReportsAgree hashing (s.update id check) := by
  have hresolved : ∀ id' output, (s.update id check).calls id' = .resolved output →
      s.calls id' = .resolved output := by
    intro id' output hcall
    by_cases hid : id' = id
    · subst hid
      rw [update_calls_self] at hcall
      exact absurd hcall (hcheck output)
    · rwa [update_calls_of_ne hid] at hcall
  exact ⟨fun id output id' output' hcall hcall' =>
      h.1 id output id' output' (hresolved _ _ hcall) (hresolved _ _ hcall'),
    fun id output hcall => h.2 id output (hresolved _ _ hcall)⟩

/-- A call has resolved and reported an item as new that the list of hashes lacks. -/
def Overtaken (hashing : Hashing ι η) (s : Checks ι η) (hashes : List η) : Prop :=
  ∃ id output, s.calls id = .resolved output ∧
    ∃ item ∈ output.new, hashing.createValueHash item ∉ hashes

/-- What a call has read is the row, or another call has overtaken it. -/
def CopiesCurrent (hashing : Hashing ι η) (s : Checks ι η) : Prop :=
  ∀ id items processedData, s.calls id = .writing items (some processedData) →
    s.row = some processedData ∨
      ∃ hashes, processedData.data = .list hashes ∧ s.Overtaken hashing hashes

theorem CopiesCurrent.update (h : CopiesCurrent hashing s)
    (hid : ∀ output, s.calls id ≠ .resolved output)
    (hcheck : ∀ items processedData, check = .writing items (some processedData) →
      s.row = some processedData) :
    CopiesCurrent hashing (s.update id check) := by
  intro id' items processedData hcall
  by_cases hid' : id' = id
  · subst hid'
    rw [update_calls_self] at hcall
    exact Or.inl (hcheck _ _ hcall)
  · rw [update_calls_of_ne hid'] at hcall
    refine (h id' items processedData hcall).imp_right ?_
    rintro ⟨hashes, hdata, id₀, output, hresolved, hitem⟩
    exact ⟨hashes, hdata, id₀, output, resolved_update hresolved hid, hitem⟩

structure Invariant (hashing : Hashing ι η) (s : Checks ι η) : Prop where
  agree : ReportsAgree hashing s
  current : CopiesCurrent hashing s

theorem Initial.invariant (h : s.Initial) : Invariant hashing s where
  agree := by
    constructor
    · intro id output _ _ hcall
      simp [h id] at hcall
    · intro id output hcall
      simp [h id] at hcall
  current := by
    intro id items processedData hcall
    simp [h id] at hcall

end

section
variable [DecidableEq η] {hashing : Hashing ι η} {s s' : Checks ι η} {e : Event ι}

/-- A write to the row that was read stores what it reports, and finds new what is not stored. -/
theorem write_stores {items : List ι} {row row' : Option (ProcessedData η)}
    (h : (handleHashedItems hashing none items row).1.apply row = some row') :
    (∀ item ∈ (handleHashedItems hashing none items row).2.new,
      hashing.createValueHash item ∉ storedHashes row) ∧
    (∀ item ∈ (handleHashedItems hashing none items row).2.new ++
        (handleHashedItems hashing none items row).2.processed,
      hashing.createValueHash item ∈ storedHashes row') ∧
    ∀ hash ∈ storedHashes row, hash ∈ storedHashes row' := by
  rcases row with _ | ⟨mode, hashes | value⟩
  · obtain rfl := Option.some.inj h
    refine ⟨fun _ _ => List.not_mem_nil, fun item hitem => ?_, fun _ hhash => ?_⟩
    · simp only [handleHashedItems, List.append_nil] at hitem
      exact List.mem_map_of_mem hitem
    · contradiction
  · obtain rfl := Option.some.inj h
    refine ⟨fun item hitem => ?_, fun item hitem => List.mem_append.mpr ?_,
      fun hash hhash => List.mem_append_left _ hhash⟩
    · have hnew := (List.mem_filter.mp hitem).2
      exact of_decide_eq_false (Bool.not_eq_true' _ ▸ hnew)
    · rcases List.mem_append.mp hitem with hitem | hitem
      · exact Or.inr (List.mem_map_of_mem hitem)
      · exact Or.inl (of_decide_eq_true (List.mem_filter.mp hitem).2)
  · obtain rfl := Option.some.inj h
    refine ⟨fun item hitem => ?_, fun item hitem => ?_, fun _ h => h⟩ <;> contradiction

/-- A call that resolves has written to the row that it read, when its update did. -/
theorem read_eq_row {id : ℕ} {items : List ι} {processedData row : Option (ProcessedData η)}
    (hC : s.UpdatesWhatItRead (.write id : Event ι)) (hcall : s.calls id = .writing items processedData)
    (hwrite : (handleHashedItems hashing none items processedData).1.apply s.row = some row) :
    processedData = s.row := by
  cases processedData with
  | some processedData => exact (hC _ _ hcall).symm
  | none =>
    cases hrow : s.row with
    | none => rfl
    | some row => simp [handleHashedItems, Write.apply, hrow] at hwrite

theorem ReportsAgree.step (h : ReportsAgree hashing s) (hC : s.UpdatesWhatItRead e)
    (hs : Step hashing s e s') : ReportsAgree hashing s' := by
  cases hs with
  | call => exact h.update nofun
  | find => exact h.update nofun
  | findInvalid => exact h.update nofun
  | writeFailed => exact h.update nofun
  | @write id items processedData row hcall hwrite =>
    obtain rfl := read_eq_row hC hcall hwrite
    obtain ⟨hnew, hstored, hkept⟩ := write_stores hwrite
    -- Another call reports what is stored, and this one what is not.
    have hother : ∀ id' output', id' ≠ id → s.calls id' = .resolved output' →
        ∀ item' ∈ output'.new, ∀ item ∈ (handleHashedItems hashing none items s.row).2.new,
          hashing.toText item ≠ hashing.toText item' := by
      intro id' output' _ hcall' item' hitem' item hitem htext
      refine hnew item hitem ?_
      rw [Hashing.createValueHash, htext]
      exact h.2 id' output' hcall' item' (List.mem_append_left _ hitem')
    constructor
    · intro id₁ output₁ id₂ output₂ hcall₁ hcall₂ hne item₁ hitem₁ item₂ hitem₂
      by_cases hid₁ : id₁ = id
      · subst hid₁
        rw [update_calls_self, Check.resolved.injEq] at hcall₁
        rw [update_calls_of_ne hne.symm] at hcall₂
        subst hcall₁
        exact hother id₂ output₂ hne.symm hcall₂ item₂ hitem₂ item₁ hitem₁
      · rw [update_calls_of_ne hid₁] at hcall₁
        by_cases hid₂ : id₂ = id
        · subst hid₂
          rw [update_calls_self, Check.resolved.injEq] at hcall₂
          subst hcall₂
          exact (hother id₁ output₁ hid₁ hcall₁ item₁ hitem₁ item₂ hitem₂).symm
        · rw [update_calls_of_ne hid₂] at hcall₂
          exact h.1 id₁ output₁ id₂ output₂ hcall₁ hcall₂ hne item₁ hitem₁ item₂ hitem₂
    · intro id' output' hcall' item hitem
      by_cases hid : id' = id
      · subst hid
        rw [update_calls_self, Check.resolved.injEq] at hcall'
        subst hcall'
        exact hstored item hitem
      · rw [update_calls_of_ne hid] at hcall'
        exact hkept _ (h.2 id' output' hcall' item hitem)

/-- A write to the row that was read leaves the row or reports something as new. -/
theorem row_or_new_of_write {items : List ι} {processedData : ProcessedData η}
    {row : Option (ProcessedData η)}
    (h : (handleHashedItems hashing none items (some processedData)).1.apply (some processedData) =
      some row) :
    row = some processedData ∨ ∃ hashes, processedData.data = .list hashes ∧
      ∃ item ∈ (handleHashedItems hashing none items (some processedData)).2.new,
        hashing.createValueHash item ∉ hashes := by
  obtain ⟨mode, hashes | value⟩ := processedData
  · cases hnew : (handleHashedItems hashing none items (some ⟨mode, .list hashes⟩)).2.new with
    | nil =>
      refine Or.inl ?_
      obtain rfl := Option.some.inj h
      simp only [handleHashedItems, ProcessedData.hashes?] at hnew
      simp [hnew, cutTo]
    | cons item new =>
      refine Or.inr ⟨hashes, rfl, item, List.mem_cons_self, ?_⟩
      exact (write_stores h).1 item (hnew ▸ List.mem_cons_self)
  · exact Or.inl (Option.some.inj h).symm

theorem CopiesCurrent.step (h : CopiesCurrent hashing s) (hC : s.UpdatesWhatItRead e)
    (hs : Step hashing s e s') : CopiesCurrent hashing s' := by
  cases hs with
  | call hcall => exact h.update (by simp [hcall]) nofun
  | find hcall => exact h.update (by simp [hcall]) fun _ _ heq => (Check.writing.inj heq).2
  | findInvalid hcall => exact h.update (by simp [hcall]) nofun
  | writeFailed hcall => exact h.update (by simp [hcall]) nofun
  | @write id items processedData row hcall hwrite =>
    obtain rfl := read_eq_row hC hcall hwrite
    intro id' items' processedData' hcall'
    have hid' : id' ≠ id := by
      rintro rfl
      simp at hcall'
    have hcopies : CopiesCurrent hashing
        (s.update id (.resolved (handleHashedItems hashing none items s.row).2)) :=
      h.update (by simp [hcall]) nofun
    rcases hcopies id' items' processedData' hcall' with hrow | hovertaken
    · rw [update_row] at hrow
      rw [hrow] at hwrite
      refine (row_or_new_of_write hwrite).imp_right ?_
      rintro ⟨hashes, hdata, item, hitem, hhash⟩
      exact ⟨hashes, hdata, id, _, update_calls_self, item, by rwa [hrow], hhash⟩
    · exact Or.inr hovertaken

/-- An update over another call's loses what that call reported, or reports it again. -/
theorem not_reportsAgree_of_lost_update
    (hinj : ∀ a b, hashing.createValueHash a = hashing.createValueHash b →
      hashing.toText a = hashing.toText b)
    (h : CopiesCurrent hashing s) (hC : ¬ s.UpdatesWhatItRead e) (hs : Step hashing s e s') :
    ¬ ReportsAgree hashing s' := by
  cases hs with
  | call => exact absurd trivial hC
  | find => exact absurd trivial hC
  | findInvalid => exact absurd trivial hC
  | @writeFailed id items processedData hcall hwrite =>
    cases processedData with
    | none => exact absurd (fun _ _ hcall' => by simp [hcall] at hcall') hC
    | some processedData =>
      obtain ⟨mode, hashes | value⟩ := processedData <;> cases hwrite
  | @write id items processedData row hcall hwrite =>
    simp only [UpdatesWhatItRead, not_forall] at hC
    obtain ⟨items', processedData', hcall', hrow⟩ := hC
    obtain ⟨rfl, rfl⟩ := Check.writing.inj (hcall.symm.trans hcall')
    obtain ⟨hashes, hdata, id₀, output, hresolved, item, hitem, hhash⟩ :=
      (h id items processedData' hcall).resolve_left hrow
    obtain ⟨mode, data⟩ := processedData'
    obtain rfl : data = .list hashes := hdata
    have hne : id₀ ≠ id := by
      rintro rfl
      simp [hcall] at hresolved
    intro hagree
    have hresolved' : (s.update id (.resolved
        (handleHashedItems hashing none items (some ⟨mode, .list hashes⟩)).2)).calls id₀ =
        .resolved output := by
      rw [update_calls_of_ne hne, hresolved]
    have hstored := hagree.2 id₀ output hresolved' item (List.mem_append_left _ hitem)
    obtain rfl := Option.some.inj hwrite
    cases hs : s.row with
    | none => simp [hs, storedHashes] at hstored
    | some row =>
      simp only [hs, Option.map_some, storedHashes, Option.bind_some, ProcessedData.hashes?,
        Option.getD_some, cutTo, List.mem_append, hhash, false_or, List.mem_map] at hstored
      obtain ⟨item', hitem', heq⟩ := hstored
      exact hagree.1 id _ id₀ output update_calls_self hresolved' hne.symm item' hitem' item hitem
        (hinj _ _ heq)

/-- Calls whose updates find the row as they read it agree, and no others do, as long as no
two texts have the same hash. -/
theorem reportsAgree_of_updatesWhatItRead {tr : List (Event ι × Checks ι η)} (h0 : s.Initial)
    (hr : Run (Step hashing) s tr) :
    (EveryStep UpdatesWhatItRead s tr → Always (ReportsAgree hashing) s tr) ∧
    ((∀ a b, hashing.createValueHash a = hashing.createValueHash b →
        hashing.toText a = hashing.toText b) →
      Always (ReportsAgree hashing) s tr → EveryStep UpdatesWhatItRead s tr) := by
  constructor
  · exact hr.always h0.invariant.agree fun _ _ _ h => h.step
  · intro hinj
    refine (hr.always_iff_everyStep h0.invariant (fun _ h => h.agree) ?_ ?_).mp
    · exact fun _ _ _ h hC hs => ⟨h.agree.step hC hs, h.current.step hC hs⟩
    · exact fun _ _ _ h => not_reportsAgree_of_lost_update hinj h.current

end

section Example

/-- The second check finds the row once the first has inserted it. -/
theorem oneAfterTheOther_reportsAgree :
    ∃ tr : List (Event String × Checks String String),
      Run (Step textHashing) ⟨none, fun _ => .notStarted⟩ tr ∧
      tr.map Prod.fst =
        [.call 0 ["a"], .find 0, .write 0, .call 1 ["a", "b"], .find 1, .write 1] ∧
      Always (ReportsAgree textHashing) ⟨none, fun _ => .notStarted⟩ tr := by
  have hrun : Run (Step textHashing) ⟨none, fun _ => .notStarted⟩ [(.call 0 ["a"], _),
      (.find 0, _), (.write 0, _), (.call 1 ["a", "b"], _), (.find 1, _), (.write 1, _)] :=
    .cons (.call rfl) <| .cons (.find rfl rfl) <| .cons (.write rfl rfl) <|
      .cons (.call rfl) <| .cons (.find rfl rfl) <| .cons (.write rfl rfl) (.nil _)
  refine ⟨_, hrun, rfl, (reportsAgree_of_updatesWhatItRead (fun _ => rfl) hrun).1 ?_⟩
  refine ⟨trivial, trivial, fun _ _ h => ?_, trivial, trivial, fun _ _ h => ?_, trivial⟩
  · cases h
  · exact (Check.writing.inj h).2

/-- Both checks find the row before either writes it, and both report the item as new. -/
theorem foundByBoth_not_reportsAgree :
    ∃ (s : Checks String String) (tr : List (Event String × Checks String String)),
      s.Initial ∧ Run (Step textHashing) s tr ∧
      tr.map Prod.fst = [.call 0 ["a"], .call 1 ["a"], .find 0, .find 1, .write 0, .write 1] ∧
      ¬ Always (ReportsAgree textHashing) s tr := by
  have hrun : Run (Step textHashing) ⟨some ⟨.entries, .list []⟩, fun _ => .notStarted⟩
      [(.call 0 ["a"], _), (.call 1 ["a"], _), (.find 0, _), (.find 1, _), (.write 0, _),
        (.write 1, _)] :=
    .cons (.call rfl) <| .cons (.call rfl) <| .cons (.find rfl rfl) <|
      .cons (.find rfl rfl) <| .cons (.write rfl rfl) <| .cons (.write rfl rfl) (.nil _)
  refine ⟨_, _, fun _ => rfl, hrun, rfl, fun h => ?_⟩
  exact h.final.1 0 _ 1 _ rfl rfl (by decide) "a" List.mem_cons_self "a" List.mem_cons_self rfl

end Example
end Checks
end N8n.Deduplication
