import N8n.Workflow.LinkedItems

/-!
# How item linking fails

Getting a paired item is meant to fail with an `ExpressionError` that tells what is missing. It
reads on without a check where an entry leads past the items of a node on the way, and where the
inputs of all entries of an item are past those of its node; and it takes the place before the
items of the destination for an item.
-/

namespace N8n.ItemLinking

open AgreeingBranches (View Branch)

/-- An item that exists, or an `ExpressionError`. -/
def Documented {ι : Type} : Except LinkError (Option ι) → Prop
  | .ok item => item ≠ none
  | .error (.typeError _) => False
  | .error _ => True

section Execution
variable {ι : Type} (env : Execution ι) (destinationNodeName : String)

/-- An entry of the first position whose input is one of the node leads to the second. -/
def Follows (p q : Position) : Prop :=
  ∃ bs, view env destinationNodeName p = .node bs ∧ (true, q) ∈ bs

/-- The positions that the calls below a call are made for. -/
def Called (p q : Position) : Prop := Relation.ReflTransGen (Follows env destinationNodeName) p q

/-- The place of an item on the way where none is. -/
def NoItem (p : Position) : Prop :=
  ∃ source outputData, p.source = some source ∧
    outputs? (getTaskData env source) source = some outputData ∧
    source.previousNode ≠ destinationNodeName ∧ at? outputData p.item = none

/-- A negative place at the destination, the place of no item on the way, or an item with entries
of which none has an input that the node has. -/
def Unguarded (p : Position) : Prop :=
  view env destinationNodeName p = .leaf none ∨ NoItem env destinationNodeName p ∨
    ∃ bs, view env destinationNodeName p = .node bs ∧ bs ≠ [] ∧ ∀ b ∈ bs, b.1 = false

section View
variable {env destinationNodeName} {p q : Position}

theorem view_of_noItem (h : NoItem env destinationNodeName p) :
    view env destinationNodeName p = .dead := by
  obtain ⟨source, outputData, hsource, houtputs, hnode, hitem⟩ := h
  simp only [view, hsource, houtputs, if_neg hnode, hitem]

theorem guarded_of_leaf {x : ι} (h : view env destinationNodeName p = .leaf (some x)) :
    ¬ Unguarded env destinationNodeName p := by
  rintro (hview | hitem | ⟨bs, hview, -⟩)
  · simp [h] at hview
  · simp [view_of_noItem hitem] at h
  · simp [h] at hview

theorem guarded_of_node {bs : List (Bool × Position)} (h : view env destinationNodeName p = .node bs)
    (hq : (true, q) ∈ bs) : ¬ Unguarded env destinationNodeName p := by
  rintro (hview | hitem | ⟨bs', hview, -, hnone⟩)
  · simp [h] at hview
  · simp [view_of_noItem hitem] at h
  · obtain rfl := View.node.inj (h.symm.trans hview)
    exact Bool.noConfusion (hnone _ hq)

end View

variable [DecidableEq ι] (usedMethodName : PairedItemMethod)

def FailsDocumented (incomingSourceData : Option SourceData) (pairedItem : PairedEntry)
    (nodeBeforeLast : Option String) : Prop :=
  (∃ fuel r, getPairedItem env destinationNodeName usedMethodName fuel incomingSourceData pairedItem
    nodeBeforeLast = some r) ∧
  ∀ fuel r, getPairedItem env destinationNodeName usedMethodName fuel incomingSourceData pairedItem
    nodeBeforeLast = some r → Documented r

variable {env destinationNodeName usedMethodName}

theorem matchItems_documented {sourceArray : List (Option SourceData)} {sourceData : SourceData}
    {pairedItem : PairedItemData} {nodeBeforeLast : Option String}
    {results : List (Except LinkError (Option ι))} (hnonempty : results ≠ [])
    (h : ∀ r ∈ results, Documented r) :
    Documented (matchItems destinationNodeName sourceArray sourceData pairedItem nodeBeforeLast
      results) := by
  unfold matchItems
  by_cases hall : (results.all fun result => !result.isOk) = true
  · rw [if_pos hall]
    cases results with
    | nil => exact absurd rfl hnonempty
    | cons result results =>
      have hfirst := h result List.mem_cons_self
      cases result with
      | error e => exact hfirst
      | ok item => simp [Except.isOk, Except.toBool] at hall
  · rw [if_neg hall]
    cases hmatched : results.filterMap Except.toOption with
    | nil =>
      dsimp only
      split_ifs <;> trivial
    | cons first rest =>
      dsimp only
      split_ifs
      · trivial
      · have hmem : first ∈ results.filterMap Except.toOption := hmatched ▸ List.mem_cons_self
        obtain ⟨r, hr, hfirst⟩ := List.mem_filterMap.mp hmem
        have hdocumented := h r hr
        cases r with
        | error e => cases hfirst
        | ok item => exact Option.some.inj hfirst ▸ hdocumented

omit [DecidableEq ι] in
/-- What the results of the entries hold is the result of an entry that is followed. -/
theorem mem_of_mapM_nextPaired {f : PairedItemData → Option (Except LinkError (Option ι))}
    {sourceArray : List (Option SourceData)} {nexts : List PairedItemData}
    {results : List (List (Except LinkError (Option ι)))}
    (h : (nexts.mapM fun next =>
      if (sourceArray.length : ℤ) ≤ next.input.getD 0 then some []
      else (f next).map fun result => [result]) = some results) :
    (∀ r ∈ results.flatten, ∃ next ∈ nexts, (nextPosition sourceArray next).1 = true ∧
      f next = some r) ∧
    ((∃ next ∈ nexts, (nextPosition sourceArray next).1 = true) ↔ results.flatten ≠ []) := by
  induction nexts generalizing results with
  | nil =>
    obtain rfl := Option.some.inj h
    simp
  | cons next nexts ih =>
    rw [List.mapM_cons] at h
    obtain ⟨result, hresult, h⟩ := Option.bind_eq_some_iff.mp h
    obtain ⟨rest, hrest, h⟩ := Option.bind_eq_some_iff.mp h
    obtain rfl := Option.some.inj h
    obtain ⟨hmem, hnonempty⟩ := ih hrest
    rw [List.flatten_cons]
    split_ifs at hresult with hinput
    · obtain rfl := Option.some.inj hresult
      have hnot : (nextPosition sourceArray next).1 = false := by simp [nextPosition, hinput]
      refine ⟨fun r hr => ?_, ?_⟩
      · obtain ⟨n, hn, hf⟩ := hmem r hr
        exact ⟨n, List.mem_cons_of_mem next hn, hf⟩
      · rw [List.nil_append, ← hnonempty]
        simp [hnot]
    · obtain ⟨r, hr, rfl⟩ := Option.map_eq_some_iff.mp hresult
      have hfollowed : (nextPosition sourceArray next).1 = true := by
        simpa [nextPosition] using hinput
      refine ⟨fun r' hr' => ?_, ?_⟩
      · rcases List.mem_append.mp hr' with hr' | hr'
        · obtain rfl := List.mem_singleton.mp hr'
          exact ⟨next, List.mem_cons_self, hfollowed, hr⟩
        · obtain ⟨n, hn, hf⟩ := hmem r' hr'
          exact ⟨n, List.mem_cons_of_mem next hn, hf⟩
      · exact iff_of_true ⟨next, List.mem_cons_self, hfollowed⟩ (by simp)

variable (env destinationNodeName usedMethodName) in
/-- What a call comes to at its position. The results at a node are those of calls for the
positions that follow. -/
inductive Outcome (fuel : ℕ) (p : Position) : Except LinkError (Option ι) → Prop
  | dead {e : LinkError} (hview : view env destinationNodeName p = .dead)
      (hitem : ¬ NoItem env destinationNodeName p)
      (hdocumented : Documented (.error e : Except LinkError (Option ι))) : Outcome fuel p (.error e)
  | noItem {message : String} (hitem : NoItem env destinationNodeName p) :
      Outcome fuel p (.error (.typeError message))
  | leaf {item : Option ι} (hview : view env destinationNodeName p = .leaf item) :
      Outcome fuel p (.ok item)
  | noEntry {e : LinkError} (hview : view env destinationNodeName p = .node [])
      (hdocumented : Documented (.error e : Except LinkError (Option ι))) : Outcome fuel p (.error e)
  | node {bs : List (Bool × Position)} {sourceArray : List (Option SourceData)}
      {sourceData : SourceData} {pairedItem : PairedItemData} {nodeBeforeLast : Option String}
      {results : List (Except LinkError (Option ι))}
      (hview : view env destinationNodeName p = .node bs)
      (hresults : ∀ r ∈ results, ∃ incoming entry before,
        (true, position incoming entry) ∈ bs ∧ getPairedItem env destinationNodeName usedMethodName
          fuel incoming entry before = some r)
      (hnonempty : (∃ q, (true, q) ∈ bs) ↔ results ≠ []) (hne : bs ≠ []) :
      Outcome fuel p
        (matchItems destinationNodeName sourceArray sourceData pairedItem nodeBeforeLast results)

theorem getPairedItem_outcome {fuel : ℕ} {incomingSourceData : Option SourceData}
    {pairedItem : PairedEntry} {nodeBeforeLast : Option String} {r : Except LinkError (Option ι)}
    (h : getPairedItem env destinationNodeName usedMethodName (fuel + 1) incomingSourceData
      pairedItem nodeBeforeLast = some r) :
    Outcome env destinationNodeName usedMethodName fuel (position incomingSourceData pairedItem)
      r := by
  rw [getPairedItem] at h
  rw [position]
  generalize normalizeInputs pairedItem incomingSourceData = inputs at h ⊢
  obtain ⟨pairedItem, sourceData⟩ := inputs
  cases sourceData with
  | none =>
    obtain rfl := Option.some.inj h
    refine .dead rfl ?_ trivial
    rintro ⟨source, outputData, hsource, -⟩
    cases hsource
  | some source =>
    simp only [getNodeOutput] at h
    cases houtputs : outputs? (getTaskData env source) source with
    | none =>
      rw [houtputs] at h
      obtain rfl := Option.some.inj h
      refine .dead (by simp only [view, houtputs]) ?_ trivial
      rintro ⟨source', outputData, hsource, houtputs', -⟩
      rw [← Option.some.inj hsource, houtputs] at houtputs'
      cases houtputs'
    | some outputData =>
      rw [houtputs] at h
      dsimp only at h
      by_cases hnode : source.previousNode = destinationNodeName
      · rw [if_pos hnode] at h
        have hitem : ¬ NoItem env destinationNodeName ⟨some source, pairedItem.item⟩ := by
          rintro ⟨source', outputData', hsource, -, hother, -⟩
          exact hother (Option.some.inj hsource ▸ hnode)
        split_ifs at h with hpast
        · obtain rfl := Option.some.inj h
          exact .dead (by simp only [view, houtputs, if_pos hnode, if_pos hpast]) hitem trivial
        · obtain rfl := Option.some.inj h
          exact .leaf (by simp only [view, houtputs, if_pos hnode, if_neg hpast])
      · rw [if_neg hnode] at h
        cases hitem : at? outputData pairedItem.item with
        | none =>
          rw [hitem] at h
          obtain rfl := Option.some.inj h
          exact .noItem ⟨source, outputData, rfl, houtputs, hnode, hitem⟩
        | some item =>
          rw [hitem] at h
          dsimp only at h
          have hview : view env destinationNodeName ⟨some source, pairedItem.item⟩ =
              .node ((normalizePairedItem (env.pairedItem item)).map
                (nextPosition (((getTaskData env source).map TaskData.source).getD []))) := by
            simp only [view, houtputs, if_neg hnode, hitem]
          split_ifs at h with hempty
          · obtain rfl := Option.some.inj h
            rw [List.isEmpty_iff.mp hempty] at hview
            exact .noEntry hview trivial
          · obtain ⟨results, hresults, rfl⟩ := Option.map_eq_some_iff.mp h
            obtain ⟨hmem, hnonempty⟩ := mem_of_mapM_nextPaired hresults
            refine .node hview (fun r hr => ?_) ?_ (by simpa using hempty)
            · obtain ⟨next, hnext, hfollowed, hf⟩ := hmem r hr
              refine ⟨_, _, _, ?_, hf⟩
              rw [position_next, ← hfollowed]
              exact List.mem_map_of_mem hnext
            · rw [← hnonempty]
              constructor
              · rintro ⟨q, hq⟩
                obtain ⟨next, hnext, heq⟩ := List.mem_map.mp hq
                exact ⟨next, hnext, congrArg Prod.fst heq⟩
              · rintro ⟨next, hnext, hfollowed⟩
                exact ⟨_, List.mem_map.mpr ⟨next, hnext, Prod.ext hfollowed rfl⟩⟩

theorem documented_of_guarded {fuel : ℕ} {incomingSourceData : Option SourceData}
    {pairedItem : PairedEntry} {nodeBeforeLast : Option String} {r : Except LinkError (Option ι)}
    (hguarded : ∀ p, Called env destinationNodeName (position incomingSourceData pairedItem) p →
      ¬ Unguarded env destinationNodeName p)
    (h : getPairedItem env destinationNodeName usedMethodName fuel incomingSourceData pairedItem
      nodeBeforeLast = some r) : Documented r := by
  induction fuel generalizing incomingSourceData pairedItem nodeBeforeLast r with
  | zero => cases h
  | succ fuel ih =>
    have hhere := hguarded _ .refl
    cases getPairedItem_outcome h with
    | dead _ _ hdocumented => exact hdocumented
    | noItem hitem => exact absurd (Or.inr (Or.inl hitem)) hhere
    | leaf hview => exact fun hnone => hhere (Or.inl (hnone ▸ hview))
    | noEntry _ hdocumented => exact hdocumented
    | node hview hresults hnonempty hne =>
      refine matchItems_documented (hnonempty.mp ?_) fun r hr => ?_
      · by_contra hnone
        refine hhere (Or.inr (Or.inr ⟨_, hview, hne, fun b hb => ?_⟩))
        exact Bool.eq_false_iff.mpr fun htrue => hnone ⟨b.2, htrue ▸ hb⟩
      · obtain ⟨incoming, entry, before, hnext, hr⟩ := hresults r hr
        exact ih (fun p hp => hguarded p (.head ⟨_, hview, hnext⟩ hp)) hr

theorem not_documented_of_unguarded {fuel : ℕ} {incomingSourceData : Option SourceData}
    {pairedItem : PairedEntry} {nodeBeforeLast : Option String} {r : Except LinkError (Option ι)}
    (hunguarded : Unguarded env destinationNodeName (position incomingSourceData pairedItem))
    (h : getPairedItem env destinationNodeName usedMethodName fuel incomingSourceData pairedItem
      nodeBeforeLast = some r) : ¬ Documented r := by
  cases fuel with
  | zero => cases h
  | succ fuel =>
    cases getPairedItem_outcome h with
    | dead hview hitem =>
      rcases hunguarded with hleaf | hnoItem | ⟨bs, hnode, -⟩
      · cases hview.symm.trans hleaf
      · exact absurd hnoItem hitem
      · cases hview.symm.trans hnode
    | noItem => exact id
    | leaf hview =>
      rcases hunguarded with hleaf | hnoItem | ⟨bs, hnode, -⟩
      · rw [View.leaf.inj (hview.symm.trans hleaf)]
        exact fun hdocumented => hdocumented rfl
      · cases hview.symm.trans (view_of_noItem hnoItem)
      · cases hview.symm.trans hnode
    | noEntry hview =>
      rcases hunguarded with hleaf | hnoItem | ⟨bs, hnode, hne, -⟩
      · cases hview.symm.trans hleaf
      · cases hview.symm.trans (view_of_noItem hnoItem)
      · exact absurd (View.node.inj (hview.symm.trans hnode)).symm hne
    | @node _ _ _ _ _ results hview hresults hnonempty =>
      rcases hunguarded with hleaf | hnoItem | ⟨bs, hnode, -, hfalse⟩
      · cases hview.symm.trans hleaf
      · cases hview.symm.trans (view_of_noItem hnoItem)
      · obtain rfl := View.node.inj (hview.symm.trans hnode)
        have hempty : results = [] := by
          by_contra hne
          obtain ⟨q, hq⟩ := hnonempty.mpr hne
          exact Bool.noConfusion (hfalse _ hq)
        rw [hempty]
        exact id

end Execution

/-! ### An item past the end of an output -/

end N8n.ItemLinking
