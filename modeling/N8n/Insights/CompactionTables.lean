import Mathlib.Data.List.Perm.Subperm
import Mathlib.Order.Basic
import Mathlib.Tactic.Ring
import N8n.Foundations.KeyedGroups
import N8n.Insights.InsightsCollection

/-!
# The tables of insights

A compaction copies a batch of rows to a temporary table, adds its aggregates to the rows of
the target period, and deletes the rows of the batch by their ids. The batch comes from the
raw table or from the table that the aggregates go to.
-/

namespace N8n.Insights
open GroupedSums

inductive PeriodUnit where
  | hour
  | day
  | week
  deriving DecidableEq, Repr

structure InsightsRaw (τ : Type) where
  id : ℕ
  metaId : ℕ
  type : InsightType
  value : ℤ
  timestamp : τ
  deriving DecidableEq, Repr

structure InsightsByPeriod (τ : Type) where
  id : ℕ
  metaId : ℕ
  type : InsightType
  value : ℤ
  periodUnit : PeriodUnit
  periodStart : τ
  deriving DecidableEq, Repr

/-- A row of `rows_to_compact`. -/
structure SourceRow (τ : Type) where
  id : ℕ
  metaId : ℕ
  type : InsightType
  periodStart : τ
  value : ℤ
  deriving DecidableEq, Repr

/-- A row of the aggregation, which has no id yet. -/
structure AggregatedRow (τ : Type) where
  metaId : ℕ
  type : InsightType
  periodUnit : PeriodUnit
  periodStart : τ
  value : ℤ
  deriving DecidableEq, Repr

/-- What the database computes: the start of the period of a time, the start of the day a
number of days before a time, and the id of a new row. -/
structure Database (τ : Type) where
  periodStartExpr : PeriodUnit → τ → τ
  periodFilterExpr : τ → ℕ → τ
  newId : List ℕ → ℕ
  newId_fresh : ∀ ids, newId ids ∉ ids

variable {τ : Type}

def InsightsRaw.source (row : InsightsRaw τ) : SourceRow τ :=
  ⟨row.id, row.metaId, row.type, row.timestamp, row.value⟩

namespace InsightsByPeriod

def source (row : InsightsByPeriod τ) : SourceRow τ :=
  ⟨row.id, row.metaId, row.type, row.periodStart, row.value⟩

/-- The columns of the unique index. -/
def key (row : InsightsByPeriod τ) : ℕ × InsightType × PeriodUnit × τ :=
  (row.metaId, row.type, row.periodUnit, row.periodStart)

end InsightsByPeriod

def AggregatedRow.key (row : AggregatedRow τ) : ℕ × InsightType × PeriodUnit × τ :=
  (row.metaId, row.type, row.periodUnit, row.periodStart)

/-- `ORDER BY periodStart ASC LIMIT n`, where rows of the same time come in any order. -/
def IsBatch [LE τ] (compactionBatchSize : ℕ) (rows batch : List (SourceRow τ)) : Prop :=
  ∃ rest, (batch ++ rest).Perm rows ∧ batch.length = min compactionBatchSize rows.length ∧
    batch.Pairwise (fun row row' => row.periodStart ≤ row'.periodStart) ∧
    ∀ row ∈ batch, ∀ row' ∈ rest, row.periodStart ≤ row'.periodStart

section
variable [DecidableEq τ] (database : Database τ) (periodUnit : PeriodUnit)

def groupKey (row : SourceRow τ) : ℕ × InsightType × τ :=
  (row.metaId, row.type, database.periodStartExpr periodUnit row.periodStart)

def aggregationQuery (rowsToCompact : List (SourceRow τ)) : List (AggregatedRow τ) :=
  (rowsToCompact.map (groupKey database periodUnit)).dedup.map fun k =>
    ⟨k.1, k.2.1, periodUnit, k.2.2,
      groupSum SourceRow.value (groupKey database periodUnit) rowsToCompact k⟩

/-- `INSERT … ON CONFLICT … DO UPDATE SET value = value + excluded.value`, for one row. -/
def upsertRow (newId : ℕ) (excluded : AggregatedRow τ) :
    List (InsightsByPeriod τ) → List (InsightsByPeriod τ)
  | [] => [⟨newId, excluded.metaId, excluded.type, excluded.value, excluded.periodUnit,
      excluded.periodStart⟩]
  | row :: rows =>
    if row.key = excluded.key then { row with value := row.value + excluded.value } :: rows
    else row :: upsertRow newId excluded rows

def upsertEvents (rows : List (InsightsByPeriod τ)) (aggregated : List (AggregatedRow τ)) :
    List (InsightsByPeriod τ) :=
  aggregated.foldl
    (fun rows excluded =>
      upsertRow (database.newId (rows.map InsightsByPeriod.id)) excluded rows) rows

end

/-- `DELETE … WHERE id IN (SELECT id FROM rows_to_compact)`. -/
def deleteBatch {ρ : Type} (id : ρ → ℕ) (rowsToCompact : List (SourceRow τ)) (rows : List ρ) :
    List ρ :=
  rows.filter fun row => !decide (id row ∈ rowsToCompact.map SourceRow.id)

theorem nodup_ids_deleteBatch {ρ : Type} {id : ρ → ℕ} {rows : List ρ} (h : (rows.map id).Nodup)
    (rowsToCompact : List (SourceRow τ)) : ((deleteBatch id rowsToCompact rows).map id).Nodup :=
  h.sublist (List.filter_sublist.map id)

/-! ### What an upsert does to the rows -/

section
variable [DecidableEq τ] {database : Database τ} {newId : ℕ} {excluded : AggregatedRow τ}
  {rows : List (InsightsByPeriod τ)} {aggregated : List (AggregatedRow τ)}

theorem map_id_upsertRow (newId : ℕ) (excluded : AggregatedRow τ)
    (rows : List (InsightsByPeriod τ)) :
    (upsertRow newId excluded rows).map InsightsByPeriod.id = rows.map InsightsByPeriod.id ∨
      (upsertRow newId excluded rows).map InsightsByPeriod.id =
        rows.map InsightsByPeriod.id ++ [newId] := by
  induction rows with
  | nil => exact Or.inr rfl
  | cons row rows ih =>
    rw [upsertRow]
    split_ifs
    · exact Or.inl rfl
    · exact ih.imp (congrArg (row.id :: ·)) (congrArg (row.id :: ·))

theorem map_key_upsertRow (newId : ℕ) (excluded : AggregatedRow τ)
    (rows : List (InsightsByPeriod τ)) :
    (upsertRow newId excluded rows).map InsightsByPeriod.key = rows.map InsightsByPeriod.key ∨
      excluded.key ∉ rows.map InsightsByPeriod.key ∧
      (upsertRow newId excluded rows).map InsightsByPeriod.key =
        rows.map InsightsByPeriod.key ++ [excluded.key] := by
  induction rows with
  | nil => exact Or.inr ⟨List.not_mem_nil, rfl⟩
  | cons row rows ih =>
    rw [upsertRow]
    split_ifs with hkey
    · exact Or.inl rfl
    · rcases ih with ih | ⟨hmem, ih⟩
      · exact Or.inl (congrArg (row.key :: ·) ih)
      · refine Or.inr ⟨?_, congrArg (row.key :: ·) ih⟩
        exact fun h => (List.mem_cons.mp h).elim (fun h => hkey h.symm) hmem

theorem nodup_ids_upsertRow (h : (rows.map InsightsByPeriod.id).Nodup)
    (hnew : newId ∉ rows.map InsightsByPeriod.id) :
    ((upsertRow newId excluded rows).map InsightsByPeriod.id).Nodup := by
  rcases map_id_upsertRow newId excluded rows with heq | heq
  · rwa [heq]
  · rw [heq, ← List.concat_eq_append]
    exact h.concat hnew

theorem nodup_keys_upsertRow (h : (rows.map InsightsByPeriod.key).Nodup) :
    ((upsertRow newId excluded rows).map InsightsByPeriod.key).Nodup := by
  rcases map_key_upsertRow newId excluded rows with heq | ⟨hmem, heq⟩
  · rwa [heq]
  · rw [heq, ← List.concat_eq_append]
    exact h.concat hmem

/-- The upsert does not touch rows of other keys. -/
theorem filter_upsertRow {ids : List ℕ} (hnew : newId ∉ ids)
    (h : ∀ row ∈ rows, row.id ∈ ids → row.key ≠ excluded.key) :
    (upsertRow newId excluded rows).filter (fun row => decide (row.id ∈ ids)) =
      rows.filter fun row => decide (row.id ∈ ids) := by
  induction rows with
  | nil => simp [upsertRow, hnew]
  | cons row rows ih =>
    rw [upsertRow]
    split_ifs with hkey
    · have hrow : row.id ∉ ids := fun hid => h row List.mem_cons_self hid hkey
      simp [hrow]
    · rw [List.filter_cons, List.filter_cons,
        ih fun row' hrow' => h row' (List.mem_cons_of_mem row hrow')]

/-- What a row adds to the total of a `metaId` and a type. -/
def share (metaId : ℕ) (type : InsightType) (metaId' : ℕ) (type' : InsightType) (value : ℤ) : ℤ :=
  if metaId' = metaId ∧ type' = type then value else 0

def InsightsRaw.share (metaId : ℕ) (type : InsightType) (row : InsightsRaw τ) : ℤ :=
  Insights.share metaId type row.metaId row.type row.value

def InsightsByPeriod.share (metaId : ℕ) (type : InsightType) (row : InsightsByPeriod τ) : ℤ :=
  Insights.share metaId type row.metaId row.type row.value

def SourceRow.share (metaId : ℕ) (type : InsightType) (row : SourceRow τ) : ℤ :=
  Insights.share metaId type row.metaId row.type row.value

def AggregatedRow.share (metaId : ℕ) (type : InsightType) (row : AggregatedRow τ) : ℤ :=
  Insights.share metaId type row.metaId row.type row.value

theorem share_add (metaId : ℕ) (type : InsightType) (metaId' : ℕ) (type' : InsightType)
    (value value' : ℤ) : share metaId type metaId' type' (value + value') =
      share metaId type metaId' type' value + share metaId type metaId' type' value' := by
  simp only [share]
  split_ifs <;> simp

theorem sum_share_upsertRow (metaId : ℕ) (type : InsightType) :
    ((upsertRow newId excluded rows).map (InsightsByPeriod.share metaId type)).sum =
      (rows.map (InsightsByPeriod.share metaId type)).sum + excluded.share metaId type := by
  induction rows with
  | nil => simp [upsertRow, InsightsByPeriod.share, AggregatedRow.share]
  | cons row rows ih =>
    rw [upsertRow]
    split_ifs with hkey
    · simp only [InsightsByPeriod.key, AggregatedRow.key, Prod.mk.injEq] at hkey
      simp only [List.map_cons, List.sum_cons, InsightsByPeriod.share, AggregatedRow.share,
        share_add, hkey.1, hkey.2.1]
      ring
    · rw [List.map_cons, List.sum_cons, ih, List.map_cons, List.sum_cons, add_assoc]

/-- How many compactions are ahead of a row of the period. -/
def PeriodUnit.compactionsAhead : PeriodUnit → ℕ
  | .hour => 2
  | .day => 1
  | .week => 0

def InsightsByPeriod.compactionsAhead (row : InsightsByPeriod τ) : ℕ :=
  row.periodUnit.compactionsAhead

theorem compactionsAhead_upsertRow (newId : ℕ) (excluded : AggregatedRow τ)
    (rows : List (InsightsByPeriod τ)) :
    ((upsertRow newId excluded rows).map InsightsByPeriod.compactionsAhead).sum ≤
      (rows.map InsightsByPeriod.compactionsAhead).sum +
        excluded.periodUnit.compactionsAhead := by
  induction rows with
  | nil => simp [upsertRow, InsightsByPeriod.compactionsAhead]
  | cons row rows ih =>
    rw [upsertRow]
    split_ifs
    · simp [InsightsByPeriod.compactionsAhead]
    · simp only [List.map_cons, List.sum_cons]
      omega

/-! ### The upserts of a batch -/

theorem nodup_ids_upsertEvents (h : (rows.map InsightsByPeriod.id).Nodup) :
    ((upsertEvents database rows aggregated).map InsightsByPeriod.id).Nodup := by
  induction aggregated generalizing rows with
  | nil => exact h
  | cons excluded aggregated ih => exact ih (nodup_ids_upsertRow h (database.newId_fresh _))

theorem nodup_keys_upsertEvents (h : (rows.map InsightsByPeriod.key).Nodup) :
    ((upsertEvents database rows aggregated).map InsightsByPeriod.key).Nodup := by
  induction aggregated generalizing rows with
  | nil => exact h
  | cons excluded aggregated ih => exact ih (nodup_keys_upsertRow h)

theorem filter_upsertEvents {periodUnit : PeriodUnit} {ids : List ℕ}
    (haggregated : ∀ excluded ∈ aggregated, excluded.periodUnit = periodUnit)
    (hids : ∀ id ∈ ids, id ∈ rows.map InsightsByPeriod.id)
    (hrows : ∀ row ∈ rows, row.id ∈ ids → row.periodUnit ≠ periodUnit) :
    (upsertEvents database rows aggregated).filter (fun row => decide (row.id ∈ ids)) =
      rows.filter fun row => decide (row.id ∈ ids) := by
  induction aggregated generalizing rows with
  | nil => rfl
  | cons excluded aggregated ih =>
    have hnew : database.newId (rows.map InsightsByPeriod.id) ∉ ids :=
      fun hid => database.newId_fresh _ (hids _ hid)
    have hfilter : (upsertRow (database.newId (rows.map InsightsByPeriod.id)) excluded rows).filter
        (fun row => decide (row.id ∈ ids)) = rows.filter fun row => decide (row.id ∈ ids) := by
      refine filter_upsertRow hnew fun row hrow hid hkey => hrows row hrow hid ?_
      rw [← haggregated excluded List.mem_cons_self]
      exact congrArg (·.2.2.1) hkey
    rw [← hfilter]
    refine ih (fun excluded' h => haggregated excluded' (List.mem_cons_of_mem _ h)) ?_ ?_
    · intro id hid
      rcases map_id_upsertRow (database.newId (rows.map InsightsByPeriod.id)) excluded rows
        with heq | heq
      · exact heq ▸ hids id hid
      · exact heq ▸ List.mem_append_left _ (hids id hid)
    · intro row hrow hid
      have hmem : row ∈ rows.filter fun row => decide (row.id ∈ ids) := by
        rw [← hfilter]
        exact List.mem_filter.mpr ⟨hrow, decide_eq_true hid⟩
      exact hrows row (List.mem_filter.mp hmem).1 hid

theorem sum_share_upsertEvents (metaId : ℕ) (type : InsightType) :
    ((upsertEvents database rows aggregated).map (InsightsByPeriod.share metaId type)).sum =
      (rows.map (InsightsByPeriod.share metaId type)).sum +
        (aggregated.map (AggregatedRow.share metaId type)).sum := by
  induction aggregated generalizing rows with
  | nil => simp [upsertEvents]
  | cons excluded aggregated ih =>
    rw [upsertEvents, List.foldl_cons, ← upsertEvents, ih, sum_share_upsertRow, List.map_cons,
      List.sum_cons, add_assoc]

theorem compactionsAhead_upsertEvents {periodUnit : PeriodUnit}
    (haggregated : ∀ excluded ∈ aggregated, excluded.periodUnit = periodUnit) :
    ((upsertEvents database rows aggregated).map InsightsByPeriod.compactionsAhead).sum ≤
      (rows.map InsightsByPeriod.compactionsAhead).sum +
        aggregated.length * periodUnit.compactionsAhead := by
  induction aggregated generalizing rows with
  | nil => simp [upsertEvents]
  | cons excluded aggregated ih =>
    have hrow := compactionsAhead_upsertRow (database.newId (rows.map InsightsByPeriod.id)) excluded
      rows
    rw [haggregated excluded List.mem_cons_self] at hrow
    rw [upsertEvents, List.foldl_cons, ← upsertEvents, List.length_cons, Nat.succ_mul]
    refine (ih fun excluded' h => haggregated excluded' (List.mem_cons_of_mem _ h)).trans ?_
    omega

end

/-! ### The aggregation of a batch -/

section
variable [DecidableEq τ] {database : Database τ} {periodUnit : PeriodUnit}
  {rowsToCompact : List (SourceRow τ)}

theorem periodUnit_aggregationQuery {excluded : AggregatedRow τ}
    (h : excluded ∈ aggregationQuery database periodUnit rowsToCompact) :
    excluded.periodUnit = periodUnit := by
  obtain ⟨k, -, rfl⟩ := List.mem_map.mp h
  rfl

theorem length_aggregationQuery_le :
    (aggregationQuery database periodUnit rowsToCompact).length ≤ rowsToCompact.length := by
  rw [aggregationQuery, List.length_map]
  exact (List.dedup_sublist _).length_le.trans (List.length_map _).le

theorem compactionsAhead_upsertBatch (database : Database τ) (rows : List (InsightsByPeriod τ))
    (periodUnit : PeriodUnit) (rowsToCompact : List (SourceRow τ)) :
    ((upsertEvents database rows (aggregationQuery database periodUnit rowsToCompact)).map
        InsightsByPeriod.compactionsAhead).sum ≤
      (rows.map InsightsByPeriod.compactionsAhead).sum +
        rowsToCompact.length * periodUnit.compactionsAhead :=
  (compactionsAhead_upsertEvents fun _ => periodUnit_aggregationQuery).trans
    (Nat.add_le_add_left (Nat.mul_le_mul_right _ length_aggregationQuery_le) _)

theorem sum_share_aggregationQuery (metaId : ℕ) (type : InsightType) :
    ((aggregationQuery database periodUnit rowsToCompact).map
        (AggregatedRow.share metaId type)).sum =
      (rowsToCompact.map (SourceRow.share metaId type)).sum := by
  rw [← sum_groupSum_dedup (SourceRow.share metaId type) (groupKey database periodUnit),
    aggregationQuery, List.map_map]
  refine congrArg List.sum (List.map_congr_left fun k _ => ?_)
  simp only [Function.comp_apply, AggregatedRow.share, share, groupSum]
  -- All rows of a group have the `metaId` and the type of its key.
  split_ifs with hk
  · refine congrArg List.sum (List.map_congr_left fun row hrow => ?_)
    obtain rfl := of_decide_eq_true (List.mem_filter.mp hrow).2
    exact (if_pos hk).symm
  · refine (List.sum_eq_zero fun value hvalue => ?_).symm
    obtain ⟨row, hrow, rfl⟩ := List.mem_map.mp hvalue
    obtain rfl := of_decide_eq_true (List.mem_filter.mp hrow).2
    exact if_neg hk

end

/-! ### Deletion of a batch -/

section
variable {ρ : Type} [LE τ] {id : ρ → ℕ} {source : ρ → SourceRow τ} {rows : List ρ} {p : ρ → Bool}
  {limit : ℕ} {batch : List (SourceRow τ)}

theorem IsBatch.mem (h : IsBatch limit ((rows.filter p).map source) batch) {row : SourceRow τ}
    (hrow : row ∈ batch) : ∃ row' ∈ rows, p row' = true ∧ source row' = row := by
  obtain ⟨rest, hperm, -⟩ := h
  obtain ⟨row', hrow', heq⟩ := List.mem_map.mp (hperm.subset (List.mem_append_left rest hrow))
  exact ⟨row', (List.mem_filter.mp hrow').1, (List.mem_filter.mp hrow').2, heq⟩

/-- A row with an id of the batch was copied to the batch. -/
theorem IsBatch.source_mem (h : IsBatch limit ((rows.filter p).map source) batch)
    (hid : ∀ row, (source row).id = id row) (hnodup : (rows.map id).Nodup) {row : ρ}
    (hrow : row ∈ rows) (hmem : id row ∈ batch.map SourceRow.id) :
    source row ∈ batch ∧ p row = true := by
  obtain ⟨copy, hcopy, heq⟩ := List.mem_map.mp hmem
  obtain ⟨row', hrow', hp, rfl⟩ := h.mem hcopy
  rw [hid] at heq
  obtain rfl := List.inj_on_of_nodup_map hnodup hrow' hrow heq
  exact ⟨hcopy, hp⟩

/-- The rows that are deleted are those of the batch. -/
theorem IsBatch.deleted_perm (h : IsBatch limit ((rows.filter p).map source) batch)
    (hid : ∀ row, (source row).id = id row) (hnodup : (rows.map id).Nodup) :
    ((rows.filter fun row => decide (id row ∈ batch.map SourceRow.id)).map source).Perm batch := by
  have hids : ∀ rows : List ρ, (rows.map source).map SourceRow.id = rows.map id := by
    intro rows
    rw [List.map_map]
    exact List.map_congr_left fun row _ => hid row
  have hbatch : batch.Nodup := by
    obtain ⟨rest, hperm, -⟩ := h
    have hall : (batch ++ rest).Nodup := by
      refine hperm.nodup_iff.mpr (List.Nodup.of_map SourceRow.id ?_)
      rw [hids]
      exact hnodup.sublist (List.filter_sublist.map id)
    exact (List.nodup_append.mp hall).1
  have hdeleted : ((rows.filter fun row =>
      decide (id row ∈ batch.map SourceRow.id)).map source).Nodup := by
    refine List.Nodup.of_map SourceRow.id ?_
    rw [hids]
    exact hnodup.sublist (List.filter_sublist.map id)
  refine (List.perm_ext_iff_of_nodup hdeleted hbatch).mpr fun row => ?_
  constructor
  · intro hrow
    obtain ⟨row', hrow', rfl⟩ := List.mem_map.mp hrow
    obtain ⟨hmem, hmem'⟩ := List.mem_filter.mp hrow'
    exact (h.source_mem hid hnodup hmem (of_decide_eq_true hmem')).1
  · intro hrow
    obtain ⟨row', hmem, -, rfl⟩ := h.mem hrow
    refine List.mem_map_of_mem (List.mem_filter.mpr ⟨hmem, decide_eq_true ?_⟩)
    exact List.mem_map.mpr ⟨_, hrow, hid row'⟩

/-- What is deleted from a table is what the batch holds, also where rows of other ids have
been changed in between. -/
theorem IsBatch.sum_deleteBatch {M : Type} [AddCommMonoid M]
    (h : IsBatch limit ((rows.filter p).map source) batch) (hid : ∀ row, (source row).id = id row)
    (hnodup : (rows.map id).Nodup) {rows' : List ρ}
    (hrows' : rows'.filter (fun row => decide (id row ∈ batch.map SourceRow.id)) =
      rows.filter fun row => decide (id row ∈ batch.map SourceRow.id))
    {f : ρ → M} {g : SourceRow τ → M} (hfg : ∀ row, p row = true → f row = g (source row)) :
    ((deleteBatch id batch rows').map f).sum + (batch.map g).sum = (rows'.map f).sum := by
  rw [← sum_filter_add_sum_filter_not f (fun row => decide (id row ∈ batch.map SourceRow.id)) rows',
    deleteBatch, add_comm, hrows']
  congr 1
  rw [← ((h.deleted_perm hid hnodup).map g).sum_eq, List.map_map]
  refine congrArg List.sum (List.map_congr_left fun row hrow => ?_)
  obtain ⟨hmem, hids⟩ := List.mem_filter.mp hrow
  exact (hfg row (h.source_mem hid hnodup hmem (of_decide_eq_true hids)).2).symm

end
end N8n.Insights
