import N8n.Insights.CompactionTables

/-!
# Compaction of insights

Compactions move values from the raw table to hours, from hours to days and from days to
weeks. A transaction takes effect as a whole or not at all, and no other begins while one is
under way in the same process.
-/

namespace N8n.Insights
open N8n.Runs GroupedSums

variable {τ : Type}

structure InsightsConfig where
  compactionBatchSize : ℕ
  compactionHourlyToDailyThresholdDays : ℕ
  compactionDailyToWeeklyThresholdDays : ℕ

/-- The tables, each with its primary key. -/
structure Tables (τ : Type) where
  raw : List (InsightsRaw τ)
  byPeriod : List (InsightsByPeriod τ)
  raw_ids : (raw.map InsightsRaw.id).Nodup
  byPeriod_ids : (byPeriod.map InsightsByPeriod.id).Nodup

/-- The calls that make a compaction. -/
inductive Compaction where
  | rawToHour
  | hourToDay
  | dayToWeek
  deriving DecidableEq, Repr

def Compaction.periodUnitToCompactInto : Compaction → PeriodUnit
  | .rawToHour => .hour
  | .hourToDay => .day
  | .dayToWeek => .week

namespace Tables
variable (tables : Tables τ)

/-- `getPeriodInsightsBatchQuery`, before the order and the limit. -/
def periodRows [LT τ] [DecidableLT τ] (database : Database τ) (now : τ)
    (periodUnitToCompactFrom : PeriodUnit) (maxAgeInDays : ℕ) : List (SourceRow τ) :=
  (tables.byPeriod.filter fun row => decide (row.periodUnit = periodUnitToCompactFrom) &&
    decide (row.periodStart < database.periodFilterExpr now maxAgeInDays)).map InsightsByPeriod.source

/-- The rows that a compaction takes its batch from. -/
def sourceRows [LT τ] [DecidableLT τ] (database : Database τ) (config : InsightsConfig) (now : τ) :
    Compaction → List (SourceRow τ)
  | .rawToHour => tables.raw.map InsightsRaw.source
  | .hourToDay =>
    tables.periodRows database now .hour config.compactionHourlyToDailyThresholdDays
  | .dayToWeek =>
    tables.periodRows database now .day config.compactionDailyToWeeklyThresholdDays

def total (metaId : ℕ) (type : InsightType) : ℤ :=
  (tables.raw.map (InsightsRaw.share metaId type)).sum +
    (tables.byPeriod.map (InsightsByPeriod.share metaId type)).sum

/-- No two rows have the same `metaId`, type, period unit and start. -/
def UniquePeriods : Prop := (tables.byPeriod.map InsightsByPeriod.key).Nodup

/-- How many compactions are ahead of the rows. -/
def compactionsAhead : ℕ :=
  3 * tables.raw.length + (tables.byPeriod.map InsightsByPeriod.compactionsAhead).sum

variable [DecidableEq τ] (database : Database τ)

def upserted (compaction : Compaction) (rowsToCompact : List (SourceRow τ)) :
    List (InsightsByPeriod τ) :=
  upsertEvents database tables.byPeriod
    (aggregationQuery database compaction.periodUnitToCompactInto rowsToCompact)

/-- The transaction of `compactSourceDataIntoInsightPeriod`. -/
def compact (compaction : Compaction) (rowsToCompact : List (SourceRow τ)) : Tables τ :=
  match compaction with
  | .rawToHour =>
    { raw := deleteBatch InsightsRaw.id rowsToCompact tables.raw
      byPeriod := tables.upserted database .rawToHour rowsToCompact
      raw_ids := nodup_ids_deleteBatch tables.raw_ids rowsToCompact
      byPeriod_ids := nodup_ids_upsertEvents tables.byPeriod_ids }
  | compaction =>
    { raw := tables.raw
      byPeriod := deleteBatch InsightsByPeriod.id rowsToCompact
        (tables.upserted database compaction rowsToCompact)
      raw_ids := tables.raw_ids
      byPeriod_ids := nodup_ids_deleteBatch (nodup_ids_upsertEvents tables.byPeriod_ids)
        rowsToCompact }

end Tables

/-! ### One transaction -/

section
variable [LinearOrder τ] {database : Database τ} {config : InsightsConfig} {now : τ}
  {tables : Tables τ} {compaction : Compaction} {batch : List (SourceRow τ)}

section
variable {limit maxAgeInDays : ℕ} {source target : PeriodUnit}

/-- The rows of the batch are as they were when the aggregates have been added. -/
theorem filter_upserted_period (hne : source ≠ target)
    (h : IsBatch limit (tables.periodRows database now source maxAgeInDays) batch) :
    (upsertEvents database tables.byPeriod (aggregationQuery database target batch)).filter
        (fun row => decide (row.id ∈ batch.map SourceRow.id)) =
      tables.byPeriod.filter fun row => decide (row.id ∈ batch.map SourceRow.id) := by
  refine filter_upsertEvents (fun _ => periodUnit_aggregationQuery) ?_ ?_
  · intro id hid
    obtain ⟨row, hrow, rfl⟩ := List.mem_map.mp hid
    obtain ⟨row', hrow', -, rfl⟩ := h.mem hrow
    exact List.mem_map_of_mem hrow'
  · intro row hrow hid
    have hsource := (h.source_mem (fun _ => rfl) tables.byPeriod_ids hrow hid).2
    rw [Bool.and_eq_true, decide_eq_true_eq] at hsource
    rw [hsource.1]
    exact hne

theorem sum_period {M : Type} [AddCommMonoid M] (hne : source ≠ target)
    (h : IsBatch limit (tables.periodRows database now source maxAgeInDays) batch)
    {f : InsightsByPeriod τ → M} {g : SourceRow τ → M}
    (hfg : ∀ row, row.periodUnit = source → f row = g row.source) :
    ((deleteBatch InsightsByPeriod.id batch
        (upsertEvents database tables.byPeriod (aggregationQuery database target batch))).map f).sum +
      (batch.map g).sum =
    ((upsertEvents database tables.byPeriod (aggregationQuery database target batch)).map f).sum := by
  refine h.sum_deleteBatch (fun _ => rfl) tables.byPeriod_ids (filter_upserted_period hne h) ?_
  intro row hp
  rw [Bool.and_eq_true, decide_eq_true_eq] at hp
  exact hfg row hp.1

theorem total_period (hne : source ≠ target)
    (h : IsBatch limit (tables.periodRows database now source maxAgeInDays) batch) (metaId : ℕ)
    (type : InsightType) :
    ((deleteBatch InsightsByPeriod.id batch (upsertEvents database tables.byPeriod
        (aggregationQuery database target batch))).map (InsightsByPeriod.share metaId type)).sum =
      (tables.byPeriod.map (InsightsByPeriod.share metaId type)).sum := by
  have hsum := sum_period hne h (f := InsightsByPeriod.share metaId type)
    (g := SourceRow.share metaId type) fun _ _ => rfl
  rw [sum_share_upsertEvents, sum_share_aggregationQuery] at hsum
  exact add_right_cancel hsum

theorem compactionsAhead_period (source target : PeriodUnit) (hne : source ≠ target)
    (hahead : source.compactionsAhead = target.compactionsAhead + 1)
    (h : IsBatch limit (tables.periodRows database now source maxAgeInDays) batch) :
    ((deleteBatch InsightsByPeriod.id batch (upsertEvents database tables.byPeriod
        (aggregationQuery database target batch))).map InsightsByPeriod.compactionsAhead).sum +
        batch.length ≤
      (tables.byPeriod.map InsightsByPeriod.compactionsAhead).sum := by
  have hsum := sum_period hne h (f := InsightsByPeriod.compactionsAhead)
    (g := fun _ => source.compactionsAhead) fun _ hsource =>
      congrArg PeriodUnit.compactionsAhead hsource
  have hupserted := compactionsAhead_upsertBatch database tables.byPeriod target batch
  rw [List.map_const', List.sum_replicate, Nat.nsmul_eq_mul, hahead, Nat.mul_succ] at hsum
  omega

end

/-- `getRawInsightsBatchQuery` takes any row. -/
theorem IsBatch.raw {limit : ℕ} (h : IsBatch limit (tables.raw.map InsightsRaw.source) batch) :
    IsBatch limit ((tables.raw.filter fun _ => true).map InsightsRaw.source) batch := by
  rwa [List.filter_true]

theorem sum_raw {M : Type} [AddCommMonoid M] {limit : ℕ}
    (h : IsBatch limit (tables.raw.map InsightsRaw.source) batch) {f : InsightsRaw τ → M}
    {g : SourceRow τ → M} (hfg : ∀ row, f row = g row.source) :
    ((deleteBatch InsightsRaw.id batch tables.raw).map f).sum + (batch.map g).sum =
      (tables.raw.map f).sum :=
  h.raw.sum_deleteBatch (fun _ => rfl) tables.raw_ids rfl fun row _ => hfg row

theorem total_compact (h : IsBatch config.compactionBatchSize
    (tables.sourceRows database config now compaction) batch) (metaId : ℕ) (type : InsightType) :
    (tables.compact database compaction batch).total metaId type = tables.total metaId type := by
  cases compaction with
  | rawToHour =>
    have hsum := sum_raw h (f := InsightsRaw.share metaId type)
      (g := SourceRow.share metaId type) fun _ => rfl
    simp only [Tables.total, Tables.compact, Tables.upserted, sum_share_upsertEvents,
      sum_share_aggregationQuery, ← hsum]
    ring
  | hourToDay => exact congrArg (_ + ·) (total_period (by decide) h metaId type)
  | dayToWeek => exact congrArg (_ + ·) (total_period (by decide) h metaId type)

theorem uniquePeriods_compact (h : tables.UniquePeriods) :
    (tables.compact database compaction batch).UniquePeriods := by
  have hupserted : ((tables.upserted database compaction batch).map
      InsightsByPeriod.key).Nodup := nodup_keys_upsertEvents h
  cases compaction with
  | rawToHour => exact hupserted
  | hourToDay => exact hupserted.sublist (List.filter_sublist.map _)
  | dayToWeek => exact hupserted.sublist (List.filter_sublist.map _)

/-- Every row of the batch comes one compaction closer to the weeks. -/
theorem compactionsAhead_compact (h : IsBatch config.compactionBatchSize
    (tables.sourceRows database config now compaction) batch) :
    (tables.compact database compaction batch).compactionsAhead + batch.length ≤
      tables.compactionsAhead := by
  cases compaction with
  | rawToHour =>
    have hsum := sum_raw h (f := fun _ => 1) (g := fun _ => 1) fun _ => rfl
    have hupserted := compactionsAhead_upsertBatch database tables.byPeriod .hour batch
    simp only [List.map_const', List.sum_replicate, Nat.nsmul_eq_mul, mul_one] at hsum
    simp only [Tables.compactionsAhead, Tables.compact, Tables.upserted,
      Compaction.periodUnitToCompactInto]
    simp only [PeriodUnit.compactionsAhead] at hupserted
    omega
  | hourToDay =>
    have hperiod := compactionsAhead_period .hour .day (by decide) rfl h
    simp only [Tables.compactionsAhead, Tables.compact, Tables.upserted,
      Compaction.periodUnitToCompactInto]
    omega
  | dayToWeek =>
    have hperiod := compactionsAhead_period .day .week (by decide) rfl h
    simp only [Tables.compactionsAhead, Tables.compact, Tables.upserted,
      Compaction.periodUnitToCompactInto]
    omega

end

/-! ### Calls that overlap -/

/-- A compaction that a call is at, and whether the call is one of `compactInsights`. -/
structure Job where
  compaction : Compaction
  whole : Bool
  deriving DecidableEq, Repr

/-- A call, by what it does next: enter `compactSourceDataIntoInsightPeriod`, or wait for the
end of its transaction. -/
inductive CallState where
  | notCalled
  | entering (job : Job)
  | inTransaction (job : Job)
  | ended
  deriving DecidableEq, Repr

/-- How the call goes on with the number of rows that were compacted. -/
def Job.next (config : InsightsConfig) (job : Job) (numberOfCompactedData : ℕ) : CallState :=
  if job.whole then
    if numberOfCompactedData = config.compactionBatchSize then .entering job
    else
      match job.compaction with
      | .rawToHour => .entering ⟨.hourToDay, true⟩
      | .hourToDay => .entering ⟨.dayToWeek, true⟩
      | .dayToWeek => .ended
  else .ended

structure Service (τ : Type) where
  tables : Tables τ
  isRunningCompaction : Bool
  calls : ℕ → CallState

namespace Service

inductive Event (τ : Type) where
  | compactInsights (id : ℕ)
  | compact (id : ℕ) (compaction : Compaction)
  | enter (id : ℕ)
  | commit (id : ℕ) (now : τ) (rowsToCompact : List (SourceRow τ))
  | rollback (id : ℕ)
  deriving DecidableEq

def update (s : Service τ) (id : ℕ) (call : CallState) : Service τ :=
  { s with calls := Function.update s.calls id call }

inductive Step [LinearOrder τ] (database : Database τ) (config : InsightsConfig) :
    Service τ → Event τ → Service τ → Prop
  | compactInsights {s : Service τ} {id : ℕ} :
      s.calls id = .notCalled →
      Step database config s (.compactInsights id) (s.update id (.entering ⟨.rawToHour, true⟩))
  | compact {s : Service τ} {id : ℕ} {compaction : Compaction} :
      s.calls id = .notCalled →
      Step database config s (.compact id compaction) (s.update id (.entering ⟨compaction, false⟩))
  /-- The compaction is skipped and gives `0`. -/
  | skip {s : Service τ} {id : ℕ} {job : Job} :
      s.calls id = .entering job → s.isRunningCompaction = true →
      Step database config s (.enter id) (s.update id (job.next config 0))
  | enter {s : Service τ} {id : ℕ} {job : Job} :
      s.calls id = .entering job → s.isRunningCompaction = false →
      Step database config s (.enter id)
        { s.update id (.inTransaction job) with isRunningCompaction := true }
  | commit {s : Service τ} {id : ℕ} {job : Job} {now : τ} {rowsToCompact : List (SourceRow τ)} :
      s.calls id = .inTransaction job →
      IsBatch config.compactionBatchSize
        (s.tables.sourceRows database config now job.compaction) rowsToCompact →
      Step database config s (.commit id now rowsToCompact)
        { s.update id (job.next config rowsToCompact.length) with
          tables := s.tables.compact database job.compaction rowsToCompact
          isRunningCompaction := false }
  | rollback {s : Service τ} {id : ℕ} {job : Job} :
      s.calls id = .inTransaction job →
      Step database config s (.rollback id)
        { s.update id .ended with isRunningCompaction := false }

def Initial (s : Service τ) : Prop :=
  s.isRunningCompaction = false ∧ ∀ id, s.calls id = .notCalled

/-- The call that goes on to its next batch. -/
def Event.entering : Event τ → Option ℕ
  | .enter id => some id
  | _ => none

/-- The batches that a call makes in a run. -/
def batches (id : ℕ) (tr : List (Event τ × Service τ)) : List (Event τ × Service τ) :=
  tr.filter fun p => p.1.entering = some id

end Service

/-- The compactions that are left to a call, with the one that it is to enter. -/
def Compaction.left : Compaction → ℕ
  | .rawToHour => 3
  | .hourToDay => 2
  | .dayToWeek => 1

def Job.left (job : Job) : ℕ := if job.whole then job.compaction.left else 1

def CallState.left : CallState → ℕ
  | .notCalled => 3
  | .entering job => job.left
  | .inTransaction job => job.left - 1
  | .ended => 0

theorem Job.left_pos (job : Job) : 0 < job.left := by
  obtain ⟨compaction, whole⟩ := job
  cases compaction <;> cases whole <;> decide

theorem Job.left_le (job : Job) : job.left ≤ 3 := by
  obtain ⟨compaction, whole⟩ := job
  cases compaction <;> cases whole <;> decide

/-- A call goes on with less to do, or after a full batch. -/
theorem Job.left_next {config : InsightsConfig} (hpos : 0 < config.compactionBatchSize) (job : Job)
    (n : ℕ) : (job.next config n).left ≤ job.left - 1 + n := by
  obtain ⟨compaction, whole⟩ := job
  cases whole with
  | false => exact Nat.zero_le _
  | true =>
    rw [Job.next, if_pos rfl]
    split_ifs with hfull
    · have hleft := Job.left_pos ⟨compaction, true⟩
      simp only [CallState.left]
      omega
    · cases compaction <;> simp [CallState.left, Job.left, Compaction.left]

namespace Service

/-- A step of one call keeps what is left to the others, when no compaction is undone. -/
theorem left_le_of_update {s s' : Service τ} {e : Event τ} {id' : ℕ} {call : CallState}
    (hself : e.entering.toList.length + (s'.tables.compactionsAhead + call.left) ≤
      s.tables.compactionsAhead + (s.calls id').left)
    (hahead : s'.tables.compactionsAhead ≤ s.tables.compactionsAhead)
    (hcalls : s'.calls = Function.update s.calls id' call) (hid : ∀ id ∈ e.entering, id' = id)
    (id : ℕ) :
    (batches id [(e, s')]).length + (s'.tables.compactionsAhead + (s'.calls id).left) ≤
      s.tables.compactionsAhead + (s.calls id).left := by
  by_cases h : id = id'
  · subst h
    have hlength : (batches id [(e, s')]).length ≤ e.entering.toList.length := by
      cases hentering : e.entering <;> simp [batches, List.filter_cons, hentering]
      split_ifs <;> simp
    rw [hcalls, Function.update_self]
    omega
  · have hnone : batches id [(e, s')] = [] := by
      refine List.filter_eq_nil_iff.mpr fun p hp => ?_
      rw [List.mem_singleton.mp hp, decide_eq_true_eq]
      exact fun hentering => h (hid id hentering).symm
    rw [hnone, hcalls, Function.update_of_ne h, List.length_nil]
    omega

section
variable [LinearOrder τ] {database : Database τ} {config : InsightsConfig} {s s' : Service τ}
  {e : Event τ} {tr : List (Event τ × Service τ)}

theorem Step.total_eq (h : Step database config s e s') (metaId : ℕ) (type : InsightType) :
    s'.tables.total metaId type = s.tables.total metaId type := by
  cases h with
  | commit hcall hbatch => exact total_compact hbatch metaId type
  | _ => rfl

theorem Step.uniquePeriods (h : Step database config s e s') (hunique : s.tables.UniquePeriods) :
    s'.tables.UniquePeriods := by
  cases h with
  | commit hcall hbatch => exact uniquePeriods_compact hunique
  | _ => exact hunique

/-- Each batch that a call makes leaves it less to do. -/
theorem Step.left_le (hpos : 0 < config.compactionBatchSize) (h : Step database config s e s')
    (id : ℕ) :
    (batches id [(e, s')]).length + (s'.tables.compactionsAhead + (s'.calls id).left) ≤
      s.tables.compactionsAhead + (s.calls id).left := by
  cases h with
  | compactInsights hcall =>
    apply left_le_of_update
    case hcalls => rfl
    case hid => exact nofun
    case hahead => exact le_rfl
    case hself =>
      rw [hcall]
      exact (Nat.zero_add _).le
  | compact hcall =>
    apply left_le_of_update
    case hcalls => rfl
    case hid => exact nofun
    case hahead => exact le_rfl
    case hself =>
      rw [hcall]
      exact (Nat.zero_add _).trans_le (Nat.add_le_add_left (Job.left_le _) _)
  | @skip id' job hcall =>
    apply left_le_of_update
    case hcalls => rfl
    case hid => exact fun _ => Option.some.inj
    case hahead => exact le_rfl
    case hself =>
      have hnext := job.left_next hpos 0
      have hleft := job.left_pos
      rw [hcall]
      change 1 + (s.tables.compactionsAhead + _) ≤ _ + job.left
      omega
  | @enter id' job hcall =>
    apply left_le_of_update
    case hcalls => rfl
    case hid => exact fun _ => Option.some.inj
    case hahead => exact le_rfl
    case hself =>
      have hleft := job.left_pos
      rw [hcall]
      change 1 + (s.tables.compactionsAhead + (job.left - 1)) ≤ _ + job.left
      omega
  | @commit id' job now rowsToCompact hcall hbatch =>
    have hahead : (s.tables.compact database job.compaction rowsToCompact).compactionsAhead +
        rowsToCompact.length ≤ s.tables.compactionsAhead := compactionsAhead_compact hbatch
    apply left_le_of_update
    case hcalls => rfl
    case hid => exact nofun
    case hahead => exact (Nat.le_add_right _ _).trans hahead
    case hself =>
      have hnext := job.left_next hpos rowsToCompact.length
      rw [hcall]
      change 0 + ((s.tables.compact database job.compaction rowsToCompact).compactionsAhead + _) ≤
        _ + (job.left - 1)
      omega
  | rollback hcall =>
    apply left_le_of_update
    case hcalls => rfl
    case hid => exact nofun
    case hahead => exact le_rfl
    case hself => exact (Nat.zero_add _).trans_le (Nat.add_le_add_left (Nat.zero_le _) _)

theorem length_batches_le (hpos : 0 < config.compactionBatchSize)
    (hr : Run (Step database config) s tr) (id : ℕ) :
    (batches id tr).length ≤ s.tables.compactionsAhead + (s.calls id).left := by
  induction hr with
  | nil s => exact Nat.zero_le _
  | @cons s s' e tr hs _ ih =>
    have hstep := Step.left_le hpos hs id
    have hsplit : (batches id ((e, s') :: tr)).length =
        (batches id [(e, s')]).length + (batches id tr).length := by
      rw [← List.length_append, batches, batches, batches, ← List.filter_append]
      rfl
    omega

/-- Compactions keep every total and the unique index, and end. -/
theorem compactions_keep_totals (h0 : s.Initial) (hpos : 0 < config.compactionBatchSize)
    (hr : Run (Step database config) s tr) :
    Always (fun s' => ∀ metaId type, s'.tables.total metaId type = s.tables.total metaId type)
      s tr ∧
    (s.tables.UniquePeriods → Always (fun s' => s'.tables.UniquePeriods) s tr) ∧
    ∀ id, (batches id tr).length ≤ s.tables.compactionsAhead + 3 := by
  refine ⟨?_, ?_, fun id => ?_⟩
  · exact hr.invariant (fun _ _ => rfl) fun _ _ _ htotal hs metaId type =>
      (hs.total_eq metaId type).trans (htotal metaId type)
  · exact fun hunique => hr.invariant hunique fun _ _ _ h hs => hs.uniquePeriods h
  · have hbatches := length_batches_le hpos hr id
    rwa [h0.2 id] at hbatches

end

section Example

/-- Times in hours. -/
def hourDatabase : Database ℕ where
  periodStartExpr
    | .hour, hours => hours
    | .day, hours => hours - hours % 24
    | .week, hours => hours - hours % 168
  periodFilterExpr := fun now maxAgeInDays => now - now % 24 - 24 * maxAgeInDays
  newId := fun ids => ids.foldr max 0 + 1
  newId_fresh := by
    intro ids hmem
    have hle : ∀ id ∈ ids, id ≤ ids.foldr max 0 := by
      clear hmem
      intro id hid
      induction ids with
      | nil => cases hid
      | cons id' ids ih =>
        rcases List.mem_cons.mp hid with rfl | hid
        · exact Nat.le_max_left _ _
        · exact (ih hid).trans (Nat.le_max_right _ _)
    exact absurd (hle _ hmem) (Nat.not_succ_le_self _)

/-- One success in the raw table. -/
def oneRawRow : Service ℕ where
  tables := ⟨[⟨1, 1, .success, 1, 30⟩], [], by decide, by decide⟩
  isRunningCompaction := false
  calls := fun _ => .notCalled

theorem oneRawRow_keeps_totals :
    ∃ tr : List (Event ℕ × Service ℕ),
      Run (Step hourDatabase ⟨500, 90, 180⟩) oneRawRow tr ∧
      tr.map Prod.fst =
        [.compactInsights 0, .enter 0, .commit 0 40 [⟨1, 1, .success, 30, 1⟩], .enter 0] ∧
      Always (fun s => ∀ metaId type, s.tables.total metaId type =
        oneRawRow.tables.total metaId type) oneRawRow tr ∧
      Always (fun s => s.tables.UniquePeriods) oneRawRow tr ∧ (batches 0 tr).length ≤ 6 := by
  have hbatch : IsBatch 500 (oneRawRow.tables.sourceRows hourDatabase ⟨500, 90, 180⟩ 40 .rawToHour)
      [⟨1, 1, .success, 30, 1⟩] :=
    ⟨[], List.Perm.refl _, rfl, List.pairwise_singleton _ _, nofun⟩
  have hrun : Run (Step hourDatabase ⟨500, 90, 180⟩) oneRawRow [(.compactInsights 0, _),
      (.enter 0, _), (.commit 0 40 [⟨1, 1, .success, 30, 1⟩], _), (.enter 0, _)] :=
    .cons (.compactInsights rfl) <| .cons (.enter rfl rfl) <| .cons (.commit rfl hbatch) <|
      .cons (.enter rfl rfl) (.nil _)
  have hkeep := compactions_keep_totals ⟨rfl, fun _ => rfl⟩ (by decide) hrun
  exact ⟨_, hrun, rfl, hkeep.1, hkeep.2.1 List.nodup_nil, hkeep.2.2 0⟩

end Example
end Service
end N8n.Insights
