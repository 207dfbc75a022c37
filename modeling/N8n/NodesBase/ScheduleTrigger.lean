import N8n.Foundations.ModularCounters
import Mathlib.Logic.Function.Basic

/-!
# The schedule trigger

The cron expressions of a schedule tick more often than the schedule says; every tick goes
through `recurrenceCheck`, which compares the clock with the last execution of the rule. The
rules of one node share the array of last executions.
-/

namespace N8n

open ModularCounters

/-- What is read of the clock, in the timezone of the workflow. -/
structure Moment where
  hour : ℕ
  dayOfYear : ℕ
  week : ℕ
  month : ℕ
  hour_lt : hour < 24
  dayOfYear_pos : 0 < dayOfYear
  dayOfYear_le : dayOfYear ≤ 366
  week_pos : 0 < week
  week_le : week ≤ 53
  month_lt : month < 12

inductive TypeInterval
  | hours
  | days
  | weeks
  | months
  deriving DecidableEq, Repr

inductive IRecurrenceRule
  | inactive
  | activated (index intervalSize : ℕ) (typeInterval : TypeInterval)
  deriving DecidableEq, Repr

inductive ScheduleInterval
  | cronExpression
  | seconds (secondsInterval : ℕ)
  | minutes (minutesInterval : ℕ)
  | hours (hoursInterval : ℕ)
  | days (daysInterval : ℕ)
  | weeks (weeksInterval : ℕ)
  | months (monthsInterval : ℕ)
  deriving DecidableEq, Repr

/-- The last execution of each rule, `none` where the array holds nothing. -/
abbrev RecurrenceRules := ℕ → Option ℕ

def recurrenceCheck (recurrence : IRecurrenceRule) (recurrenceRules : RecurrenceRules)
    (momentTz : Moment) : Bool × RecurrenceRules :=
  match recurrence with
  | .inactive => (true, recurrenceRules)
  | .activated index intervalSize typeInterval =>
    if intervalSize = 0 then (false, recurrenceRules)
    else
      let lastExecution := recurrenceRules index
      match typeInterval with
      | .hours =>
        let hour := momentTz.hour
        if lastExecution.all fun last => hour == (intervalSize + last) % 24 then
          (true, Function.update recurrenceRules index (some hour))
        else (false, recurrenceRules)
      | .days =>
        let dayOfYear := momentTz.dayOfYear
        if lastExecution.all fun last => dayOfYear == (intervalSize + last) % 365 then
          (true, Function.update recurrenceRules index (some dayOfYear))
        else (false, recurrenceRules)
      | .weeks =>
        let week := momentTz.week
        if lastExecution.all fun last => week == (intervalSize + last) % 52 || week == last then
          (true, Function.update recurrenceRules index (some week))
        else (false, recurrenceRules)
      | .months =>
        let month := momentTz.month
        if lastExecution.all fun last => month == (intervalSize + last) % 12 then
          (true, Function.update recurrenceRules index (some month))
        else (false, recurrenceRules)

def intervalToRecurrence (interval : ScheduleInterval) (index : ℕ) : IRecurrenceRule :=
  match interval with
  | .hours hoursInterval =>
    if hoursInterval ≠ 1 then .activated index hoursInterval .hours else .inactive
  | .days daysInterval =>
    if daysInterval ≠ 1 then .activated index daysInterval .days else .inactive
  | .weeks weeksInterval =>
    if weeksInterval ≠ 1 then .activated index weeksInterval .weeks else .inactive
  | .months monthsInterval =>
    if monthsInterval ≠ 1 then .activated index monthsInterval .months else .inactive
  | _ => .inactive

/-- The cron job of one rule goes off. -/
structure Tick where
  rule : ℕ
  moment : Moment

/-- One tick: whether the node emits, and the last executions afterwards. -/
def executeTrigger (intervals : List ScheduleInterval) (recurrenceRules : RecurrenceRules)
    (tick : Tick) : Bool × RecurrenceRules :=
  match intervals[tick.rule]? with
  | none => (false, recurrenceRules)
  | some interval =>
    recurrenceCheck (intervalToRecurrence interval tick.rule) recurrenceRules tick.moment

/-- The ticks of an active workflow in their order, each with whether the node emits. -/
def executeTriggers (intervals : List ScheduleInterval) :
    RecurrenceRules → List Tick → List (Tick × Bool)
  | _, [] => []
  | recurrenceRules, tick :: ticks =>
    let checked := executeTrigger intervals recurrenceRules tick
    (tick, checked.1) :: executeTriggers intervals checked.2 ticks

/-- The state that `trigger` starts with when the node has no static data yet. -/
def noRecurrenceRules : RecurrenceRules := fun _ => none

section Rules

variable {intervals : List ScheduleInterval}

def ticksOf (rule : ℕ) (ticks : List Tick) : List Tick :=
  ticks.filter fun tick => tick.rule == rule

/-- What became of the ticks of one rule. -/
def firings (rule : ℕ) (checked : List (Tick × Bool)) : List Bool :=
  (checked.filter fun tick => tick.1.rule == rule).map Prod.snd

def TypeInterval.period : TypeInterval → ℕ
  | .hours => 24
  | .days => 365
  | .weeks => 52
  | .months => 12

def TypeInterval.reading : TypeInterval → Moment → ℕ
  | .hours => Moment.hour
  | .days => Moment.dayOfYear
  | .weeks => Moment.week
  | .months => Moment.month

/-- The intervals that are filtered by the clock, but for weeks, that also fire twice in one. -/
def ScheduleInterval.every (t : TypeInterval) (n : ℕ) : ScheduleInterval :=
  match t with
  | .hours => .hours n
  | .days => .days n
  | .weeks => .weeks n
  | .months => .months n

theorem intervalToRecurrence_every {t : TypeInterval} {n : ℕ} (hn : n ≠ 1) (index : ℕ) :
    intervalToRecurrence (.every t n) index = .activated index n t := by
  cases t <;> simp [intervalToRecurrence, ScheduleInterval.every, hn]

theorem all_eq_due (P n : ℕ) (last : Option ℕ) (now : ℕ) :
    (last.all fun last => now == (n + last) % P) = due P n last now := by
  cases last <;> rfl

/-- All intervals but weeks are counters modulo their period. -/
theorem recurrenceCheck_activated {t : TypeInterval} (ht : t ≠ .weeks) {n : ℕ} (hn : n ≠ 0)
    (index : ℕ) (recurrenceRules : RecurrenceRules) (momentTz : Moment) :
    recurrenceCheck (.activated index n t) recurrenceRules momentTz =
      if due t.period n (recurrenceRules index) (t.reading momentTz) then
        (true, Function.update recurrenceRules index (some (t.reading momentTz)))
      else (false, recurrenceRules) := by
  cases t
  case weeks => exact absurd rfl ht
  all_goals simp only [recurrenceCheck, if_neg hn, all_eq_due]; rfl

theorem recurrenceCheck_other {recurrence : IRecurrenceRule} {rule index : ℕ} (h : index ≠ rule)
    (hrule : ∀ i n t, recurrence = .activated i n t → i = index)
    (recurrenceRules : RecurrenceRules) (momentTz : Moment) :
    (recurrenceCheck recurrence recurrenceRules momentTz).2 rule = recurrenceRules rule := by
  cases recurrence with
  | inactive => rfl
  | activated i n t =>
    obtain rfl := hrule i n t rfl
    cases t <;> simp only [recurrenceCheck] <;> split_ifs <;>
      first | rfl | exact Function.update_of_ne h.symm _ _

theorem intervalToRecurrence_index {interval : ScheduleInterval} {index i n : ℕ} {t : TypeInterval}
    (h : intervalToRecurrence interval index = .activated i n t) : i = index := by
  cases interval <;> simp only [intervalToRecurrence] at h <;> first
    | cases h
    | (split_ifs at h; injection h with h; exact h.symm)

/-- A tick of one rule leaves the last execution of the others as it is. -/
theorem executeTrigger_other {recurrenceRules : RecurrenceRules} {tick : Tick} {rule : ℕ}
    (h : tick.rule ≠ rule) :
    (executeTrigger intervals recurrenceRules tick).2 rule = recurrenceRules rule := by
  unfold executeTrigger
  split
  · rfl
  · exact recurrenceCheck_other h (fun _ _ _ => intervalToRecurrence_index) _ _

theorem executeTrigger_own {recurrenceRules : RecurrenceRules} {tick : Tick} {t : TypeInterval}
    {n : ℕ} (ht : t ≠ .weeks) (hn : 1 < n) (hrule : intervals[tick.rule]? = some (.every t n)) :
    executeTrigger intervals recurrenceRules tick =
      if due t.period n (recurrenceRules tick.rule) (t.reading tick.moment) then
        (true, Function.update recurrenceRules tick.rule (some (t.reading tick.moment)))
      else (false, recurrenceRules) := by
  simp only [executeTrigger, hrule, intervalToRecurrence_every (by omega : n ≠ 1)]
  exact recurrenceCheck_activated ht (by omega) _ _ _

/-- In every interleaving with the ticks of other rules, a rule is a counter of its own. -/
theorem firings_eq_answers {t : TypeInterval} {n rule : ℕ} (ht : t ≠ .weeks) (hn : 1 < n)
    (hrule : intervals[rule]? = some (.every t n)) (recurrenceRules : RecurrenceRules)
    (ticks : List Tick) :
    firings rule (executeTriggers intervals recurrenceRules ticks) =
      answers t.period n (recurrenceRules rule)
        ((ticksOf rule ticks).map fun tick => t.reading tick.moment) := by
  induction ticks generalizing recurrenceRules with
  | nil => rfl
  | cons tick ticks ih =>
    simp only [executeTriggers, firings, ticksOf] at ih ⊢
    by_cases hown : tick.rule = rule
    · subst hown
      rw [List.filter_cons_of_pos (by simp), List.filter_cons_of_pos (by simp), List.map_cons,
        List.map_cons, ih, executeTrigger_own ht hn hrule]
      by_cases hdue : due t.period n (recurrenceRules tick.rule) (t.reading tick.moment)
      · rw [if_pos hdue, answers_due hdue]
        simp only [Function.update_self]
      · rw [if_neg hdue, answers_not_due (by simpa using hdue)]
    · rw [List.filter_cons_of_neg (by simpa using hown), List.filter_cons_of_neg (by simpa using hown),
        ih, executeTrigger_other hown]

end Rules

section Turns

/-- A rule of every `n` hours (months) ticks at the multiples of `n`, the hours (months) that
its cron expression names. It fires at all of them exactly when `n` divides 24 (12) or is a
multiple of it; else it never fires again after the first midnight (new year). -/
theorem hoursRule_firings {intervals : List ScheduleInterval} {t : TypeInterval}
    (ht : t = .hours ∨ t = .months) {n rule : ℕ} (hn : 1 < n)
    (hrule : intervals[rule]? = some (.every t n)) {s k : ℕ} (hs : s * n < t.period)
    (ticks : List Tick)
    (hticks : (ticksOf rule ticks).map (fun tick => t.reading tick.moment) =
      multiples t.period n s k) :
    firings rule (executeTriggers intervals noRecurrenceRules ticks) =
      (List.range k).map fun i =>
        decide (n ∣ t.period ∨ t.period ∣ n ∨ (s + i) * n < t.period) := by
  have hweeks : t ≠ .weeks := by
    rcases ht with rfl | rfl <;> simp
  have hperiod : 0 < t.period := by
    cases t <;> simp [TypeInterval.period]
  have hpos : 0 < n := by omega
  rw [firings_eq_answers hweeks hn hrule, hticks]
  simp only [noRecurrenceRules]
  rw [answers_multiples hperiod hpos ((lt_perPeriod hpos).mpr hs)]
  simp only [lt_perPeriod hpos]

/-- The clock at the full hour on the first of January. -/
def onHour (hour : ℕ) (hlt : hour < 24) : Moment where
  hour := hour
  dayOfYear := 1
  week := 1
  month := 0
  hour_lt := hlt
  dayOfYear_pos := by decide
  dayOfYear_le := by decide
  week_pos := by decide
  week_le := by decide
  month_lt := by decide

/-- A rule of every five hours next to one of every two: it fires at 20 and not at midnight. -/
theorem everyFiveHours_stops :
    firings 1 (executeTriggers [.hours 2, .hours 5] noRecurrenceRules
      [⟨0, onHour 20 (by decide)⟩, ⟨1, onHour 20 (by decide)⟩, ⟨0, onHour 22 (by decide)⟩,
        ⟨0, onHour 0 (by decide)⟩, ⟨1, onHour 0 (by decide)⟩]) = [true, false] :=
  (hoursRule_firings (t := .hours) (n := 5) (s := 4) (k := 2) (Or.inl rfl) (by decide) rfl
    (by decide) _ rfl).trans (by decide)

end Turns

section Years

/-- The clock on one day of the year. -/
def onDay (day : ℕ) (hpos : 0 < day) (hle : day ≤ 366) : Moment where
  hour := 0
  dayOfYear := day
  week := 1
  month := 0
  hour_lt := by decide
  dayOfYear_pos := hpos
  dayOfYear_le := hle
  week_pos := by decide
  week_le := by decide
  month_lt := by decide

variable {intervals : List ScheduleInterval} {n rule : ℕ}

theorem firings_of_first_day (hn : 1 < n) (hrule : intervals[rule]? = some (.days n))
    {first : Tick} {later : List Tick} (hfirst : first.rule = rule) :
    firings rule (executeTriggers intervals noRecurrenceRules (first :: later)) =
      true :: answers 365 n (some first.moment.dayOfYear)
        ((ticksOf rule later).map fun tick => tick.moment.dayOfYear) := by
  rw [firings_eq_answers (t := .days) (by simp) hn hrule]
  have hown : ticksOf rule (first :: later) = first :: ticksOf rule later := by
    simp [ticksOf, hfirst]
  rw [hown, List.map_cons, answers_due rfl]
  rfl

/-- Ticks of one rule on the given days. -/
theorem exists_ticks_on {days : List ℕ} (hpos : ∀ day ∈ days, 0 < day)
    (hle : ∀ day ∈ days, day ≤ 366) (rule : ℕ) :
    ∃ ticks : List Tick, (ticksOf rule ticks).map (fun tick => tick.moment.dayOfYear) = days := by
  induction days with
  | nil => exact ⟨[], rfl⟩
  | cons day days ih =>
    obtain ⟨ticks, hticks⟩ := ih (fun d hd => hpos d (List.mem_cons_of_mem day hd))
      (fun d hd => hle d (List.mem_cons_of_mem day hd))
    refine ⟨⟨rule, onDay day (hpos day List.mem_cons_self) (hle day List.mem_cons_self)⟩ :: ticks, ?_⟩
    simp only [ticksOf] at hticks ⊢
    rw [List.filter_cons_of_pos (by simp), List.map_cons, hticks]
    rfl

/-- A rule of every `n` days waits for a day modulo 365, and no day is day 0. Whether it ever
comes to wait for that day is decided by its first day: if the greatest common divisor of `n`
and 365 divides it, the rule fires at most 365 times, however often and on whatever days it
ticks; else there is no bound to how often it can fire. -/
theorem daysRule_firings (hn : 1 < n) (hrule : intervals[rule]? = some (.days n)) (first : Tick)
    (hfirst : first.rule = rule) :
    (n.gcd 365 ∣ first.moment.dayOfYear →
      ∀ later, (firings rule
        (executeTriggers intervals noRecurrenceRules (first :: later))).count true ≤ 365) ∧
    (¬ n.gcd 365 ∣ first.moment.dayOfYear →
      ∀ bound, ∃ later, bound < (firings rule
        (executeTriggers intervals noRecurrenceRules (first :: later))).count true) := by
  refine ⟨fun hdvd later => ?_, fun hdvd bound => ?_⟩
  · obtain ⟨t, htpos, htle, hzero⟩ := exists_zero_of_gcd_dvd (by decide : 0 < 365) hdvd
    have hpos : ∀ day ∈ (ticksOf rule later).map (fun tick => tick.moment.dayOfYear), 0 < day := by
      intro day hday
      obtain ⟨tick, -, rfl⟩ := List.mem_map.mp hday
      exact tick.moment.dayOfYear_pos
    rw [firings_of_first_day hn hrule hfirst, List.count_cons_self]
    have hlt := count_answers_lt htpos hzero hpos
    omega
  · obtain ⟨later, hlater⟩ := exists_ticks_on (orbit_pos hdvd (bound + 1))
      (fun day hday => (orbit_lt (by decide) _ _ day hday).le.trans (by decide)) rule
    refine ⟨later, ?_⟩
    rw [firings_of_first_day hn hrule hfirst, hlater, answers_orbit, List.count_cons_self,
      List.count_replicate_self]
    omega

/-- Every two days fires on the 363rd day, and then waits for day 0. -/
theorem everyTwoDays_dies_out :
    (∀ later, (firings 0 (executeTriggers [.days 2] noRecurrenceRules
      (⟨0, onDay 363 (by decide) (by decide)⟩ :: later))).count true ≤ 365) ∧
    (∀ bound, ∃ later, bound < (firings 0 (executeTriggers [.days 5] noRecurrenceRules
      (⟨0, onDay 1 (by decide) (by decide)⟩ :: later))).count true) :=
  ⟨(daysRule_firings (by decide) rfl ⟨0, onDay 363 (by decide) (by decide)⟩ rfl).1 (by decide),
    (daysRule_firings (by decide) rfl ⟨0, onDay 1 (by decide) (by decide)⟩ rfl).2 (by decide)⟩

end Years

end N8n
