import Mathlib.Algebra.Order.Ring.Int
import N8n.EventBus.LogWriter

/-!
# The files of the log

The worker writes to the file with number 0. When it rotates the files, each gets the next number,
and the one with the highest number is removed. The messages of an execution are looked up in the
files with numbers below the configured count.
-/

namespace N8n.EventBus

/-- The lines of each log file that exists, by its number. -/
abbrev LogFiles (δ : Type) := ℕ → Option (List (LogLine δ))

section
variable {τ δ : Type}

def renameLog (i j : ℕ) (files : LogFiles δ) : LogFiles δ :=
  Function.update (Function.update files i none) j (files i)

/-- The loop over the files, from the number below `i` on downwards. -/
def shiftLogs : ℕ → LogFiles δ → LogFiles δ
  | 0, files => files
  | i + 1, files =>
      shiftLogs i (if (files i).isSome then renameLog i (i + 1) files else files)

def renameAndCreateLogs (keepFiles : ℕ) (files : LogFiles δ) : LogFiles δ :=
  let files := if (files keepFiles).isSome then Function.update files keepFiles none else files
  let files := shiftLogs keepFiles files
  Function.update files 0 (some ((files 0).getD []))

def setKeepFiles (keepNumberOfFiles : ℕ) : ℕ :=
  if keepNumberOfFiles < 1 then 1 else keepNumberOfFiles

structure Worker (δ : Type) where
  loggingPaused : Bool
  keepFiles : ℕ
  files : LogFiles δ

def Worker.initialized (keepNumberOfFiles : ℕ) : Worker δ :=
  ⟨true, setKeepFiles keepNumberOfFiles, fun _ => none⟩

def Worker.appendMessageSync (worker : Worker δ) (line : LogLine δ) : Worker δ :=
  if worker.loggingPaused then worker
  else { worker with
    files := Function.update worker.files 0 (some ((worker.files 0).getD [] ++ [line])) }

/-- What the worker is told, or does when a file has become too large. -/
inductive WorkerEvent (τ δ : Type) where
  | startLogging
  | append (call : WriterCall τ δ)
  | renameAndCreateLogs

def WorkerEvent.apply (dateTime : DateTime τ) (worker : Worker δ) : WorkerEvent τ δ → Worker δ
  | .startLogging => { worker with
      loggingPaused := false
      files := EventBus.renameAndCreateLogs worker.keepFiles worker.files }
  | .append call => worker.appendMessageSync (call.line dateTime)
  | .renameAndCreateLogs => { worker with
      files := EventBus.renameAndCreateLogs worker.keepFiles worker.files }

def runWorker (dateTime : DateTime τ) (keepNumberOfFiles : ℕ) (events : List (WorkerEvent τ δ)) :
    Worker δ :=
  events.foldl (WorkerEvent.apply dateTime) (.initialized keepNumberOfFiles)

/-! ### Looking up an execution -/

def AbstractEventMessageOptions.executionId (options : AbstractEventMessageOptions δ) :
    Option String :=
  options.payload.bind AbstractEventPayload.executionId

def readLineByExecutionId (dateTime : DateTime τ) (executionId : String) :
    LogLine δ → Option (EventMessage τ δ)
  | .message options =>
      if matchesEventName options.eventName.name ∧ options.executionId = some executionId then
        getEventMessageObjectByType dateTime options
      else none
  | .confirm _ _ _ => none

def readFromFileByExecutionId (dateTime : DateTime τ) (executionId : String)
    (file : Option (List (LogLine δ))) : List (EventMessage τ δ) :=
  (file.getD []).filterMap (readLineByExecutionId dateTime executionId)

/-- `logHistory` is 0 where it is not given. The messages are sorted by their times in
milliseconds. -/
def getMessagesByExecutionId (dateTime : DateTime τ) (toMillis : τ → ℤ) (configLogCount : ℕ)
    (files : LogFiles δ) (executionId : String) (logHistory : ℕ) : List (EventMessage τ δ) :=
  let logCount := if logHistory = 0 then configLogCount else min configLogCount logHistory
  let result := (List.range logCount).flatMap fun i =>
    readFromFileByExecutionId dateTime executionId (files i)
  result.mergeSort fun a b => toMillis a.ts - toMillis b.ts ≤ 0

/-! ### What the files hold -/

def LogLine.options? : LogLine δ → Option (AbstractEventMessageOptions δ)
  | .message options => some options
  | .confirm _ _ _ => none

/-- The messages of the execution in a file. -/
def heldIn (executionId : String) (file : Option (List (LogLine δ))) :
    List (AbstractEventMessageOptions δ) :=
  ((file.getD []).filterMap LogLine.options?).filter fun options =>
    options.executionId = some executionId

/-- What tells a message from another. -/
def EventMessage.fields (msg : EventMessage τ δ) :
    String × EventMessageTypeNames × EventNamesTypes × String × Option (AbstractEventPayload δ) :=
  (msg.id, msg.typeName, msg.eventName, msg.message, msg.payload)

def AbstractEventMessageOptions.fields (options : AbstractEventMessageOptions δ) :
    String × EventMessageTypeNames × EventNamesTypes × String × Option (AbstractEventPayload δ) :=
  (options.id, options.typeName, options.eventName, options.message, options.payload)

structure SearchesEveryFile (dateTime : DateTime τ) (toMillis : τ → ℤ) (n : ℕ) (files : LogFiles δ)
    (executionId : String) : Prop where
  numbered : ∀ i, n < i → files i = none
  found : ((getMessagesByExecutionId dateTime toMillis n files executionId 0).map
      EventMessage.fields).Perm
    (((List.range (n + 1)).flatMap fun i => heldIn executionId (files i)).map
      AbstractEventMessageOptions.fields)
  ordered : (getMessagesByExecutionId dateTime toMillis n files executionId 0).Pairwise fun a b =>
    toMillis a.ts ≤ toMillis b.ts
  kept : ∀ i < n, renameAndCreateLogs n files (i + 1) = files i

/-! ### Rotation -/

theorem renameLog_of_exists {i : ℕ} {files : LogFiles δ} (hnext : files (i + 1) = none) :
    (if (files i).isSome then renameLog i (i + 1) files else files) =
      Function.update (Function.update files i none) (i + 1) (files i) := by
  cases hi : files i with
  | some lines => simp [renameLog, hi]
  | none =>
    have hinner : Function.update files i none = files := Function.update_eq_self_iff.mpr hi.symm
    rw [hinner, Function.update_eq_self_iff.mpr hnext.symm]
    rfl

theorem shiftLogs_apply (n : ℕ) (files : LogFiles δ) (h : files n = none) (i : ℕ) :
    shiftLogs n files i = if i = 0 then none else if i ≤ n then files (i - 1) else files i := by
  induction n generalizing files with
  | zero =>
    rw [shiftLogs]
    split_ifs with hzero hle
    · rw [hzero, h]
    · omega
    · rfl
  | succ n ih =>
    rw [shiftLogs, renameLog_of_exists h, ih _ (by simp)]
    by_cases hzero : i = 0
    · simp [hzero]
    by_cases hlast : i = n + 1
    · simp [hlast]
    have hpred : i ≤ n → i - 1 ≠ n ∧ i - 1 ≠ n + 1 := by omega
    have hle : i ≤ n + 1 ↔ i ≤ n := by omega
    simp only [hzero, if_false, hle]
    split_ifs with hin
    · simp [hpred hin]
    · have hne : i ≠ n := by omega
      simp [hlast, hne]

/-- Only the lines of the file with the highest number are gone. -/
theorem renameAndCreateLogs_apply (n : ℕ) (files : LogFiles δ) (i : ℕ) :
    renameAndCreateLogs n files i =
      if i = 0 then some [] else if i ≤ n then files (i - 1) else files i := by
  have hremoved : (if (files n).isSome then Function.update files n none else files) =
      Function.update files n none := by
    cases hn : files n with
    | some lines => simp
    | none =>
      rw [Function.update_eq_self_iff.mpr hn.symm]
      rfl
  have hshifted := shiftLogs_apply n (Function.update files n none) (by simp)
  simp only [renameAndCreateLogs, hremoved]
  by_cases hzero : i = 0
  · simp [hzero, hshifted 0]
  rw [Function.update_of_ne hzero, hshifted i]
  simp only [hzero, if_false]
  split_ifs with hle
  · rw [Function.update_of_ne (by omega)]
  · rw [Function.update_of_ne (by omega)]

/-! ### Runs of the worker -/

/-- The writer keeps to its numbers, and all messages in its files are rebuilt. -/
structure WellKept (dateTime : DateTime τ) (n : ℕ) (worker : Worker δ) : Prop where
  keepFiles : worker.keepFiles = n
  numbered : ∀ i, n < i → worker.files i = none
  rebuilt : ∀ i, ∀ lines ∈ worker.files i, ∀ line ∈ lines, ∀ options ∈ line.options?,
    matchesEventName options.eventName.name = true ∧
      ∃ msg ∈ getEventMessageObjectByType dateTime options, msg.fields = options.fields

/-- The messages are of the types generic, workflow, audit and node. -/
def OnlyRebuilt (events : List (WorkerEvent τ δ)) : Prop :=
  ∀ msg, .append (.putMessage msg) ∈ events → msg.messageClass.isRebuilt = true

variable {dateTime : DateTime τ} {toMillis : τ → ℤ} {n : ℕ} {worker : Worker δ}
  {files : LogFiles δ} {executionId : String}

theorem WellKept.renameAndCreateLogs (h : WellKept dateTime n worker) (hn : 1 ≤ n) (paused : Bool) :
    WellKept dateTime n ⟨paused, n, renameAndCreateLogs n worker.files⟩ := by
  refine ⟨rfl, fun i hi => ?_, fun i lines hlines => ?_⟩
  · change EventBus.renameAndCreateLogs n worker.files i = none
    rw [renameAndCreateLogs_apply, if_neg (by omega), if_neg (by omega)]
    exact h.numbered i hi
  · change lines ∈ EventBus.renameAndCreateLogs n worker.files i at hlines
    rw [renameAndCreateLogs_apply] at hlines
    split_ifs at hlines
    · cases hlines
      simp
    · exact h.rebuilt _ lines hlines
    · exact h.rebuilt _ lines hlines

theorem WellKept.append (h : WellKept dateTime n worker) {call : WriterCall τ δ}
    (hcall : ∀ msg, call = .putMessage msg → msg.messageClass.isRebuilt = true) :
    WellKept dateTime n (worker.appendMessageSync (call.line dateTime)) := by
  rw [Worker.appendMessageSync]
  split
  · exact h
  refine ⟨h.keepFiles, fun i hi => ?_, fun i lines hlines line hline options hoptions => ?_⟩
  · simpa [Function.update_of_ne (show i ≠ 0 by omega)] using h.numbered i hi
  · by_cases hi : i = 0
    · subst hi
      simp only [Function.update_self, Option.mem_def, Option.some.injEq] at hlines
      subst hlines
      rcases List.mem_append.mp hline with hold | hnew
      · cases hfile : worker.files 0 with
        | none => simp [hfile] at hold
        | some old => exact h.rebuilt 0 old hfile line (by simpa [hfile] using hold) options hoptions
      · obtain rfl := List.mem_singleton.mp hnew
        cases call with
        | putMessage msg =>
          obtain rfl : msg.serialize dateTime = options := Option.some.inj hoptions
          refine ⟨matchesEventName_of_mem msg.eventName.allowed, msg.rebuild dateTime, ?_, rfl⟩
          rw [getEventMessageObjectByType_serialize, if_pos (hcall msg rfl)]
          exact rfl
        | confirmMessageSent confirm => cases hoptions
    · simp only [Function.update_of_ne hi] at hlines
      exact h.rebuilt i lines hlines line hline options hoptions

theorem wellKept_runWorker (dateTime : DateTime τ) (hn : 1 ≤ n) {events : List (WorkerEvent τ δ)}
    (hevents : OnlyRebuilt events) : WellKept dateTime n (runWorker dateTime n events) := by
  induction events using List.reverseRecOn with
  | nil =>
    refine ⟨?_, fun _ _ => rfl, fun i lines hlines => by cases hlines⟩
    rw [runWorker, List.foldl_nil, Worker.initialized, setKeepFiles, if_neg (by omega)]
  | append_singleton events event ih =>
    have ih := ih fun msg hmsg => hevents msg (List.mem_append_left _ hmsg)
    rw [runWorker, List.foldl_concat, ← runWorker]
    cases event with
    | startLogging =>
      rw [WorkerEvent.apply, ih.keepFiles]
      exact ih.renameAndCreateLogs hn false
    | append call =>
      refine ih.append fun msg hmsg => hevents msg ?_
      simp [hmsg]
    | renameAndCreateLogs =>
      rw [WorkerEvent.apply, ih.keepFiles]
      exact ih.renameAndCreateLogs hn _

/-! ### What is found -/

theorem readLineByExecutionId_eq {line : LogLine δ} (h : ∀ options ∈ line.options?,
    matchesEventName options.eventName.name = true ∧
      ∃ msg ∈ getEventMessageObjectByType dateTime options, msg.fields = options.fields) :
    (readLineByExecutionId dateTime executionId line).map EventMessage.fields =
      (line.options?.filter fun options => options.executionId = some executionId).map
        AbstractEventMessageOptions.fields := by
  cases line with
  | confirm => rfl
  | message options =>
    obtain ⟨hname, msg, hmsg, hfields⟩ := h options rfl
    rw [readLineByExecutionId, LogLine.options?]
    by_cases hof : options.executionId = some executionId
    · rw [if_pos ⟨hname, hof⟩, Option.mem_def.mp hmsg]
      simp [hof, hfields]
    · simp [hof]

theorem WellKept.fields_readFromFile (h : WellKept dateTime n worker) (i : ℕ) :
    (readFromFileByExecutionId dateTime executionId (worker.files i)).map EventMessage.fields =
      (heldIn executionId (worker.files i)).map AbstractEventMessageOptions.fields := by
  rw [readFromFileByExecutionId, heldIn, List.filter_filterMap, List.map_filterMap,
    List.map_filterMap]
  cases hfile : worker.files i with
  | none => rfl
  | some lines =>
    exact List.filterMap_congr fun line hline =>
      readLineByExecutionId_eq (h.rebuilt i lines hfile line hline)

theorem WellKept.fields_getMessages (h : WellKept dateTime n worker) (toMillis : τ → ℤ)
    (executionId : String) :
    ((getMessagesByExecutionId dateTime toMillis n worker.files executionId 0).map
        EventMessage.fields).Perm
      (((List.range n).flatMap fun i => heldIn executionId (worker.files i)).map
        AbstractEventMessageOptions.fields) := by
  refine ((List.mergeSort_perm _ _).map _).trans (List.Perm.of_eq ?_)
  simp only [if_true, List.map_flatMap]
  exact congrArg (List.range n).flatMap (funext fun i => h.fields_readFromFile i)

theorem getMessages_ordered (dateTime : DateTime τ) (toMillis : τ → ℤ) (files : LogFiles δ) :
    (getMessagesByExecutionId dateTime toMillis n files executionId 0).Pairwise fun a b =>
      toMillis a.ts ≤ toMillis b.ts := by
  refine (List.pairwise_mergeSort (fun a b c hab hbc => ?_) (fun a b => ?_) _).imp ?_
  · simp only [decide_eq_true_eq] at hab hbc ⊢
    omega
  · simp only [Bool.or_eq_true, decide_eq_true_eq]
    omega
  · intro a b hab
    simp only [decide_eq_true_eq] at hab
    omega

/-- Every file but the one with the highest number is searched. -/
theorem searchesEveryFile_iff (dateTime : DateTime τ) (toMillis : τ → ℤ) (n : ℕ) (hn : 1 ≤ n)
    (events : List (WorkerEvent τ δ)) (hevents : OnlyRebuilt events) (executionId : String) :
    SearchesEveryFile dateTime toMillis n (runWorker dateTime n events).files executionId ↔
      heldIn executionId ((runWorker dateTime n events).files n) = [] := by
  have hkept := wellKept_runWorker dateTime hn hevents
  have hfields := hkept.fields_getMessages toMillis executionId
  have hsplit : (List.range (n + 1)).flatMap (fun i =>
      heldIn executionId ((runWorker dateTime n events).files i)) =
      (List.range n).flatMap (fun i =>
        heldIn executionId ((runWorker dateTime n events).files i)) ++
        heldIn executionId ((runWorker dateTime n events).files n) := by
    rw [List.range_succ, List.flatMap_append, List.flatMap_singleton]
  constructor
  · intro h
    have hlength := (hfields.symm.trans h.found).length_eq
    rw [hsplit, List.length_map, List.length_map, List.length_append] at hlength
    exact List.length_eq_zero_iff.mp (by omega)
  · intro hnone
    refine ⟨hkept.numbered, ?_, getMessages_ordered _ _ _, fun i hi => ?_⟩
    · rw [hsplit, hnone, List.append_nil]
      exact hfields
    · rw [renameAndCreateLogs_apply, if_neg (by omega), if_pos (by omega), Nat.add_sub_cancel]

end

section Example

def ofSeven : EventMessage ℤ Unit :=
  ⟨.workflow, "1", 0, workflowStarted, "", some ⟨some "7", ()⟩⟩

def clock : DateTime ℤ := ⟨fun _ => some "1970-01-01T00:00:00.000Z", fun _ => 0, 0⟩

/-- The message is in the only file but the first. -/
theorem rotated_not_searchesEveryFile :
    OnlyRebuilt (τ := ℤ) [.startLogging, .append (.putMessage ofSeven), .renameAndCreateLogs] ∧
      ¬ SearchesEveryFile clock id 1 (runWorker clock 1
        [.startLogging, .append (.putMessage ofSeven), .renameAndCreateLogs]).files "7" := by
  constructor
  · intro msg hmsg
    simp only [List.mem_cons, reduceCtorEq, WorkerEvent.append.injEq, WriterCall.putMessage.injEq,
      List.not_mem_nil, or_false, false_or] at hmsg
    rw [hmsg]
    rfl
  · intro h
    have hlength := h.found.length_eq
    rw [List.length_map, List.length_map] at hlength
    exact absurd hlength (by decide +kernel)

theorem logged_searchesEveryFile :
    SearchesEveryFile clock id 1 (runWorker clock 1
      [.startLogging, .append (.putMessage ofSeven)]).files "7" := by
  refine (searchesEveryFile_iff clock id 1 Nat.one_pos _ ?_ "7").mpr (by rfl)
  intro msg hmsg
  simp only [List.mem_cons, reduceCtorEq, WorkerEvent.append.injEq, WriterCall.putMessage.injEq,
    List.not_mem_nil, or_false, false_or] at hmsg
  rw [hmsg]
  rfl

end Example

end N8n.EventBus
