import Mathlib.Data.List.Basic
import SyncBack.Workers.SourceRetries

/-!
# The budgets of a source task

Whatever `_process_source` comes to, run after run, the two counters of a delivery count the waits
and the repeated calls before it, the queue has recorded their sum, and neither exceeds its limit.
So the queue never refuses a retry, the task runs at most 24 times, and it fails because of a busy
source (or of the model) exactly when that outcome comes with its own budget used up.

The invariant is `SourceTask.Consistent`; `deliver_busy`, `deliver_retryable` and `deliver_other` say
all that one delivery can do.
-/

namespace SyncBack

/-- The model is to be called again. -/
def SourceOutcome.isRetryable : SourceOutcome → Bool
  | .retryable _ _ => true
  | _ => false

namespace AnalysisTasks

/-- What holds of the counters of every delivery. -/
structure Consistent (task : SourceTask) : Prop where
  busy : task.busyAttempts ≤ busyRetryLimit
  llm : task.llmAttempts ≤ llmRetryLimit
  recorded : task.retries = task.busyAttempts + task.llmAttempts

/-- The run ends in another delivery. -/
def SourceRun.retried (run : SourceRun) : Bool :=
  match run.step with
  | .again _ _ => true
  | .finished _ => false

/-- How many retries followed a busy outcome. -/
def busyRetries (history : List SourceRun) : ℕ :=
  history.countP fun run => run.outcome = .busy && run.retried

/-- How many retries followed a retryable outcome. -/
def llmRetries (history : List SourceRun) : ℕ :=
  history.countP fun run => run.outcome.isRetryable && run.retried

/-- What holds of the runs of a task, in order. -/
structure WithinBudgets (history : List SourceRun) : Prop where
  length_le : history.length ≤ busyRetryLimit + llmRetryLimit + 1
  busy_le : busyRetries history ≤ busyRetryLimit
  llm_le : llmRetries history ≤ llmRetryLimit
  /-- Each counter counts the retries of its own kind, and the queue counts both. -/
  counted : ∀ before run after, history = before ++ run :: after →
    run.task.busyAttempts = busyRetries before ∧ run.task.llmAttempts = llmRetries before ∧
      run.task.retries = run.task.busyAttempts + run.task.llmAttempts
  /-- `task.retry` never refuses. -/
  accepted : ∀ run ∈ history, ∀ request,
    processSourceForAnalysisJob run.task run.outcome = .retryLater request →
      recordRetry taskMaxRetries run.task.retries = some (run.task.retries + 1)
  busy_result : ∀ before run after, history = before ++ run :: after → run.outcome = .busy →
    (run.step = .finished busyFailed ↔ busyRetries before = busyRetryLimit)
  llm_result : ∀ before run after, history = before ++ run :: after →
    ∀ errorCode errorMessage, run.outcome = .retryable errorCode errorMessage →
      (run.step = .finished (llmFailed errorCode errorMessage) ↔
        llmRetries before = llmRetryLimit)
  /-- Every other outcome is the result. -/
  other_result : ∀ run ∈ history, run.outcome ≠ .busy → run.outcome.isRetryable = false →
    run.step = .finished run.outcome
  /-- Nothing runs after the result. -/
  last : ∀ before run after, history = before ++ run :: after →
    ∀ result, run.step = .finished result → after = []

/-! ## One delivery -/

/-- A new task has used nothing. -/
theorem consistent_initial : Consistent {} := ⟨by decide, by decide, rfl⟩

/-- A delivery with budget left for one more retry is retried: the limits of the queue allow it. -/
theorem recordRetry_of_lt {retries : ℕ} (h : retries < taskMaxRetries) :
    recordRetry taskMaxRetries retries = some (retries + 1) := if_neg (by omega)

section

variable {task : SourceTask}

/-- With a busy attempt left a retry is left. -/
theorem Consistent.retries_lt_of_busy (h : Consistent task)
    (hlt : task.busyAttempts < busyRetryLimit) : task.retries < taskMaxRetries := by
  have hllm := h.llm
  have hrec := h.recorded
  unfold taskMaxRetries
  omega

/-- With an attempt left for the model a retry is left. -/
theorem Consistent.retries_lt_of_llm (h : Consistent task)
    (hlt : task.llmAttempts < llmRetryLimit) : task.retries < taskMaxRetries := by
  have hbusy := h.busy
  have hrec := h.recorded
  unfold taskMaxRetries
  omega

/-- The delivery after a busy outcome. -/
def SourceTask.afterBusy (task : SourceTask) : SourceTask :=
  ⟨task.busyAttempts + 1, task.llmAttempts, task.retries + 1⟩

/-- The delivery after a retryable outcome. -/
def SourceTask.afterLlm (task : SourceTask) : SourceTask :=
  ⟨task.busyAttempts, task.llmAttempts + 1, task.retries + 1⟩

/-- A busy attempt is used. -/
theorem Consistent.afterBusy (h : Consistent task) (hlt : task.busyAttempts < busyRetryLimit) :
    Consistent (SourceTask.afterBusy task) := by
  refine ⟨hlt, h.llm, ?_⟩
  have hrec := h.recorded
  simp only [SourceTask.afterBusy]
  omega

/-- An attempt for the model is used. -/
theorem Consistent.afterLlm (h : Consistent task) (hlt : task.llmAttempts < llmRetryLimit) :
    Consistent (SourceTask.afterLlm task) := by
  refine ⟨h.busy, hlt, ?_⟩
  have hrec := h.recorded
  simp only [SourceTask.afterLlm]
  omega

/-- A busy outcome: the result with the budget used up, else another delivery. -/
theorem deliver_busy (h : Consistent task) :
    (task.busyAttempts = busyRetryLimit ∧ deliver task .busy = .finished busyFailed) ∨
      (task.busyAttempts < busyRetryLimit ∧
        deliver task .busy = .again busyRetryCountdownSeconds (SourceTask.afterBusy task)) := by
  by_cases hlimit : busyRetryLimit ≤ task.busyAttempts
  · refine .inl ⟨le_antisymm h.busy hlimit, ?_⟩
    simp only [deliver, processSourceForAnalysisJob, if_pos hlimit]
  · have hlt : task.busyAttempts < busyRetryLimit := Nat.lt_of_not_le hlimit
    refine .inr ⟨hlt, ?_⟩
    simp only [deliver, processSourceForAnalysisJob, if_neg hlimit, retryLater,
      recordRetry_of_lt (h.retries_lt_of_busy hlt)]
    rfl

/-- A retryable outcome: the result with the budget used up, else another delivery. -/
theorem deliver_retryable (h : Consistent task) (errorCode errorMessage : String) :
    (task.llmAttempts = llmRetryLimit ∧ deliver task (.retryable errorCode errorMessage) =
        .finished (llmFailed errorCode errorMessage)) ∨
      (task.llmAttempts < llmRetryLimit ∧ deliver task (.retryable errorCode errorMessage) =
        .again (llmRetryBackoffSeconds * 2 ^ task.llmAttempts) (SourceTask.afterLlm task)) := by
  by_cases hlimit : llmRetryLimit ≤ task.llmAttempts
  · refine .inl ⟨le_antisymm h.llm hlimit, ?_⟩
    simp only [deliver, processSourceForAnalysisJob, if_pos hlimit]
  · have hlt : task.llmAttempts < llmRetryLimit := Nat.lt_of_not_le hlimit
    refine .inr ⟨hlt, ?_⟩
    simp only [deliver, processSourceForAnalysisJob, if_neg hlimit, retryLater,
      recordRetry_of_lt (h.retries_lt_of_llm hlt)]
    rfl

/-- Busy, the task fails exactly with the budget used up. -/
theorem Consistent.busy_finished_iff (h : Consistent task) :
    deliver task .busy = .finished busyFailed ↔ task.busyAttempts = busyRetryLimit := by
  rcases deliver_busy h with ⟨hlimit, hstep⟩ | ⟨hlt, hstep⟩
  · exact ⟨fun _ => hlimit, fun _ => hstep⟩
  · rw [hstep]
    exact ⟨fun h => (nomatch h), fun h => absurd h (Nat.ne_of_lt hlt)⟩

/-- The task fails for the model's sake when its attempts are used up. -/
theorem Consistent.llm_finished_iff (h : Consistent task) (errorCode errorMessage : String) :
    deliver task (.retryable errorCode errorMessage) =
        .finished (llmFailed errorCode errorMessage) ↔ task.llmAttempts = llmRetryLimit := by
  rcases deliver_retryable h errorCode errorMessage with ⟨hlimit, hstep⟩ | ⟨hlt, hstep⟩
  · exact ⟨fun _ => hlimit, fun _ => hstep⟩
  · rw [hstep]
    exact ⟨fun h => (nomatch h), fun h => absurd h (Nat.ne_of_lt hlt)⟩

/-- A retry is asked for only with budget left, and then the queue accepts it. -/
theorem Consistent.retry_accepted (h : Consistent task) {outcome : SourceOutcome}
    {request : RetryRequest}
    (hrequest : processSourceForAnalysisJob task outcome = .retryLater request) :
    recordRetry taskMaxRetries task.retries = some (task.retries + 1) := by
  apply recordRetry_of_lt
  cases outcome with
  | busy =>
      apply h.retries_lt_of_busy
      by_contra hge
      rw [processSourceForAnalysisJob, if_pos (Nat.le_of_not_lt hge)] at hrequest
      cases hrequest
  | retryable errorCode errorMessage =>
      apply h.retries_lt_of_llm
      by_contra hge
      rw [processSourceForAnalysisJob, if_pos (Nat.le_of_not_lt hge)] at hrequest
      cases hrequest
  | ok count => cases hrequest
  | failed errorCode errorMessage => cases hrequest
  | cancelled => cases hrequest

/-- Any other outcome ends the task. -/
theorem deliver_other {outcome : SourceOutcome} (hbusy : outcome ≠ .busy)
    (hllm : outcome.isRetryable = false) : deliver task outcome = .finished outcome := by
  cases outcome with
  | busy => exact absurd rfl hbusy
  | retryable errorCode errorMessage => cases hllm
  | ok count => rfl
  | failed errorCode errorMessage => rfl
  | cancelled => rfl

/-- **The next delivery**: exactly one counter goes up, and the counters stay consistent. -/
theorem deliver_again {outcome : SourceOutcome} {countdown : ℕ} {next : SourceTask}
    (h : Consistent task) (hstep : deliver task outcome = .again countdown next) :
    Consistent next ∧
      ((outcome = .busy ∧ next = SourceTask.afterBusy task) ∨
        (outcome.isRetryable = true ∧ outcome ≠ .busy ∧ next = SourceTask.afterLlm task)) := by
  cases outcome with
  | busy =>
      rcases deliver_busy h with ⟨-, heq⟩ | ⟨hlt, heq⟩
      · rw [heq] at hstep
        cases hstep
      · rw [heq] at hstep
        obtain ⟨-, rfl⟩ := TaskStep.again.inj hstep
        exact ⟨h.afterBusy hlt, .inl ⟨rfl, rfl⟩⟩
  | retryable errorCode errorMessage =>
      rcases deliver_retryable h errorCode errorMessage with ⟨-, heq⟩ | ⟨hlt, heq⟩
      · rw [heq] at hstep
        cases hstep
      · rw [heq] at hstep
        obtain ⟨-, rfl⟩ := TaskStep.again.inj hstep
        exact ⟨h.afterLlm hlt, .inr ⟨rfl, by simp, rfl⟩⟩
  | ok count => cases hstep
  | failed errorCode errorMessage => cases hstep
  | cancelled => cases hstep

end

/-! ## All deliveries -/

/-- The counters of a delivery after the runs of `before`, of a task first delivered as `task`. -/
def Counted (task : SourceTask) (before : List SourceRun) (run : SourceRun) : Prop :=
  Consistent run.task ∧
    run.task.busyAttempts = task.busyAttempts + busyRetries before ∧
    run.task.llmAttempts = task.llmAttempts + llmRetries before

/-- **Every run is counted**, and nothing runs after a result. -/
theorem counted_of_runs : ∀ (outcomes : List SourceOutcome) {task : SourceTask},
    Consistent task → ∀ before run after, runs task outcomes = before ++ run :: after →
      Counted task before run ∧ ∀ result, run.step = .finished result → after = []
  | [], task, _, before, run, after, heq => by
      have hlen := congrArg List.length heq
      simp [runs] at hlen
  | outcome :: outcomes, task, h, before, run, after, heq => by
      rcases before with _ | ⟨first, before⟩
      · -- the first run
        obtain ⟨rfl, htail⟩ := List.cons.inj heq
        refine ⟨⟨h, rfl, rfl⟩, fun result hfinished => ?_⟩
        have hdeliver : deliver task outcome = .finished result := hfinished
        rw [hdeliver] at htail
        exact htail.symm
      · -- a later one: the first run was retried
        obtain ⟨rfl, htail⟩ := List.cons.inj heq
        rcases hstep : deliver task outcome with result | ⟨countdown, next⟩
        · rw [hstep] at htail
          simp at htail
        · rw [hstep] at htail
          obtain ⟨hnext, hkind⟩ := deliver_again h hstep
          obtain ⟨⟨hc, hbusy, hllm⟩, hlast⟩ := counted_of_runs outcomes hnext before run after htail
          have hretried : SourceRun.retried ⟨task, outcome⟩ = true := by
            simp only [SourceRun.retried, SourceRun.step, hstep]
          refine ⟨⟨hc, ?_, ?_⟩, hlast⟩
          · rw [hbusy]
            rcases hkind with ⟨rfl, rfl⟩ | ⟨-, hne, rfl⟩
            · simp only [busyRetries, List.countP_cons, hretried, SourceTask.afterBusy]
              simp only [decide_true, Bool.and_self, if_true]
              omega
            · simp only [busyRetries, List.countP_cons, SourceTask.afterLlm]
              simp [hne]
          · rw [hllm]
            rcases hkind with ⟨rfl, rfl⟩ | ⟨hllm', -, rfl⟩
            · simp [llmRetries, SourceOutcome.isRetryable, SourceTask.afterBusy]
            · simp only [llmRetries, List.countP_cons, hretried, hllm', SourceTask.afterLlm]
              simp only [Bool.and_self, if_true]
              omega

/-- Each run but the last is a retry of one of the two kinds, and no budget is exceeded. -/
theorem retries_le_of_runs : ∀ (outcomes : List SourceOutcome) {task : SourceTask},
    Consistent task →
      task.busyAttempts + busyRetries (runs task outcomes) ≤ busyRetryLimit ∧
      task.llmAttempts + llmRetries (runs task outcomes) ≤ llmRetryLimit ∧
      (runs task outcomes).length ≤
        busyRetries (runs task outcomes) + llmRetries (runs task outcomes) + 1 ∧
      ((∀ run ∈ runs task outcomes, run.retried = true) → (runs task outcomes).length ≤
        busyRetries (runs task outcomes) + llmRetries (runs task outcomes))
  | [], task, h => ⟨h.busy, h.llm, Nat.zero_le _, fun _ => Nat.zero_le _⟩
  | outcome :: outcomes, task, h => by
      rcases hstep : deliver task outcome with result | ⟨countdown, next⟩
      · have hretried : SourceRun.retried ⟨task, outcome⟩ = false := by
          simp only [SourceRun.retried, SourceRun.step, hstep]
        have hbusy := h.busy
        have hllm := h.llm
        simp [runs, hstep, busyRetries, llmRetries, hretried, hbusy, hllm]
      · have hretried : SourceRun.retried ⟨task, outcome⟩ = true := by
          simp only [SourceRun.retried, SourceRun.step, hstep]
        obtain ⟨hnext, hkind⟩ := deliver_again h hstep
        obtain ⟨hbusy, hllm, hlen, hall⟩ := retries_le_of_runs outcomes hnext
        have htail : ∀ run' : SourceRun, (∀ run ∈ run' :: runs next outcomes, run.retried = true) →
            ∀ run ∈ runs next outcomes, run.retried = true :=
          fun _ h run hmem => h run (List.mem_cons_of_mem _ hmem)
        have hruns : runs task (outcome :: outcomes) = ⟨task, outcome⟩ :: runs next outcomes := by
          simp only [runs, hstep]
        rw [hruns]
        rcases hkind with ⟨rfl, rfl⟩ | ⟨hretryable, hne, rfl⟩
        · have hb : busyRetries (⟨task, .busy⟩ :: runs (SourceTask.afterBusy task) outcomes) =
              busyRetries (runs (SourceTask.afterBusy task) outcomes) + 1 := by
            simp [busyRetries, hretried]
          have hl : llmRetries (⟨task, .busy⟩ :: runs (SourceTask.afterBusy task) outcomes) =
              llmRetries (runs (SourceTask.afterBusy task) outcomes) := by
            simp [llmRetries, SourceOutcome.isRetryable]
          rw [hb, hl, List.length_cons]
          have hsum : task.busyAttempts + 1 +
            busyRetries (runs (SourceTask.afterBusy task) outcomes) ≤ busyRetryLimit := hbusy
          refine ⟨by omega, hllm, by omega, fun hretries => ?_⟩
          have := hall (htail _ hretries)
          omega
        · have hb : busyRetries (⟨task, outcome⟩ :: runs (SourceTask.afterLlm task) outcomes) =
              busyRetries (runs (SourceTask.afterLlm task) outcomes) := by
            simp [busyRetries, hne]
          have hl : llmRetries (⟨task, outcome⟩ :: runs (SourceTask.afterLlm task) outcomes) =
              llmRetries (runs (SourceTask.afterLlm task) outcomes) + 1 := by
            simp [llmRetries, hretried, hretryable]
          rw [hb, hl, List.length_cons]
          have hsum : task.llmAttempts + 1 +
            llmRetries (runs (SourceTask.afterLlm task) outcomes) ≤ llmRetryLimit := hllm
          refine ⟨hbusy, by omega, by omega, fun hretries => ?_⟩
          have := hall (htail _ hretries)
          omega

/-- As long as the task has no result, it runs for every outcome. -/
theorem length_runs_of_retried : ∀ {outcomes : List SourceOutcome} {task : SourceTask},
    (∀ run ∈ runs task outcomes, ∀ result, run.step ≠ .finished result) →
      (runs task outcomes).length = outcomes.length
  | [], _, _ => rfl
  | outcome :: outcomes, task, h => by
      rcases hstep : deliver task outcome with result | ⟨countdown, next⟩
      · exact absurd hstep (h ⟨task, outcome⟩ List.mem_cons_self result)
      · have hruns : runs task (outcome :: outcomes) = ⟨task, outcome⟩ :: runs next outcomes := by
          simp only [runs, hstep]
        rw [hruns] at h ⊢
        rw [List.length_cons, List.length_cons,
          length_runs_of_retried fun run hmem => h run (List.mem_cons_of_mem _ hmem)]

/-- A task that was given 24 outcomes has its result: there are only 23 retries. -/
theorem exists_result_of_length {outcomes : List SourceOutcome}
    (hmany : busyRetryLimit + llmRetryLimit + 1 ≤ outcomes.length) :
    ∃ run ∈ runs {} outcomes, ∃ result, run.step = .finished result := by
  by_contra hnone
  have heq : (runs {} outcomes).length = outcomes.length := by
    apply length_runs_of_retried
    intro run hmem result hfinished
    exact hnone ⟨run, hmem, result, hfinished⟩
  have hretried : ∀ run ∈ runs {} outcomes, run.retried = true := by
    intro run hmem
    rcases hstep : run.step with result | ⟨countdown, next⟩
    · exact absurd ⟨run, hmem, result, hstep⟩ hnone
    · simp only [SourceRun.retried, hstep]
  obtain ⟨hbusy, hllm, -, hall⟩ := retries_le_of_runs outcomes consistent_initial
  simp only [Nat.zero_add] at hbusy hllm
  have hlen := hall hretried
  omega

/-- **The budgets of a source task.** For every sequence of outcomes the runs stay within the
budgets, and after 24 outcomes at the latest the task has its result. -/
theorem retry_budgets (outcomes : List SourceOutcome) :
    WithinBudgets (runs {} outcomes) ∧
      (busyRetryLimit + llmRetryLimit + 1 ≤ outcomes.length →
        ∃ run ∈ runs {} outcomes, ∃ result, run.step = .finished result) := by
  have hcounted := counted_of_runs outcomes consistent_initial
  obtain ⟨hbusy, hllm, hlen, -⟩ := retries_le_of_runs outcomes consistent_initial
  simp only [Nat.zero_add] at hbusy hllm
  have hconsistent : ∀ run ∈ runs {} outcomes, Consistent run.task := by
    intro run hmem
    obtain ⟨before, after, heq⟩ := List.append_of_mem hmem
    exact (hcounted before run after heq).1.1
  have hcounters : ∀ before run after, runs {} outcomes = before ++ run :: after →
      run.task.busyAttempts = busyRetries before ∧ run.task.llmAttempts = llmRetries before := by
    intro before run after heq
    obtain ⟨⟨-, hb, hl⟩, -⟩ := hcounted before run after heq
    simp only [Nat.zero_add] at hb hl
    exact ⟨hb, hl⟩
  refine ⟨⟨by omega, hbusy, hllm, ?_, ?_, ?_, ?_, ?_, fun before run after heq => (hcounted before
    run after heq).2⟩, exists_result_of_length⟩
  · intro before run after heq
    obtain ⟨hb, hl⟩ := hcounters before run after heq
    exact ⟨hb, hl, (hcounted before run after heq).1.1.recorded⟩
  · intro run hmem request hrequest
    exact (hconsistent run hmem).retry_accepted hrequest
  · intro before run after heq hout
    obtain ⟨hb, -⟩ := hcounters before run after heq
    rw [← hb, SourceRun.step, hout]
    exact (hcounted before run after heq).1.1.busy_finished_iff
  · intro before run after heq code message hout
    obtain ⟨-, hl⟩ := hcounters before run after heq
    rw [← hl, SourceRun.step, hout]
    exact (hcounted before run after heq).1.1.llm_finished_iff code message
  · intro run hmem hne hno
    exact deliver_other hne hno

end AnalysisTasks

end SyncBack
