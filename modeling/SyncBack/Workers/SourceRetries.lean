import Mathlib.Algebra.Group.Nat.Defs
import SyncBack.Workers.AnalysisTasks

/-!
# The retries of a source task

A delivery of `process_source_for_analysis_job` carries two counters in its arguments, one for the
waits for a busy source and one for the repeated calls of the model; the queue counts its retries
on its own. `processSourceForAnalysisJob` decides on the outcome of `_process_source` whether the
task has a result or asks the queue for a retry, and `deliver` is what the queue makes of that: a
retry is refused when the recorded retries would exceed `max_retries`, and the task then returns
its fallback.

Source: `app/workers/tasks/analysis_tasks.py`.
-/

namespace SyncBack

/-- A delivery of the task: its counters and the retries that the queue has recorded. -/
@[ext] structure SourceTask where
  busyAttempts : ℕ := 0
  llmAttempts : ℕ := 0
  retries : ℕ := 0
  deriving DecidableEq

/-- The arguments of `_retry_later`. -/
structure RetryRequest where
  countdown : ℕ
  busyAttempts : ℕ
  llmAttempts : ℕ
  fallback : SourceOutcome
  deriving DecidableEq

/-- What the body of the task comes to. -/
inductive TaskAnswer where
  | result (outcome : SourceOutcome)
  | retryLater (request : RetryRequest)
  deriving DecidableEq

/-- What becomes of a delivery: the task is done, or it is delivered again after a while. -/
inductive TaskStep where
  | finished (outcome : SourceOutcome)
  | again (countdown : ℕ) (task : SourceTask)
  deriving DecidableEq

namespace AnalysisTasks

/-- Source: `_BUSY_RETRY_COUNTDOWN_SECONDS`. -/
def busyRetryCountdownSeconds : ℕ := 30

/-- Source: `_BUSY_RETRY_LIMIT`. -/
def busyRetryLimit : ℕ := 20

/-- Source: `_LLM_RETRY_LIMIT`. -/
def llmRetryLimit : ℕ := 3

/-- Source: `_LLM_RETRY_BACKOFF_SECONDS`. -/
def llmRetryBackoffSeconds : ℕ := 30

/-- Source: `_TASK_MAX_RETRIES`. -/
def taskMaxRetries : ℕ := busyRetryLimit + llmRetryLimit

/-- The result of a task that has waited too long for its source. -/
def busyFailed : SourceOutcome :=
  .failed "SOURCE_BUSY" "Источник занят другим воркером дольше допустимого"

/-- The result of a task that has called the model too often. -/
def llmFailed (errorCode errorMessage : String) : SourceOutcome :=
  .failed (if errorCode = "" then "LLM_UNAVAILABLE" else errorCode)
    (if errorMessage = "" then "LLM недоступен" else errorMessage)

/-- Source: `process_source_for_analysis_job`, after `_process_source`. -/
def processSourceForAnalysisJob (task : SourceTask) : SourceOutcome → TaskAnswer
  | .busy =>
      if busyRetryLimit ≤ task.busyAttempts then .result busyFailed
      else
        .retryLater
          { countdown := busyRetryCountdownSeconds
            busyAttempts := task.busyAttempts + 1
            llmAttempts := task.llmAttempts
            fallback := busyFailed }
  | .retryable errorCode errorMessage =>
      if llmRetryLimit ≤ task.llmAttempts then .result (llmFailed errorCode errorMessage)
      else
        .retryLater
          { countdown := llmRetryBackoffSeconds * 2 ^ task.llmAttempts
            busyAttempts := task.busyAttempts
            llmAttempts := task.llmAttempts + 1
            fallback := llmFailed errorCode errorMessage }
  | outcome => .result outcome

/-- `task.retry` of the queue: the retries recorded for the next delivery, or nothing when there
would be more than `max_retries` (`MaxRetriesExceededError`). -/
def recordRetry (maxRetries retries : ℕ) : Option ℕ :=
  if maxRetries < retries + 1 then none else some (retries + 1)

/-- Source: `_retry_later`. -/
def retryLater (task : SourceTask) (request : RetryRequest) : TaskStep :=
  match recordRetry taskMaxRetries task.retries with
  | some retries => .again request.countdown ⟨request.busyAttempts, request.llmAttempts, retries⟩
  | none => .finished request.fallback

/-- One delivery of the task, with the outcome of `_process_source`. -/
def deliver (task : SourceTask) (outcome : SourceOutcome) : TaskStep :=
  match processSourceForAnalysisJob task outcome with
  | .result result => .finished result
  | .retryLater request => retryLater task request

/-- A run of the task's body. -/
structure SourceRun where
  task : SourceTask
  outcome : SourceOutcome

/-- What becomes of the delivery. -/
def SourceRun.step (run : SourceRun) : TaskStep := deliver run.task run.outcome

/-- The runs of the task's body while `_process_source` gives one outcome after another. -/
def runs : SourceTask → List SourceOutcome → List SourceRun
  | _, [] => []
  | task, outcome :: outcomes =>
      ⟨task, outcome⟩ ::
        match deliver task outcome with
        | .finished _ => []
        | .again _ next => runs next outcomes

end AnalysisTasks

end SyncBack
