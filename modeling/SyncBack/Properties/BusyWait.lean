import Mathlib.Data.List.Chain
import SyncBack.Application.Operations
import SyncBack.Properties.RetryBudgets

/-!
# A busy wait and the lease of a dead worker

A worker claims a source at time `t` and dies. Its lease ends strictly after 600 s, and a waiter
has 20 waits of 30 s and one attempt before them. The two meet exactly: an attempt that is busy
comes at most 600 s after `t`, the attempt after `k` waits comes later than `t` by more than `30 k`
seconds, so the twenty-first attempt cannot be busy. The clock may be finer than a second: it
counts `ticks` for each. That the waiter's own release and storing of the result do not fail is
assumed; it bears only on the runs after the attempt that obtained the claim.
-/

namespace SyncBack

open Txn Session

namespace AnalysisTasks

/-- An attempt of the waiter: the database when it comes to the claim, and the outcome of
`_process_source` if it obtains it. -/
structure Attempt where
  worker : Process
  db : AppDb
  outcome : SourceOutcome

section

variable (ticks : ℕ) (jobId sourceId : Uuid)

/-- The token that the attempt obtains. -/
def Attempt.token (a : Attempt) : Option Uuid :=
  match (AnalysisJobSourceRepository.claim jobId sourceId (sourceLeaseSeconds * ticks)).runAlone
      a.worker a.db with
  | some (.ok token, _) => token
  | _ => none

/-- The outcome of `_process_source`. -/
def Attempt.result (a : Attempt) : SourceOutcome :=
  if (a.token ticks jobId sourceId).isSome then a.outcome else .busy

/-- The attempt finds the row of the run settled. -/
def Attempt.Finds (a : Attempt) (row : AnalysisJobSource) : Prop :=
  a.db.committed (.jobSource jobId sourceId) = some row ∧
    ∀ u, a.db.writes u (.jobSource jobId sourceId) = none

/-- Nobody but the waiter claims the source: the attempts find the row of the dead worker until
one of them obtains the claim. From then on the waiter's own statements do not fail: a run that
obtained the claim is not busy for itself, and before it is repeated `release` has given the row
back. -/
def Undisturbed (row : AnalysisJobSource) : List Attempt → Prop
  | [] => True
  | a :: later =>
      a.Finds jobId sourceId row ∧ a.outcome ≠ .busy ∧
        if (a.token ticks jobId sourceId).isSome then
          ∀ b ∈ later, b.outcome ≠ .busy ∧
            ∃ free : AnalysisJobSource, b.Finds jobId sourceId free ∧ free.status = .pending
        else Undisturbed row later

/-- Each attempt comes at least one countdown after the one before. -/
def Spaced (attempts : List Attempt) : Prop :=
  attempts.IsChain fun a b => a.db.clock + busyRetryCountdownSeconds * ticks ≤ b.db.clock

end

/-! ## The claim -/

section

variable {ticks : ℕ} {jobId sourceId : Uuid}

/-- An update of a settled row of a run. -/
theorem tryUpdate_settled {s : AppDb} {w : Process} {row : AnalysisJobSource}
    {p : AnalysisJobSource → Bool} {f : AnalysisJobSource → AnalysisJobSource}
    (hrow : s.committed (.jobSource jobId sourceId) = some row)
    (hfree : ∀ u, s.writes u (.jobSource jobId sourceId) = none) :
    s.tryUpdate w (.jobSource jobId sourceId) p f =
      if p row then
        some (.updated (f row), s.write w (.jobSource jobId sourceId) (some (f row)))
      else some (.missed, s) := by
  have hlocked : s.lockedByOther w (.jobSource jobId sourceId) = false :=
    Db.lockedByOther_eq_false.mpr fun u _ => hfree u
  have hread : s.read w (.jobSource jobId sourceId) = some row := by
    rw [Db.read_of_not_writes (hfree w), hrow]
  have huniq : s.uniqueness w (.jobSource jobId sourceId) (f row) = .free :=
    Db.uniqueness_of_not_clash fun _ _ => rfl
  unfold Db.tryUpdate
  rw [Db.waits, hlocked, hread]
  simp only [Bool.false_and, Bool.false_eq_true, if_false]
  split
  · rw [huniq]
  · rfl

/-- **The condition of the claim**, on a settled row. -/
theorem Attempt.token_isSome_iff {a : Attempt} {row : AnalysisJobSource}
    (h : a.Finds jobId sourceId row) :
    (a.token ticks jobId sourceId).isSome = true ↔
      AnalysisJobSourceRepository.claimable
        ((a.db.clock : ℤ) - (sourceLeaseSeconds * ticks : ℕ)) row = true := by
  have hupdate := tryUpdate_settled (s := a.db.draw a.worker) (w := a.worker)
    (p := AnalysisJobSourceRepository.claimable
      ((a.db.clock : ℤ) - (sourceLeaseSeconds * ticks : ℕ)))
    (f := AnalysisJobSource.claimed a.db.clock (a.worker, a.db.drawn a.worker)) h.1 h.2
  have hrun : ∀ {o s'}, (a.db.draw a.worker).tryUpdate a.worker (.jobSource jobId sourceId)
      (AnalysisJobSourceRepository.claimable
        ((a.db.clock : ℤ) - (sourceLeaseSeconds * ticks : ℕ)))
      (AnalysisJobSource.claimed a.db.clock (a.worker, a.db.drawn a.worker)) = some (o, s') →
      (AnalysisJobSourceRepository.claim jobId sourceId
        (sourceLeaseSeconds * ticks)).runAlone a.worker a.db =
        (matched o >>= fun found =>
          (pure (found.map fun _ => (a.worker, a.db.drawn a.worker)) :
            Session (Option Uuid))).runAlone a.worker s' := by
    intro o s' hexec
    have hdraw : exec a.worker .draw a.db =
        some ((a.worker, a.db.drawn a.worker), a.db.draw a.worker) := rfl
    have hnow : exec a.worker .now (a.db.draw a.worker) =
        some (a.db.clock, a.db.draw a.worker) := rfl
    exact (Prog.runAlone_op hdraw).trans ((Prog.runAlone_op hnow).trans (Prog.runAlone_op hexec))
  unfold Attempt.token
  by_cases hclaim : AnalysisJobSourceRepository.claimable
      ((a.db.clock : ℤ) - (sourceLeaseSeconds * ticks : ℕ)) row = true
  · rw [if_pos hclaim] at hupdate
    rw [hrun hupdate]
    exact ⟨fun _ => hclaim, fun _ => rfl⟩
  · rw [if_neg hclaim] at hupdate
    rw [hrun hupdate]
    exact ⟨fun hsome => (nomatch hsome), fun hc => absurd hc hclaim⟩

/-- A row that was given back is there for the taking. -/
theorem Attempt.token_isSome_of_pending {a : Attempt} {row : AnalysisJobSource}
    (h : a.Finds jobId sourceId row) (hpending : row.status = .pending) :
    (a.token ticks jobId sourceId).isSome = true := by
  rw [Attempt.token_isSome_iff h]
  simp [AnalysisJobSourceRepository.claimable, hpending]

/-- A busy attempt comes while the lease of the dead worker lasts. -/
theorem Attempt.clock_le_of_busy {a : Attempt} {row : AnalysisJobSource} {t : ℕ} {token : Uuid}
    (h : a.Finds jobId sourceId (row.claimed t token))
    (hbusy : (a.token ticks jobId sourceId).isSome = false) :
    a.db.clock ≤ t + sourceLeaseSeconds * ticks := by
  by_contra hlate
  have hclaim : (a.token ticks jobId sourceId).isSome = true := by
    have hexpired : (t : ℤ) < (a.db.clock : ℤ) - (sourceLeaseSeconds * ticks : ℕ) := by omega
    rw [Attempt.token_isSome_iff h]
    simpa [AnalysisJobSourceRepository.claimable, AnalysisJobSource.claimed] using hexpired
  rw [hbusy] at hclaim
  cases hclaim

/-! ## The wait -/

/-- A run has one of the given outcomes, by induction on them. -/
theorem outcome_mem_of_runs : ∀ {outcomes : List SourceOutcome} {task : SourceTask} {run : SourceRun},
    run ∈ runs task outcomes → run.outcome ∈ outcomes
  | [], _, _, h => absurd h List.not_mem_nil
  | outcome :: outcomes, task, run, h => by
      rcases List.mem_cons.mp h with rfl | h
      · exact List.mem_cons_self
      · split at h
        · exact absurd h List.not_mem_nil
        · exact List.mem_cons_of_mem _ (outcome_mem_of_runs h)

/-- While an attempt can be busy there have been fewer than 20 waits. -/
theorem busyAttempts_lt_of_busy {a : Attempt} {row : AnalysisJobSource} {t : ℕ} {token : Uuid}
    {waits : ℕ} (hfinds : a.Finds jobId sourceId (row.claimed t token))
    (hbusy : (a.token ticks jobId sourceId).isSome = false)
    (hafter : t + waits * (busyRetryCountdownSeconds * ticks) < a.db.clock) :
    waits < busyRetryLimit := by
  by_contra hge
  have hlease := Attempt.clock_le_of_busy hfinds hbusy
  have hwaits := Nat.mul_le_mul_right (busyRetryCountdownSeconds * ticks) (Nat.le_of_not_lt hge)
  simp only [busyRetryLimit, busyRetryCountdownSeconds, sourceLeaseSeconds]
    at hwaits hlease hafter
  omega

/-- Once the waiter has obtained the claim the source is its own whenever it comes back. -/
theorem result_ne_busy {a : Attempt} {later : List Attempt} {row : AnalysisJobSource}
    (h : Undisturbed ticks jobId sourceId row (a :: later))
    (hobtained : (a.token ticks jobId sourceId).isSome = true) :
    ∀ b ∈ a :: later, b.result ticks jobId sourceId ≠ .busy := by
  obtain ⟨-, hown, hlater⟩ := h
  rw [if_pos hobtained] at hlater
  intro b hb
  rcases List.mem_cons.mp hb with rfl | hb
  · simp only [Attempt.result, hobtained, if_true]
    exact hown
  · obtain ⟨hne, free, hfree, hpending⟩ := hlater b hb
    simp only [Attempt.result, Attempt.token_isSome_of_pending hfree hpending, if_true]
    exact hne

/-- **The step of the wait.** After `waits` busy attempts the next one comes later than `t` by more
than their countdowns: it obtains the claim, or it may wait once more. -/
theorem wait_step {row : AnalysisJobSource} {t : ℕ} {token : Uuid} :
    ∀ {attempts : List Attempt} {task : SourceTask}, Consistent task →
      Undisturbed ticks jobId sourceId (row.claimed t token) attempts →
      Spaced ticks attempts →
      (∀ a ∈ attempts.head?,
        t + task.busyAttempts * (busyRetryCountdownSeconds * ticks) < a.db.clock) →
      (∀ run ∈ runs task (attempts.map (Attempt.result ticks jobId sourceId)),
        run.outcome = .busy → run.step ≠ .finished busyFailed) ∧
      (busyRetryLimit + 1 ≤ attempts.length + task.busyAttempts →
        ∃ before a after, attempts = before ++ a :: after ∧
          before.length + task.busyAttempts ≤ busyRetryLimit ∧
          (a.token ticks jobId sourceId).isSome = true ∧
          before.length <
            (runs task (attempts.map (Attempt.result ticks jobId sourceId))).length)
  | [], task, hc, _, _, _ => by
      refine ⟨fun run hmem => absurd hmem List.not_mem_nil, fun hlen => ?_⟩
      have hbusy := hc.busy
      simp only [List.length_nil] at hlen
      omega
  | a :: later, task, hc, hundisturbed, hspaced, hclock => by
      rcases htoken : (a.token ticks jobId sourceId).isSome with _ | _
      · -- busy: the lease still lasts, and the task waits once more
        obtain ⟨hfinds, -, hlater⟩ := hundisturbed
        rw [htoken] at hlater
        have hafter : t + task.busyAttempts * (busyRetryCountdownSeconds * ticks) < a.db.clock :=
          hclock a rfl
        have hlt := busyAttempts_lt_of_busy hfinds htoken hafter
        have hresult : a.result ticks jobId sourceId = .busy := by
          simp [Attempt.result, htoken]
        have hstep : deliver task .busy =
            .again busyRetryCountdownSeconds (SourceTask.afterBusy task) :=
          (deliver_busy hc).elim (fun h => absurd h.1 (Nat.ne_of_lt hlt)) fun h => h.2
        have hruns : runs task ((a :: later).map (Attempt.result ticks jobId sourceId)) =
            ⟨task, .busy⟩ ::
              runs (SourceTask.afterBusy task) (later.map (Attempt.result ticks jobId sourceId)) := by
          rw [List.map_cons, hresult]
          simp only [runs, hstep]
        have hnext : ∀ b ∈ later.head?, t + (SourceTask.afterBusy task).busyAttempts *
            (busyRetryCountdownSeconds * ticks) < b.db.clock := by
          intro b hb
          have hgap := hspaced.rel_head? hb
          simp only [SourceTask.afterBusy, Nat.add_mul, Nat.one_mul]
          omega
        obtain ⟨hrest, hobtained⟩ := wait_step (hc.afterBusy hlt) hlater hspaced.tail hnext
        rw [hruns]
        refine ⟨fun run hmem hout => ?_, fun hlen => ?_⟩
        · rcases List.mem_cons.mp hmem with rfl | hmem
          · simp only [SourceRun.step, hstep]
            intro h
            cases h
          · exact hrest run hmem hout
        · obtain ⟨before, b, after, heq, hle, hb, hrun⟩ := hobtained (by
            simp only [SourceTask.afterBusy, List.length_cons] at hlen ⊢
            omega)
          refine ⟨a :: before, b, after, by rw [heq, List.cons_append], ?_, hb, ?_⟩
          · simp only [SourceTask.afterBusy, List.length_cons] at hle ⊢
            omega
          · simp only [List.length_cons]
            omega
      · refine ⟨fun run hmem hout => ?_, fun _ => ⟨[], a, later, rfl, ?_, htoken, ?_⟩⟩
        · obtain ⟨b, hb, hresult⟩ := List.mem_map.mp (outcome_mem_of_runs hmem)
          exact absurd (hresult.trans hout) (result_ne_busy hundisturbed htoken b hb)
        · simpa using hc.busy
        · simp [runs]

/-- **The busy wait outlasts the lease.** A worker claimed the source at time `t` and died; nobody
else claims it. A waiter whose first attempt comes after `t` and whose attempts are at least one
countdown apart obtains the claim at the latest with its twenty-first attempt, and it never fails
because the source is busy. -/
theorem busy_wait_outlasts_lease (ticks : ℕ) (jobId sourceId token : Uuid) (t : ℕ)
    (row : AnalysisJobSource) (attempts : List Attempt)
    (hundisturbed : Undisturbed ticks jobId sourceId (row.claimed t token) attempts)
    (hfirst : ∀ a ∈ attempts.head?, t < a.db.clock) (hspaced : Spaced ticks attempts) :
    (∀ run ∈ runs {} (attempts.map (Attempt.result ticks jobId sourceId)),
        run.outcome = .busy → run.step ≠ .finished busyFailed) ∧
      (busyRetryLimit + 1 ≤ attempts.length →
        ∃ before a after, attempts = before ++ a :: after ∧ before.length ≤ busyRetryLimit ∧
          (a.token ticks jobId sourceId).isSome = true ∧
          before.length <
            (runs {} (attempts.map (Attempt.result ticks jobId sourceId))).length) := by
  have hclock : ∀ a ∈ attempts.head?, t + ({} : SourceTask).busyAttempts *
      (busyRetryCountdownSeconds * ticks) < a.db.clock := by
    intro a ha
    rw [Nat.zero_mul, Nat.add_zero]
    exact hfirst a ha
  exact wait_step consistent_initial hundisturbed hspaced hclock

end

/-- The waiter comes to the claim at the time `clock` of a database with the dead worker's row. -/
def attemptAt (clock : ℕ) : Attempt where
  worker := 1
  db := { AppDb.ofRows [⟨.jobSource (9, 1) (9, 2), AnalysisJobSource.claimed 5 (0, 0) {}⟩] [] with
    clock := clock }
  outcome := .ok 3

/-- The run that obtains the claim succeeds. -/
theorem attemptAt_outcome (clock : ℕ) : (attemptAt clock).outcome ≠ .busy := by
  simp [attemptAt]

/-- Attempts are undisturbed while all but the last of them come within the lease. -/
theorem undisturbed_attemptAt : ∀ clocks : List ℕ, (∀ clock ∈ clocks.dropLast, clock ≤ 605) →
    Undisturbed 1 (9, 1) (9, 2) (AnalysisJobSource.claimed 5 (0, 0) {}) (clocks.map attemptAt)
  | [], _ => trivial
  | [_], _ => by
      refine ⟨⟨rfl, fun _ => rfl⟩, attemptAt_outcome _, ?_⟩
      split
      · exact fun b hb => absurd hb List.not_mem_nil
      · trivial
  | clock :: next :: later, h => by
      have hfinds : (attemptAt clock).Finds (9, 1) (9, 2) (AnalysisJobSource.claimed 5 (0, 0) {}) :=
        ⟨rfl, fun _ => rfl⟩
      have hbusy : ((attemptAt clock).token 1 (9, 1) (9, 2)).isSome = false := by
        have hclock : clock ≤ 605 := h clock (by simp)
        rw [← Bool.not_eq_true, Attempt.token_isSome_iff hfinds]
        have hlease : (clock : ℤ) - 600 ≤ 5 := by omega
        simpa [AnalysisJobSourceRepository.claimable, AnalysisJobSource.claimed, attemptAt,
          sourceLeaseSeconds] using hlease
      refine ⟨hfinds, attemptAt_outcome clock, ?_⟩
      rw [hbusy]
      exact undisturbed_attemptAt (next :: later) fun c hc => h c (by
        rw [List.dropLast_cons_cons]
        exact List.mem_cons_of_mem _ hc)

/-- An attempt every 30 s from one second after the dead worker's claim on: the last comes one
second after its lease of 600 s. -/
def attemptsEachCountdown : List Attempt :=
  ((List.range 21).map fun k => 6 + 30 * k).map attemptAt

/-- Twenty attempts are busy and the twenty-first obtains the claim. -/
theorem busy_wait_twenty_one_attempts :
    (∀ run ∈ runs {} (attemptsEachCountdown.map (Attempt.result 1 (9, 1) (9, 2))),
        run.outcome = .busy → run.step ≠ .finished busyFailed) ∧
      ∃ before a after, attemptsEachCountdown = before ++ a :: after ∧
        before.length ≤ busyRetryLimit ∧ (a.token 1 (9, 1) (9, 2)).isSome = true ∧
        before.length <
          (runs {} (attemptsEachCountdown.map (Attempt.result 1 (9, 1) (9, 2)))).length := by
  have hspaced : Spaced 1 attemptsEachCountdown := by
    unfold Spaced attemptsEachCountdown
    rw [List.isChain_map]
    decide
  have hwait := busy_wait_outlasts_lease 1 (9, 1) (9, 2) (0, 0) 5 {} attemptsEachCountdown
    (undisturbed_attemptAt _ (by decide)) (by rintro a ⟨⟩; decide) hspaced
  exact ⟨hwait.1, hwait.2 (by decide)⟩

end AnalysisTasks

end SyncBack
