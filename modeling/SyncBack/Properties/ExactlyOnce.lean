import SyncBack.Application.SessionRules
import SyncBack.Txn.Pending

/-!
# A source is processed once

Any number of workers process one source of one job: redelivered messages, expired leases and
crashes included. A worker owns the run while the row holds the token that it drew; completing the
run and storing the suggestions are one transaction, and both `release` and `mark_completed` look
for the token. `source_processed_once` says what this comes to: the suggestions of one worker are
committed at most, as many as the run counts; a completed run stays as it is; and a worker whose
claim was taken over never changes the run again and stores nothing.
-/

namespace SyncBack

open Txn Session Contract

/-! ## Runs and suggestions -/

/-- The suggestion is committed for the source of the job. -/
def SuggestionOf (jobId sourceId id : Uuid) (s : AppDb) : Prop :=
  ∃ row : Suggestion, s.committed (.suggestion id) = some row ∧ row.analysisJobId = jobId ∧
    sourceId ∈ row.sources

/-- The list has the ids that satisfy `p`, each once. -/
def Enumerates (ids : List Uuid) (p : Uuid → Prop) : Prop :=
  ids.Nodup ∧ ∀ id, p id ↔ id ∈ ids

/-- The suggestions of a source match its run: there are none before it is completed, and then as
many as it counts, drawn by one process. -/
structure Consistent (jobId sourceId : Uuid) (s : AppDb) : Prop where
  completed : ∀ id, SuggestionOf jobId sourceId id s → ∃ run : AnalysisJobSource,
    s.committed (.jobSource jobId sourceId) = some run ∧ run.status = .completed
  counted : ∀ run : AnalysisJobSource, s.committed (.jobSource jobId sourceId) = some run →
    run.status = .completed → ∃ (t : Process) (ids : List Uuid),
      Enumerates ids (SuggestionOf jobId sourceId · s) ∧ ids.length = run.suggestionsCount ∧
        ∀ id ∈ ids, id.1 = t

/-! ## The invariant -/

/-- A run is locked exactly while it is processed. -/
def AnalysisJobSource.LockMatches (run : AnalysisJobSource) : Prop :=
  (run.status = .processing → run.lockedAt ≠ none) ∧ (run.lockToken ≠ none → run.status = .processing)

/-- A completed run stays, and so does a suggestion. -/
def KeepsCompleted : (k : Key) → Row k → Row k → Prop
  | .jobSource _ _, (old : AnalysisJobSource), new => old.status = .completed → new = old
  | .suggestion _, old, new => new = old
  | _, _, _ => True

/-- A row keeps what it has. -/
theorem KeepsCompleted.refl (k : Key) (row : Row k) : KeepsCompleted k row row := by
  cases k
  case jobSource => exact fun _ => rfl
  all_goals trivial

/-- What is kept twice is kept. -/
theorem KeepsCompleted.trans (k : Key) (a b c : Row k) (h : KeepsCompleted k a b)
    (h' : KeepsCompleted k b c) : KeepsCompleted k a c := by
  cases k
  case jobSource =>
    intro ha
    obtain rfl := h ha
    exact h' ha
  case suggestion => exact Eq.trans h' h
  all_goals trivial

/-- Process `t` has committed the claim of a run. -/
def Claimed (t : Process) (s : AppDb) : Prop :=
  ∃ (w : (k : Key) → Option (Option (Row k))) (jobId sourceId : Uuid) (run : AnalysisJobSource),
    (t, w) ∈ s.log ∧ w (.jobSource jobId sourceId) = some (some run) ∧ run.lockToken ≠ none

/-- What a version of a run can be that transaction `t` has written over a committed row. -/
inductive RunVersion (t : Process) (s : AppDb) (old : Option AnalysisJobSource)
    (new : AnalysisJobSource) : Prop
  /-- A new run. -/
  | fresh (hold : old = none) (hstatus : new.status = .pending) (htoken : new.lockToken = none)
  /-- The first claim of `t`, with a token of its own. -/
  | claimed {token : Uuid} (hold : ∀ run ∈ old, run.status ≠ .completed)
      (hstatus : new.status = .processing) (hlocked : new.lockedAt ≠ none)
      (htoken : new.lockToken = some token) (howner : token.1 = t) (hfirst : ¬ Claimed t s)
  /-- The end of the claim of `t`. -/
  | ended {run : AnalysisJobSource} {token : Uuid} (hold : old = some run)
      (hrun : run.status = .processing) (howned : run.lockToken = some token)
      (howner : token.1 = t) (hstatus : new.status ≠ .processing) (htoken : new.lockToken = none)

/-- What holds of the versions that transaction `t` has written. -/
structure OwnRuns (t : Process) (s : AppDb) : Prop where
  run : ∀ jobId sourceId version, s.writes t (.jobSource jobId sourceId) = some version →
    ∃ new, version = some new ∧ RunVersion t s (s.committed (.jobSource jobId sourceId)) new
  /-- A suggestion is stored with the completion of its run. -/
  suggestion : ∀ id version, s.writes t (.suggestion id) = some version →
    ∃ row : Suggestion, version = some row ∧ id.1 = t ∧ ∃ sourceId, row.sources = [sourceId] ∧
      ∃ run : AnalysisJobSource,
        s.writes t (.jobSource row.analysisJobId sourceId) = some (some run) ∧
          run.status = .completed

section

variable (live : Process → Prop)

/-- What holds of runs and suggestions at any time. -/
structure Once (s : AppDb) : Prop where
  kept : s.Pending KeepsCompleted
  /-- A token of a process of the run comes from its claim. -/
  tokens : ∀ jobId sourceId (run : AnalysisJobSource) (token : Uuid),
    s.committed (.jobSource jobId sourceId) = some run → run.lockToken = some token →
      live token.1 → Claimed token.1 s
  locks : ∀ jobId sourceId (run : AnalysisJobSource),
    s.committed (.jobSource jobId sourceId) = some run → run.LockMatches
  consistent : ∀ jobId sourceId, Consistent jobId sourceId s
  own : ∀ t, OwnRuns t s

end

variable {live : Process → Prop} {s s' : AppDb} {t : Process}

/-- A claim stays committed. -/
theorem Claimed.step {u : Process} (hf : Frame t s s') (h : Claimed u s) : Claimed u s' := by
  obtain ⟨w, jobId, sourceId, run, hlog, hw⟩ := h
  refine ⟨w, jobId, sourceId, run, ?_, hw⟩
  rcases hf.committed with ⟨-, hlog'⟩ | ⟨-, hlog', -⟩
  · rw [hlog']
    exact hlog
  · rw [hlog']
    exact List.mem_append_left _ hlog

/-- Another process's step commits no claim of `u`. -/
theorem Claimed.of_step {u : Process} (hu : u ≠ t) (hf : Frame t s s') (h : Claimed u s') :
    Claimed u s := by
  obtain ⟨w, jobId, sourceId, run, hlog, hw⟩ := h
  refine ⟨w, jobId, sourceId, run, ?_, hw⟩
  rcases hf.committed with ⟨-, hlog'⟩ | ⟨-, hlog', -⟩
  · rwa [hlog'] at hlog
  · rw [hlog', List.mem_append, List.mem_singleton] at hlog
    exact hlog.resolve_right fun h => hu (Prod.mk.inj h).1

/-- A transaction without versions has nothing to show. -/
theorem OwnRuns.of_writes_none (h : ∀ k, s.writes t k = none) : OwnRuns t s := by
  refine ⟨fun jobId sourceId version hw => ?_, fun id version hw => ?_⟩
  all_goals
    rw [h] at hw
    cases hw

/-- The row under a version that may be written is not completed. -/
theorem RunVersion.not_completed {old : Option AnalysisJobSource} {new : AnalysisJobSource}
    (h : RunVersion t s old new) : ∀ run ∈ old, run.status ≠ .completed := by
  rintro run hrun
  cases h with
  | fresh hold =>
      rw [hold] at hrun
      cases hrun
  | claimed hold => exact hold run hrun
  | ended hold hst =>
      rw [hold] at hrun
      cases hrun
      rw [hst]
      simp

/-- The lock of such a version matches its status. -/
theorem RunVersion.lockMatches {old : Option AnalysisJobSource} {new : AnalysisJobSource}
    (h : RunVersion t s old new) : new.LockMatches := by
  cases h with
  | fresh hold hstatus htoken => exact ⟨by simp [hstatus], fun h => absurd htoken h⟩
  | ended hold hrun howned howner hstatus htoken =>
      exact ⟨fun h => absurd h hstatus, fun h => absurd htoken h⟩
  | claimed hold hstatus hlocked => exact ⟨fun _ => hlocked, fun _ => hstatus⟩

/-- Only the log matters. -/
theorem RunVersion.imp {old : Option AnalysisJobSource} {new : AnalysisJobSource}
    (h : RunVersion t s old new) (hclaimed : Claimed t s' → Claimed t s) :
    RunVersion t s' old new := by
  cases h with
  | fresh hold hstatus htoken => exact .fresh hold hstatus htoken
  | claimed hold hstatus hlocked htoken howner hfirst =>
      exact .claimed hold hstatus hlocked htoken howner fun h => hfirst (hclaimed h)
  | ended hold hrun howned howner hstatus htoken =>
      exact .ended hold hrun howned howner hstatus htoken

/-- Only the versions of `t`, the rows under them and the log matter. -/
theorem OwnRuns.congr (h : OwnRuns t s) (hw : s'.writes t = s.writes t)
    (hc : ∀ k, s.writes t k ≠ none → s'.committed k = s.committed k)
    (hclaimed : Claimed t s' → Claimed t s) : OwnRuns t s' := by
  refine ⟨fun jobId sourceId version hversion => ?_, fun id version hversion => ?_⟩
  · rw [hw] at hversion
    obtain ⟨new, hnew, hrun⟩ := h.run jobId sourceId version hversion
    rw [hc _ (hversion ▸ Option.some_ne_none _)]
    exact ⟨new, hnew, hrun.imp hclaimed⟩
  · rw [hw] at hversion ⊢
    exact h.suggestion id version hversion

namespace Once

/-- The versions of the others are as good as before. -/
theorem own_other (h : Once live s) (hf : Frame t s s') {u : Process} (hu : u ≠ t) :
    OwnRuns u s' :=
  (h.own u).congr (hf.writes u hu) (fun _ hk => hf.committed_of_locked hu.symm hk)
    (Claimed.of_step hu hf)

/-- A version of `t` that completes a run, or belongs to one. -/
theorem run_of_suggestion (h : Once live s) {id jobId sourceId : Uuid} {row : Suggestion}
    (hw : s.writes t (.suggestion id) = some (some row)) (hjob : row.analysisJobId = jobId)
    (hsource : sourceId ∈ row.sources) :
    id.1 = t ∧ ∃ run : AnalysisJobSource,
      s.writes t (.jobSource jobId sourceId) = some (some run) ∧ run.status = .completed := by
  obtain ⟨row', hrow', hid, sourceId', hsources, hrun⟩ := (h.own t).suggestion id _ hw
  cases hrow'
  rw [hsources, List.mem_singleton] at hsource
  subst hsource hjob
  exact ⟨hid, hrun⟩

/-- While `t` works on a run, nothing is committed for it. -/
theorem no_suggestion (h : Once live s) (jobId sourceId : Uuid)
    (hw : s.writes t (.jobSource jobId sourceId) ≠ none) (id : Uuid) :
    ¬ SuggestionOf jobId sourceId id s := by
  intro hid
  obtain ⟨run, hrun, hcompleted⟩ := (h.consistent jobId sourceId).completed id hid
  obtain ⟨version, hversion⟩ := Option.ne_none_iff_exists'.mp hw
  obtain ⟨new, -, hnew⟩ := (h.own t).run jobId sourceId version hversion
  exact hnew.not_completed run hrun hcompleted

end Once

/-- Before a commit: the suggestions of a completed run are stored, as many as it counts. -/
def CommitCovered (t : Process) (s : AppDb) : Prop :=
  ∀ jobId sourceId (run : AnalysisJobSource),
    s.writes t (.jobSource jobId sourceId) = some (some run) → run.status = .completed →
      ∃ ids : List Uuid, Enumerates ids (fun id => ∃ row : Suggestion,
        s.writes t (.suggestion id) = some (some row) ∧ row.analysisJobId = jobId ∧
          sourceId ∈ row.sources) ∧ ids.length = run.suggestionsCount

namespace Once

/-- The suggestions of a source after a commit of `t`. -/
theorem suggestionOf_commit (h : Once live s) {jobId sourceId id : Uuid} :
    SuggestionOf jobId sourceId id (s.commit t) ↔ SuggestionOf jobId sourceId id s ∨
      ∃ row : Suggestion, s.writes t (.suggestion id) = some (some row) ∧
        row.analysisJobId = jobId ∧ sourceId ∈ row.sources := by
  constructor
  · rintro ⟨row, hrow, hpair⟩
    rw [Db.commit_committed] at hrow
    rcases hw : s.writes t (.suggestion id) with _ | version
    · rw [Db.read_of_not_writes hw] at hrow
      exact .inl ⟨row, hrow, hpair⟩
    · rw [Db.read_of_writes hw] at hrow
      subst hrow
      exact .inr ⟨row, rfl, hpair⟩
  · rintro (⟨row, hrow, hpair⟩ | ⟨row, hw, hpair⟩)
    · obtain ⟨row', hrow', hsame⟩ := (Frame.commit t s).committed_along KeepsCompleted.refl h.kept
        (.suggestion id) row hrow
      exact ⟨row, by rw [hrow', show row' = row from hsame], hpair⟩
    · exact ⟨row, by rw [Db.commit_committed, Db.read_of_writes hw], hpair⟩

/-- **A commit** keeps the suggestions of every source consistent with its run. -/
theorem consistent_commit (h : Once live s) (hcov : CommitCovered t s) (jobId sourceId : Uuid) :
    Consistent jobId sourceId (s.commit t) := by
  rcases hw : s.writes t (.jobSource jobId sourceId) with _ | version
  · -- `t` has nothing to do with the source
    have hsame : ∀ id, SuggestionOf jobId sourceId id (s.commit t) ↔
        SuggestionOf jobId sourceId id s := by
      intro id
      rw [h.suggestionOf_commit, or_iff_left]
      rintro ⟨row, hrow, hjob, hsource⟩
      obtain ⟨-, run, hrun, -⟩ := h.run_of_suggestion hrow hjob hsource
      rw [hw] at hrun
      cases hrun
    have hrun : (s.commit t).committed (.jobSource jobId sourceId) =
        s.committed (.jobSource jobId sourceId) := by
      rw [Db.commit_committed, Db.read_of_not_writes hw]
    refine ⟨fun id hid => ?_, fun run hc hst => ?_⟩
    · rw [hrun]
      exact (h.consistent jobId sourceId).completed id ((hsame id).mp hid)
    · rw [hrun] at hc
      obtain ⟨u, ids, ⟨hnodup, hids⟩, hcount⟩ := (h.consistent jobId sourceId).counted run hc hst
      exact ⟨u, ids, ⟨hnodup, fun id => (hsame id).trans (hids id)⟩, hcount⟩
  · obtain ⟨new, rfl, hnew⟩ := (h.own t).run jobId sourceId version hw
    have hnone := h.no_suggestion (t := t) jobId sourceId
      (hw ▸ Option.some_ne_none _)
    have hstored : ∀ id, SuggestionOf jobId sourceId id (s.commit t) ↔
        ∃ row : Suggestion, s.writes t (.suggestion id) = some (some row) ∧
          row.analysisJobId = jobId ∧ sourceId ∈ row.sources := by
      intro id
      rw [h.suggestionOf_commit, or_iff_right (hnone id)]
    have hrun : (s.commit t).committed (.jobSource jobId sourceId) = some new := by
      rw [Db.commit_committed, Db.read_of_writes hw]
    refine ⟨fun id hid => ?_, fun run hc hst => ?_⟩
    · obtain ⟨row, hrow, hjob, hsource⟩ := (hstored id).mp hid
      obtain ⟨-, run, hown, hcompleted⟩ := h.run_of_suggestion hrow hjob hsource
      rw [hw] at hown
      cases hown
      exact ⟨new, hrun, hcompleted⟩
    · rw [hrun] at hc
      cases hc
      obtain ⟨ids, ⟨hnodup, hids⟩, hcount⟩ := hcov jobId sourceId new hw hst
      refine ⟨t, ids, ⟨hnodup, fun id => (hstored id).trans (hids id)⟩, hcount, fun id hid => ?_⟩
      obtain ⟨row, hrow, hjob, hsource⟩ := (hids id).mpr hid
      exact (h.run_of_suggestion hrow hjob hsource).1

/-- **A commit** of versions that may stand. -/
theorem commit (h : Once live s) (hcov : CommitCovered t s) : Once live (s.commit t) := by
  refine ⟨h.kept.commit, fun jobId sourceId run token hrun htoken hlive => ?_,
    fun jobId sourceId run hrun => ?_, h.consistent_commit hcov, fun u => ?_⟩
  · rw [Db.commit_committed] at hrun
    rcases hw : s.writes t (.jobSource jobId sourceId) with _ | version
    · rw [Db.read_of_not_writes hw] at hrun
      exact (h.tokens jobId sourceId run token hrun htoken hlive).step (Frame.commit t s)
    · obtain ⟨new, rfl, hnew⟩ := (h.own t).run jobId sourceId version hw
      rw [Db.read_of_writes hw] at hrun
      cases hrun
      cases hnew with
      | fresh hold hstatus hnone | ended hold hst howned howner hstatus hnone =>
          rw [hnone] at htoken
          cases htoken
      | claimed hold hstatus hlocked hown howner =>
          cases htoken.symm.trans hown
          subst howner
          refine ⟨_, jobId, sourceId, run, List.mem_append_right _ (List.mem_singleton.mpr rfl), hw, ?_⟩
          rw [htoken]
          exact Option.some_ne_none _
  · rw [Db.commit_committed] at hrun
    rcases hw : s.writes t (.jobSource jobId sourceId) with _ | version
    · rw [Db.read_of_not_writes hw] at hrun
      exact h.locks jobId sourceId run hrun
    · obtain ⟨new, rfl, hnew⟩ := (h.own t).run jobId sourceId version hw
      rw [Db.read_of_writes hw] at hrun
      cases hrun
      exact hnew.lockMatches
  · by_cases hu : u = t
    · subst hu
      exact OwnRuns.of_writes_none (Db.writes_commit_self s u)
    · exact h.own_other (Frame.commit t s) hu

/-- A change that commits nothing is about the versions of `t` alone. -/
theorem of_own (h : Once live s) (hothers : ∀ u, u ≠ t → s'.writes u = s.writes u)
    (hc : s'.committed = s.committed) (hlog : s'.log = s.log) (hkept : s'.Pending KeepsCompleted)
    (hown : OwnRuns t s') : Once live s' := by
  have hclaimed : ∀ u, Claimed u s' ↔ Claimed u s := by
    unfold Claimed
    rw [hlog]
    exact fun _ => Iff.rfl
  have hsuggestion : ∀ jobId sourceId id,
      SuggestionOf jobId sourceId id s' ↔ SuggestionOf jobId sourceId id s := by
    unfold SuggestionOf
    rw [hc]
    exact fun _ _ _ => Iff.rfl
  refine ⟨hkept, fun jobId sourceId run token hrun htoken hlive => ?_,
    fun jobId sourceId run hrun => ?_, fun jobId sourceId => ⟨fun id hid => ?_, fun run hrun hst => ?_⟩,
    fun u => ?_⟩
  · rw [hc] at hrun
    exact (hclaimed _).mpr (h.tokens jobId sourceId run token hrun htoken hlive)
  · rw [hc] at hrun
    exact h.locks jobId sourceId run hrun
  · rw [hc]
    exact (h.consistent jobId sourceId).completed id ((hsuggestion _ _ _).mp hid)
  · rw [hc] at hrun
    obtain ⟨u, ids, ⟨hnodup, hids⟩, hcount⟩ := (h.consistent jobId sourceId).counted run hrun hst
    exact ⟨u, ids, ⟨hnodup, fun id => (hsuggestion _ _ _).trans (hids id)⟩, hcount⟩
  · by_cases hu : u = t
    · rwa [hu]
    · exact (h.own u).congr (hothers u hu) (fun k _ => congrFun hc k) (hclaimed u).mp

/-- A rollback keeps the invariant. -/
theorem rollback (h : Once live s) : Once live (s.rollback t) :=
  h.of_own (fun _ hu => Db.writes_rollback_other s hu) rfl rfl h.kept.rollback
    (OwnRuns.of_writes_none (Db.writes_rollback_self s t))

/-- So does a drawn identifier. -/
theorem draw (h : Once live s) : Once live (s.draw t) :=
  h.of_own (t := t) (fun _ _ => rfl) rfl rfl h.kept ((h.own t).congr rfl (fun _ _ => rfl) id)

/-- So does the clock. -/
theorem tick (h : Once live s) (n : ℕ) : Once live (s.tick n) :=
  h.of_own (t := 0) (fun _ _ => rfl) rfl rfl h.kept ((h.own 0).congr rfl (fun _ _ => rfl) id)

/-- So does a write that keeps what is completed and has its versions shown. -/
theorem write {k : Key} {version : Option (Row k)} (h : Once live s)
    (hfree : s.lockedByOther t k = false) (hkept : Along KeepsCompleted k (s.committed k) version)
    (hown : OwnRuns t (s.write t k version)) : Once live (s.write t k version) :=
  h.of_own (fun _ hu => Db.writes_write_other s version hfree hu) rfl rfl (h.kept.write hfree hkept)
    hown

end Once

/-! ## The writes of one transaction -/

namespace OwnRuns

/-- A run that is not completed yet gets another version. -/
theorem write_run {jobId sourceId : Uuid} {new : AnalysisJobSource} (h : OwnRuns t s)
    (hnew : RunVersion t s (s.committed (.jobSource jobId sourceId)) new)
    (hold : ∀ run : AnalysisJobSource, s.writes t (.jobSource jobId sourceId) = some (some run) →
      run.status ≠ .completed) : OwnRuns t (s.write t (.jobSource jobId sourceId) (some new)) := by
  refine ⟨fun j o version hw => ?_, fun id version hw => ?_⟩
  · by_cases hk : Key.jobSource j o = .jobSource jobId sourceId
    · cases hk
      rw [Db.writes_write_self, Option.some.injEq] at hw
      exact ⟨new, hw.symm, hnew.imp id⟩
    · rw [Db.writes_write_of_ne s _ hk] at hw
      obtain ⟨new', rfl, hnew'⟩ := h.run j o version hw
      exact ⟨new', rfl, hnew'.imp id⟩
  · rw [Db.writes_write_of_ne s _ (by simp)] at hw
    obtain ⟨row, rfl, hid, o, hsources, run, hrun, hcompleted⟩ := h.suggestion id version hw
    refine ⟨row, rfl, hid, o, hsources, run, ?_, hcompleted⟩
    rw [Db.writes_write_of_ne]
    · exact hrun
    · intro hk
      obtain ⟨rfl, rfl⟩ := Key.jobSource.inj hk
      exact hold run hrun hcompleted

/-- A suggestion is added to the run that the transaction has completed. -/
theorem write_suggestion {id sourceId : Uuid} {row : Suggestion} {run : AnalysisJobSource}
    (h : OwnRuns t s) (hid : id.1 = t) (hsources : row.sources = [sourceId])
    (hrun : s.writes t (.jobSource row.analysisJobId sourceId) = some (some run))
    (hcompleted : run.status = .completed) :
    OwnRuns t (s.write t (.suggestion id) (some row)) := by
  refine ⟨fun j o version hw => ?_, fun id' version hw => ?_⟩
  · rw [Db.writes_write_of_ne s _ (by simp)] at hw
    obtain ⟨new, rfl, hnew⟩ := h.run j o version hw
    exact ⟨new, rfl, hnew.imp fun h => h⟩
  · by_cases hk : id' = id
    · subst hk
      rw [Db.writes_write_self, Option.some.injEq] at hw
      refine ⟨row, hw.symm, hid, sourceId, hsources, run, ?_, hcompleted⟩
      rwa [Db.writes_write_of_ne s _ (by simp)]
    · rw [Db.writes_write_of_ne s _ (by simpa using hk)] at hw
      obtain ⟨row', rfl, hid', o, hsources', run', hrun', hcompleted'⟩ := h.suggestion id' version hw
      refine ⟨row', rfl, hid', o, hsources', run', ?_, hcompleted'⟩
      rwa [Db.writes_write_of_ne s _ (by simp)]

/-- A write to another table adds no version of a run or a suggestion. -/
theorem write_other {k : Key} {version : Option (Row k)} (h : OwnRuns t s)
    (hrun : ∀ jobId sourceId, k ≠ .jobSource jobId sourceId) (hsuggestion : ∀ id, k ≠ .suggestion id) :
    OwnRuns t (s.write t k version) := by
  refine ⟨fun j o version hw => ?_, fun id version hw => ?_⟩
  · rw [Db.writes_write_of_ne s _ (hrun j o).symm] at hw
    obtain ⟨new, rfl, hnew⟩ := h.run j o version hw
    exact ⟨new, rfl, hnew.imp fun h => h⟩
  · rw [Db.writes_write_of_ne s _ (hsuggestion id).symm] at hw
    obtain ⟨row, rfl, hid, o, hsources, run, hr, hcompleted⟩ := h.suggestion id version hw
    refine ⟨row, rfl, hid, o, hsources, run, ?_, hcompleted⟩
    rwa [Db.writes_write_of_ne s _ (hrun _ _).symm]

end OwnRuns

/-- What the process has to show for the statements that touch runs and suggestions. -/
def OnceCovered (t : Process) : AppStmt → AppDb → Prop
  | .update (.jobSource jobId sourceId) p g, s => ∀ run : AnalysisJobSource,
      s.read t (.jobSource jobId sourceId) = some run → p run = true → run.status ≠ .completed ∧
        RunVersion t s (s.committed (.jobSource jobId sourceId)) (g run)
  | .insert (.suggestion id) row, s => id.1 = t ∧ ∃ sourceId, row.sources = [sourceId] ∧
      ∃ run : AnalysisJobSource,
        s.writes t (.jobSource row.analysisJobId sourceId) = some (some run) ∧
          run.status = .completed
  | .commit, s => CommitCovered t s
  | _, _ => True

/-- **One statement** of these operations keeps runs and suggestions together. -/
theorem Once.effect {kind : OperationKind} {f : AppStmt} (h : Once live s) (he : Effect t s f s')
    (hsent : Sent kind f) (hkind : kind ∈ [OperationKind.processSource, .cancel, .finalize])
    (hcov : OnceCovered t f s) : Once live s' := by
  have hnone : ∀ {k}, s.read t k = none → s.committed k = none := by
    intro k hread
    rcases hc : s.committed k with _ | row
    · rfl
    · obtain ⟨row', hrow', -⟩ := h.kept.read KeepsCompleted.refl t k row hc
      rw [hread] at hrow'
      cases hrow'
  cases he with
  | same => exact h
  | draw => exact h.draw
  | delete => cases hsent
  | send m =>
      cases hsent
      rename_i hk
      exact OperationKind.elim_of_mem hkind hk (by decide)
  | commit => exact h.commit hcov
  | rollback => exact h.rollback
  | update hfree hread hp huniq =>
      rename_i k p g r
      cases k
      case jobSource jobId sourceId =>
        obtain ⟨hopen, hnew⟩ := hcov r hread hp
        refine h.write hfree (fun row hrow => ⟨g r, rfl, fun hcompleted => ?_⟩)
          ((h.own t).write_run hnew fun run hrun => ?_)
        · exact absurd hcompleted (hnew.not_completed row hrow)
        · rw [Db.read_of_writes hrun] at hread
          cases hread
          exact hopen
      case suggestion id =>
        cases hsent with
        | suggestionDecide hk | suggestionReset hk =>
            exact OperationKind.elim_of_mem hkind hk (by decide)
      all_goals
        exact h.write hfree (fun _ _ => ⟨_, rfl, trivial⟩)
          ((h.own t).write_other (by simp) (by simp))
  | insert hfree hread huniq =>
      rename_i k row
      have hold := hnone hread
      cases k
      case jobSource jobId sourceId =>
        cases hsent
        refine h.write hfree (by rw [hold]; rintro _ ⟨⟩)
          ((h.own t).write_run (.fresh hold rfl rfl) fun run hrun => ?_)
        rw [Db.read_of_writes hrun] at hread
        cases hread
      case suggestion id =>
        obtain ⟨hid, sourceId, hsources, run, hrun, hcompleted⟩ := hcov
        exact h.write hfree (by rw [hold]; rintro _ ⟨⟩)
          ((h.own t).write_suggestion hid hsources hrun hcompleted)
      all_goals
        exact h.write hfree (by rw [hold]; rintro _ ⟨⟩)
          ((h.own t).write_other (by simp) (by simp))

/-- The contract of all runs. -/
def onceContract (live : Process → Prop) : Contract Process Key Row Message where
  inv := Once live
  guar := fun _ _ _ => True
  allowed := Config.anyStmt
  guar_refl := fun _ _ _ => trivial
  rollback := fun _ _ h => ⟨h.rollback, trivial⟩
  tick := fun n _ h => h.tick n

/-! ## The programs -/

/-- Transaction `t` has completed no run. -/
def Uncompleted (t : Process) (s : AppDb) : Prop :=
  ∀ (jobId sourceId : Uuid) (run : AnalysisJobSource),
    s.writes t (.jobSource jobId sourceId) = some (some run) → run.status ≠ .completed

/-- Process `t` has not claimed a run yet, and its transaction does not. -/
structure Unclaimed (t : Process) (s : AppDb) : Prop where
  first : ¬ Claimed t s
  fresh : ∀ (jobId sourceId : Uuid) (run : AnalysisJobSource),
    s.writes t (.jobSource jobId sourceId) = some (some run) →
      s.committed (.jobSource jobId sourceId) = none ∧ run.status = .pending ∧ run.lockToken = none

/-- Without a completed run there is nothing to cover at the commit. -/
theorem Uncompleted.commitCovered (h : Uncompleted t s) : CommitCovered t s :=
  fun jobId sourceId run hrun hcompleted => absurd hcompleted (h jobId sourceId run hrun)

/-- An idle process has completed no run. -/
theorem Uncompleted.of_idle (h : s.Idle t) : Uncompleted t s := by
  intro jobId sourceId run hrun
  rw [h] at hrun
  cases hrun

/-- No step of another process completes a run for `t`. -/
theorem stable_uncompleted : (onceContract live).Stable t (Uncompleted t) := by
  refine Stable.of_writes fun s s' h hp => ?_
  unfold Uncompleted
  rwa [h]

/-- No step of another process claims a run for `t`. -/
theorem stable_unclaimed : (onceContract live).Stable t (Unclaimed t) := by
  refine ⟨fun u s s' hu hi hi' hf _ hp => ⟨?_, fun jobId sourceId run hrun => ?_⟩, fun n s _ hp => ?_⟩
  · exact fun hc => hp.first (Claimed.of_step hu.symm hf hc)
  · rw [hf.writes t hu.symm] at hrun
    rw [hf.committed_of_locked hu (hrun ▸ Option.some_ne_none _)]
    exact hp.fresh jobId sourceId run hrun
  · exact ⟨hp.first, hp.fresh⟩

/-- Before its claim a process has completed no run. -/
theorem Unclaimed.uncompleted (h : Unclaimed t s) : Uncompleted t s := by
  intro jobId sourceId run hrun hcompleted
  rw [(h.fresh jobId sourceId run hrun).2.1] at hcompleted
  cases hcompleted

/-- A commit of other rows leaves the process without a claim. -/
theorem Unclaimed.commit (h : Unclaimed t s) : Unclaimed t (s.commit t) := by
  refine ⟨?_, fun jobId sourceId run hrun => ?_⟩
  · rintro ⟨w, jobId, sourceId, run, hlog, hw, htoken⟩
    rw [Db.commit_log, List.mem_append, List.mem_singleton] at hlog
    rcases hlog with hlog | hlog
    · exact h.first ⟨w, jobId, sourceId, run, hlog, hw, htoken⟩
    · obtain rfl := (Prod.mk.inj hlog).2
      exact htoken (h.fresh jobId sourceId run hw).2.2
  · rw [Db.writes_commit_self] at hrun
    cases hrun

/-- The statements of a source task before its claim. -/
inductive Prepares (jobId sourceId : Uuid) : AppStmt → Prop
  | reads {f} (h : Reads f) : Prepares jobId sourceId f
  | rollback : Prepares jobId sourceId .rollback
  | commit : Prepares jobId sourceId .commit
  | begun {n} :
      Prepares jobId sourceId (.update (.job jobId)
        (fun (row : AnalysisJob) => AnalysisJobLifecycle.isActive row.status) (AnalysisJob.begun n))
  | insert :
      Prepares jobId sourceId (.insert (.jobSource jobId sourceId) ({} : AnalysisJobSource))

instance {jobId sourceId : Uuid} : AllowsTransaction (Prepares jobId sourceId) where
  reads := .reads
  commit := .commit
  rollback := .rollback

/-- What prepares a claim is a statement of `_process_source`. -/
theorem Prepares.sent {jobId sourceId : Uuid} {f : AppStmt} (h : Prepares jobId sourceId f) :
    Sent .processSource f := by
  cases h with
  | reads h => exact AllowsReads.reads h
  | rollback => exact .rollback
  | commit => exact .commit
  | begun => exact .jobBegun
  | insert => exact .insertRun

/-- What prepares a claim claims nothing. -/
theorem Prepares.unclaimed {jobId sourceId : Uuid} {f : AppStmt} (h : Prepares jobId sourceId f)
    (hinv : Once live s) (he : Effect t s f s') (hp : Unclaimed t s) : Unclaimed t s' := by
  cases he with
  | same | draw | send => exact ⟨hp.first, hp.fresh⟩
  | delete => obtain ⟨⟨⟩⟩ := h
  | commit => exact hp.commit
  | rollback =>
      refine ⟨hp.first, fun jobId sourceId run hrun => ?_⟩
      rw [Db.writes_rollback_self] at hrun
      cases hrun
  | update =>
      rcases h with ⟨⟨⟩⟩ | _
      refine ⟨hp.first, fun j o run hrun => ?_⟩
      rw [Db.writes_write_of_ne s _ (by simp)] at hrun
      exact hp.fresh j o run hrun
  | insert hfree hread =>
      rcases h with ⟨⟨⟩⟩ | _
      refine ⟨hp.first, fun j o run hrun => ?_⟩
      by_cases hk : Key.jobSource j o = .jobSource jobId sourceId
      · obtain ⟨rfl, rfl⟩ := Key.jobSource.inj hk
        rw [Db.writes_write_self, Option.some.injEq, Option.some.injEq] at hrun
        subst hrun
        refine ⟨?_, rfl, rfl⟩
        rcases hc : s.committed (.jobSource j o) with _ | row
        · exact hc
        · obtain ⟨row', hrow', -⟩ := hinv.kept.read KeepsCompleted.refl t _ row hc
          rw [hread] at hrow'
          cases hrow'
      · rw [Db.writes_write_of_ne s _ hk] at hrun
        exact hp.fresh j o run hrun

namespace Once

/-- A part of a source task before its claim. -/
theorem triple_prepares (jobId sourceId : Uuid) {α : Type} {p : Session α}
    (h : p.Sends (Prepares jobId sourceId)) :
    (onceContract live).Triple t p (Unclaimed t) fun _ => Unclaimed t := by
  refine Triple.of_sends stable_unclaimed ?_ h
  intro f hf s hinv hp _ b s' he
  have heffect := exec_effect he
  refine ⟨hinv.effect heffect hf.sent (by simp) ?_, trivial, hf.unclaimed hinv heffect hp⟩
  cases hf with
  | reads h => cases h <;> trivial
  | commit => exact hp.uncompleted.commitCovered
  | rollback | begun | insert => trivial

/-- The version that a claim writes: the run was not completed, and the token is the process's own.
-/
theorem claimed (h : Once live s) (hp : Unclaimed t s) {jobId sourceId token : Uuid} {n : ℕ}
    {expired : ℤ} {run : AnalysisJobSource} (howner : token.1 = t)
    (hread : s.read t (.jobSource jobId sourceId) = some run)
    (hclaimable : AnalysisJobSourceRepository.claimable expired run = true) :
    run.status ≠ .completed ∧ RunVersion t s (s.committed (.jobSource jobId sourceId))
      (AnalysisJobSource.claimed n token run) := by
  have hopen : run.status ≠ .completed := by
    intro hcompleted
    simp [AnalysisJobSourceRepository.claimable, hcompleted] at hclaimable
  refine ⟨hopen, .claimed (fun old hold => ?_) rfl (by simp [AnalysisJobSource.claimed]) rfl howner
    hp.first⟩
  obtain ⟨run', hrun', hkept⟩ :=
    h.kept.read KeepsCompleted.refl t (.jobSource jobId sourceId) old hold
  rw [hread] at hrun'
  cases hrun'
  intro hcompleted
  obtain rfl := hkept hcompleted
  exact hopen hcompleted

/-- A claim is made once, with a token that its process has drawn. -/
theorem triple_claim {jobId sourceId : Uuid} {leaseSeconds : ℕ} :
    (onceContract live).Triple t (AnalysisJobSourceRepository.claim jobId sourceId leaseSeconds)
      (Unclaimed t)
      (ending (fun found s => Uncompleted t s ∧ ∀ token, found = some token → token.1 = t)
        fun _ _ => True) := by
  refine Triple.draw (A := fun token s => token.1 = t ∧ Unclaimed t s)
    (fun _ => (Stable.const _).and stable_unclaimed)
    (fun s hinv hp => ⟨hinv.draw, trivial, rfl, hp.first, hp.fresh⟩) fun token => ?_
  refine Triple.fact fun howner => Triple.now stable_unclaimed fun n => ?_
  refine Triple.update (A := fun _ => Uncompleted t) (fun _ => stable_uncompleted)
    (fun s _ hp _ => hp.uncompleted) (fun s _ _ hp _ _ _ => hp.uncompleted) ?_ fun o => ?_
  · intro s run hinv hp _ hfree hread hclaimable huniq
    refine ⟨hinv.effect (.update hfree hread hclaimable huniq) .runClaim (by simp) ?_, trivial, ?_⟩
    · intro run' hread' hclaimable'
      exact hinv.claimed hp howner hread' hclaimable'
    · intro j o run' hrun'
      by_cases hk : Key.jobSource j o = .jobSource jobId sourceId
      · obtain ⟨rfl, rfl⟩ := Key.jobSource.inj hk
        rw [Db.writes_write_self, Option.some.injEq, Option.some.injEq] at hrun'
        subst hrun'
        simp [AnalysisJobSource.claimed]
      · rw [Db.writes_write_of_ne s _ hk] at hrun'
        exact hp.uncompleted j o run' hrun'
  · rcases o with _ | _ | row
    · exact fun s _ h => ⟨h, by simp⟩
    · exact fun _ _ _ => trivial
    · refine fun s _ h => ⟨h, fun token' htoken => ?_⟩
      cases htoken
      exact howner

/-- A commit of a transaction that has completed no run. -/
theorem triple_commit {α : Type} {rest : Unit → Session α} {A : AppDb → Prop}
    {Q : Except DomainError α → AppDb → Prop} (hst : (onceContract live).Stable t A)
    (hidle : ∀ s : AppDb, s.Idle t → A s) (h : (onceContract live).Triple t (rest ()) A Q) :
    (onceContract live).Triple t (Session.commit >>= rest) (Uncompleted t) Q :=
  Triple.commit hst
    (fun s hinv hp _ => ⟨hinv.commit hp.commitCovered, trivial, hidle _ (Db.idle_commit s t)⟩) h

/-- A source task goes on after its first session with a token of its own. -/
theorem triple_claimRun {jobId sourceId : Uuid} {document : Loaded Document} :
    (onceContract live).Triple t (AnalysisTasks.claimRun jobId sourceId document) (Unclaimed t)
      (ending (fun start _ => ∀ claim, start = .inr claim → claim.token.1 = t) fun _ _ => True) := by
  refine Triple.bind (triple_prepares jobId sourceId ?_) (fun _ => ?_)
    fun _ _ _ _ => trivial
  · refine (sends_fetch _).bind fun existing => ?_
    split
    · trivial
    · refine (Prog.Sends.stmt .insert).bind fun _ => (sends_fetch _).bind fun row => ?_
      split <;> trivial
  refine (triple_reads (sends_getCompletedCount _ _) stable_unclaimed).bind (fun alreadyDone => ?_)
    fun _ _ _ _ => trivial
  split
  · refine (triple_prepares jobId sourceId sends_commit).bind (fun _ => ?_)
      fun _ _ _ _ => trivial
    rintro s - - claim ⟨⟩
  · refine triple_claim.bind (fun token => ?_) fun _ _ _ _ => trivial
    cases token with
    | none =>
        refine Triple.pre (triple_commit (Stable.const True) (fun _ _ => trivial) ?_) fun s _ h => h.1
        rintro s - - claim ⟨⟩
    | some token =>
        refine Triple.pre (Triple.fact fun howner => triple_commit (Stable.const True)
          (fun _ _ => trivial) ?_) fun s _ h => ⟨h.2 token rfl, h.1⟩
        rintro s - - claim ⟨⟩
        exact howner

/-- `_claim_source` ends idle, with a token of its own if it claims. -/
theorem triple_claimSource {jobId sourceId : Uuid} :
    (onceContract live).Triple t (AnalysisTasks.claimSource jobId sourceId) (Unclaimed t)
      (ending (fun start s => s.Idle t ∧ ∀ claim, start = .inr claim → claim.token.1 = t)
        fun _ _ => True) := by
  refine triple_closing
    (Q := ending (fun start _ => ∀ claim, start = .inr claim → claim.token.1 = t)
      fun _ _ => True) ?_ ?_ ?_
  · refine (triple_reads (sends_getJob _) stable_unclaimed).bind (fun found => ?_)
      fun _ _ _ _ => trivial
    split
    · rintro s - - claim ⟨⟩
    refine Triple.bind (triple_prepares jobId sourceId ?_) (fun active => ?_)
      fun _ _ _ _ => trivial
    · exact sends_now.bind fun n => (Prog.Sends.stmt .begun).bind fun o =>
        (sends_matched o).bind fun _ => trivial
    split
    · refine (triple_prepares jobId sourceId sends_commit).bind (fun _ => ?_)
        fun _ _ _ _ => trivial
      refine (triple_reads (sends_getSource _) stable_unclaimed).bind (fun source => ?_)
        fun _ _ _ _ => trivial
      split
      · rintro s - - claim ⟨⟩
      refine (triple_reads (sends_getDocument _) stable_unclaimed).bind (fun document => ?_)
        fun _ _ _ _ => trivial
      split
      · rintro s - - claim ⟨⟩
      · exact triple_claimRun
    · rintro s - - claim ⟨⟩
  · rintro (e | start)
    · exact Stable.const True
    · exact Stable.idle.and (Stable.const _)
  · rintro (e | start) s - hp
    · trivial
    · exact ⟨Db.idle_rollback s t, hp⟩

/-- A run that its owner ends. -/
theorem ended {jobId sourceId token : Uuid} {run new : AnalysisJobSource} (hidle : s.Idle t)
    (howner : token.1 = t) (hread : s.read t (.jobSource jobId sourceId) = some run)
    (hp : AnalysisJobSourceRepository.ownedBy token run = true) (hst : new.status ≠ .processing)
    (htoken : new.lockToken = none) :
    run.status ≠ .completed ∧ RunVersion t s (s.committed (.jobSource jobId sourceId)) new := by
  simp only [AnalysisJobSourceRepository.ownedBy, Bool.and_eq_true, decide_eq_true_eq] at hp
  rw [hidle.read] at hread
  exact ⟨by simp [hp.1], .ended hread hp.1 hp.2 howner hst htoken⟩

/-- Releasing a run completes none. -/
theorem triple_release {jobId sourceId token : Uuid} (howner : token.1 = t) :
    (onceContract live).Triple t (AnalysisJobSourceRepository.release jobId sourceId token)
      (fun s => s.Idle t) (ending (fun _ => Uncompleted t) fun _ _ => True) := by
  refine Triple.update (A := fun _ => Uncompleted t) (fun _ => stable_uncompleted)
    (fun s _ hidle _ => .of_idle hidle) (fun s _ _ hidle _ _ _ => .of_idle hidle) ?_ fun o => ?_
  · intro s run hinv hidle _ hfree hread hp huniq
    refine ⟨hinv.effect (.update hfree hread hp huniq) .runRelease (by simp) ?_, trivial, ?_⟩
    · intro run' hread' hp'
      exact ended hidle howner hread' hp' (by simp [AnalysisJobSource.released]) rfl
    · intro j o run' hrun'
      by_cases hk : Key.jobSource j o = .jobSource jobId sourceId
      · obtain ⟨rfl, rfl⟩ := Key.jobSource.inj hk
        rw [Db.writes_write_self, Option.some.injEq, Option.some.injEq] at hrun'
        subst hrun'
        simp [AnalysisJobSource.released]
      · rw [Db.writes_write_of_ne s _ hk, hidle] at hrun'
        cases hrun'
  · rcases o with _ | _ | row
    · exact fun s _ h => h
    · exact fun _ _ _ => trivial
    · exact fun s _ h => h

/-- So does the session that releases it. -/
theorem triple_releaseSource {jobId sourceId token : Uuid} (howner : token.1 = t) :
    (onceContract live).Triple t (AnalysisTasks.releaseSource jobId sourceId token)
      (fun s => s.Idle t) fun _ _ => True := by
  refine Triple.tryCatch (triple_closing (Q := fun _ _ => True) (E := fun _ _ => True) ?_
    (fun _ => Stable.const True) fun _ _ _ _ => trivial) (fun _ _ _ _ => trivial)
    fun _ _ _ _ => trivial
  refine (triple_release howner).bind (fun _ => ?_) fun _ _ _ _ => trivial
  exact triple_commit (Stable.const True) (fun _ _ => trivial) fun _ _ _ => trivial

/-- What transaction `t` has written once it has completed the run with `count` suggestions and
added those with the given ids. -/
structure Stored (t : Process) (jobId sourceId : Uuid) (count : ℕ) (ids : List Uuid)
    (writes : (k : Key) → Option (Option (Row k))) : Prop where
  run : ∃ run : AnalysisJobSource, writes (.jobSource jobId sourceId) = some (some run) ∧
    run.status = .completed ∧ run.suggestionsCount = count
  only : ∀ j o, writes (.jobSource j o) ≠ none → Key.jobSource j o = .jobSource jobId sourceId
  nodup : ids.Nodup
  suggestion : ∀ id, writes (.suggestion id) ≠ none ↔ id ∈ ids
  row : ∀ id ∈ ids, ∃ row : Suggestion, writes (.suggestion id) = some (some row) ∧
    row.analysisJobId = jobId ∧ sourceId ∈ row.sources

/-- Stored suggestions cover the commit when they are as many as counted. -/
theorem Stored.commitCovered {jobId sourceId : Uuid} {count : ℕ} {ids : List Uuid}
    (h : Stored t jobId sourceId count ids (s.writes t)) (hcount : ids.length = count) :
    CommitCovered t s := by
  intro j o run hrun hcompleted
  obtain ⟨rfl, rfl⟩ := Key.jobSource.inj (h.only j o (hrun ▸ Option.some_ne_none _))
  obtain ⟨run', hrun', -, hrunCount⟩ := h.run
  rw [hrun] at hrun'
  cases hrun'
  refine ⟨ids, ⟨h.nodup, fun id => ⟨?_, h.row id⟩⟩, hcount.trans hrunCount.symm⟩
  rintro ⟨row, hrow, -⟩
  exact (h.suggestion id).mp (hrow ▸ Option.some_ne_none _)

/-- The run is completed, and nothing is stored yet. -/
theorem Stored.completed {jobId sourceId : Uuid} {now count : ℕ} {run : AnalysisJobSource}
    (hidle : s.Idle t) : Stored t jobId sourceId count []
      ((s.write t (.jobSource jobId sourceId)
        (some (AnalysisJobSource.completed now count run))).writes t) := by
  refine ⟨⟨_, Db.writes_write_self _ _ _ _, rfl, rfl⟩, fun j o hw => ?_, List.nodup_nil, fun id => ?_, ?_⟩
  · by_contra hk
    rw [Db.writes_write_of_ne s _ hk] at hw
    exact hw (hidle _)
  · rw [Db.writes_write_of_ne s _ (by simp), hidle]
    simp
  · simp

/-- One more suggestion is stored. -/
theorem Stored.cons {jobId sourceId id : Uuid} {count : ℕ} {ids : List Uuid} {row : Suggestion}
    (h : Stored t jobId sourceId count ids (s.writes t)) (hread : s.read t (.suggestion id) = none)
    (hjob : row.analysisJobId = jobId) (hsources : row.sources = [sourceId]) :
    Stored t jobId sourceId count (id :: ids) ((s.write t (.suggestion id) (some row)).writes t) := by
  have hnew : id ∉ ids := by
    intro hid
    obtain ⟨row', hrow', -⟩ := h.row id hid
    rw [Db.read_of_writes hrow'] at hread
    cases hread
  have hsame : ∀ id', id' ≠ id → (s.write t (.suggestion id) (some row)).writes t (.suggestion id') =
      s.writes t (.suggestion id') :=
    fun id' hne => Db.writes_write_of_ne s _ (by simpa using hne)
  have hruns : ∀ j o, (s.write t (.suggestion id) (some row)).writes t (.jobSource j o) =
      s.writes t (.jobSource j o) :=
    fun j o => Db.writes_write_of_ne s _ (by simp)
  refine ⟨?_, fun j o hw => ?_, List.nodup_cons.mpr ⟨hnew, h.nodup⟩, fun id' => ?_, fun id' hid' => ?_⟩
  · rw [hruns]
    exact h.run
  · rw [hruns] at hw
    exact h.only j o hw
  · by_cases hid' : id' = id
    · subst hid'
      simp
    · rw [hsame id' hid', h.suggestion id', List.mem_cons, or_iff_right hid']
  · by_cases hne : id' = id
    · subst hne
      exact ⟨row, Db.writes_write_self _ _ _ _, hjob, by simp [hsources]⟩
    · rw [hsame id' hne]
      exact h.row id' ((List.mem_cons.mp hid').resolve_left hne)

/-- No step of another process changes what is stored. -/
theorem stable_stored {jobId sourceId : Uuid} {count : ℕ} {ids : List Uuid} :
    (onceContract live).Stable t fun s => Stored t jobId sourceId count ids (s.writes t) :=
  Stable.writes _

/-- Completing the run under its token; none of its suggestions is stored yet. -/
theorem triple_markCompleted {jobId sourceId token : Uuid} {count : ℕ} (howner : token.1 = t) :
    (onceContract live).Triple t
      (AnalysisJobSourceRepository.markCompleted jobId sourceId token count) (fun s => s.Idle t)
      (ending (fun won s => won = true → Stored t jobId sourceId count [] (s.writes t))
        fun _ _ => True) := by
  refine Triple.now Stable.idle fun now => Triple.update
    (A := fun o s => ∀ row, o = .updated row → Stored t jobId sourceId count [] (s.writes t)) ?_ ?_ ?_
    ?_ ?_
  · exact fun o => Stable.all fun row => Stable.all fun _ => stable_stored
  · rintro s - - - row ⟨⟩
  · rintro s r - - - - - row ⟨⟩
  · intro s run hinv hidle _ hfree hread hp huniq
    refine ⟨hinv.effect (.update hfree hread hp huniq) .runComplete (by simp) ?_, trivial,
      fun _ _ => .completed hidle⟩
    intro run' hread' hp'
    exact ended hidle howner hread' hp' (by simp [AnalysisJobSource.completed]) rfl
  · rintro (_ | _ | row)
    · rintro s - - ⟨⟩
    · exact fun _ _ _ => trivial
    · exact fun s _ h _ => h row rfl

/-- **The loop that stores**: every suggestion goes to the run that the transaction has completed,
under an id of its own. -/
theorem triple_bulkCreate {jobId sourceId : Uuid} {count : ℕ} :
    ∀ {suggestions : List Suggestion} {n : ℕ},
      (∀ suggestion ∈ suggestions, suggestion.analysisJobId = jobId ∧
        suggestion.sources = [sourceId]) →
      (onceContract live).Triple t (SuggestionRepository.bulkCreate suggestions)
        (fun s => ∃ ids, ids.length = n ∧ Stored t jobId sourceId count ids (s.writes t))
        (ending (fun _ s => ∃ ids, ids.length = n + suggestions.length ∧
          Stored t jobId sourceId count ids (s.writes t)) fun _ _ => True)
  | [], n, _ => fun _ _ h => h
  | suggestion :: rest, n, h => by
      have hst : ∀ m, (onceContract live).Stable t fun s =>
          ∃ ids : List Uuid, ids.length = m ∧ Stored t jobId sourceId count ids (s.writes t) :=
        fun m => Stable.exists_ fun ids => (Stable.const _).and stable_stored
      obtain ⟨hjob, hsources⟩ := h suggestion List.mem_cons_self
      refine Triple.bind (J := ending (fun _ s => ∃ ids : List Uuid, ids.length = n + 1 ∧
        Stored t jobId sourceId count ids (s.writes t)) fun _ _ => True) ?_ (fun _ => ?_)
        fun _ _ _ h => h
      · refine Triple.draw (A := fun id s => id.1 = t ∧ ∃ ids : List Uuid, ids.length = n ∧
          Stored t jobId sourceId count ids (s.writes t))
          (fun _ => (Stable.const _).and (hst n)) (fun s hinv hp => ⟨hinv.draw, trivial, rfl, hp⟩)
          fun id => Triple.fact fun hid => ?_
        refine Triple.insert (A := fun inserted s => inserted = true → ∃ ids : List Uuid,
          ids.length = n + 1 ∧ Stored t jobId sourceId count ids (s.writes t))
          (fun _ => Stable.all fun _ => hst (n + 1)) ?_ ?_ fun inserted => ?_
        · rintro s - - - ⟨⟩
        · rintro s hinv ⟨ids, hlength, hstored⟩ - hfree hread huniq
          refine ⟨hinv.effect (.insert hfree hread huniq) .insertSuggestion (by simp) ?_, trivial,
            fun _ => ⟨id :: ids, by simp [hlength], hstored.cons hread hjob hsources⟩⟩
          obtain ⟨run, hrun, hcompleted, -⟩ := hstored.run
          exact ⟨hid, sourceId, hsources, run, hjob ▸ hrun, hcompleted⟩
        · cases inserted
          · exact fun _ _ _ => trivial
          · exact fun s _ h => h rfl
      · refine (triple_bulkCreate fun x hx => h x (List.mem_cons_of_mem _ hx)).mono (fun _ _ h => h) ?_
        rintro (e | a) s - hp
        · trivial
        · obtain ⟨ids, hlength, hstored⟩ := hp
          exact ⟨ids, by rw [hlength, List.length_cons]; omega, hstored⟩

/-- The suggestions of a completed run are committed with it. -/
theorem triple_storeSuggestions {jobId sourceId : Uuid} {suggestions : List Suggestion}
    (hjob : ∀ suggestion ∈ suggestions, suggestion.analysisJobId = jobId) :
    (onceContract live).Triple t (AnalysisTasks.storeSuggestions sourceId suggestions)
      (fun s => Stored t jobId sourceId suggestions.length [] (s.writes t)) fun _ _ => True := by
  refine Triple.bind (J := ending (fun found s =>
    Stored t jobId sourceId suggestions.length [] (s.writes t) ∧
      ∀ source, found = some source → source.id = sourceId) fun _ _ => True) ?_ (fun found => ?_)
    fun _ _ _ _ => trivial
  · refine ((triple_reads (sends_getSource _) stable_stored).and_returns
      (A := fun found => ∀ source, found = some source → source.id = sourceId) ?_).mono
      (fun _ _ h => h) fun r _ _ h => ?_
    · intro row source hsource
      obtain ⟨_, -, rfl⟩ := Option.map_eq_some_iff.mp hsource
      rfl
    · cases r
      · trivial
      · exact h
  rcases found with _ | source
  · exact Triple.rollback (Stable.const True) (fun _ _ _ => trivial) fun _ _ _ => trivial
  have hrest : source.id = sourceId → (onceContract live).Triple t
      (SuggestionRepository.bulkCreate (suggestions.map fun suggestion =>
        { suggestion with sources := [source.id] }) >>= fun _ => Session.commit >>= fun _ =>
          pure (SourceOutcome.ok suggestions.length))
      (fun s => Stored t jobId sourceId suggestions.length [] (s.writes t)) fun _ _ => True := by
    rintro rfl
    refine Triple.bind ((@triple_bulkCreate _ _ jobId source.id _ _ 0 ?_).pre
      fun s _ h => ⟨[], rfl, h⟩) (fun _ => ?_) fun _ _ _ _ => trivial
    · intro linked hlinked
      obtain ⟨suggestion, hmem, rfl⟩ := List.mem_map.mp hlinked
      exact ⟨hjob suggestion hmem, rfl⟩
    · refine Triple.commit (Stable.const True) (fun s hinv hp _ => ?_) fun _ _ _ => trivial
      obtain ⟨ids, hlength, hstored⟩ := hp
      exact ⟨hinv.commit (hstored.commitCovered (by simpa using hlength)), trivial, trivial⟩
  exact (Triple.fact hrest).pre fun s _ h => ⟨h.2 source rfl, h.1⟩

/-- **The result is stored as a whole**: the completion, and as many suggestions as it counts. -/
theorem triple_storeResult {jobId sourceId token : Uuid} {suggestions : List Suggestion}
    (howner : token.1 = t) (hjob : ∀ suggestion ∈ suggestions, suggestion.analysisJobId = jobId) :
    (onceContract live).Triple t (AnalysisTasks.storeResult jobId sourceId token suggestions)
      (fun s => s.Idle t) fun _ _ => True := by
  refine triple_closing (Q := fun _ _ => True) ?_ (fun _ => Stable.const True) fun _ _ _ _ => trivial
  refine (triple_reads (sends_getJob _) Stable.idle).seq fun found => ?_
  split
  · refine (triple_markCompleted howner).seq fun won => ?_
    cases won
    · exact triple_lostRun
    · exact (triple_storeSuggestions hjob).pre fun s _ h => h rfl
  · refine (triple_release howner).seq fun _ => ?_
    exact triple_commit (Stable.const True) (fun _ _ => trivial) fun _ _ _ => trivial

/-- **A source task** keeps the contract from its first statement to its last. -/
theorem triple_processSource {jobId sourceId : Uuid} {generation : GenerationRun} :
    (onceContract live).Triple t (AnalysisTasks.processSource jobId sourceId generation)
      (Unclaimed t) fun _ _ => True := by
  refine triple_claimSource.seq fun start => ?_
  rcases start with outcome | claim
  · exact fun _ _ _ => trivial
  refine Triple.pre (Triple.fact fun howner : claim.token.1 = t => ?_) fun s _ h =>
    ⟨h.2 claim rfl, h.1⟩
  rcases generation with ⟨error, message⟩ | ⟨plainText, batch⟩
  · refine (triple_releaseSource howner).seq fun _ => ?_
    split <;> exact fun _ _ _ => trivial
  · exact triple_storeResult howner fun _ hmem => SuggestionMapper.analysisJobId_of_mem hmem

end Once

/-- A start of source tasks and of operations that end jobs: no open transaction, and the runs and
suggestions of earlier tasks, which are not running any more. -/
structure AttemptsStart (c : AppConfig) : Prop where
  initial : c.Initial fun kind => kind ∈ [OperationKind.processSource, .cancel, .finalize]
  log : c.db.log = []
  tokens : ∀ jobId sourceId (run : AnalysisJobSource) (token : Uuid),
    c.db.committed (.jobSource jobId sourceId) = some run → run.lockToken = some token →
      c.procs token.1 = none
  locks : ∀ jobId sourceId (run : AnalysisJobSource),
    c.db.committed (.jobSource jobId sourceId) = some run → run.LockMatches
  consistent : ∀ jobId sourceId, Consistent jobId sourceId c.db

/-- A cancellation and the final task complete no run. -/
theorem Sent.uncompleted {kind : OperationKind} {f : AppStmt} (h : Sent kind f)
    (hkind : kind ∈ [OperationKind.cancel, .finalize]) (he : Effect t s f s')
    (hp : Uncompleted t s) : Uncompleted t s' := by
  have hother : ∀ {k} (version : Option (Row k)), (∀ j o, k ≠ .jobSource j o) →
      Uncompleted t (s.write t k version) := by
    intro k version hk jobId sourceId run hrun
    rw [Db.writes_write_of_ne s _ (hk _ _).symm] at hrun
    exact hp jobId sourceId run hrun
  cases he with
  | same | draw | send => exact hp
  | delete => cases h
  | commit => exact .of_idle (Db.idle_commit s t)
  | rollback => exact .of_idle (Db.idle_rollback s t)
  | update =>
      rename_i k p g r _ _ _ _
      cases k
      case jobSource => cases h <;> simp at hkind
      all_goals exact hother _ (by simp)
  | insert =>
      rename_i k row _ _ _
      cases k
      case jobSource =>
        cases h
        simp at hkind
      all_goals exact hother _ (by simp)

/-- A cancellation and a finalization touch neither runs nor suggestions. -/
theorem Sent.onceCovered {kind : OperationKind} {f : AppStmt} (h : Sent kind f)
    (hkind : kind ∈ [OperationKind.cancel, .finalize]) (hp : Uncompleted t s) :
    OnceCovered t f s := by
  cases h
  case commit => exact hp.commitCovered
  case runClaim | runRelease | runComplete | insertSuggestion => simp at hkind
  all_goals trivial

/-- The processes of a start are verified against the contract. -/
theorem AttemptsStart.verified {c : AppConfig} (h : AttemptsStart c) :
    (onceContract fun t => c.procs t ≠ none).Verified (fun _ _ _ => True) c := by
  have hidle : ∀ u, c.db.Idle u := Db.idle_of_quiet h.initial.quiet
  refine ⟨⟨Db.Pending.of_quiet h.initial.quiet, fun jobId sourceId run token hrun htoken hlive => ?_,
    h.locks, h.consistent, fun u => .of_writes_none (hidle u)⟩, fun u p hp => ?_⟩
  · exact absurd (h.tokens jobId sourceId run token hrun htoken) hlive
  obtain ⟨op, hkind, rfl⟩ := h.initial.procs u p hp
  by_cases hsource : op.kind = .processSource
  · refine ⟨Unclaimed u, stable_unclaimed, ⟨?_, fun jobId sourceId run hrun => ?_⟩, ?_⟩
    · rintro ⟨w, jobId, sourceId, run, hlog, -⟩
      rw [h.log] at hlog
      cases hlog
    · rw [hidle] at hrun
      cases hrun
    cases op <;> cases hsource
    rename_i delivery jobId sourceId generation
    refine Triple.bind (J := fun _ => Unclaimed u) ?_ (fun _ => ?_) fun _ _ _ _ => trivial
    · cases delivery
      · exact fun _ _ h => h
      · exact Triple.await stable_unclaimed fun _ _ h => h.1
    · exact Once.triple_processSource.bind (fun _ _ _ _ => trivial) fun _ _ _ _ => trivial
  · have hothers : op.kind ∈ [OperationKind.cancel, .finalize] := by
      simpa [hsource] using hkind
    refine ⟨Uncompleted u, stable_uncompleted, .of_idle (hidle u), ?_⟩
    refine (Triple.of_sends stable_uncompleted ?_ op.sends).mono (fun _ _ h => h)
      fun _ _ _ _ => trivial
    intro f hf s hinv hp _ b s' he
    have heffect := exec_effect he
    exact ⟨hinv.effect heffect hf hkind (hf.onceCovered hothers hp), trivial,
      hf.uncompleted hothers heffect hp⟩

/-! ## A claim that was taken over -/

/-- Process `t` has claimed a run, and the run of the source is not its own any more. -/
def Lost (t : Process) (jobId sourceId : Uuid) (s : AppDb) : Prop :=
  Claimed t s ∧ ∃ run : AnalysisJobSource, s.committed (.jobSource jobId sourceId) = some run ∧
    ∀ token, run.lockToken = some token → token.1 ≠ t

/-- A process that has claimed a run draws no other token for the run of the source. -/
def NoNewClaim (t : Process) (jobId sourceId : Uuid) (s s' : AppDb) : Prop :=
  Claimed t s → Claimed t s' ∧ ∀ (run : AnalysisJobSource) (token : Uuid),
    s'.committed (.jobSource jobId sourceId) = some run → run.lockToken = some token →
      token.1 = t → ∃ run₀ : AnalysisJobSource,
        s.committed (.jobSource jobId sourceId) = some run₀ ∧ run₀.lockToken = some token

/-- A process that has lost a run stores nothing more for its source. -/
def StoresNothing (t : Process) (jobId sourceId : Uuid) (s s' : AppDb) : Prop :=
  Lost t jobId sourceId s → Lost t jobId sourceId s' ∧
    ∀ id, id.1 = t → SuggestionOf jobId sourceId id s' → SuggestionOf jobId sourceId id s

namespace Once

/-- No step of another process claims for `t`. -/
theorem noNewClaim {u : Process} {jobId sourceId : Uuid} (h : Once live s) (hf : Frame u s s') :
    NoNewClaim t jobId sourceId s s' := by
  intro hclaimed
  refine ⟨hclaimed.step hf, fun run token hrun htoken howner => ?_⟩
  rcases hf.committed with ⟨hc, -⟩ | ⟨hc, -⟩ <;> rw [hc] at hrun
  · exact ⟨run, hrun, htoken⟩
  rcases hw : s.writes u (.jobSource jobId sourceId) with _ | version
  · rw [Db.read_of_not_writes hw] at hrun
    exact ⟨run, hrun, htoken⟩
  obtain ⟨new, rfl, hnew⟩ := (h.own u).run jobId sourceId version hw
  rw [Db.read_of_writes hw] at hrun
  cases hrun
  cases hnew with
  | fresh hold hstatus hnone | ended hold hst howned hfirst hstatus hnone =>
      rw [hnone] at htoken
      cases htoken
  | claimed hold hstatus hlocked hown hdrawn hfirst =>
      -- a claim of another process, as `t` has made its own
      cases htoken.symm.trans hown
      subst hdrawn howner
      exact absurd hclaimed hfirst

/-- A process that has lost a run does not work on it. -/
theorem writes_of_lost {jobId sourceId : Uuid} (h : Once live s) (hl : Lost t jobId sourceId s) :
    s.writes t (.jobSource jobId sourceId) = none := by
  obtain ⟨hclaimed, run, hrun, hother⟩ := hl
  rcases hw : s.writes t (.jobSource jobId sourceId) with _ | version
  · rfl
  obtain ⟨new, rfl, hnew⟩ := (h.own t).run jobId sourceId version hw
  cases hnew with
  | fresh hold =>
      rw [hrun] at hold
      cases hold
  | claimed hold hstatus hlocked htoken howner hfirst => exact absurd hclaimed hfirst
  | ended hold hst howned howner =>
      rw [hrun] at hold
      cases hold
      exact absurd howner (hother _ howned)

/-- No step of another process stores for `t`. -/
theorem storesNothing {u : Process} {jobId sourceId : Uuid} (h : Once live s) (hf : Frame u s s') :
    StoresNothing t jobId sourceId s s' := by
  intro hl
  obtain ⟨hclaimed, run, hrun, hother⟩ := hl
  refine ⟨?_, fun id hid hstored => ?_⟩
  · obtain ⟨hclaimed', htokens⟩ := h.noNewClaim (t := t) hf hclaimed
    obtain ⟨run', hrun', -⟩ := hf.committed_along KeepsCompleted.refl h.kept
      (.jobSource jobId sourceId) run hrun
    refine ⟨hclaimed', run', hrun', fun token htoken howner => ?_⟩
    obtain ⟨run₀, hrun₀, htoken₀⟩ := htokens run' token hrun' htoken howner
    rw [hrun] at hrun₀
    cases hrun₀
    exact hother token htoken₀ howner
  · obtain ⟨row, hrow, hjob, hsource⟩ := hstored
    rcases hf.committed with ⟨hc, -⟩ | ⟨hc, -⟩ <;> rw [hc] at hrow
    · exact ⟨row, hrow, hjob, hsource⟩
    rcases hw : s.writes u (.suggestion id) with _ | version
    · rw [Db.read_of_not_writes hw] at hrow
      exact ⟨row, hrow, hjob, hsource⟩
    -- a suggestion goes with a version of its run, which `t` does not have
    rw [Db.read_of_writes hw] at hrow
    subst hrow
    obtain ⟨howner, new, hnew, -⟩ := h.run_of_suggestion hw hjob hsource
    rw [hid] at howner
    subst howner
    rw [h.writes_of_lost ⟨hclaimed, run, hrun, hother⟩] at hnew
    cases hnew

end Once

/-! ## Whole runs -/

/-- From `c` on, process `t` neither stores a suggestion for the source nor changes its run. -/
def NeverTouches (t : Process) (jobId sourceId : Uuid) (c : AppConfig) : Prop :=
  ∀ c', c.Steps Config.anyStmt c' → (∀ id, SuggestionOf jobId sourceId id c'.db → id.1 ≠ t) ∧
    ∀ c'', c'.move (.act t) = some c'' →
      c''.db.committed (.jobSource jobId sourceId) = c'.db.committed (.jobSource jobId sourceId)

/-- What holds of a source from a configuration `c` to a later one `c'`, when the processes of the
run started in `c₀`. -/
structure ProcessedOnce (c₀ : AppConfig) (jobId sourceId : Uuid) (c c' : AppConfig) : Prop where
  /-- The suggestions that are ever committed come from one process. -/
  one_attempt : ∀ id id', SuggestionOf jobId sourceId id c.db → SuggestionOf jobId sourceId id' c'.db →
    id.1 = id'.1
  /-- A completed run stays as it is. -/
  absorbing : ∀ run : AnalysisJobSource, c.db.committed (.jobSource jobId sourceId) = some run →
    run.status = .completed → c'.db.committed (.jobSource jobId sourceId) = some run
  /-- A completed run counts the suggestions, and before there are none. -/
  consistent : Consistent jobId sourceId c.db
  /-- A process whose token was replaced by another has nothing more to do with the source. -/
  taken_over : ∀ (run run' : AnalysisJobSource) (token token' : Uuid),
    c.db.committed (.jobSource jobId sourceId) = some run → run.lockToken = some token →
    c₀.procs token.1 ≠ none → c'.db.committed (.jobSource jobId sourceId) = some run' →
    run'.lockToken = some token' → token' ≠ token → NeverTouches token.1 jobId sourceId c'
  /-- A run that is not completed can be claimed again, at the latest when its lease has run out. -/
  reclaimable : ∀ run : AnalysisJobSource, c.db.committed (.jobSource jobId sourceId) = some run →
    run.status ≠ .completed → ∃ deadline : ℤ, ∀ expired, deadline < expired →
      AnalysisJobSourceRepository.claimable expired run = true

section runs

variable {c₀ c c' : AppConfig} {jobId sourceId : Uuid}

/-- The invariant holds in every configuration of a run. -/
theorem AttemptsStart.inv (hstart : AttemptsStart c₀) (hrun : c₀.Steps Config.anyStmt c) :
    Once (fun t => c₀.procs t ≠ none) c.db :=
  (hstart.verified.steps hrun).inv

/-- Completed runs and suggestions stay along a run. -/
theorem AttemptsStart.along (hstart : AttemptsStart c₀) (hrun : c₀.Steps Config.anyStmt c)
    (hs : c.Steps Config.anyStmt c') (k : Key) :
    Along KeepsCompleted k (c.db.committed k) (c'.db.committed k) :=
  (hstart.verified.steps hrun).along (fun _ h => h.kept) KeepsCompleted.refl KeepsCompleted.trans hs k

/-- A run makes no new claim for a process that has claimed. -/
theorem AttemptsStart.noNewClaim (hstart : AttemptsStart c₀) (hrun : c₀.Steps Config.anyStmt c)
    (hs : c.Steps Config.anyStmt c') : NoNewClaim t jobId sourceId c.db c'.db := by
  refine (hstart.verified.steps hrun).steps_rel hs ?_ ?_ ?_ ?_
  · exact fun s h => ⟨h, fun run token hrun htoken _ => ⟨run, hrun, htoken⟩⟩
  · intro s₁ s₂ s₃ h₁ h₂ hclaimed
    obtain ⟨hclaimed₂, htokens₂⟩ := h₁ hclaimed
    obtain ⟨hclaimed₃, htokens₃⟩ := h₂ hclaimed₂
    refine ⟨hclaimed₃, fun run token hrun htoken howner => ?_⟩
    obtain ⟨run₂, hrun₂, htoken₂⟩ := htokens₃ run token hrun htoken howner
    exact htokens₂ run₂ token hrun₂ htoken₂ howner
  · exact fun u s s' hi _ hf _ => hi.noNewClaim hf
  · exact fun n s _ h => ⟨h, fun run token hrun htoken _ => ⟨run, hrun, htoken⟩⟩

/-- A run stores nothing for a process that has lost its run. -/
theorem AttemptsStart.storesNothing (hstart : AttemptsStart c₀) (hrun : c₀.Steps Config.anyStmt c)
    (hs : c.Steps Config.anyStmt c') : StoresNothing t jobId sourceId c.db c'.db := by
  refine (hstart.verified.steps hrun).steps_rel hs ?_ ?_ ?_ ?_
  · exact fun s h => ⟨h, fun _ _ h => h⟩
  · intro s₁ s₂ s₃ h₁ h₂ hl
    obtain ⟨hl₂, hids₂⟩ := h₁ hl
    obtain ⟨hl₃, hids₃⟩ := h₂ hl₂
    exact ⟨hl₃, fun id hid h => hids₂ id hid (hids₃ id hid h)⟩
  · exact fun u s s' hi _ hf _ => hi.storesNothing hf
  · exact fun n s _ h => ⟨h, fun _ _ h => h⟩

/-- A process that has lost a run while it is processed never touches it again. -/
theorem AttemptsStart.neverTouches (hstart : AttemptsStart c₀) (hrun : c₀.Steps Config.anyStmt c)
    (hl : Lost t jobId sourceId c.db) (hnone : ∀ id, ¬ SuggestionOf jobId sourceId id c.db) :
    NeverTouches t jobId sourceId c := by
  intro c' hs
  obtain ⟨hl', hids⟩ := hstart.storesNothing hrun hs hl
  refine ⟨fun id hid howner => hnone id (hids id howner hid), fun c'' hmove => ?_⟩
  exact (Config.frame_of_act hmove).committed_of_not_writes
    ((hstart.inv (hrun.trans hs)).writes_of_lost hl')

/-- **A source is processed once.** In every run of source tasks, whatever is redelivered, crashes
or comes late. -/
theorem source_processed_once (hstart : AttemptsStart c₀) (hrun : c₀.Steps Config.anyStmt c)
    (hs : c.Steps Config.anyStmt c') : ProcessedOnce c₀ jobId sourceId c c' := by
  have hinv := hstart.inv hrun
  have hinv' := hstart.inv (hrun.trans hs)
  refine ⟨fun id id' hid hid' => ?_, fun run hc hst => ?_, hinv.consistent jobId sourceId, ?_, ?_⟩
  · obtain ⟨row, hrow, hpair⟩ := hid
    obtain ⟨row', hrow', hsame⟩ := hstart.along hrun hs (.suggestion id) row hrow
    obtain rfl : row' = row := hsame
    obtain ⟨run, hc, hst⟩ := (hinv'.consistent jobId sourceId).completed id' hid'
    obtain ⟨u, ids, ⟨-, hids⟩, -, howner⟩ := (hinv'.consistent jobId sourceId).counted run hc hst
    rw [howner id ((hids id).mp ⟨row', hrow', hpair⟩), howner id' ((hids id').mp hid')]
  · obtain ⟨run', hc', hkept⟩ := hstart.along hrun hs (.jobSource jobId sourceId) run hc
    rw [hc', show run' = run from hkept hst]
  · intro run run' token token' hc htoken hlive hc' htoken' hne
    refine hstart.neverTouches (hrun.trans hs) ⟨?_, run', hc', ?_⟩ fun id hid => ?_
    · exact ((hstart.noNewClaim hrun hs : NoNewClaim _ jobId sourceId _ _)
        (hinv.tokens jobId sourceId run token hc htoken hlive)).1
    · -- the token that `t` drew is the only one that it can own the run with
      intro token₁ htoken₁ howner
      obtain ⟨run₀, hrun₀, htoken₀⟩ := (hstart.noNewClaim hrun hs
        (hinv.tokens jobId sourceId run token hc htoken hlive)).2 run' token₁ hc' htoken₁ howner
      rw [hc] at hrun₀
      cases hrun₀
      rw [htoken] at htoken₀
      cases htoken₀
      rw [htoken₁] at htoken'
      cases htoken'
      exact hne rfl
    · obtain ⟨run₁, hrun₁, hcompleted⟩ := (hinv'.consistent jobId sourceId).completed id hid
      rw [hc'] at hrun₁
      cases hrun₁
      have hprocessing := (hinv'.locks jobId sourceId run' hc').2 (htoken' ▸ Option.some_ne_none _)
      rw [hprocessing] at hcompleted
      cases hcompleted
  · intro run hc hopen
    obtain ⟨hlocked, -⟩ := hinv.locks jobId sourceId run hc
    rcases hst : run.status with _ | _ | _
    · exact ⟨0, fun expired _ => by simp [AnalysisJobSourceRepository.claimable, hst]⟩
    · obtain ⟨at_, hat⟩ := Option.ne_none_iff_exists'.mp (hlocked hst)
      exact ⟨at_, fun expired h => by
        simpa [AnalysisJobSourceRepository.claimable, hst, hat] using h⟩
    · exact absurd hst hopen

end runs

/-! ## A worker that stalls -/

/-- A dispatched job with one source, whose task was delivered twice: processes 0 and 1. -/
def redeliveredSource : AppConfig :=
  AppConfig.start
    [⟨.document (9, 0), { projectId := (9, 2), name := "a.txt", format := .txt, storageKey := "a"
                          sizeBytes := 1, status := .inProgress
                          currentAnalysisJobId := some (9, 1) }⟩,
      ⟨.job (9, 1), { documentId := (9, 0), status := .dispatched }⟩,
      ⟨.source (9, 3), { projectId := (9, 2), name := "s", type := .url, url := some "u" }⟩]
    [.analysis (9, 1) [(9, 3)]]
    (List.replicate 2 (.processSource (some [(9, 3)]) (9, 1) (9, 3)
      (.answered ['a'] [⟨['t'], "delete", some ['a'], none, none, none, none⟩])))

/-- The delivered task is such a start. -/
theorem redeliveredSource_start : AttemptsStart redeliveredSource := by
  have hrun : ∀ jobId sourceId, redeliveredSource.db.committed (.jobSource jobId sourceId) = none :=
    fun _ _ => rfl
  have hsuggestion : ∀ id, redeliveredSource.db.committed (.suggestion id) = none := fun _ => rfl
  refine ⟨AppConfig.initial_start (by simp [Operation.kind]), rfl, ?_, ?_, fun jobId sourceId => ⟨?_, ?_⟩⟩
  · intro jobId sourceId run token h
    rw [hrun] at h
    cases h
  · intro jobId sourceId run h
    rw [hrun] at h
    cases h
  · rintro id ⟨row, h, -⟩
    rw [hsuggestion] at h
    cases h
  · intro run h
    rw [hrun] at h
    cases h

/-- The token of the run in `redeliveredSource`. -/
def redeliveredToken (c : AppConfig) : Option Uuid :=
  (c.db.committed (.jobSource (9, 1) (9, 3))).bind fun run : AnalysisJobSource => run.lockToken

/-- Process 0 claims the source and stalls until its lease has run out; process 1 takes over. -/
theorem source_taken_over_processed_once :
    ∃ c c', redeliveredSource.Steps Config.anyStmt c ∧ c.Steps Config.anyStmt c' ∧
      redeliveredToken c = some (0, 0) ∧ redeliveredToken c' = some (1, 0) ∧
      ProcessedOnce redeliveredSource (9, 1) (9, 3) c c' := by
  obtain ⟨c, hrun, hc⟩ := Config.exists_steps_of_run Config.anyStmt
    (List.replicate 15 (.act 0)) redeliveredSource
    (fun c => redeliveredToken c = some (0, 0) &&
      (Config.run Config.anyStmt (.tick 601 :: List.replicate 13 (.act 1)) c).any fun c' =>
        redeliveredToken c' = some (1, 0))
    (by decide +kernel)
  rw [Bool.and_eq_true, decide_eq_true_eq] at hc
  obtain ⟨c', hs, hc'⟩ := Config.exists_steps_of_run _ _ c _ hc.2
  exact ⟨c, c', hrun, hs, hc.1, of_decide_eq_true hc',
    source_processed_once redeliveredSource_start hrun hs⟩

end SyncBack
