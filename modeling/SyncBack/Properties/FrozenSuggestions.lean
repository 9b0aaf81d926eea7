import SyncBack.Application.SessionRules
import SyncBack.Txn.Pending

/-!
# The suggestions of a finished job

A source task checks that its job is active, marks its run as completed and inserts the
suggestions, and commits; a cancellation or the final task can commit in between.
`finished_job_suggestions_frozen` says when the suggestions of a finished job are frozen all the
same: when the check still holds as the run is marked, and no commit ends the job while the marked
run is waiting for its own commit. `suggestions_added_after_cancellation` is a run in which the
cancellation comes between the check and the mark.
-/

namespace SyncBack

open Txn Session Contract

/-! ## The condition -/

/-- A completed run that stores suggestions. -/
def AnalysisJobSource.storing (run : AnalysisJobSource) : Bool :=
  run.status = .completed && decide (0 < run.suggestionsCount)

/-- The open transaction `t` has written a terminal status of the job. -/
def endsJob (s : AppDb) (t : Process) (jobId : Uuid) : Bool :=
  (s.writes t (.job jobId)).any fun version =>
    version.any fun job : AnalysisJob => AnalysisJobLifecycle.isTerminal job.status

/-- The writer of an uncommitted version of a run that stores suggestions, with its job. -/
def storingRun (s : AppDb) : Key → Option (Process × Uuid)
  | .jobSource jobId sourceId =>
      match s.dirty (.jobSource jobId sourceId) with
      | some (t, some run) => if AnalysisJobSource.storing run then some (t, jobId) else none
      | _ => none
  | _ => none

/-- **The check of the job has not grown stale**: a run is marked as completed while its job is
active, and a commit ends a job only when no other transaction is storing suggestions of it. -/
def activityCheckFresh : Process → AppStmt → AppDb → Prop
  | t, .update (.jobSource jobId sourceId) p g, s =>
      ∀ row : AnalysisJobSource, row ∈ s.read t (.jobSource jobId sourceId) → p row = true →
        (g row).storing = true →
        (jobStatus s jobId).any AnalysisJobLifecycle.isActive = true
  | t, .commit, s =>
      ∀ k ∈ s.keys, ∀ run ∈ storingRun s k, run.1 ≠ t → endsJob s t run.2 = false
  | _, _, _ => True

instance : ∀ (t : Process) (f : AppStmt) (s : AppDb), Decidable (activityCheckFresh t f s)
  | t, .update (.jobSource jobId sourceId) p g, s =>
      inferInstanceAs (Decidable (∀ row ∈ s.read t (.jobSource jobId sourceId), p row = true →
        (g row).storing = true →
        (jobStatus s jobId).any AnalysisJobLifecycle.isActive = true))
  | t, .commit, s => inferInstanceAs (Decidable (∀ k ∈ s.keys, ∀ run ∈ storingRun s k,
      run.1 ≠ t → endsJob s t run.2 = false))
  | _, .update (.document _) _ _, _ | _, .update (.suggestion _) _ _, _
  | _, .update (.job _) _ _, _ | _, .update (.source _) _ _, _
  | _, .update (.documentSource _ _) _ _, _ => isTrue trivial
  | _, .get _, _ | _, .find _, _ | _, .insert _ _, _ | _, .delete _ _, _ | _, .draw, _ | _, .now, _ | _, .send _, _
  | _, .await _, _ | _, .rollback, _ => isTrue trivial

/-! ## The invariant -/

/-- A finished job stays finished. -/
def StaysFinished : (k : Key) → Row k → Row k → Prop
  | .job _, old, new => AnalysisJobLifecycle.isTerminal old.status = true →
      AnalysisJobLifecycle.isTerminal new.status = true
  | _, _, _ => True

/-- A row stays. -/
theorem StaysFinished.refl (k : Key) (a : Row k) : StaysFinished k a a := by
  cases k
  case job => exact id
  all_goals trivial

/-- Transaction `t` holds a completed run of the job that stores suggestions. -/
def Stores (t : Process) (jobId : Uuid) (s : AppDb) : Prop :=
  ∃ sourceId, ∃ run : AnalysisJobSource,
    s.writes t (.jobSource jobId sourceId) = some (some run) ∧ run.storing = true

/-- Transaction `t` has written no suggestion. -/
def WritesNoSuggestion (t : Process) (s : AppDb) : Prop :=
  ∀ id, s.writes t (.suggestion id) = none

/-- What holds of the uncommitted versions at any time. -/
structure Frozen (s : AppDb) : Prop where
  finished : s.Pending StaysFinished
  /-- The job of a completed run is active until the run is committed. -/
  active : ∀ t jobId, Stores t jobId s →
    (jobStatus s jobId).any AnalysisJobLifecycle.isActive = true
  /-- A suggestion is new, and is stored together with a completed run of its job. -/
  stored : ∀ t id (suggestion : Suggestion),
    s.writes t (.suggestion id) = some (some suggestion) →
      s.committed (.suggestion id) = none ∧ Stores t suggestion.analysisJobId s

variable {s s' : AppDb} {t : Process}

/-- Only the versions of `t` count. -/
theorem stores_congr {jobId : Uuid} (h : s'.writes t = s.writes t) :
    Stores t jobId s' ↔ Stores t jobId s := by
  unfold Stores
  rw [h]

/-- A write to another table stores nothing. -/
theorem stores_write_of_ne {jobId : Uuid} {k : Key} {v : Option (Row k)}
    (hk : ∀ jobId sourceId, Key.jobSource jobId sourceId ≠ k) :
    Stores t jobId (s.write t k v) ↔ Stores t jobId s := by
  unfold Stores
  simp only [Db.writes_write_of_ne s v (hk _ _)]

/-- The check of an active job reads the committed row. -/
theorem jobActive_iff {jobId : Uuid} :
    (jobStatus s jobId).any AnalysisJobLifecycle.isActive = true ↔
      ∃ row : AnalysisJob, s.committed (.job jobId) = some row ∧
        AnalysisJobLifecycle.isActive row.status = true := by
  rw [jobStatus, Option.any_map, Option.any_eq_true]

/-- A transaction that does not end an active job sees it active. -/
theorem isActive_of_not_endsJob {jobId : Uuid} {row row' : AnalysisJob}
    (hrow : s.committed (.job jobId) = some row)
    (hactive : AnalysisJobLifecycle.isActive row.status = true)
    (hkeep : endsJob s t jobId = false) (hread : s.read t (.job jobId) = some row') :
    AnalysisJobLifecycle.isActive row'.status = true := by
  rcases hw : s.writes t (.job jobId) with _ | version
  · rw [Db.read_of_not_writes hw, hrow] at hread
    cases hread
    exact hactive
  · rw [Db.read_of_writes hw] at hread
    subst hread
    simpa [endsJob, hw] using hkeep

namespace Frozen

/-- After a write, only the writer has something to show. -/
theorem write {k : Key} {v : Option (Row k)} (h : Frozen s) (hfree : s.lockedByOther t k = false)
    (hfinished : (s.write t k v).Pending StaysFinished)
    (hactive : ∀ jobId, Stores t jobId (s.write t k v) →
      (jobStatus s jobId).any AnalysisJobLifecycle.isActive = true)
    (hstored : ∀ id (suggestion : Suggestion),
      (s.write t k v).writes t (.suggestion id) = some (some suggestion) →
        s.committed (.suggestion id) = none ∧
          Stores t suggestion.analysisJobId (s.write t k v)) : Frozen (s.write t k v) := by
  refine ⟨hfinished, fun u jobId hu => ?_, fun u id suggestion hw => ?_⟩
  · by_cases hut : u = t
    · subst hut
      exact hactive jobId hu
    · exact h.active u jobId ((stores_congr (Db.writes_write_other s v hfree hut)).mp hu)
  · by_cases hut : u = t
    · subst hut
      exact hstored id suggestion hw
    · have hsame := Db.writes_write_other s v hfree hut
      rw [hsame] at hw
      obtain ⟨hnew, hstores⟩ := h.stored u id suggestion hw
      exact ⟨hnew, (stores_congr hsame).mpr hstores⟩

/-- A write to another table. -/
theorem write_other {k : Key} {v : Option (Row k)} (h : Frozen s)
    (hfree : s.lockedByOther t k = false) (hfinished : (s.write t k v).Pending StaysFinished)
    (hrun : ∀ jobId sourceId, Key.jobSource jobId sourceId ≠ k)
    (hsuggestion : ∀ id, Key.suggestion id ≠ k) : Frozen (s.write t k v) := by
  refine h.write hfree hfinished (fun jobId hw => ?_) fun id suggestion hw => ?_
  · exact h.active t jobId ((stores_write_of_ne hrun).mp hw)
  · rw [Db.writes_write_of_ne s v (hsuggestion id)] at hw
    obtain ⟨hnew, hstores⟩ := h.stored t id suggestion hw
    exact ⟨hnew, (stores_write_of_ne hrun).mpr hstores⟩

/-- A write of a run, by a transaction without suggestions. -/
theorem write_run {jobId sourceId : Uuid} {run : AnalysisJobSource} (h : Frozen s)
    (hfree : s.lockedByOther t (.jobSource jobId sourceId) = false)
    (hfinished : (s.write t (.jobSource jobId sourceId) (some run)).Pending StaysFinished)
    (hnone : WritesNoSuggestion t s)
    (hactive : run.storing = true → (jobStatus s jobId).any AnalysisJobLifecycle.isActive = true) :
    Frozen (s.write t (.jobSource jobId sourceId) (some run)) := by
  refine h.write hfree hfinished (fun jobId' hw => ?_) fun id suggestion hw => ?_
  · obtain ⟨sourceId', run', hw, hstoring⟩ := hw
    by_cases hk : Key.jobSource jobId' sourceId' = .jobSource jobId sourceId
    · obtain ⟨rfl, rfl⟩ := Key.jobSource.inj hk
      rw [Db.writes_write_self] at hw
      cases hw
      exact hactive hstoring
    · rw [Db.writes_write_of_ne s _ hk] at hw
      exact h.active t jobId' ⟨sourceId', run', hw, hstoring⟩
  · rw [Db.writes_write_of_ne s _ (by simp), hnone id] at hw
    cases hw

/-- A new suggestion, stored together with a completed run of its job. -/
theorem write_suggestion {id : Uuid} {suggestion : Suggestion} (h : Frozen s)
    (hfree : s.lockedByOther t (.suggestion id) = false)
    (hfinished : (s.write t (.suggestion id) (some suggestion)).Pending StaysFinished)
    (hnew : s.committed (.suggestion id) = none) (hstores : Stores t suggestion.analysisJobId s) :
    Frozen (s.write t (.suggestion id) (some suggestion)) := by
  have hrun : ∀ jobId sourceId, Key.jobSource jobId sourceId ≠ .suggestion id := by simp
  refine h.write hfree hfinished (fun jobId hw => ?_) fun id' suggestion' hw => ?_
  · exact h.active t jobId ((stores_write_of_ne hrun).mp hw)
  · by_cases hid : id' = id
    · subst hid
      rw [Db.writes_write_self] at hw
      cases hw
      exact ⟨hnew, (stores_write_of_ne hrun).mpr hstores⟩
    · rw [Db.writes_write_of_ne s _ (by simpa using hid)] at hw
      obtain ⟨hnew', hstores'⟩ := h.stored t id' suggestion' hw
      exact ⟨hnew', (stores_write_of_ne hrun).mpr hstores'⟩

/-- A rollback keeps the invariant. -/
theorem rollback (h : Frozen s) : Frozen (s.rollback t) := by
  refine ⟨h.finished.rollback, fun u jobId hu => ?_, fun u id suggestion hw => ?_⟩
  · by_cases hut : u = t
    · subst hut
      obtain ⟨sourceId, run, hw, -⟩ := hu
      rw [Db.writes_rollback_self] at hw
      cases hw
    · exact h.active u jobId ((stores_congr (Db.writes_rollback_other s hut)).mp hu)
  · by_cases hut : u = t
    · subst hut
      rw [Db.writes_rollback_self] at hw
      cases hw
    · rw [Db.writes_rollback_other s hut] at hw
      obtain ⟨hnew, hstores⟩ := h.stored u id suggestion hw
      exact ⟨hnew, (stores_congr (Db.writes_rollback_other s hut)).mpr hstores⟩

/-- A commit that is allowed leaves the jobs of the other completed runs active. -/
theorem commit (h : Frozen s) (hfresh : activityCheckFresh t .commit s) : Frozen (s.commit t) := by
  have hother : ∀ {u}, u ≠ t → (s.commit t).writes u = s.writes u :=
    fun hut => Db.writes_commit_other s hut
  refine ⟨h.finished.commit, fun u jobId hu => ?_, fun u id suggestion hw => ?_⟩
  · by_cases hut : u = t
    · subst hut
      obtain ⟨sourceId, run, hw, -⟩ := hu
      rw [Db.writes_commit_self] at hw
      cases hw
    · rw [stores_congr (hother hut)] at hu
      have hactive := h.active u jobId hu
      obtain ⟨sourceId, run, hw, hstoring⟩ := hu
      have hkeep : endsJob s t jobId = false := by
        refine hfresh (.jobSource jobId sourceId)
          (Db.mem_keys_of_writes (hw ▸ Option.some_ne_none _)) (u, jobId) ?_ hut
        simp only [storingRun, Db.writes_eq_some.mp hw, hstoring, if_true, Option.mem_def]
      obtain ⟨row, hrow, hrowActive⟩ := jobActive_iff.mp hactive
      obtain ⟨row', hread, -⟩ := h.finished.read StaysFinished.refl t (.job jobId) row hrow
      refine jobActive_iff.mpr ⟨row', hread, ?_⟩
      exact isActive_of_not_endsJob hrow hrowActive hkeep hread
  · by_cases hut : u = t
    · subst hut
      rw [Db.writes_commit_self] at hw
      cases hw
    · rw [hother hut] at hw
      obtain ⟨hnew, hstores⟩ := h.stored u id suggestion hw
      refine ⟨?_, (stores_congr (hother hut)).mpr hstores⟩
      rw [(Frame.commit t s).committed_of_locked (Ne.symm hut) (hw ▸ Option.some_ne_none _), hnew]

end Frozen

/-! ## The statements -/

/-- What the program has to know before it writes a run or a suggestion. -/
def RunCovered (t : Process) : AppStmt → AppDb → Prop
  | .insert (.suggestion _) row, s => Stores t (row : Suggestion).analysisJobId s
  | .insert (.jobSource _ _) _, s | .update (.jobSource _ _) _ _, s => WritesNoSuggestion t s
  | _, _ => True

/-- The tasks of the worker and a cancellation keep a finished job finished. -/
theorem Sent.staysFinished {kind : OperationKind} {k : Key} {p : Row k → Bool} {g : Row k → Row k}
    {r row : Row k} (hsent : Sent kind (.update k p g))
    (hkind : kind ∈ [OperationKind.processSource, .cancel, .finalize]) (hp : p r = true)
    (h : StaysFinished k row r) : StaysFinished k row (g r) := by
  cases k
  case job id =>
    intro hterminal
    have hr : AnalysisJobLifecycle.isTerminal r.status = true := h hterminal
    cases hsent with
    | jobStatus hlegal hwriter =>
        rename_i copy new
        rw [onto_status]
        split
        · exact hr
        · rcases hwriter with ⟨hk, -⟩ | ⟨-, hnew⟩
          · exact OperationKind.elim_of_mem hkind hk (by decide)
          · exact hnew
    | jobColumns hsame hwriter =>
        rw [onto_status, if_pos hsame]
        exact hr
    | jobBegun =>
        simp only [AnalysisJobLifecycle.isTerminal_eq_not_isActive, hp] at hr
        cases hr
  all_goals trivial

/-- **One statement keeps the invariant.** -/
theorem Frozen.effect {kind : OperationKind} {f : AppStmt} (h : Frozen s) (he : Effect t s f s')
    (hsent : Sent kind f) (hkind : kind ∈ [OperationKind.processSource, .cancel, .finalize])
    (hfresh : activityCheckFresh t f s) (hcovered : RunCovered t f s) : Frozen s' := by
  have hfinished : s'.Pending StaysFinished := by
    refine h.finished.effect StaysFinished.refl he hsent.deletes ?_
    rintro k p g r row rfl - hp - hrow
    exact hsent.staysFinished hkind hp hrow
  cases he with
  | same | draw | send => exact ⟨hfinished, h.active, h.stored⟩
  | delete => cases hsent
  | update hfree hread hp huniq =>
      rename_i k p g r
      cases k
      case suggestion id =>
        cases hsent with
        | suggestionDecide hk => exact OperationKind.elim_of_mem hkind hk (by decide)
        | suggestionReset hk => exact OperationKind.elim_of_mem hkind hk (by decide)
      case jobSource jobId sourceId =>
        exact h.write_run hfree hfinished hcovered fun hstoring => hfresh r hread hp hstoring
      all_goals exact h.write_other hfree hfinished (by simp) (by simp)
  | insert hfree hread huniq =>
      rename_i k row
      cases k
      case suggestion id =>
        refine h.write_suggestion hfree hfinished ?_ hcovered
        rcases hc : s.committed (.suggestion id) with _ | old
        · rfl
        · obtain ⟨new, hnew, -⟩ := h.finished.read StaysFinished.refl t _ old hc
          rw [hread] at hnew
          cases hnew
      case jobSource jobId sourceId =>
        refine h.write_run hfree hfinished hcovered fun hstoring => ?_
        cases hsent
        cases hstoring
      all_goals exact h.write_other hfree hfinished (by simp) (by simp)
  | commit => exact h.commit hfresh
  | rollback => exact h.rollback

/-- The contract of the runs in which no activity check is stale. -/
def frozenContract : Contract Process Key Row Message where
  inv := Frozen
  guar := fun _ _ _ => True
  allowed := activityCheckFresh
  guar_refl := fun _ _ _ => trivial
  rollback := fun _ _ h => ⟨h.rollback, trivial⟩
  tick := fun _ _ h => ⟨h.finished, h.active, h.stored⟩

/-! ## The programs -/

/-- A cancellation and the final task write neither runs nor suggestions. -/
theorem Sent.runCovered {kind : OperationKind} {f : AppStmt} (h : Sent kind f)
    (hkind : kind ∈ [OperationKind.cancel, .finalize]) : RunCovered t f s := by
  cases h
  case insertRun | runClaim | runRelease | runComplete | insertSuggestion => simp at hkind
  all_goals trivial

/-- The statements about a run may be sent while nothing is stored. -/
theorem RunSent.runCovered {jobId sourceId : Uuid} {f : AppStmt} (h : RunSent jobId sourceId f)
    (hnone : WritesNoSuggestion t s) : RunCovered t f s := by
  cases h with
  | reads h => cases h <;> trivial
  | insert | claim | release => exact hnone
  | draw | rollback | commit | begun => trivial

/-- They store nothing. -/
theorem RunSent.writesNoSuggestion {jobId sourceId : Uuid} {f : AppStmt}
    (h : RunSent jobId sourceId f) (he : Effect t s f s') (hnone : WritesNoSuggestion t s) :
    WritesNoSuggestion t s' := by
  cases he with
  | same | draw | send => exact hnone
  | delete => obtain ⟨⟨⟩⟩ := h
  | update | insert =>
      intro id
      rw [Db.writes_write_of_ne]
      · exact hnone id
      · rcases h with ⟨⟨⟩⟩ | _ <;> simp
  | commit => exact fun id => Db.writes_commit_self s t _
  | rollback => exact fun id => Db.writes_rollback_self s t _

/-- No step of another process stores for `t`. -/
theorem stable_writesNoSuggestion : frozenContract.Stable t (WritesNoSuggestion t) := by
  refine Stable.of_writes fun s s' h hp => ?_
  unfold WritesNoSuggestion
  rwa [h]

/-- A part of a source task that stores no suggestion. -/
theorem triple_run {jobId sourceId : Uuid} {α : Type} {p : Session α}
    (h : p.Sends (RunSent jobId sourceId)) :
    frozenContract.Triple t p (WritesNoSuggestion t) fun _ => WritesNoSuggestion t := by
  refine Triple.of_sends stable_writesNoSuggestion ?_ h
  intro f hf s hinv hnone hfresh b s' he
  have heffect := exec_effect he
  exact ⟨hinv.effect heffect hf.sent (by simp) hfresh (hf.runCovered hnone), trivial,
    hf.writesNoSuggestion heffect hnone⟩

/-- Transaction `t` has completed the run with `n` suggestions. -/
def Completed (t : Process) (jobId sourceId : Uuid) (n : ℕ) (s : AppDb) : Prop :=
  ∃ run : AnalysisJobSource, s.writes t (.jobSource jobId sourceId) = some (some run) ∧
    run.status = .completed ∧ run.suggestionsCount = n

/-- A completed run with suggestions stores them. -/
theorem Completed.stores {jobId sourceId : Uuid} {n : ℕ} (h : Completed t jobId sourceId n s)
    (hn : 0 < n) : Stores t jobId s := by
  obtain ⟨run, hw, hstatus, rfl⟩ := h
  exact ⟨sourceId, run, hw, by simp [AnalysisJobSource.storing, hstatus, hn]⟩

/-- No step of another process completes a run for `t`. -/
theorem stable_completed {jobId sourceId : Uuid} {n : ℕ} :
    frozenContract.Stable t (Completed t jobId sourceId n) := by
  refine Stable.of_writes fun s s' h hp => ?_
  unfold Completed
  rwa [h]

/-- Completing the run records how many suggestions there are. -/
theorem triple_markCompleted {jobId sourceId token : Uuid} {n : ℕ} :
    frozenContract.Triple t (AnalysisJobSourceRepository.markCompleted jobId sourceId token n)
      (WritesNoSuggestion t) fun r s => r = .ok true → Completed t jobId sourceId n s := by
  refine Triple.now stable_writesNoSuggestion fun now => Triple.update
    (A := fun o s => ∀ row, o = .updated row → Completed t jobId sourceId n s) ?_ ?_ ?_ ?_ ?_
  · exact fun o => Stable.all fun row => Stable.all fun _ => stable_completed
  · rintro s - - - row ⟨⟩
  · rintro s r - - - - - row ⟨⟩
  · intro s r hinv hnone hfresh hfree hread hp huniq
    refine ⟨hinv.effect (.update hfree hread hp huniq) .runComplete (by simp) hfresh hnone,
      trivial, fun row _ => ⟨_, Db.writes_write_self _ _ _ _, rfl, rfl⟩⟩
  · rintro (_ | _ | row)
    · rintro s - - ⟨⟩
    · rintro s - - ⟨⟩
    · exact fun s _ h _ => h row rfl

/-- Storing suggestions is covered by the completed run. -/
theorem triple_bulkCreate {jobId sourceId : Uuid} {n : ℕ} {suggestions : List Suggestion}
    (hjob : ∀ suggestion ∈ suggestions, suggestion.analysisJobId = jobId)
    (hn : suggestions ≠ [] → 0 < n) :
    frozenContract.Triple t (SuggestionRepository.bulkCreate suggestions)
      (Completed t jobId sourceId n)
      (ending (fun _ => Completed t jobId sourceId n) fun _ _ => True) := by
  refine Triple.each (L := Completed t jobId sourceId n) (E := fun _ _ => True) _
    fun suggestion hmem => ?_
  refine Triple.draw (A := fun _ => Completed t jobId sourceId n) (fun _ => stable_completed)
    (fun s hinv h => ?_) fun id => ?_
  · exact ⟨hinv.effect .draw (.draw : Sent .cancel _) (by simp) trivial trivial, trivial, h⟩
  refine Triple.insert (A := fun _ => Completed t jobId sourceId n) (fun _ => stable_completed)
    (fun _ _ h _ => h) (fun s hinv h hfresh hfree hread huniq => ?_) fun inserted => ?_
  · refine ⟨hinv.effect (.insert hfree hread huniq) .insertSuggestion (by simp) hfresh ?_,
      trivial, ?_⟩
    · change Stores t suggestion.analysisJobId s
      rw [hjob suggestion hmem]
      exact h.stores (hn (List.ne_nil_of_mem hmem))
    · obtain ⟨run, hw, hrun⟩ := h
      exact ⟨run, (Db.writes_write_of_ne s _ (by simp)).trans hw, hrun⟩
  · cases inserted
    · exact fun _ _ _ => trivial
    · exact fun _ _ h => h

/-- The suggestions of a completed run are stored in its transaction. -/
theorem triple_storeSuggestions {jobId sourceId : Uuid} {suggestions : List Suggestion}
    (hjob : ∀ suggestion ∈ suggestions, suggestion.analysisJobId = jobId) :
    frozenContract.Triple t (AnalysisTasks.storeSuggestions sourceId suggestions)
      (Completed t jobId sourceId suggestions.length) fun _ _ => True := by
  refine (triple_reads (sends_getSource _) stable_completed).seq fun found => ?_
  rcases found with _ | source
  · exact Triple.rollback (Stable.const True) (fun _ _ _ => trivial) fun _ _ _ => trivial
  refine Triple.bind (@triple_bulkCreate _ jobId _ _ _ ?_ ?_) (fun _ => ?_) fun _ _ _ _ => trivial
  · intro linked hlinked
    obtain ⟨suggestion, hmem, rfl⟩ := List.mem_map.mp hlinked
    exact hjob suggestion hmem
  · intro hne
    exact List.length_pos_of_ne_nil fun hnil => hne (by rw [hnil, List.map_nil])
  · refine Triple.commit (Stable.const True) (fun s hinv _ hfresh => ?_) fun _ _ _ => trivial
    exact ⟨hinv.commit hfresh, trivial, trivial⟩

/-- **The result is stored as a whole.** -/
theorem triple_storeResult {jobId sourceId token : Uuid} {suggestions : List Suggestion}
    (hjob : ∀ suggestion ∈ suggestions, suggestion.analysisJobId = jobId) :
    frozenContract.Triple t (AnalysisTasks.storeResult jobId sourceId token suggestions)
      (WritesNoSuggestion t) fun _ _ => True := by
  refine triple_closing (Q := fun _ _ => True) ?_ (fun _ => Stable.const True) fun _ _ _ _ => trivial
  refine (triple_reads (sends_getJob _) stable_writesNoSuggestion).seq fun found => ?_
  split
  · refine triple_markCompleted.seq fun won => ?_
    cases won
    · exact triple_lostRun
    · exact (triple_storeSuggestions hjob).pre fun s _ h => h rfl
  · refine (triple_run sends_release).seq fun _ => ?_
    exact Triple.commit (Stable.const True)
      (fun s hinv _ hfresh => ⟨hinv.commit hfresh, trivial, trivial⟩) fun _ _ _ => trivial

/-- **A source task** keeps the contract. -/
theorem triple_processSource {jobId sourceId : Uuid} {generation : GenerationRun} :
    frozenContract.Triple t (AnalysisTasks.processSource jobId sourceId generation)
      (WritesNoSuggestion t) fun _ _ => True := by
  refine (triple_run sends_claimSource).seq fun start => ?_
  rcases start with outcome | claim
  · exact fun _ _ _ => trivial
  rcases generation with ⟨error, message⟩ | ⟨plainText, batch⟩
  · refine (triple_run sends_releaseSource).seq fun _ => ?_
    split <;> exact fun _ _ _ => trivial
  · exact triple_storeResult fun _ hmem => SuggestionMapper.analysisJobId_of_mem hmem

/-- Every start of these operations is verified. -/
theorem verified_frozen {c : AppConfig}
    (hinit : c.Initial fun kind => kind ∈ [OperationKind.processSource, .cancel, .finalize]) :
    frozenContract.Verified (fun _ _ _ => True) c := by
  have hwrites : ∀ u k, c.db.writes u k = none := by
    intro u k
    simp [Db.writes, hinit.quiet k]
  refine ⟨⟨Db.Pending.of_quiet hinit.quiet, ?_, ?_⟩, fun u p hp => ?_⟩
  · rintro u jobId ⟨sourceId, run, hw, -⟩
    rw [hwrites] at hw
    cases hw
  · intro u id suggestion hw
    rw [hwrites] at hw
    cases hw
  obtain ⟨op, hkind, rfl⟩ := hinit.procs u p hp
  refine ⟨WritesNoSuggestion u, stable_writesNoSuggestion, fun id => hwrites u _, ?_⟩
  by_cases hsource : op.kind = .processSource
  · cases op <;> cases hsource
    rename_i delivery jobId sourceId generation
    refine Triple.bind (J := fun _ => WritesNoSuggestion u) ?_ (fun _ => ?_)
      fun _ _ _ _ => trivial
    · cases delivery
      · exact fun _ _ h => h
      · exact Triple.await stable_writesNoSuggestion fun _ _ h => h.1
    · exact triple_processSource.bind (fun _ _ _ _ => trivial) fun _ _ _ _ => trivial
  · have hothers : op.kind ∈ [OperationKind.cancel, .finalize] := by
      simpa [hsource] using hkind
    refine (Triple.of_sends (Stable.const True) ?_ op.sends).mono (fun _ _ _ => trivial)
      fun _ _ _ _ => trivial
    intro f hf s hinv _ hfresh b s' he
    exact ⟨hinv.effect (exec_effect he) hf hkind hfresh (hf.runCovered hothers), trivial, trivial⟩

/-! ## Whole runs -/

/-- A finished job is frozen from `s` to `s'`: it stays finished, and no suggestion is added. -/
def Freezes (s s' : AppDb) : Prop :=
  ∀ jobId, (∃ row : AnalysisJob, s.committed (.job jobId) = some row ∧
      AnalysisJobLifecycle.isTerminal row.status = true) →
    (∃ row : AnalysisJob, s'.committed (.job jobId) = some row ∧
      AnalysisJobLifecycle.isTerminal row.status = true) ∧
    ∀ id (suggestion : Suggestion), s'.committed (.suggestion id) = some suggestion →
      suggestion.analysisJobId = jobId → s.committed (.suggestion id) = some suggestion

/-- A step leaves the suggestions of a finished job. -/
theorem Frozen.freezes (h : Frozen s) (hf : Frame t s s') : Freezes s s' := by
  rintro jobId ⟨row, hrow, hterminal⟩
  obtain ⟨row', hrow', hstays⟩ := hf.committed_along StaysFinished.refl h.finished (.job jobId)
    row hrow
  refine ⟨⟨row', hrow', hstays hterminal⟩, ?_⟩
  rintro id suggestion hsuggestion rfl
  rcases hf.committed with ⟨hc, -⟩ | ⟨hc, -⟩
  · rwa [hc] at hsuggestion
  rw [hc] at hsuggestion
  rcases hw : s.writes t (.suggestion id) with _ | version
  · rwa [Db.read_of_not_writes hw] at hsuggestion
  -- an uncommitted suggestion belongs to an active job
  rw [Db.read_of_writes hw] at hsuggestion
  subst hsuggestion
  obtain ⟨row₂, hrow₂, hactive⟩ := jobActive_iff.mp
    (h.active t _ (h.stored t id suggestion hw).2)
  rw [hrow] at hrow₂
  cases hrow₂
  rw [AnalysisJobLifecycle.isTerminal_eq_not_isActive, hactive] at hterminal
  cases hterminal

/-- **When the suggestions of a finished job are frozen.** In a run of source tasks, final tasks
and cancellations in which no activity check is stale, every suggestion of a finished job was
there when the job had been finished. -/
theorem finished_job_suggestions_frozen {c₀ c c' : AppConfig}
    (hinit : c₀.Initial fun kind => kind ∈ [OperationKind.processSource, .cancel, .finalize])
    (hrun : c₀.Steps activityCheckFresh c) (hs : c.Steps activityCheckFresh c') {jobId : Uuid}
    {status : AnalysisJobStatus} (hstatus : jobStatus c.db jobId = some status)
    (hterminal : AnalysisJobLifecycle.isTerminal status = true) {id : Uuid}
    {suggestion : Suggestion} (hsuggestion : c'.db.committed (.suggestion id) = some suggestion)
    (hjob : suggestion.analysisJobId = jobId) :
    c.db.committed (.suggestion id) = some suggestion := by
  have hfreezes : Freezes c.db c'.db := by
    refine ((verified_frozen hinit).steps hrun).steps_rel hs (fun _ jobId h => ⟨h, fun _ _ h _ => h⟩)
      (fun _ _ _ h₁ h₂ jobId h => ?_) (fun t s s' hi _ hf _ => Frozen.freezes hi hf)
      fun _ _ _ jobId h => ⟨h, fun _ _ h _ => h⟩
    obtain ⟨hmid, hkeep₁⟩ := h₁ jobId h
    obtain ⟨hend, hkeep₂⟩ := h₂ jobId hmid
    exact ⟨hend, fun id s hs hj => hkeep₁ id s (hkeep₂ id s hs hj) hj⟩
  obtain ⟨row, hrow, rfl⟩ := Option.map_eq_some_iff.mp hstatus
  exact (hfreezes jobId ⟨row, hrow, hterminal⟩).2 id suggestion hsuggestion hjob

/-! ## A source task and a cancellation -/

/-- A dispatched job with one source, of which the model answers with one deletion; process 0 is
the task of the source, process 1 a request to cancel the job. -/
def cancelledAnalysis : AppConfig :=
  AppConfig.start
    [⟨.document (9, 0), { projectId := (9, 2), name := "a.txt", format := .txt, storageKey := "a"
                          sizeBytes := 1, status := .inProgress
                          currentAnalysisJobId := some (9, 1) }⟩,
      ⟨.job (9, 1), { documentId := (9, 0), status := .dispatched }⟩,
      ⟨.source (9, 3), { projectId := (9, 2), name := "s", type := .url, url := some "u" }⟩]
    [.analysis (9, 1) [(9, 3)]]
    [.processSource (some [(9, 3)]) (9, 1) (9, 3)
        (.answered ['a'] [⟨['t'], "delete", some ['a'], none, none, none, none⟩]),
      .cancel (9, 2) (9, 0) (9, 1) false]

/-- The source task up to its check that the job is active. -/
def sourceTaskChecks : List (Move Process) := List.replicate 17 (.act 0)

/-- The source task marks the run as completed, inserts the suggestion and commits. -/
def sourceTaskStores : List (Move Process) := List.replicate 6 (.act 0)

/-- The request to cancel the job, from its reads to its commit. -/
def requestCancels : List (Move Process) := List.replicate 7 (.act 1)

/-- The suggestion is committed before the cancellation: it is what the job keeps. -/
theorem suggestion_kept_by_cancelled_job :
    ∃ c c', cancelledAnalysis.Steps activityCheckFresh c ∧ c.Steps activityCheckFresh c' ∧
      jobStatus c.db (9, 1) = some .cancelled ∧ (c'.result 0).isSome = true ∧
      ∃ suggestion : Suggestion, c'.db.committed (.suggestion (0, 1)) = some suggestion ∧
        suggestion.analysisJobId = (9, 1) ∧ c.db.committed (.suggestion (0, 1)) = some suggestion := by
  obtain ⟨c, hrun, hc⟩ := Config.exists_steps_of_run activityCheckFresh
    (sourceTaskChecks ++ sourceTaskStores ++ requestCancels) cancelledAnalysis
    (fun c => jobStatus c.db (9, 1) = some .cancelled &&
      (Config.run activityCheckFresh [.act 0] c).any fun c' => (c'.result 0).isSome &&
        (c'.db.committed (.suggestion (0, 1))).any
          fun suggestion : Suggestion => suggestion.analysisJobId = (9, 1))
    (by decide +kernel)
  rw [Bool.and_eq_true, decide_eq_true_eq] at hc
  obtain ⟨c', hs, hend⟩ := Config.exists_steps_of_run _ _ c _ hc.2
  rw [Bool.and_eq_true, Option.any_eq_true] at hend
  obtain ⟨hresult, suggestion, hsuggestion, hjob⟩ := hend
  have hinit : cancelledAnalysis.Initial
      fun kind => kind ∈ [OperationKind.processSource, .cancel, .finalize] :=
    AppConfig.initial_start (by simp [Operation.kind])
  exact ⟨c, c', hrun, hs, hc.1, hresult, suggestion, hsuggestion, by simpa using hjob,
    finished_job_suggestions_frozen hinit hrun hs hc.1 rfl hsuggestion (by simpa using hjob)⟩

/-- The cancellation is committed between the check and the mark: the cancelled job gets a
suggestion. -/
theorem suggestions_added_after_cancellation :
    ¬ ∀ (c₀ c c' : AppConfig) (jobId : Uuid) (status : AnalysisJobStatus) (id : Uuid)
      (suggestion : Suggestion),
      c₀.Initial (fun kind => kind ∈ [OperationKind.processSource, .cancel, .finalize]) →
      c₀.Steps Config.anyStmt c → c.Steps Config.anyStmt c' →
      jobStatus c.db jobId = some status → AnalysisJobLifecycle.isTerminal status = true →
      c'.db.committed (.suggestion id) = some suggestion → suggestion.analysisJobId = jobId →
      c.db.committed (.suggestion id) = some suggestion := by
  intro h
  obtain ⟨c, hrun, hc⟩ := Config.exists_steps_of_run Config.anyStmt
    (sourceTaskChecks ++ requestCancels) cancelledAnalysis
    (fun c => jobStatus c.db (9, 1) = some .cancelled &&
      (c.db.committed (.suggestion (0, 1))).isNone &&
      (Config.run Config.anyStmt sourceTaskStores c).any fun c' =>
        (c'.db.committed (.suggestion (0, 1))).any
          fun suggestion : Suggestion => suggestion.analysisJobId = (9, 1))
    (by decide +kernel)
  rw [Bool.and_eq_true, Bool.and_eq_true, decide_eq_true_eq, Option.isNone_iff_eq_none] at hc
  obtain ⟨c', hs, hend⟩ := Config.exists_steps_of_run _ _ c _ hc.2
  obtain ⟨suggestion, hsuggestion, hjob⟩ := (Option.any_eq_true _ _).mp hend
  have hkept := h cancelledAnalysis c c' (9, 1) .cancelled (0, 1) suggestion
    (AppConfig.initial_start (by simp [Operation.kind])) hrun hs hc.1.1 rfl hsuggestion
    (by simpa using hjob)
  rw [hc.1.2] at hkept
  cases hkept

end SyncBack
