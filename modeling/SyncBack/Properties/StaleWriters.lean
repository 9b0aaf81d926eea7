import SyncBack.Application.SessionRules
import SyncBack.Txn.Pending

/-!
# The status of a document that is analysed again

The status of a document is flushed by primary key, after a decision on a copy of the document.
`stale_decision_not_committed` says when a decision that was based on one job is never committed
on a document that has another current job, and never leaves a document reviewed whose current job
is active: when a status is written, the job of the decision is still the current one, and the
current job is changed on a draft only. `stale_review_committed` is a run in which a review of the
old job is finished after the document has been given a new one.
-/

namespace SyncBack

open Txn Session Contract

/-! ## The condition -/

/-- **No stale copy of the document**: a status that differs from the committed one is written
while the job that the session decided on is the current one; another current job is written on
a draft. -/
def documentCopyFresh : Process → AppStmt → AppDb → Prop
  | t, .update (.document id) p g, s => ∀ row : Document, row ∈ s.read t (.document id) →
      p row = true →
      (∀ old : Document, old ∈ s.committed (.document id) → (g row).status ≠ old.status →
        ∀ jobId ∈ (g row).basis.currentJob, old.currentAnalysisJobId = some jobId) ∧
      ((g row).currentAnalysisJobId ≠ row.currentAnalysisJobId → row.status = .draft)
  | _, _, _ => True

instance : ∀ (t : Process) (f : AppStmt) (s : AppDb), Decidable (documentCopyFresh t f s)
  | t, .update (.document id) p g, s =>
      inferInstanceAs (Decidable (∀ row ∈ s.read t (.document id), p row = true →
        (∀ old ∈ s.committed (.document id), (g row).status ≠ old.status →
          ∀ jobId ∈ (g row).basis.currentJob, old.currentAnalysisJobId = some jobId) ∧
        ((g row).currentAnalysisJobId ≠ row.currentAnalysisJobId → row.status = .draft)))
  | _, .update (.job _) _ _, _ | _, .update (.suggestion _) _ _, _
  | _, .update (.jobSource _ _) _ _, _ | _, .update (.source _) _ _, _
  | _, .update (.documentSource _ _) _ _, _ => isTrue trivial
  | _, .get _, _ | _, .find _, _ | _, .insert _ _, _ | _, .delete _ _, _ | _, .draw, _
  | _, .now, _ | _, .send _, _ | _, .await _, _ | _, .commit, _ | _, .rollback, _ => isTrue trivial

/-- The operations of the claim. -/
def reanalysisKinds : List OperationKind :=
  [.reviewSave, .finalizeReview, .finalize, .cancel, .create, .start]

/-! ## The invariant -/

section

variable (live : Process → Prop)

/-- The job has been handed to the queue; for a job of a process outside the run that is past. -/
def Enqueued (jobId : Uuid) (s : AppDb) : Prop :=
  live jobId.1 → ∃ sourceIds, Message.analysis jobId sourceIds ∈ s.sent

/-- The job is finished for good. -/
def Done (jobId : Uuid) (s : AppDb) : Prop :=
  Enqueued live jobId s ∧ ∃ row : AnalysisJob, s.committed (.job jobId) = some row ∧
    AnalysisJobLifecycle.isActive row.status = false

/-- Transaction `t` is about to finish the job for good. -/
def Finishing (t : Process) (jobId : Uuid) (s : AppDb) : Prop :=
  Enqueued live jobId s ∧ ∃ row : AnalysisJob, s.writes t (.job jobId) = some (some row) ∧
    AnalysisJobLifecycle.isActive row.status = false

/-- What holds of the versions that transaction `t` has written. -/
structure OwnVersions (t : Process) (s : AppDb) : Prop where
  /-- Only its creator makes an ended job active again, before it hands the job over. -/
  ended : ∀ jobId (new : AnalysisJob), s.writes t (.job jobId) = some (some new) →
    AnalysisJobLifecycle.isActive new.status = true →
      (∀ old : AnalysisJob, s.committed (.job jobId) = some old →
        AnalysisJobLifecycle.isActive old.status = true) ∨
      (jobId.1 = t ∧ ¬ Enqueued live jobId s)
  /-- A new status rests on the current job. -/
  decided : ∀ id (new old : Document), s.writes t (.document id) = some (some new) →
    s.committed (.document id) = some old → new.status ≠ old.status →
      ∀ jobId ∈ new.basis.currentJob, old.currentAnalysisJobId = some jobId
  /-- A document goes into review with a job that is done, or is being finished. -/
  reviewing : ∀ id (new : Document), s.writes t (.document id) = some (some new) →
    DocumentLifecycle.canResetReview new.status = true →
      ∀ jobId, new.currentAnalysisJobId = some jobId → Done live jobId s ∨ Finishing live t jobId s

/-- What holds of documents and jobs at any time. -/
structure FollowsCurrent (s : AppDb) : Prop where
  standing : s.Pending fun _ _ _ => True
  drawn : ∀ jobId sourceIds, Message.analysis jobId sourceIds ∈ s.sent → live jobId.1 →
    jobId.2 < s.drawn jobId.1
  /-- The current job of a document in review is done. -/
  reviewed : ∀ id (document : Document), s.committed (.document id) = some document →
    DocumentLifecycle.canResetReview document.status = true →
      ∀ jobId, document.currentAnalysisJobId = some jobId → Done live jobId s
  own : ∀ t, OwnVersions live t s

/-- Transaction `t` has changed the current job of no document. -/
def SameCurrent (t : Process) (s : AppDb) : Prop :=
  ∀ id (new : Document), s.writes t (.document id) = some (some new) →
    ∃ old : Document, s.committed (.document id) = some old ∧
      new.currentAnalysisJobId = old.currentAnalysisJobId

end

variable {live : Process → Prop} {s s' : AppDb} {t : Process}

/-- A job that was handed over stays so. -/
theorem Enqueued.mono {jobId : Uuid} (h : Enqueued live jobId s) (hsent : ∀ m ∈ s.sent, m ∈ s'.sent) :
    Enqueued live jobId s' := by
  intro hlive
  obtain ⟨sourceIds, hm⟩ := h hlive
  exact ⟨sourceIds, hsent _ hm⟩

/-- Handing another job over changes nothing for this one. -/
theorem enqueued_of_send {jobId jobId' : Uuid} {sourceIds : List Uuid} (hne : jobId' ≠ jobId)
    (h : Enqueued live jobId' (s.send (.analysis jobId sourceIds))) : Enqueued live jobId' s := by
  intro hlive
  obtain ⟨sourceIds', hm⟩ := h hlive
  rcases List.mem_append.mp hm with hm | hm
  · exact ⟨sourceIds', hm⟩
  · obtain ⟨rfl, -⟩ := Message.analysis.inj (List.mem_singleton.mp hm)
    exact absurd rfl hne

/-- A transaction without versions has nothing to show. -/
theorem OwnVersions.of_writes_none (h : ∀ k, s.writes t k = none) : OwnVersions live t s := by
  refine ⟨fun jobId new hw => ?_, fun id new old hw => ?_, fun id new hw => ?_⟩
  all_goals
    rw [h] at hw
    cases hw

namespace FollowsCurrent

/-- A job that is done stays done. -/
theorem done_step (h : FollowsCurrent live s) (hf : Frame t s s') {jobId : Uuid}
    (hd : Done live jobId s) : Done live jobId s' := by
  obtain ⟨hq, row, hrow, hend⟩ := hd
  refine ⟨hq.mono hf.sent, ?_⟩
  obtain ⟨row', hrow', -⟩ := hf.committed_along (fun _ _ => trivial) h.standing (.job jobId) row hrow
  refine ⟨row', hrow', ?_⟩
  rcases hf.committed with ⟨hc, -⟩ | ⟨hc, -⟩
  · rw [hc, hrow] at hrow'
    cases hrow'
    exact hend
  rcases hw : s.writes t (.job jobId) with _ | version
  · rw [hc, Db.read_of_not_writes hw, hrow] at hrow'
    cases hrow'
    exact hend
  · rw [hc, Db.read_of_writes hw] at hrow'
    subst hrow'
    -- an active version would belong to a job that is not handed over yet
    by_contra hactive
    rcases (h.own t).ended jobId row' hw (by simpa using hactive) with hold | ⟨-, hnot⟩
    · rw [hold row hrow] at hend
      cases hend
    · exact hnot hq

/-- The versions of the others are as good as before. -/
theorem own_other (h : FollowsCurrent live s) (hf : Frame t s s') {u : Process} (hu : u ≠ t)
    (hsent : ∀ jobId : Uuid, jobId.1 ≠ t → Enqueued live jobId s' → Enqueued live jobId s) :
    OwnVersions live u s' := by
  have hlocked : ∀ {k}, s.writes u k ≠ none → s'.committed k = s.committed k :=
    fun hw => hf.committed_of_locked (Ne.symm hu) hw
  refine ⟨fun jobId new hw hactive => ?_, fun id new old hw hold => ?_, fun id new hw hst => ?_⟩
  · rw [hf.writes u hu] at hw
    rw [hlocked (hw ▸ Option.some_ne_none _)]
    refine ((h.own u).ended jobId new hw hactive).imp_right ?_
    rintro ⟨rfl, hnot⟩
    exact ⟨rfl, fun hq => hnot (hsent jobId hu hq)⟩
  · rw [hf.writes u hu] at hw
    rw [hlocked (hw ▸ Option.some_ne_none _)] at hold
    exact (h.own u).decided id new old hw hold
  · rw [hf.writes u hu] at hw
    intro jobId hjob
    refine ((h.own u).reviewing id new hw hst jobId hjob).imp (h.done_step hf) ?_
    rintro ⟨hq, row, hrow, hend⟩
    exact ⟨hq.mono hf.sent, row, by rw [hf.writes u hu, hrow], hend⟩

/-- A document in review, as `t` sees it, has a job that is done, or that `t` is finishing. -/
theorem read_reviewing (h : FollowsCurrent live s) {id : Uuid} {row : Document}
    (hread : s.read t (.document id) = some row)
    (hstatus : DocumentLifecycle.canResetReview row.status = true) {jobId : Uuid}
    (hjob : row.currentAnalysisJobId = some jobId) :
    Done live jobId s ∨ Finishing live t jobId s := by
  rcases hw : s.writes t (.document id) with _ | version
  · rw [Db.read_of_not_writes hw] at hread
    exact .inl (h.reviewed id row hread hstatus jobId hjob)
  · rw [Db.read_of_writes hw] at hread
    subst hread
    exact (h.own t).reviewing id row hw hstatus jobId hjob

/-! ### Statements -/

/-- A write: only the versions of the writer have to be checked. -/
theorem write {k : Key} {v : Option (Row k)} (h : FollowsCurrent live s)
    (hfree : s.lockedByOther t k = false) (hstanding : (s.write t k v).Pending fun _ _ _ => True)
    (hown : OwnVersions live t (s.write t k v)) : FollowsCurrent live (s.write t k v) := by
  refine ⟨hstanding, h.drawn, h.reviewed, fun u => ?_⟩
  by_cases hu : u = t
  · exact hu ▸ hown
  · exact h.own_other (Frame.write hfree) hu fun _ _ hq => hq

/-- A write to another table. -/
theorem own_write_other {k : Key} {v : Option (Row k)} (h : OwnVersions live t s)
    (hjob : ∀ jobId, Key.job jobId ≠ k) (hdocument : ∀ id, Key.document id ≠ k) :
    OwnVersions live t (s.write t k v) := by
  refine ⟨fun jobId new hw => ?_, fun id new old hw => ?_, fun id new hw hst jobId hcur => ?_⟩
  · rw [Db.writes_write_of_ne s v (hjob jobId)] at hw
    exact h.ended jobId new hw
  · rw [Db.writes_write_of_ne s v (hdocument id)] at hw
    exact h.decided id new old hw
  · rw [Db.writes_write_of_ne s v (hdocument id)] at hw
    refine (h.reviewing id new hw hst jobId hcur).imp_right fun hfin => ?_
    unfold Finishing
    rw [Db.writes_write_of_ne s v (hjob jobId)]
    exact hfin

/-- A write of a job. -/
theorem own_write_job {jobId : Uuid} {new : AnalysisJob} (h : OwnVersions live t s)
    (hended : AnalysisJobLifecycle.isActive new.status = true →
      (∀ old : AnalysisJob, s.committed (.job jobId) = some old →
        AnalysisJobLifecycle.isActive old.status = true) ∨
      (jobId.1 = t ∧ ¬ Enqueued live jobId s))
    (hkeep : Finishing live t jobId s → AnalysisJobLifecycle.isActive new.status = false) :
    OwnVersions live t (s.write t (.job jobId) (some new)) := by
  refine ⟨fun jobId' new' hw => ?_, fun id new' old hw => ?_, fun id new' hw hst jobId' hcur => ?_⟩
  · by_cases hid : jobId' = jobId
    · subst hid
      rw [Db.writes_write_self] at hw
      cases hw
      exact hended
    · rw [Db.writes_write_of_ne s _ (by simpa using hid)] at hw
      exact h.ended jobId' new' hw
  · rw [Db.writes_write_of_ne s _ (by simp)] at hw
    exact h.decided id new' old hw
  · rw [Db.writes_write_of_ne s _ (by simp)] at hw
    refine (h.reviewing id new' hw hst jobId' hcur).imp_right fun hfin => ?_
    by_cases hid : jobId' = jobId
    · subst hid
      exact ⟨hfin.1, new, Db.writes_write_self _ _ _ _, hkeep hfin⟩
    · unfold Finishing
      rw [Db.writes_write_of_ne s _ (by simpa using hid)]
      exact hfin

/-- A write of a document. -/
theorem own_write_document {id : Uuid} {new : Document} (h : OwnVersions live t s)
    (hdecided : ∀ old : Document, s.committed (.document id) = some old → new.status ≠ old.status →
      ∀ jobId ∈ new.basis.currentJob, old.currentAnalysisJobId = some jobId)
    (hreviewing : DocumentLifecycle.canResetReview new.status = true →
      ∀ jobId, new.currentAnalysisJobId = some jobId →
        Done live jobId s ∨ Finishing live t jobId s) :
    OwnVersions live t (s.write t (.document id) (some new)) := by
  have hfinishing : ∀ {jobId}, Finishing live t jobId s →
      Finishing live t jobId (s.write t (.document id) (some new)) := by
    rintro jobId ⟨hq, row, hrow, hend⟩
    exact ⟨hq, row, by rw [Db.writes_write_of_ne s _ (by simp), hrow], hend⟩
  refine ⟨fun jobId new' hw => ?_, fun id' new' old hw => ?_, fun id' new' hw hst jobId hcur => ?_⟩
  · rw [Db.writes_write_of_ne s _ (by simp)] at hw
    exact h.ended jobId new' hw
  · by_cases hid : id' = id
    · subst hid
      rw [Db.writes_write_self] at hw
      cases hw
      exact hdecided old
    · rw [Db.writes_write_of_ne s _ (by simpa using hid)] at hw
      exact h.decided id' new' old hw
  · by_cases hid : id' = id
    · subst hid
      rw [Db.writes_write_self] at hw
      cases hw
      exact (hreviewing hst jobId hcur).imp_right hfinishing
    · rw [Db.writes_write_of_ne s _ (by simpa using hid)] at hw
      exact (h.reviewing id' new' hw hst jobId hcur).imp_right hfinishing

/-- A rollback keeps the invariant. -/
theorem rollback (h : FollowsCurrent live s) : FollowsCurrent live (s.rollback t) := by
  refine ⟨h.standing.rollback, h.drawn, h.reviewed, fun u => ?_⟩
  by_cases hu : u = t
  · subst hu
    exact OwnVersions.of_writes_none (Db.writes_rollback_self s u)
  · exact h.own_other (Frame.rollback t s) hu fun _ _ hq => hq

/-- A commit keeps it. -/
theorem commit (h : FollowsCurrent live s) : FollowsCurrent live (s.commit t) := by
  refine ⟨h.standing.commit, h.drawn, fun id document hc hst jobId hjob => ?_, fun u => ?_⟩
  · rw [Db.commit_committed] at hc
    rcases h.read_reviewing hc hst hjob with hdone | ⟨hq, row, hrow, hend⟩
    · exact h.done_step (Frame.commit t s) hdone
    · exact ⟨hq, row, by rw [Db.commit_committed, Db.read_of_writes hrow], hend⟩
  · by_cases hu : u = t
    · subst hu
      exact OwnVersions.of_writes_none (Db.writes_commit_self s u)
    · exact h.own_other (Frame.commit t s) hu fun _ _ hq => hq

/-- So does a drawn identifier. -/
theorem draw (h : FollowsCurrent live s) : FollowsCurrent live (s.draw t) := by
  refine ⟨h.standing, fun jobId sourceIds hm hlive => ?_, h.reviewed,
    fun u => ⟨(h.own u).ended, (h.own u).decided, (h.own u).reviewing⟩⟩
  refine Nat.lt_of_lt_of_le (h.drawn jobId sourceIds hm hlive) ?_
  by_cases hu : jobId.1 = t
  · rw [hu]
    exact (Effect.draw (t := t) (s := s)).frame.drawn_le
  · exact Nat.le_of_eq ((Effect.draw (t := t) (s := s)).frame.drawn _ hu).symm

/-- The creator of a job hands it over, outside a transaction. -/
theorem send {jobId : Uuid} {sourceIds : List Uuid} (h : FollowsCurrent live s)
    (hcreator : jobId.1 = t) (hdrawn : jobId.2 < s.drawn t) (hidle : ∀ k, s.writes t k = none) :
    FollowsCurrent live (s.send (.analysis jobId sourceIds)) := by
  have hf : Frame t s (s.send (.analysis jobId sourceIds)) :=
    (Effect.send (t := t) (s := s) _).frame
  refine ⟨h.standing, fun jobId' sourceIds' hm hlive => ?_, fun id document hc hst jobId' hcur => ?_,
    fun u => ?_⟩
  · rcases List.mem_append.mp hm with hm | hm
    · exact h.drawn jobId' sourceIds' hm hlive
    · obtain ⟨rfl, -⟩ := Message.analysis.inj (List.mem_singleton.mp hm)
      exact hcreator ▸ hdrawn
  · exact h.done_step hf (h.reviewed id document hc hst jobId' hcur)
  · by_cases hu : u = t
    · exact hu ▸ OwnVersions.of_writes_none hidle
    · exact h.own_other hf hu fun jobId' hne => enqueued_of_send fun h => hne (h ▸ hcreator)

end FollowsCurrent

/-! ## The statements -/

/-- What the program has to know before it sends a statement. -/
structure DocumentCovered (live : Process → Prop) (t : Process) (f : AppStmt) (s : AppDb) :
    Prop where
  /-- A job is handed over by its creator, outside a transaction. -/
  send : ∀ jobId sourceIds, f = .send (.analysis jobId sourceIds) →
    jobId.1 = t ∧ jobId.2 < s.drawn t ∧ s.Idle t
  /-- A job is dispatched by its creator, before it is handed over. -/
  dispatch : ∀ jobId p g, f = .update (.job jobId) p g → ∀ row : AnalysisJob, p row = true →
    (g row).status ≠ row.status → AnalysisJobLifecycle.isActive (g row).status = true →
      jobId.1 = t ∧ ¬ Enqueued live jobId s
  /-- A document goes into review for a job that is done. -/
  review : ∀ id p g, f = .update (.document id) p g → ∀ row : Document, p row = true →
    (g row).status ≠ row.status → DocumentLifecycle.canResetReview (g row).status = true →
      SameCurrent t s ∧ ∃ jobId, (g row).basis.currentJob = some jobId ∧
        (Done live jobId s ∨ Finishing live t jobId s)

namespace FollowsCurrent

/-- The update of a job. -/
theorem own_update_job {jobId : Uuid} {p : AnalysisJob → Bool}
    {g : AnalysisJob → AnalysisJob} {r : AnalysisJob} (h : FollowsCurrent live s)
    (hread : s.read t (.job jobId) = some r) (hp : p r = true)
    (hcov : DocumentCovered live t (.update (.job jobId) p g) s) :
    OwnVersions live t (s.write t (.job jobId) (some (g r))) := by
  by_cases hsame : (g r).status = r.status
  · refine own_write_job (h.own t) (fun hactive => ?_) ?_
    · rcases hw : s.writes t (.job jobId) with _ | version
      · rw [Db.read_of_not_writes hw] at hread
        refine .inl fun old hold => ?_
        rw [hread] at hold
        cases hold
        exact hsame ▸ hactive
      · rw [Db.read_of_writes hw] at hread
        subst hread
        exact (h.own t).ended jobId r hw (hsame ▸ hactive)
    · rintro ⟨-, row, hrow, hend⟩
      rw [Db.read_of_writes hrow] at hread
      cases hread
      rw [hsame, hend]
  · refine own_write_job (h.own t) (fun hactive => .inr ?_) fun hfin => ?_
    · exact hcov.dispatch jobId p g rfl r hp hsame hactive
    · by_contra hactive
      rw [Bool.not_eq_false] at hactive
      exact (hcov.dispatch jobId p g rfl r hp hsame hactive).2 hfin.1

/-- The update of a document. -/
theorem own_update_document {kind : OperationKind} {id : Uuid} {p : Document → Bool}
    {g : Document → Document} {r : Document} (h : FollowsCurrent live s)
    (hsent : Sent kind (.update (.document id) p g))
    (hread : s.read t (.document id) = some r) (hp : p r = true)
    (hfresh : documentCopyFresh t (.update (.document id) p g) s)
    (hcov : DocumentCovered live t (.update (.document id) p g) s) :
    OwnVersions live t (s.write t (.document id) (some (g r))) := by
  have hcopy := hfresh r hread hp
  refine own_write_document (h.own t) hcopy.1 fun hrev jobId hjob => ?_
  by_cases hsame : (g r).status = r.status
  · rw [hsame] at hrev
    by_cases hcur : (g r).currentAnalysisJobId = r.currentAnalysisJobId
    · exact h.read_reviewing hread hrev (hcur ▸ hjob)
    · rw [hcopy.2 hcur] at hrev
      cases hrev
  obtain ⟨hunchanged, decided, hbasis, hdone⟩ := hcov.review id p g rfl r hp hsame hrev
  have hcur : (g r).currentAnalysisJobId = r.currentAnalysisJobId := by
    cases hsent with
    | documentCurrent => exact absurd rfl hsame
    | _ => rfl
  obtain ⟨old, hold, hold'⟩ : ∃ old : Document, s.committed (.document id) = some old ∧
      r.currentAnalysisJobId = old.currentAnalysisJobId := by
    rcases hw : s.writes t (.document id) with _ | version
    · exact ⟨r, (Db.read_of_not_writes hw).symm.trans hread, rfl⟩
    · rw [Db.read_of_writes hw] at hread
      subst hread
      exact hunchanged id r hw
  have hjob' : old.currentAnalysisJobId = some jobId := hold'.symm.trans (hcur.symm.trans hjob)
  by_cases hst : (g r).status = old.status
  · exact .inl (h.reviewed id old hold (hst ▸ hrev) jobId hjob')
  · obtain rfl := Option.some.inj ((hcopy.1 old hold hst decided hbasis).symm.trans hjob')
    exact hdone

/-- **One statement keeps the invariant.** -/
theorem effect {kind : OperationKind} {f : AppStmt} (h : FollowsCurrent live s)
    (he : Effect t s f s') (hsent : Sent kind f) (hkind : kind ∈ reanalysisKinds)
    (hfresh : documentCopyFresh t f s) (hcov : DocumentCovered live t f s) : FollowsCurrent live s' := by
  have hstanding : s'.Pending fun _ _ _ => True :=
    h.standing.effect (fun _ _ => trivial) he hsent.deletes fun _ _ _ _ _ _ _ _ _ _ => trivial
  cases he with
  | same => exact h
  | draw => exact h.draw
  | delete => cases hsent
  | send m =>
      obtain ⟨jobId, sourceIds⟩ := m
      obtain ⟨hcreator, hdrawn, hidle⟩ := hcov.send jobId sourceIds rfl
      exact h.send hcreator hdrawn hidle
  | commit => exact h.commit
  | rollback => exact h.rollback
  | update hfree hread hp huniq =>
      rename_i k p g r
      refine h.write hfree hstanding ?_
      cases k
      case job jobId => exact h.own_update_job hread hp hcov
      case document id => exact h.own_update_document hsent hread hp hfresh hcov
      all_goals exact own_write_other (h.own t) (by simp) (by simp)
  | insert hfree hread huniq =>
      rename_i k row
      refine h.write hfree hstanding ?_
      cases k
      case job jobId =>
        have hnew : s.committed (.job jobId) = none := by
          rcases hc : s.committed (.job jobId) with _ | old
          · rfl
          · obtain ⟨new, hnew, -⟩ := h.standing.read (fun _ _ => trivial) t _ old hc
            rw [hread] at hnew
            cases hnew
        refine own_write_job (h.own t) (fun _ => .inl fun old hold => ?_) ?_
        · rw [hnew] at hold
          cases hold
        · rintro ⟨-, own, hown, -⟩
          rw [Db.read_of_writes hown] at hread
          cases hread
      case document id =>
        cases hsent
        simp [reanalysisKinds] at hkind
      all_goals exact own_write_other (h.own t) (by simp) (by simp)

end FollowsCurrent

/-- The contract of the runs in which no copy of a document is stale: only the creator of a job
hands it over. -/
def reanalysisContract (live : Process → Prop) : Contract Process Key Row Message where
  inv := FollowsCurrent live
  guar := fun t s s' => ∀ jobId : Uuid, jobId.1 ≠ t → Enqueued live jobId s' → Enqueued live jobId s
  allowed := documentCopyFresh
  guar_refl := fun _ _ _ _ _ h => h
  rollback := fun _ _ h => ⟨h.rollback, fun _ _ h => h⟩
  tick := fun _ _ h =>
    ⟨h.standing, h.drawn, h.reviewed, fun u => ⟨(h.own u).ended, (h.own u).decided, (h.own u).reviewing⟩⟩

/-! ## The programs -/

/-- The statements that may be sent whenever `L` holds, other than handing a job over. -/
def SafeUnder (live : Process → Prop) (t : Process) (kinds : List OperationKind)
    (L : AppDb → Prop) (f : AppStmt) : Prop :=
  (∃ kind ∈ kinds, Sent kind f) ∧ (∀ m, f ≠ .send m) ∧
    ∀ s, FollowsCurrent live s → L s → DocumentCovered live t f s

/-- Only sending hands messages over. -/
theorem effect_sent {f : AppStmt} (he : Effect t s f s') (hf : ∀ m, f ≠ .send m) :
    s'.sent = s.sent := by
  cases he with
  | send m => exact absurd rfl (hf m)
  | _ => rfl

/-- Statements that neither hand a job over nor update a job or a document. -/
theorem documentCovered_of {f : AppStmt} (hsend : ∀ m, f ≠ .send m)
    (hjob : ∀ jobId p g, f ≠ .update (.job jobId) p g)
    (hdocument : ∀ id p g, f ≠ .update (.document id) p g) : DocumentCovered live t f s :=
  ⟨fun _ _ h => absurd h (hsend _), fun _ _ _ h => absurd h (hjob _ _ _),
    fun _ _ _ h => absurd h (hdocument _ _ _)⟩

/-- The update of a document that leaves its status alone, or takes it out of review. -/
theorem documentCovered_update {id : Uuid} {p : Document → Bool} {g : Document → Document}
    (h : ∀ row, (g row).status ≠ row.status →
      DocumentLifecycle.canResetReview (g row).status = false) :
    DocumentCovered live t (.update (.document id) p g) s := by
  refine ⟨by simp, by simp, ?_⟩
  rintro id p g ⟨⟩ row - hne hrev
  rw [h row hne] at hrev
  cases hrev

/-- The update of a job that leaves its status alone, or ends it. -/
theorem documentCovered_job {jobId : Uuid} {p : AnalysisJob → Bool} {g : AnalysisJob → AnalysisJob}
    (h : ∀ row, (g row).status ≠ row.status →
      AnalysisJobLifecycle.isActive (g row).status = false) :
    DocumentCovered live t (.update (.job jobId) p g) s := by
  refine ⟨by simp, ?_, by simp⟩
  rintro id p g ⟨⟩ row - hne hactive
  rw [h row hne] at hactive
  cases hactive

instance (kind : OperationKind) (kinds : List OperationKind) (L : AppDb → Prop) :
    AllowsTransaction (SafeUnder live t (kind :: kinds) L) where
  reads h := ⟨⟨kind, List.mem_cons_self, AllowsReads.reads h⟩, by cases h <;> simp,
    fun s _ _ => by cases h <;> exact documentCovered_of (by simp) (by simp) (by simp)⟩
  commit := ⟨⟨kind, List.mem_cons_self, .commit⟩, by simp,
    fun _ _ _ => documentCovered_of (by simp) (by simp) (by simp)⟩
  rollback := ⟨⟨kind, List.mem_cons_self, .rollback⟩, by simp,
    fun _ _ _ => documentCovered_of (by simp) (by simp) (by simp)⟩

/-- One statement, other than handing a job over, within the contract. -/
theorem reanalysis_step {kind : OperationKind} {f : AppStmt} (h : FollowsCurrent live s)
    (he : Effect t s f s') (hsent : Sent kind f) (hkind : kind ∈ reanalysisKinds)
    (hsend : ∀ m, f ≠ .send m) (hfresh : documentCopyFresh t f s)
    (hcov : DocumentCovered live t f s) :
    (reanalysisContract live).inv s' ∧ (reanalysisContract live).guar t s s' := by
  refine ⟨h.effect he hsent hkind hfresh hcov, fun jobId _ hq hlive => ?_⟩
  rw [← effect_sent he hsend]
  exact hq hlive

/-- A program whose statements are safe keeps a stable assertion that they keep. -/
theorem triple_safe {kinds : List OperationKind} {L : AppDb → Prop} {α : Type} {p : Session α}
    (hkinds : ∀ kind ∈ kinds, kind ∈ reanalysisKinds)
    (hst : (reanalysisContract live).Stable t L)
    (hkeep : ∀ f s s', SafeUnder live t kinds L f → FollowsCurrent live s → L s → Effect t s f s' →
      L s') (h : p.Sends (SafeUnder live t kinds L)) :
    (reanalysisContract live).Triple t p L fun _ => L := by
  refine Triple.of_sends hst ?_ h
  intro f hf s hinv hL hfresh b s' he
  obtain ⟨⟨kind, hkind, hsent⟩, hsend, hcov⟩ := id hf
  have heffect := exec_effect he
  obtain ⟨hinv', hguar⟩ := reanalysis_step hinv heffect hsent (hkinds kind hkind) hsend hfresh
    (hcov s hinv hL)
  exact ⟨hinv', hguar, hkeep f s s' hf hinv hL heffect⟩

/-! ### Reviews -/

/-- No step of another process undoes a finished job. -/
theorem stable_done {jobId : Uuid} : (reanalysisContract live).Stable t (Done live jobId) :=
  ⟨fun _ _ _ _ hi _ hf _ h => FollowsCurrent.done_step hi hf h, fun _ _ _ h => h⟩

/-- No step of another process changes which current jobs `t` has written. -/
theorem stable_sameCurrent : (reanalysisContract live).Stable t (SameCurrent t) := by
  refine ⟨fun u s s' hu _ _ hf _ h id new hw => ?_, fun _ _ _ h => h⟩
  rw [hf.writes t (Ne.symm hu)] at hw
  rw [hf.committed_of_locked hu (hw ▸ Option.some_ne_none _)]
  exact h id new hw

/-- An idle transaction has changed no current job. -/
theorem sameCurrent_of_idle (h : s.Idle t) : SameCurrent t s := by
  intro id new hw
  rw [h] at hw
  cases hw

/-- A review and the final task leave the current job of a document alone. -/
theorem SameCurrent.effect {kind : OperationKind} {f : AppStmt} (h : SameCurrent t s)
    (he : Effect t s f s') (hsent : Sent kind f)
    (hkind : kind ∈ [OperationKind.reviewSave, .finalizeReview, .finalize]) : SameCurrent t s' := by
  cases he with
  | same | draw | send => exact h
  | delete => cases hsent
  | commit => exact sameCurrent_of_idle (Db.idle_commit s t)
  | rollback => exact sameCurrent_of_idle (Db.idle_rollback s t)
  | insert hfree hread huniq =>
      intro id new hw
      rw [Db.writes_write_of_ne] at hw
      · exact h id new hw
      · rintro rfl
        cases hsent
        simp at hkind
  | update hfree hread hp huniq =>
      rename_i k p g r
      intro id new hw
      by_cases hk : Key.document id = k
      · subst hk
        rw [Db.writes_write_self] at hw
        cases hw
        have hcur : (g r).currentAnalysisJobId = r.currentAnalysisJobId := by
          cases hsent with
          | documentCurrent hk => exact OperationKind.elim_of_mem hkind hk (by decide)
          | _ => rfl
        rw [hcur]
        rcases hw : s.writes t (.document id) with _ | version
        · exact ⟨r, (Db.read_of_not_writes hw).symm.trans hread, rfl⟩
        · rw [Db.read_of_writes hw] at hread
          subst hread
          exact h id r hw
      · rw [Db.writes_write_of_ne s _ hk] at hw
        exact h id new hw

/-- What a review relies on after it has loaded the document. -/
def Reviewable (live : Process → Prop) (t : Process) (document : Loaded Document) (s : AppDb) :
    Prop :=
  SameCurrent t s ∧ ∀ jobId, document.row.status = .awaitingApproval →
    document.row.currentAnalysisJobId = some jobId → Done live jobId s

/-- No step of another process takes the document of a review away. -/
theorem stable_reviewable {document : Loaded Document} :
    (reanalysisContract live).Stable t (Reviewable live t document) :=
  stable_sameCurrent.and (Stable.all fun _ => Stable.all fun _ => Stable.all fun _ => stable_done)

/-- The rest of a review, once the document is loaded. -/
theorem triple_review {document : Loaded Document} {α : Type} {p : Session α}
    (h : p.Sends (SafeUnder live t [.reviewSave, .finalizeReview] (Reviewable live t document))) :
    (reanalysisContract live).Triple t p (Reviewable live t document) fun _ _ => True := by
  refine (triple_safe (by decide) stable_reviewable ?_ h).mono (fun _ _ h => h)
    fun _ _ _ _ => trivial
  rintro f s s' ⟨⟨kind, hkind, hsent⟩, -⟩ hinv ⟨hsame, hdone⟩ he
  exact ⟨hsame.effect he hsent (List.mem_append_left [OperationKind.finalize] hkind),
    fun jobId hst hjob => hinv.done_step he.frame (hdone jobId hst hjob)⟩

/-- The statement that finishes a review is safe after the document was loaded. -/
theorem safe_finishes {document : Loaded Document} (jobId : Uuid)
    (hst : document.row.status = .awaitingApproval)
    (hjob : document.row.currentAnalysisJobId = some jobId) :
    SafeUnder live t [.reviewSave, .finalizeReview] (Reviewable live t document)
      (finishes document jobId) := by
  refine ⟨⟨.reviewSave, by simp, .documentStatus (.finish (by simp))⟩, by simp [finishes],
    fun s _ hL => ⟨by simp [finishes], by simp [finishes], ?_⟩⟩
  rintro id p g ⟨⟩ row - - -
  exact ⟨hL.1, jobId, rfl, .inl (hL.2 jobId hst hjob)⟩

/-- The exported key may be written to a document in review. -/
theorem safe_export {document : Loaded Document} (key : String) :
    SafeUnder live t [.reviewSave, .finalizeReview] (Reviewable live t document)
      (.update (.document document.id) (fun _ => true) (Document.withExportedKey key)) :=
  ⟨⟨.reviewSave, by simp, .documentExport (by simp)⟩, by simp,
    fun _ _ _ => documentCovered_update fun _ hne => absurd rfl hne⟩

/-- Loading the document of a review. -/
theorem triple_loadReview {projectId documentId : Uuid} :
    (reanalysisContract live).Triple t (getDocumentOrRaise projectId documentId)
      (fun s => s.Idle t) (ending (Reviewable live t) fun _ _ => True) := by
  refine triple_getDocumentOrRaise (fun _ => stable_reviewable) fun s row hinv hidle hread => ?_
  rw [hidle.read] at hread
  exact ⟨sameCurrent_of_idle hidle, fun jobId hst hjob =>
    hinv.reviewed documentId row hread (by rw [show row.status = _ from hst]; rfl) jobId hjob⟩

/-- **`finalize_review` keeps the contract.** -/
theorem triple_finalizeReview {projectId documentId : Uuid} {exporting : Option ExportRun} :
    (reanalysisContract live).Triple t
      (SuggestionService.finalizeReview projectId documentId exporting) (fun s => s.Idle t)
      fun _ _ => True := by
  refine triple_withUow (Q := fun _ _ => True) (triple_loadReview.bind
    (fun document => triple_review ?_) fun _ _ _ _ => trivial) (fun _ => Stable.const True)
    (fun _ _ _ _ => trivial) fun _ _ _ _ => trivial
  exact sends_finalizeLoaded safe_export safe_finishes

/-- **`atomic_review_save` keeps the contract.** -/
theorem triple_atomicReviewSave {projectId documentId userId : Uuid} {version : ℤ}
    {accepted rejected : List Uuid} {finalized : Bool} {exporting : Option ExportRun}
    {edits : Uuid → Option Text} :
    (reanalysisContract live).Triple t
      (SuggestionService.atomicReviewSave projectId documentId userId version accepted rejected
        finalized exporting edits) (fun s => s.Idle t) fun _ _ => True := by
  refine triple_withUow (Q := fun _ _ => True) (triple_loadReview.bind
    (fun document => triple_review ?_) fun _ _ _ _ => trivial) (fun _ => Stable.const True)
    (fun _ _ _ _ => trivial) fun _ _ _ _ => trivial
  refine sends_saveLoaded ?_ (fun decisions id now => ?_) safe_export safe_finishes
  · exact ⟨⟨.reviewSave, by simp, .documentVersion⟩, by simp,
      fun _ _ _ => documentCovered_update fun _ hne => absurd rfl hne⟩
  · exact ⟨⟨.reviewSave, by simp, Sent.decided (by simp)⟩, by simp,
      fun _ _ _ => documentCovered_of (by simp) (by simp) (by simp)⟩

/-! ### The final task -/

/-- A job stays handed over. -/
theorem stable_enqueued {jobId : Uuid} :
    (reanalysisContract live).Stable t (Enqueued live jobId) :=
  ⟨fun _ _ _ _ _ _ hf _ h => h.mono hf.sent, fun _ _ _ h => h⟩

/-- No step of another process stops `t` from finishing the job. -/
theorem stable_finishing {jobId : Uuid} :
    (reanalysisContract live).Stable t (Finishing live t jobId) := by
  refine stable_enqueued.and (Stable.of_writes fun s s' h hp => ?_)
  rwa [h]

/-- The final task writes the result of the job. -/
theorem triple_endJob {job : Loaded AnalysisJob} {status : AnalysisJobStatus}
    {errorCode errorMessage : Option String} (hlegal : status ∈ jobTransitions job.row.status)
    (hterminal : AnalysisJobLifecycle.isTerminal status = true) :
    (reanalysisContract live).Triple t
      (AnalysisJobRepository.updateStatus job status errorCode errorMessage)
      (fun s => SameCurrent t s ∧ Enqueued live job.id s)
      (ending (fun job' s => job'.id = job.id ∧ SameCurrent t s ∧ Finishing live t job.id s)
        fun _ _ => True) := by
  have hend : AnalysisJobLifecycle.isActive status = false := by
    simpa using hterminal
  refine Triple.now (stable_sameCurrent.and stable_enqueued) fun n => ?_
  set new := AnalysisJobRepository.withStatus job.row status errorCode errorMessage n with hnew
  have hstatus : new.status = status := rfl
  have honto : ∀ row, (AnalysisJob.onto job.row new row).status = status := by
    intro row
    rw [onto_status, hstatus, if_neg (AnalysisJobLifecycle.ne_of_mem_jobTransitions hlegal)]
  have hne : new ≠ job.row := by
    intro h
    exact AnalysisJobLifecycle.ne_of_mem_jobTransitions hlegal (hstatus ▸ congrArg AnalysisJob.status h)
  change (reanalysisContract live).Triple t (flushJob job new) _ _
  unfold flushJob
  rw [if_neg hne]
  refine (triple_flush (A := fun s => SameCurrent t s ∧ Finishing live t job.id s)
    (stable_sameCurrent.and stable_finishing) ?_).mono (fun _ _ h => h) ?_
  · intro s r hinv hpre hfresh hfree hread hp huniq
    have hsent : Sent .finalize (.update (.job job.id) (fun _ => true) (AnalysisJob.onto job.row new)) :=
      .jobStatus hlegal (.inr ⟨by simp, hterminal⟩)
    have heffect : Effect t s (.update (.job job.id) (fun _ => true)
        (AnalysisJob.onto job.row new)) _ := .update hfree hread hp huniq
    obtain ⟨hinv', hguar⟩ := reanalysis_step hinv heffect hsent (by decide) (by simp) hfresh
      (documentCovered_job fun row _ => by rw [honto, hend])
    refine ⟨hinv', hguar, hpre.1.effect heffect hsent (by simp), hpre.2, _,
      Db.writes_write_self _ _ _ _, by rw [honto, hend]⟩
  · rintro (e | job') s - h
    · trivial
    · obtain ⟨rfl, h⟩ := h
      exact ⟨rfl, h⟩

/-- The final task marks a partial success. -/
theorem triple_markPartial {job : Loaded AnalysisJob} {new : AnalysisJob}
    (hsame : new.status = job.row.status) :
    (reanalysisContract live).Triple t (flushJob job new)
      (fun s => SameCurrent t s ∧ Finishing live t job.id s)
      (ending (fun job' s => job'.id = job.id ∧ SameCurrent t s ∧ Finishing live t job.id s)
        fun _ _ => True) := by
  unfold flushJob
  split
  · exact fun _ _ h => ⟨rfl, h⟩
  refine (triple_flush (A := fun s => SameCurrent t s ∧ Finishing live t job.id s)
    (stable_sameCurrent.and stable_finishing) ?_).mono (fun _ _ h => h) ?_
  · intro s r hinv hpre hfresh hfree hread hp huniq
    obtain ⟨hcur, hq, own, hown, hend⟩ := hpre
    rw [Db.read_of_writes hown] at hread
    cases hread
    have hsent : Sent .finalize (.update (.job job.id) (fun _ => true) (AnalysisJob.onto job.row new)) :=
      .jobColumns hsame (by simp)
    have heffect : Effect t s (.update (.job job.id) (fun _ => true)
        (AnalysisJob.onto job.row new)) _ := .update hfree (Db.read_of_writes hown) hp huniq
    have honto : ∀ row, (AnalysisJob.onto job.row new row).status = row.status := by
      intro row
      rw [onto_status, if_pos hsame]
    obtain ⟨hinv', hguar⟩ := reanalysis_step hinv heffect hsent (by decide) (by simp) hfresh
      (documentCovered_job fun row hne => absurd (honto row) hne)
    exact ⟨hinv', hguar, hcur.effect heffect hsent (by simp), hq, _,
      Db.writes_write_self _ _ _ _, by rw [honto, hend]⟩
  · rintro (e | job') s - h
    · trivial
    · obtain ⟨rfl, h⟩ := h
      exact ⟨rfl, h⟩

/-- After a commit the transaction is idle. -/
theorem triple_commit {P : AppDb → Prop} :
    (reanalysisContract live).Triple t commit P fun _ s => s.Idle t :=
  Triple.commit Stable.idle
    (fun s hinv _ _ => ⟨hinv.commit, fun _ _ hq => hq, Db.idle_commit s t⟩) fun _ _ h => h

/-- The document goes with a job that is being finished. -/
theorem triple_finishDocument {document : Loaded Document} {jobId : Uuid} {target : DocumentStatus}
    {basis : Basis} (hbasis : basis.currentJob = some jobId)
    (hdecision : DocumentDecision .finalize target basis) :
    (reanalysisContract live).Triple t (DocumentRepository.updateStatus document target basis)
      (fun s => SameCurrent t s ∧ Finishing live t jobId s) fun _ _ => True := by
  unfold DocumentRepository.updateStatus
  split
  · exact fun _ _ _ => trivial
  refine (triple_flush (A := fun _ => True) (Stable.const True) ?_).mono (fun _ _ h => h)
    fun _ _ _ _ => trivial
  intro s r hinv hpre hfresh hfree hread hp huniq
  have hcov : DocumentCovered live t (.update (.document document.id) (fun _ => true)
      (Document.withStatus target basis)) s := by
    refine ⟨by simp, by simp, ?_⟩
    rintro id p g ⟨⟩ row - - -
    exact ⟨hpre.1, jobId, hbasis, .inr hpre.2⟩
  obtain ⟨hinv', hguar⟩ := reanalysis_step hinv (.update hfree hread hp huniq)
    (.documentStatus hdecision) (by decide) (by simp) hfresh hcov
  exact ⟨hinv', hguar, trivial⟩

/-- **The end of a final task keeps the contract**: the job is finished together with its document.
-/
theorem triple_finishJob {results : List SourceResult} {job : Loaded AnalysisJob}
    {document : Loaded Document} :
    (reanalysisContract live).Triple t (AnalysisTasks.finishJob results job document)
      (fun s => SameCurrent t s ∧ Enqueued live job.id s) fun _ _ => True := by
  have hterminal := isTerminal_summary results
  unfold AnalysisTasks.finishJob
  generalize AnalysisTasks.summary results = outcome at hterminal
  obtain ⟨jobStatus, errorCode, errorMessage⟩ := outcome
  refine (triple_reads (sends_count _ _) (stable_sameCurrent.and stable_enqueued)).seq fun pending => ?_
  unfold jobTransition
  rcases htr : AnalysisJobLifecycle.transition job.row.status jobStatus with _ | status
  · exact fun _ _ _ => trivial
  obtain ⟨rfl, hlegal⟩ := AnalysisJobLifecycle.transition_eq_some.mp htr
  refine (triple_endJob hlegal hterminal).seq fun job' => ?_
  refine Triple.fact fun hid => ?_
  rw [← hid]
  refine Triple.seq (triple_markPartial ?_) fun job'' => ?_
  · rfl
  refine Triple.fact fun hid => ?_
  split
  · unfold documentTransition
    rcases htr' : DocumentLifecycle.transition document.row.status
        (AnalysisJobLifecycle.documentStatusFor status (decide (0 < pending))) with _ | target
    · exact fun _ _ _ => trivial
    obtain ⟨rfl, hmem⟩ := DocumentLifecycle.transition_eq_some.mp htr'
    refine (triple_finishDocument (by rw [hid]) (.finalize hterminal hmem)).seq fun _ => ?_
    exact triple_commit.mono (fun _ _ h => h) fun _ _ _ _ => trivial
  · exact triple_commit.mono (fun _ _ h => h) fun _ _ _ _ => trivial

/-- The final task, delivered by the queue. -/
theorem triple_finalize {results : List SourceResult} {jobId : Uuid} :
    (reanalysisContract live).Triple t (AnalysisTasks.finalize results jobId)
      (fun s => SameCurrent t s ∧ Enqueued live jobId s) fun _ _ => True := by
  have hst : (reanalysisContract live).Stable t
      fun s => SameCurrent t s ∧ Enqueued live jobId s := stable_sameCurrent.and stable_enqueued
  refine triple_closing (Q := fun _ _ => True) ?_ (fun _ => Stable.const True) fun _ _ _ _ => trivial
  refine ((triple_reads (sends_getJob _) hst).and_returns (returns_getJob jobId)).seq fun found => ?_
  rcases found with _ | job
  · exact fun _ _ _ => trivial
  refine (Triple.fact (F := job.id = jobId) (P := fun s => SameCurrent t s ∧ Enqueued live jobId s)
    fun hid => ?_).pre fun s _ h => ⟨h.2 job rfl, h.1⟩
  subst hid
  dsimp only
  split
  · exact fun _ _ _ => trivial
  refine (triple_reads (sends_getDocument _) hst).seq fun found => ?_
  rcases found with _ | document
  · exact fun _ _ _ => trivial
  · exact triple_finishJob

/-! ### Starting and cancelling an analysis -/

/-- A cancellation and the creation of a job take documents out of review and end jobs. -/
theorem Sent.safeUnder {kind : OperationKind} {f : AppStmt} {L : AppDb → Prop} (h : Sent kind f)
    (hkind : kind ∈ [OperationKind.cancel, .create]) :
    SafeUnder live t [.cancel, .create] L f := by
  refine ⟨⟨kind, hkind, h⟩, ?_, fun s _ _ => ?_⟩
  · rintro m rfl
    cases h with
    | send hk => exact OperationKind.elim_of_mem hkind hk (by decide)
  cases h with
  | send hk => exact OperationKind.elim_of_mem hkind hk (by decide)
  | documentReopen hk => exact OperationKind.elim_of_mem hkind hk (by decide)
  | jobColumns hsame hk => exact OperationKind.elim_of_mem hkind hk (by decide)
  | jobBegun => simp at hkind
  | jobStatus hlegal hwriter =>
      rename_i copy new
      rcases hwriter with ⟨hk, -⟩ | ⟨-, hend⟩
      · exact OperationKind.elim_of_mem hkind hk (by decide)
      · refine documentCovered_job fun row _ => ?_
        rw [onto_status, if_neg (AnalysisJobLifecycle.ne_of_mem_jobTransitions hlegal)]
        simpa using hend
  | documentStatus hdecision =>
      refine documentCovered_update fun row _ => ?_
      cases hdecision with
      | restart => rfl
      | follow hk hjob =>
          simp only [List.mem_cons, List.not_mem_nil, or_false] at hjob
          rcases hjob with rfl | rfl | rfl <;> rfl
      | finalize => simp at hkind
      | finish hk => exact OperationKind.elim_of_mem hkind hk (by decide)
      | reset => simp at hkind
  | documentCurrent | documentVersion | documentExport =>
      exact documentCovered_update fun row hne => absurd rfl hne
  | _ => exact documentCovered_of (by simp) (by simp) (by simp)

/-- A program of such statements. -/
theorem triple_plain {α : Type} {p : Session α} {kind : OperationKind}
    (hkind : kind ∈ [OperationKind.cancel, .create]) (h : p.Sends (Sent kind)) :
    (reanalysisContract live).Triple t p (fun _ => True) fun _ _ => True :=
  triple_safe (by decide) (Stable.const True) (fun _ _ _ _ _ _ _ => trivial)
    (h.mono fun _ hf => hf.safeUnder hkind)

/-- Process `t` has drawn the id of a job and has not handed the job over. -/
def Fresh (live : Process → Prop) (t : Process) (jobId : Uuid) (s : AppDb) : Prop :=
  jobId.1 = t ∧ jobId.2 < s.drawn t ∧ ¬ Enqueued live jobId s

/-- No step of another process hands over a job that `t` has drawn. -/
theorem stable_fresh {jobId : Uuid} : (reanalysisContract live).Stable t (Fresh live t jobId) := by
  refine ⟨fun u s s' hu _ _ hf hg => ?_, fun _ _ _ h => h⟩
  rintro ⟨rfl, hdrawn, hnot⟩
  exact ⟨rfl, by rw [hf.drawn _ (Ne.symm hu)]; exact hdrawn, fun hq => hnot (hg jobId (Ne.symm hu) hq)⟩

/-- A program that does not hand the job over. -/
theorem triple_fresh {kind : OperationKind} {kinds : List OperationKind} {jobId : Uuid} {α : Type}
    {p : Session α} (hkinds : ∀ k ∈ kind :: kinds, k ∈ reanalysisKinds)
    (h : p.Sends (SafeUnder live t (kind :: kinds) (Fresh live t jobId))) :
    (reanalysisContract live).Triple t p (Fresh live t jobId) fun _ => Fresh live t jobId := by
  refine triple_safe hkinds stable_fresh ?_ h
  rintro f s s' ⟨-, hsend, -⟩ - ⟨hcreator, hdrawn, hnot⟩ he
  refine ⟨hcreator, Nat.lt_of_lt_of_le hdrawn he.frame.drawn_le, fun hq => hnot fun hlive => ?_⟩
  rw [← effect_sent he hsend]
  exact hq hlive

/-- A commit of the creator. -/
theorem triple_commitFresh {jobId : Uuid} :
    (reanalysisContract live).Triple t commit (Fresh live t jobId)
      fun _ s => s.Idle t ∧ Fresh live t jobId s :=
  Triple.commit (Stable.idle.and stable_fresh)
    (fun s hinv h _ => ⟨hinv.commit, fun _ _ hq => hq, Db.idle_commit s t, h⟩) fun _ _ h => h

/-- A created job is fresh. -/
theorem triple_createForDocument {document : Loaded Document} {status : AnalysisJobStatus}
    {key : Option String} (hstatus : status = .pending) (hlive : live t) :
    (reanalysisContract live).Triple t
      (AnalysisJobRepository.createForDocument document status key) (fun _ => True)
      (ending (fun job => Fresh live t job.id) fun _ _ => True) := by
  subst hstatus
  refine Triple.draw (A := fun id => Fresh live t id) (fun _ => stable_fresh) (fun s hinv _ => ?_)
    fun id => Triple.insert (A := fun _ => Fresh live t id) (fun _ => stable_fresh)
      (fun _ _ h _ => h) (fun s hinv h hfresh hfree hread huniq => ?_) fun inserted => ?_
  · refine ⟨hinv.draw, fun _ _ hq => hq, rfl, ?_, fun hq => ?_⟩
    · simp [Db.draw]
    · -- an id that is drawn now is in no message
      obtain ⟨sourceIds, hm⟩ := hq hlive
      exact absurd (hinv.drawn (t, s.drawn t) sourceIds hm hlive) (Nat.lt_irrefl _)
  · obtain ⟨hinv', hguar⟩ := reanalysis_step hinv (.insert hfree hread huniq)
      (show Sent .create _ from .insertJob (by simp)) (by decide) (by simp) hfresh
      (documentCovered_of (by simp) (by simp) (by simp))
    exact ⟨hinv', hguar, h⟩
  · cases inserted
    · exact fun _ _ _ => trivial
    · exact fun _ _ h => h

/-- The job that `_create_job_once` has stored is fresh, and its transaction is over. -/
def StoredFresh (live : Process → Prop) (t : Process) (outcome : CreateOutcome) (s : AppDb) : Prop :=
  ∀ job document, outcome = .created job document → s.Idle t ∧ Fresh live t job.id s

/-- A stored job is fresh when its transaction is over. -/
theorem triple_storeJob {document : Loaded Document} {key : Option String} (hlive : live t)
    (hst : DocumentLifecycle.canStartAnalysis document.row.status = true) :
    (reanalysisContract live).Triple t (AnalysisJobService.storeJob document key) (fun _ => True)
      (ending (StoredFresh live t) fun _ _ => True) := by
  unfold AnalysisJobService.storeJob
  refine Triple.bind (triple_plain (List.mem_cons_of_mem _ List.mem_cons_self)
    (sends_restart (Sent.restart List.mem_cons_self hst))) (fun document' => ?_) fun _ _ _ _ => trivial
  refine Triple.bind (triple_createForDocument rfl hlive) (fun job => ?_) fun _ _ _ _ => trivial
  refine Triple.bind (triple_fresh (by decide) (sends_setCurrentJob (Sent.safeUnder
    (.documentCurrent List.mem_cons_self) (List.mem_cons_of_mem _ List.mem_cons_self)))) (fun _ => ?_) fun _ _ _ _ => trivial
  refine Triple.bind triple_commitFresh (fun _ => ?_) fun _ _ _ _ => trivial
  rintro s - h job' document'' ⟨⟩
  exact h

/-- So is the job of `_create_job_once`. -/
theorem triple_createJobOnce {projectId documentId : Uuid} {key : Option String} {force : Bool}
    (hlive : live t) :
    (reanalysisContract live).Triple t
      (AnalysisJobService.createJobOnce projectId documentId key force) (fun _ => True)
      (ending (StoredFresh live t) fun _ _ => True) := by
  have hstart : (reanalysisContract live).Stable t fun _ => True := Stable.const True
  refine triple_withUow (Q := ending (StoredFresh live t) fun _ _ => True) ?_ (fun _ => hstart)
    (fun _ _ _ h => h) fun _ _ _ _ => trivial
  refine Triple.bind (triple_reads (sends_getDocumentOrRaise _ _) hstart) (fun document => ?_)
    fun _ _ _ _ => trivial
  refine Triple.bind (triple_reads (sends_findByKey _ _) hstart) (fun existing => ?_)
    fun _ _ _ _ => trivial
  split
  · rintro s - - job document' ⟨⟩
  split
  · rename_i hst
    refine Triple.bind (triple_reads (sends_getActive _) hstart) (fun active => ?_)
      fun _ _ _ _ => trivial
    split
    · split
      · rintro s - - job document' ⟨⟩
      · exact fun _ _ _ => trivial
    · split
      · exact fun _ _ _ => trivial
      · exact triple_storeJob hlive hst
  · exact fun _ _ _ => trivial

/-- Only the creation itself goes on to the dispatch. -/
theorem triple_createJob {projectId documentId : Uuid} {key : Option String} {force : Bool}
    (hlive : live t) :
    (reanalysisContract live).Triple t
      (AnalysisJobService.createJob projectId documentId key force) (fun _ => True)
      (ending (fun created s => s.Idle t ∧ Fresh live t created.1.id s) fun _ _ => True) := by
  have hstart : (reanalysisContract live).Stable t fun _ => True := Stable.const True
  refine Triple.bind (Triple.tryCatch (Q := ending (StoredFresh live t) fun _ _ => True)
    (triple_createJobOnce hlive) (fun _ _ _ h => h) fun e => ?_) (fun outcome => ?_)
    fun _ _ _ _ => trivial
  · split
    · refine Triple.bind (J := fun _ _ => True) (triple_withUow
        (triple_reads (sends_findByKey _ _) hstart) (fun _ => hstart) (fun _ _ _ _ => trivial)
        fun _ _ _ _ => trivial) (fun existing => ?_) fun _ _ _ _ => trivial
      split
      · exact fun _ _ _ => trivial
      · exact fun _ _ _ => trivial
    · exact fun _ _ _ => trivial
  · split
    · exact fun s _ h => h _ _ rfl
    · exact fun _ _ _ => trivial

/-- The creator dispatches its job. -/
theorem safe_dispatch {job : Loaded AnalysisJob} {document : Loaded Document} :
    (AnalysisJobService.setJobStatus job document .dispatched none none).Sends
      (SafeUnder live t [.start] (Fresh live t job.id)) := by
  refine sends_setJobStatus (fun hlegal new hnew => ?_) fun hmem => ?_
  · refine ⟨⟨.start, by simp, .jobStatus (hnew ▸ hlegal) (.inl (by simp [hnew]))⟩, by simp,
      fun s _ hfresh => ⟨by simp, ?_, by simp⟩⟩
    rintro jobId p g ⟨⟩ - - - -
    exact ⟨hfresh.1, hfresh.2.2⟩
  · exact ⟨⟨.start, by simp, .documentStatus (.follow (by simp) (by simp) hmem)⟩, by simp,
      fun _ _ _ => documentCovered_update fun _ _ => rfl⟩

/-- A job that could not be handed over fails, and its document becomes a draft. -/
theorem safe_unavailable {job : Loaded AnalysisJob} {document : Loaded Document}
    {message : String} :
    (AnalysisJobService.setJobStatus job document .failed (some "QUEUE_UNAVAILABLE")
      (some message)).Sends (SafeUnder live t [.start] fun _ => True) := by
  refine sends_setJobStatus (fun hlegal new hnew => ?_) fun hmem => ?_
  · refine ⟨⟨.start, by simp, .jobStatus (hnew ▸ hlegal) (.inl (by simp [hnew]))⟩, by simp,
      fun s _ _ => documentCovered_job fun row _ => ?_⟩
    rw [onto_status, hnew, if_neg (AnalysisJobLifecycle.ne_of_mem_jobTransitions hlegal)]
    rfl
  · exact ⟨⟨.start, by simp, .documentStatus (.follow (by simp) (by simp) hmem)⟩, by simp,
      fun _ _ _ => documentCovered_update fun _ _ => rfl⟩

/-- The task's identifier may be stored whenever. -/
theorem safe_taskId {job : Loaded AnalysisJob} {taskId : String} :
    (AnalysisJobRepository.setCeleryTaskId job taskId).Sends
      (SafeUnder live t [.start] fun _ => True) := by
  refine sends_setCeleryTaskId fun new hsame => ?_
  refine ⟨⟨.start, by simp, .jobColumns hsame (by simp)⟩, by simp,
    fun _ _ _ => documentCovered_job fun row hne => absurd ?_ hne⟩
  rw [onto_status, if_pos hsame]

/-- The end of the dispatch, when the queue has answered. -/
theorem triple_afterSend {α : Type} {p : Session α}
    (h : p.Sends (SafeUnder live t [.start] fun _ => True)) :
    (reanalysisContract live).Triple t p (fun _ => True) fun _ _ => True :=
  triple_safe (by decide) (Stable.const True) (fun _ _ _ _ _ _ _ => trivial) h

/-- A fresh job may be handed over once. -/
theorem triple_sendFresh {jobId : Uuid} {sourceIds : List Uuid} {α : Type} {p : Session α}
    (h : p.Sends (SafeUnder live t [.start] fun _ => True)) :
    (reanalysisContract live).Triple t (send (.analysis jobId sourceIds) >>= fun _ => p)
      (fun s => s.Idle t ∧ Fresh live t jobId s) fun _ _ => True := by
  refine Triple.send (A := fun _ => True) (Stable.const True) ?_ (triple_afterSend h)
  rintro s hinv ⟨hidle, hcreator, hdrawn, -⟩
  exact ⟨hinv.send hcreator hdrawn hidle,
    fun jobId' hne => enqueued_of_send fun h => hne (h ▸ hcreator), trivial⟩

/-- `dispatch_job` hands a fresh job over. -/
theorem triple_dispatchJob {job : Loaded AnalysisJob} {held : Option (Loaded Document)}
    {run : EnqueueRun} :
    (reanalysisContract live).Triple t (AnalysisJobService.dispatchJob job held run)
      (fun s => s.Idle t ∧ Fresh live t job.id s) fun _ _ => True := by
  unfold AnalysisJobService.dispatchJob
  split
  · refine Triple.seq (J := ending (fun r s => (s.Idle t ∧ Fresh live t job.id s) ∧ r.1.id = job.id)
      fun _ _ => True) (triple_withUow (Q := ending (fun r s => (s.Idle t ∧ Fresh live t job.id s) ∧
        r.1.id = job.id) fun _ _ => True) ?_ (fun _ => Stable.const True) (fun _ _ _ h => h)
        fun _ _ _ _ => trivial) fun dispatched => ?_
    · refine Triple.bind ((triple_reads (sends_documentOf _ _) stable_fresh).pre fun _ _ h => h.2)
        (fun document => ?_) fun _ _ _ _ => trivial
      refine Triple.bind (triple_reads (sends_listForAnalysis _ _) stable_fresh)
        (fun sourceIds => ?_) fun _ _ _ _ => trivial
      refine Triple.bind ((triple_fresh (by decide) safe_dispatch).and_returns returns_setJobStatus)
        (fun result => ?_) fun _ _ _ _ => trivial
      obtain ⟨job', document'⟩ := result
      refine (Triple.fact fun hid => ?_).pre fun _ _ h => ⟨h.2, h.1⟩
      exact Triple.bind triple_commitFresh (fun _ => fun _ _ h => ⟨h, hid⟩) fun _ _ _ _ => trivial
    · obtain ⟨job', document', sourceIds⟩ := dispatched
      dsimp only
      refine (Triple.fact (F := job'.id = job.id) fun hid => ?_).pre fun _ _ h => ⟨h.2, h.1⟩
      rw [← hid]
      split
      · refine triple_sendFresh (sends_withUow ?_)
        exact safe_taskId.bind fun _ => sends_commit.bind fun _ => trivial
      · rename_i message delivered
        have hrest : (AnalysisJobService.markQueueUnavailable job' (some document') message).Sends
            (SafeUnder live t [.start] fun _ => True) :=
          sends_withUow ((sends_documentOf _ _).bind fun _ => safe_unavailable.bind fun _ =>
            sends_commit.bind fun _ => trivial)
        cases delivered
        · exact (triple_afterSend hrest).pre fun _ _ _ => trivial
        · exact triple_sendFresh hrest
  · exact fun _ _ _ => trivial

/-- **`start_analysis_job` keeps the contract.** -/
theorem triple_startAnalysisJob {projectId documentId : Uuid} {key : Option String}
    {force held : Bool} {run : EnqueueRun} (hlive : live t) :
    (reanalysisContract live).Triple t
      (AnalysisJobService.startAnalysisJob projectId documentId key force held run)
      (fun _ => True) fun _ _ => True := by
  unfold AnalysisJobService.startAnalysisJob
  refine Triple.seq (J := fun _ _ => True) ?_ fun existing => ?_
  · split
    · split
      · exact fun _ _ _ => trivial
      · exact triple_plain List.mem_cons_self sends_findJobByKey
    · exact fun _ _ _ => trivial
  split
  · exact fun _ _ _ => trivial
  · exact (triple_createJob hlive).seq fun _ => triple_dispatchJob

/-! ## Runs -/

/-- The operations that analyse a document again and those that they race with; a final task is
delivered by the queue. -/
def Operation.Reanalyses : Operation → Prop
  | .finalize delivery _ _ => delivery.isSome = true
  | op => op.kind ∈ reanalysisKinds

instance : DecidablePred Operation.Reanalyses := fun op => by
  cases op <;> unfold Operation.Reanalyses <;> infer_instance

/-- A start: the jobs that documents in review have, and those that the queue holds, were created
before, and the former are done. -/
structure ReanalysisStart (c : AppConfig) : Prop where
  quiet : ∀ k, c.db.dirty k = none
  procs : ∀ t p, c.procs t = some p → ∃ op : Operation, op.Reanalyses ∧ p = op.program
  sent : ∀ jobId sourceIds, Message.analysis jobId sourceIds ∈ c.db.sent → c.procs jobId.1 = none
  reviewed : ∀ id (document : Document), c.db.committed (.document id) = some document →
    DocumentLifecycle.canResetReview document.status = true →
      ∀ jobId, document.currentAnalysisJobId = some jobId → c.procs jobId.1 = none ∧
        ∃ row : AnalysisJob, c.db.committed (.job jobId) = some row ∧
          AnalysisJobLifecycle.isActive row.status = false

/-- **Every operation keeps the contract.** -/
theorem triple_reanalysis {op : Operation} (hop : op.Reanalyses) (hlive : live t) :
    (reanalysisContract live).Triple t op.program (fun s => s.Idle t) fun _ _ => True := by
  have hrequest : ∀ {α : Type} {body : Session α} {P : AppDb → Prop},
      (reanalysisContract live).Triple t body P (fun _ _ => True) →
        (reanalysisContract live).Triple t (request body) P fun _ _ => True := fun h =>
    triple_request (triple_closing h (fun _ => Stable.const True) fun _ _ _ _ => trivial)
      (fun _ _ _ _ => trivial) fun _ _ _ _ => trivial
  cases op with
  | create =>
      refine (triple_plain (List.mem_cons_of_mem _ List.mem_cons_self) ?_).pre fun _ _ _ => trivial
      exact sends_request (sends_createJob List.mem_cons_self)
  | cancel =>
      refine (triple_plain List.mem_cons_self ?_).pre fun _ _ _ => trivial
      exact sends_request sends_cancelJob
  | start => exact hrequest ((triple_startAnalysisJob hlive).pre fun _ _ _ => trivial)
  | reviewSave => exact hrequest triple_atomicReviewSave
  | finalizeReview => exact hrequest triple_finalizeReview
  | finalize delivery results jobId =>
      obtain ⟨sourceIds, rfl⟩ := Option.isSome_iff_exists.mp hop
      refine Triple.await Stable.idle (triple_finalize.pre fun s _ h => ?_)
      exact ⟨sameCurrent_of_idle h.1, fun _ => ⟨sourceIds, h.2⟩⟩
  | _ => simp [Operation.Reanalyses, Operation.kind, reanalysisKinds] at hop

/-- The processes of a start are verified against the contract. -/
theorem verified_reanalysis {c : AppConfig} (h : ReanalysisStart c) :
    (reanalysisContract fun t => c.procs t ≠ none).Verified (fun _ _ _ => True) c := by
  refine ⟨⟨Db.Pending.of_quiet h.quiet, fun jobId sourceIds hm hlive => ?_,
    fun id document hdocument hst jobId hjob => ?_,
    fun t => OwnVersions.of_writes_none (Db.idle_of_quiet h.quiet t)⟩, fun t p hp => ?_⟩
  · exact absurd (h.sent jobId sourceIds hm) hlive
  · obtain ⟨hpast, hrow⟩ := h.reviewed id document hdocument hst jobId hjob
    exact ⟨fun hlive => absurd hpast hlive, hrow⟩
  · obtain ⟨op, hop, rfl⟩ := h.procs t p hp
    exact ⟨_, Stable.idle, Db.idle_of_quiet h.quiet t,
      triple_reanalysis hop (by rw [hp]; exact Option.some_ne_none _)⟩

/-- **No stale writer.** In every run in which no copy of a document is stale when it is written,
whoever commits a new status of a document on a decision for a job finds that job to be the
current one, and does not leave the document in review while its current job is active. -/
theorem stale_decision_not_committed {c₀ c c' : AppConfig} (hstart : ReanalysisStart c₀)
    (hrun : c₀.Steps documentCopyFresh c) (hstep : c.Step documentCopyFresh c') {t : Process}
    {w : (k : Key) → Option (Option (Row k))} (hcommit : c'.db.log = c.db.log ++ [(t, w)])
    {id jobId : Uuid} {old new : Document} (hold : c.db.committed (.document id) = some old)
    (hnew : w (.document id) = some (some new)) (hchange : new.status ≠ old.status)
    (hbasis : new.basis.currentJob = some jobId) :
    old.currentAnalysisJobId = some jobId ∧
      (DocumentLifecycle.canResetReview new.status = true →
        ∀ current, new.currentAnalysisJobId = some current →
          ∃ row : AnalysisJob, c'.db.committed (.job current) = some row ∧
            AnalysisJobLifecycle.isActive row.status = false) := by
  have hv := (verified_reanalysis hstart).steps hrun
  have hv' := hv.step hstep
  have hcommitted : c.db.writes t (.document id) = some (some new) ∧
      c'.db.committed (.document id) = some new := by
    rcases hv.step_cases hstep with ⟨u, hf, -⟩ | ⟨n, hn⟩
    · rcases hf.committed with ⟨-, hlog⟩ | ⟨hc, hlog, -⟩
      · rw [hlog] at hcommit
        simp at hcommit
      · obtain ⟨rfl, rfl⟩ : u = t ∧ c.db.writes u = w := by
          simpa using List.append_cancel_left (hlog.symm.trans hcommit)
        exact ⟨hnew, by rw [hc, Db.read_of_writes hnew]⟩
    · rw [hn] at hcommit
      simp [Db.tick] at hcommit
  refine ⟨(hv.inv.own t).decided id new old hcommitted.1 hold hchange jobId hbasis,
    fun hrev current hcurrent => ?_⟩
  exact (hv'.inv.reviewed id new hcommitted.2 hrev current hcurrent).2

/-! ## A review and a new analysis -/

/-- A document in review, all decided. -/
def decidedDocument : Document where
  projectId := (9, 2)
  name := "a.txt"
  format := .txt
  storageKey := "a"
  sizeBytes := 1
  status := .awaitingApproval
  currentAnalysisJobId := some (9, 1)

/-- The document when it has been given a new job. -/
def restartedDocument : Document :=
  (decidedDocument.withStatus .draft { documentStatus := some .awaitingApproval }).withCurrentJob
    (some (1, 0))

/-- What finishing its review writes. -/
def finishedBasis : Basis where
  currentJob := some (9, 1)
  documentStatus := some .awaitingApproval
  pendingCount := some 0

/-- Process 0 is a request to finish the review of the document, process 1 a request to analyse it
again. -/
def reviewAndRestart : AppConfig :=
  AppConfig.start
    [⟨.document (9, 0), decidedDocument⟩, ⟨.job (9, 1), { documentId := (9, 0), status := .success }⟩]
    [] [.finalizeReview (9, 2) (9, 0) none, .create (9, 2) (9, 0) none true]

/-- The two requests are such a start. -/
theorem reviewAndRestart_start : ReanalysisStart reviewAndRestart where
  quiet _ := rfl
  procs t p hp := by
    obtain ⟨op, hop, rfl⟩ := Option.map_eq_some_iff.mp hp
    have hall : ∀ op ∈ [Operation.finalizeReview (9, 2) (9, 0) none, .create (9, 2) (9, 0) none true],
        op.Reanalyses := by simp only [List.forall_mem_cons]; decide
    exact ⟨op, hall op (List.mem_of_getElem? hop), rfl⟩
  sent _ _ h := nomatch h
  reviewed id document hdocument _ jobId hjob := by
    have hrow := List.of_mem_dlookup hdocument
    simp only [List.mem_cons, Sigma.mk.injEq, List.not_mem_nil, or_false, reduceCtorEq,
      false_and, Key.document.injEq] at hrow
    obtain ⟨rfl, hrow⟩ := hrow
    cases hrow
    cases hjob
    exact ⟨rfl, _, rfl, rfl⟩

/-- The request reads the document and counts. -/
def reviewReads : List (Move Process) := List.replicate 2 (.act 0)

/-- The request flushes the status of the document. -/
def reviewWrites : List (Move Process) := [.act 0]

/-- The other request, from its reads to its commit. -/
def restarts : List (Move Process) := List.replicate 7 (.act 1)

/-- Nobody interferes: the review is finished on the current job, which is done. -/
theorem review_finished_on_current_job :
    ∃ c c' old new, reviewAndRestart.Steps documentCopyFresh c ∧ c.Step documentCopyFresh c' ∧
      c.db.committed (.document (9, 0)) = some old ∧
      c'.db.committed (.document (9, 0)) = some new ∧ new.status = .ready ∧
      old.currentAnalysisJobId = some (9, 1) ∧
      ∀ current, new.currentAnalysisJobId = some current →
        ∃ row : AnalysisJob, c'.db.committed (.job current) = some row ∧
          AnalysisJobLifecycle.isActive row.status = false := by
  obtain ⟨c, hrun, hc⟩ := Config.exists_steps_of_run documentCopyFresh (reviewReads ++ reviewWrites)
    reviewAndRestart (fun c => c.commits 0 &&
      (decide (c.db.committed (.document (9, 0)) = some decidedDocument) &&
        decide (c.db.writes 0 (.document (9, 0)) =
          some (some (decidedDocument.withStatus .ready finishedBasis)))))
    (by decide +kernel)
  simp only [Bool.and_eq_true, decide_eq_true_eq] at hc
  obtain ⟨hcommits, hold, hnew⟩ := hc
  obtain ⟨c', hstep, hdb⟩ := Config.exists_step_of_commits (C := documentCopyFresh) hcommits trivial
  obtain ⟨hcurrent, hdone⟩ := stale_decision_not_committed reviewAndRestart_start hrun hstep
    (by rw [hdb]; rfl) hold hnew (by decide) rfl
  exact ⟨c, c', _, _, hrun, hstep, hold, by rw [hdb, Db.commit_committed, Db.read_of_writes hnew],
    rfl, hcurrent, hdone rfl⟩

/-- The new analysis is committed between the count and the flush: the document is ready while its
new job is pending. -/
theorem stale_review_committed :
    ¬ ∀ (c₀ c c' : AppConfig) (t : Process) (w : (k : Key) → Option (Option (Row k)))
      (id jobId : Uuid) (old new : Document), ReanalysisStart c₀ → c₀.Steps Config.anyStmt c →
      c.Step Config.anyStmt c' → c'.db.log = c.db.log ++ [(t, w)] →
      c.db.committed (.document id) = some old → w (.document id) = some (some new) →
      new.status ≠ old.status → new.basis.currentJob = some jobId →
      old.currentAnalysisJobId = some jobId ∧
        (DocumentLifecycle.canResetReview new.status = true →
          ∀ current, new.currentAnalysisJobId = some current →
            ∃ row : AnalysisJob, c'.db.committed (.job current) = some row ∧
              AnalysisJobLifecycle.isActive row.status = false) := by
  intro h
  obtain ⟨c, hrun, hc⟩ := Config.exists_steps_of_run Config.anyStmt
    (reviewReads ++ restarts ++ reviewWrites) reviewAndRestart (fun c => c.commits 0 &&
      (decide (c.db.committed (.document (9, 0)) = some restartedDocument) &&
        decide (c.db.writes 0 (.document (9, 0)) = some (some (restartedDocument.withStatus .ready finishedBasis)))))
    (by decide +kernel)
  simp only [Bool.and_eq_true, decide_eq_true_eq] at hc
  obtain ⟨hcommits, hold, hnew⟩ := hc
  obtain ⟨c', hstep, hdb⟩ := Config.exists_step_of_commits (C := Config.anyStmt) hcommits trivial
  have hstale := (h reviewAndRestart c c' 0 _ (9, 0) (9, 1) _ _ reviewAndRestart_start hrun hstep
    (by rw [hdb]; rfl) hold hnew (by decide) rfl).1
  cases hstale

end SyncBack
