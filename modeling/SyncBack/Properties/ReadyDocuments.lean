import SyncBack.Application.SessionRules
import SyncBack.Txn.Unique

/-!
# A ready document has no pending suggestion

The end of a review counts the pending suggestions in one statement and makes the document ready
in another; a reset of a decision chooses from its copy of the document whether to reopen the
review. `ready_document_decided` says when the two fit together: when the count still holds as the
document is made ready, and a reset in a document that was loaded in review does not find it ready.
`pending_in_ready_document` is a run in which a reset is committed between the count and the change
of the document.
-/

namespace SyncBack

open Txn Session Contract

/-! ## The condition -/

/-- The suggestion is a pending one of the job. -/
def Suggestion.pendingFor (jobId : Uuid) (row : Suggestion) : Bool :=
  row.analysisJobId = jobId && row.status = .pending

/-- The last reset of the suggestion was decided on a document in review. -/
def Suggestion.resetInReview (row : Suggestion) : Bool :=
  row.basis.documentStatus = some .awaitingApproval

/-- The document is ready, with the results of the job. -/
def Document.readyWith (jobId : Uuid) (row : Document) : Bool :=
  row.currentAnalysisJobId = some jobId && row.status = .ready

/-- A suggestion of the job that transaction `t` sees as pending, or that somebody is resetting in
review. -/
def openSuggestion (s : AppDb) (t : Process) (jobId : Uuid) : Key → Bool
  | .suggestion id =>
      (s.read t (.suggestion id)).any (Suggestion.pendingFor jobId) ||
        (s.newest (.suggestion id)).any fun row : Suggestion =>
          row.pendingFor jobId && row.resetInReview
  | _ => false

/-- A document that is ready with the results of the job, or that somebody is making ready. -/
def readyDocument (s : AppDb) (jobId : Uuid) : Key → Bool
  | .document id =>
      (s.committed (.document id)).any (Document.readyWith jobId) ||
        (s.newest (.document id)).any (Document.readyWith jobId)
  | _ => false

/-- **The checks of a review have not grown stale**: a document is made ready when no suggestion of
its current job is open, and a suggestion is reset in review when its document is not ready. -/
def reviewCheckFresh : Process → AppStmt → AppDb → Prop
  | t, .update (.document id) p g, s => ∀ row : Document, row ∈ s.read t (.document id) →
      p row = true → (g row).status = .ready → ∀ jobId ∈ (g row).currentAnalysisJobId,
        ∀ k ∈ s.keys, openSuggestion s t jobId k = false
  | t, .update (.suggestion id) p g, s => ∀ row : Suggestion, row ∈ s.read t (.suggestion id) →
      p row = true → (g row).status = .pending → (g row).resetInReview = true →
        ∀ k ∈ s.keys, readyDocument s (g row).analysisJobId k = false
  | _, _, _ => True

instance : ∀ (t : Process) (f : AppStmt) (s : AppDb), Decidable (reviewCheckFresh t f s)
  | t, .update (.document id) p g, s =>
      inferInstanceAs (Decidable (∀ row ∈ s.read t (.document id), p row = true →
        (g row).status = .ready → ∀ jobId ∈ (g row).currentAnalysisJobId,
          ∀ k ∈ s.keys, openSuggestion s t jobId k = false))
  | t, .update (.suggestion id) p g, s =>
      inferInstanceAs (Decidable (∀ row ∈ s.read t (.suggestion id), p row = true →
        (g row).status = .pending → (g row).resetInReview = true →
          ∀ k ∈ s.keys, readyDocument s (g row).analysisJobId k = false))
  | _, .update (.job _) _ _, _ | _, .update (.jobSource _ _) _ _, _
  | _, .update (.source _) _ _, _ | _, .update (.documentSource _ _) _ _, _ => isTrue trivial
  | _, .get _, _ | _, .find _, _ | _, .insert _ _, _ | _, .delete _ _, _ | _, .draw, _
  | _, .now, _ | _, .send _, _ | _, .await _, _ | _, .commit, _ | _, .rollback, _ => isTrue trivial

/-- The operations of the claim. -/
def reviewKinds : List OperationKind :=
  [.reviewSave, .finalizeReview, .patch, .resetSuggestion, .resetAnalysis, .finalize]

/-! ## The invariant -/

/-- A document keeps its current job, and a suggestion its job. -/
def SameJob : (k : Key) → Row k → Row k → Prop
  | .document _, (old : Document), (new : Document) =>
      new.currentAnalysisJobId = old.currentAnalysisJobId
  | .suggestion _, (old : Suggestion), (new : Suggestion) => new.analysisJobId = old.analysisJobId
  | _, _, _ => True

/-- A row keeps its job. -/
theorem SameJob.refl (k : Key) (row : Row k) : SameJob k row row := by
  cases k <;> trivial

/-- What is kept twice is kept. -/
theorem SameJob.trans (k : Key) (a b c : Row k) (h : SameJob k a b) (h' : SameJob k b c) :
    SameJob k a c := by
  cases k
  case document | suggestion => exact Eq.trans h' h
  all_goals trivial

/-- The document that a job is current in. -/
def currentJob : (k : Key) → Row k → Option Uuid
  | .document _, (row : Document) => row.currentAnalysisJobId
  | _, _ => none

/-- No suggestion of the job is pending among the rows. -/
def Decided (jobId : Uuid) (rows : (k : Key) → Option (Row k)) : Prop :=
  ∀ id (row : Suggestion), rows (.suggestion id) = some row → row.analysisJobId = jobId →
    row.status ≠ .pending

/-- What holds of the versions that transaction `t` has written. -/
structure OwnReview (t : Process) (s : AppDb) : Prop where
  /-- A document is ready when `t` sees no pending suggestion, and nobody makes one in review. -/
  finishing : ∀ id (document : Document) jobId, s.writes t (.document id) = some (some document) →
    document.status = .ready → document.currentAnalysisJobId = some jobId →
      Decided jobId (s.read t) ∧ ∀ u id (row : Suggestion),
        s.writes u (.suggestion id) = some (some row) → row.analysisJobId = jobId →
          row.status = .pending → row.resetInReview = false
  /-- A suggestion that is reset in review belongs to a document that is not ready. -/
  resetting : ∀ id (row : Suggestion) documentId (document : Document),
    s.writes t (.suggestion id) = some (some row) → row.status = .pending →
      row.resetInReview = true → s.committed (.document documentId) = some document →
        document.currentAnalysisJobId = some row.analysisJobId → document.status ≠ .ready

/-- What holds of documents and suggestions at any time. -/
structure Settled (s : AppDb) : Prop where
  kept : s.Pending SameJob
  current : s.Unique currentJob
  ready : ∀ id (document : Document) jobId, s.committed (.document id) = some document →
    document.status = .ready → document.currentAnalysisJobId = some jobId → Decided jobId s.committed
  own : ∀ t, OwnReview t s

/-- Before a commit: a suggestion that was not reset in review comes with its reopened document. -/
def ReopenCovered (t : Process) (s : AppDb) : Prop :=
  ∀ id (row : Suggestion), s.writes t (.suggestion id) = some (some row) → row.status = .pending →
    row.resetInReview = false → ∃ documentId, ∃ document : Document,
      s.writes t (.document documentId) = some (some document) ∧
        document.currentAnalysisJobId = some row.analysisJobId ∧ document.status ≠ .ready

variable {s s' : AppDb} {t : Process}

namespace Settled

/-- The document that `t` has reopened for a suggestion is the one with the job of the suggestion,
and `t` holds it. -/
theorem writes_of_reopened (h : Settled s) (hcov : ReopenCovered t s) {id documentId : Uuid}
    {row : Suggestion} {document : Document} (hw : s.writes t (.suggestion id) = some (some row))
    (hpending : row.status = .pending) (hbasis : row.resetInReview = false)
    (hlive : s.Live (.document documentId) document)
    (hjob : document.currentAnalysisJobId = some row.analysisJobId) :
    s.writes t (.document documentId) ≠ none := by
  obtain ⟨d, reopened, hd, hjob', -⟩ := hcov id row hw hpending hbasis
  obtain rfl : d = documentId := Key.document.inj
    (h.current _ _ _ _ row.analysisJobId (.inr ⟨t, hd⟩) hlive hjob' hjob)
  rw [hd]
  exact Option.some_ne_none _

/-- **What a commit makes ready is decided**: its own versions and the committed rows agree. -/
theorem ready_commit (h : Settled s) (hcov : ReopenCovered t s) {id jobId : Uuid}
    {document : Document} (hread : s.read t (.document id) = some document)
    (hst : document.status = .ready) (hjob : document.currentAnalysisJobId = some jobId) :
    Decided jobId (s.read t) := by
  rcases hd : s.writes t (.document id) with _ | version
  · -- the document was ready before, and is not reopened by `t`
    rw [Db.read_of_not_writes hd] at hread
    intro sid row hrow hrowJob hpending
    rcases hw : s.writes t (.suggestion sid) with _ | version
    · rw [Db.read_of_not_writes hw] at hrow
      exact h.ready id document jobId hread hst hjob sid row hrow hrowJob hpending
    · rw [Db.read_of_writes hw] at hrow
      subst hrow hrowJob
      rcases hbasis : row.resetInReview with _ | _
      · exact h.writes_of_reopened hcov hw hpending hbasis (.inl hread) hjob hd
      · exact (h.own t).resetting sid row id document hw hpending hbasis hread hjob hst
  · rw [Db.read_of_writes hd] at hread
    subst hread
    exact ((h.own t).finishing id document jobId hd hst hjob).1

/-- The others see no pending suggestion of a document that they make ready, after a commit. -/
theorem finishing_commit (h : Settled s) (hcov : ReopenCovered t s) {u : Process} (hu : u ≠ t)
    {id jobId : Uuid} {document : Document} (hd : s.writes u (.document id) = some (some document))
    (hst : document.status = .ready) (hjob : document.currentAnalysisJobId = some jobId) :
    Decided jobId ((s.commit t).read u) := by
  obtain ⟨hdecided, hothers⟩ := (h.own u).finishing id document jobId hd hst hjob
  intro sid row hrow hrowJob hpending
  have hwrites := congrFun (Db.writes_commit_other s hu) (.suggestion sid)
  rcases hw : s.writes u (.suggestion sid) with _ | version
  · rw [hw] at hwrites
    rw [Db.read_of_not_writes hwrites, Db.commit_committed] at hrow
    rcases hwt : s.writes t (.suggestion sid) with _ | version
    · rw [Db.read_of_not_writes hwt, ← Db.read_of_not_writes hw] at hrow
      exact hdecided sid row hrow hrowJob hpending
    · rw [Db.read_of_writes hwt] at hrow
      subst hrow hrowJob
      have hbasis := hothers t sid row hwt rfl hpending
      exact hu (Db.writes_exclusive (hd ▸ Option.some_ne_none _)
        (h.writes_of_reopened hcov hwt hpending hbasis (.inr ⟨u, hd⟩) hjob))
  · rw [hw] at hwrites
    rw [Db.read_of_writes hwrites, ← Db.read_of_writes hw] at hrow
    exact hdecided sid row hrow hrowJob hpending

/-- A covered commit keeps the invariant. -/
theorem commit (h : Settled s) (hcov : ReopenCovered t s) : Settled (s.commit t) := by
  refine ⟨h.kept.commit, h.current.commit, fun id document jobId hc hst hjob => ?_,
    fun u => ⟨fun id document jobId hd hst hjob => ?_,
      fun id row documentId document hw hpending hbasis hc hjob hst => ?_⟩⟩
  · exact h.ready_commit hcov hc hst hjob
  · by_cases hu : u = t
    · rw [hu, Db.writes_commit_self] at hd
      cases hd
    rw [Db.writes_commit_other s hu] at hd
    refine ⟨h.finishing_commit hcov hu hd hst hjob, fun u' sid row hw => ?_⟩
    by_cases hu' : u' = t
    · rw [hu', Db.writes_commit_self] at hw
      cases hw
    · rw [Db.writes_commit_other s hu'] at hw
      exact ((h.own u).finishing id document jobId hd hst hjob).2 u' sid row hw
  · by_cases hu : u = t
    · rw [hu, Db.writes_commit_self] at hw
      cases hw
    rw [Db.writes_commit_other s hu] at hw
    rw [Db.commit_committed] at hc
    rcases hd : s.writes t (.document documentId) with _ | version
    · rw [Db.read_of_not_writes hd] at hc
      exact (h.own u).resetting id row documentId document hw hpending hbasis hc hjob hst
    · rw [Db.read_of_writes hd] at hc
      subst hc
      have hnot := ((h.own t).finishing documentId document _ hd hst hjob).2 u id row hw rfl hpending
      rw [hbasis] at hnot
      cases hnot

/-- A rollback keeps the invariant. -/
theorem rollback (h : Settled s) : Settled (s.rollback t) := by
  have hsame : ∀ {u : Process} {k v}, (s.rollback t).writes u k = some v →
      s.writes u k = some v ∧ u ≠ t := by
    intro u k v hw
    have hu : u ≠ t := by
      rintro rfl
      rw [Db.writes_rollback_self] at hw
      cases hw
    rw [Db.writes_rollback_other s hu] at hw
    exact ⟨hw, hu⟩
  refine ⟨h.kept.rollback, h.current.rollback, h.ready,
    fun u => ⟨fun id document jobId hd hst hjob => ?_,
      fun id row documentId document hw => (h.own u).resetting id row documentId document (hsame hw).1⟩⟩
  obtain ⟨hd, hu⟩ := hsame hd
  obtain ⟨hdecided, hothers⟩ := (h.own u).finishing id document jobId hd hst hjob
  refine ⟨?_, fun u' sid row hw => hothers u' sid row (hsame hw).1⟩
  have hread : (s.rollback t).read u = s.read u := by
    funext k
    simp [Db.read, Db.writes_rollback_other s hu]
  rw [hread]
  exact hdecided

/-- So does a drawn identifier. -/
theorem draw (h : Settled s) : Settled (s.draw t) :=
  ⟨h.kept, h.current, h.ready, fun u => ⟨(h.own u).finishing, (h.own u).resetting⟩⟩

/-- So does the clock. -/
theorem tick (h : Settled s) (n : ℕ) : Settled (s.tick n) :=
  ⟨h.kept, h.current, h.ready, fun u => ⟨(h.own u).finishing, (h.own u).resetting⟩⟩

/-- A write that keeps the versions of documents and suggestions. -/
theorem write_other {k : Key} {version : Option (Row k)} (h : Settled s)
    (hkept : (s.write t k version).Pending SameJob) (hcurrent : (s.write t k version).Unique currentJob)
    (hdocument : ∀ id, k ≠ .document id) (hsuggestion : ∀ id, k ≠ .suggestion id) :
    Settled (s.write t k version) := by
  refine ⟨hkept, hcurrent, h.ready, fun u => ⟨fun id document jobId hd hst hjob => ?_,
    fun id row documentId document hw => ?_⟩⟩
  · rw [Db.writes_write_of_ne s _ (hdocument id).symm] at hd
    obtain ⟨hdecided, hothers⟩ := (h.own u).finishing id document jobId hd hst hjob
    refine ⟨fun sid row hrow => ?_, fun u' sid row hw => ?_⟩
    · rw [Db.read_write_of_ne s _ (hsuggestion sid).symm] at hrow
      exact hdecided sid row hrow
    · rw [Db.writes_write_of_ne s _ (hsuggestion sid).symm] at hw
      exact hothers u' sid row hw
  · rw [Db.writes_write_of_ne s _ (hsuggestion id).symm] at hw
    exact (h.own u).resetting id row documentId document hw

/-- A document is written, ready only when no suggestion of its current job is open. -/
theorem write_document {id : Uuid} {new : Document} (h : Settled s)
    (hkept : (s.write t (.document id) (some new)).Pending SameJob)
    (hcurrent : (s.write t (.document id) (some new)).Unique currentJob)
    (hfree : s.lockedByOther t (.document id) = false)
    (hready : new.status = .ready → ∀ jobId, new.currentAnalysisJobId = some jobId →
      Decided jobId (s.read t) ∧ ∀ u id (row : Suggestion),
        s.writes u (.suggestion id) = some (some row) → row.analysisJobId = jobId →
          row.status = .pending → row.resetInReview = false) :
    Settled (s.write t (.document id) (some new)) := by
  have hread : ∀ u sid, (s.write t (.document id) (some new)).read u (.suggestion sid) =
      s.read u (.suggestion sid) :=
    fun u sid => Db.read_write_of_ne s _ (by simp)
  have hwrites : ∀ u sid, (s.write t (.document id) (some new)).writes u (.suggestion sid) =
      s.writes u (.suggestion sid) :=
    fun u sid => Db.writes_write_of_ne s _ (by simp)
  refine ⟨hkept, hcurrent, h.ready, fun u => ⟨fun d document jobId hd hst hjob => ?_,
    fun sid row d document hw => ?_⟩⟩
  · have hold : Decided jobId (s.read u) ∧ ∀ u id (row : Suggestion),
        s.writes u (.suggestion id) = some (some row) → row.analysisJobId = jobId →
          row.status = .pending → row.resetInReview = false := by
      by_cases hu : u = t
      · subst hu
        by_cases hk : d = id
        · subst hk
          rw [Db.writes_write_self, Option.some.injEq, Option.some.injEq] at hd
          subst hd
          exact hready hst jobId hjob
        · rw [Db.writes_write_of_ne s _ (by simpa using hk)] at hd
          exact (h.own u).finishing d document jobId hd hst hjob
      · rw [Db.writes_write_other s _ hfree hu] at hd
        exact (h.own u).finishing d document jobId hd hst hjob
    refine ⟨fun sid row hrow => ?_, fun u' sid row hw => ?_⟩
    · rw [hread] at hrow
      exact hold.1 sid row hrow
    · rw [hwrites] at hw
      exact hold.2 u' sid row hw
  · rw [hwrites] at hw
    exact (h.own u).resetting sid row d document hw

/-- A suggestion is written: a decision, or a reset by a transaction that makes no document ready
and that does not find the document of the suggestion ready if it was loaded in review. -/
theorem write_suggestion {id : Uuid} {new : Suggestion} (h : Settled s)
    (hkept : (s.write t (.suggestion id) (some new)).Pending SameJob)
    (hcurrent : (s.write t (.suggestion id) (some new)).Unique currentJob)
    (hfree : s.lockedByOther t (.suggestion id) = false)
    (hreset : new.status = .pending →
      (∀ d (document : Document), s.writes t (.document d) = some (some document) →
        document.status ≠ .ready) ∧
      (new.resetInReview = true → ∀ d (document : Document), s.Live (.document d) document →
        document.currentAnalysisJobId = some new.analysisJobId → document.status ≠ .ready)) :
    Settled (s.write t (.suggestion id) (some new)) := by
  have hdocuments : ∀ u d, (s.write t (.suggestion id) (some new)).writes u (.document d) =
      s.writes u (.document d) :=
    fun u d => Db.writes_write_of_ne s _ (by simp)
  have hversions : ∀ u sid (row : Suggestion),
      (s.write t (.suggestion id) (some new)).writes u (.suggestion sid) = some (some row) →
        (u = t ∧ sid = id ∧ row = new) ∨ s.writes u (.suggestion sid) = some (some row) := by
    intro u sid row hw
    by_cases hu : u = t
    · subst hu
      by_cases hk : sid = id
      · subst hk
        rw [Db.writes_write_self, Option.some.injEq, Option.some.injEq] at hw
        exact .inl ⟨rfl, rfl, hw.symm⟩
      · rw [Db.writes_write_of_ne s _ (by simpa using hk)] at hw
        exact .inr hw
    · rw [Db.writes_write_other s _ hfree hu] at hw
      exact .inr hw
  refine ⟨hkept, hcurrent, h.ready, fun u => ⟨fun d document jobId hd hst hjob => ?_,
    fun sid row d document hw hpending hbasis hc hjob => ?_⟩⟩
  · rw [hdocuments] at hd
    obtain ⟨hdecided, hothers⟩ := (h.own u).finishing d document jobId hd hst hjob
    refine ⟨fun sid row hrow hrowJob hpending => ?_, fun u' sid row hw hrowJob hpending => ?_⟩
    · rcases hw : (s.write t (.suggestion id) (some new)).writes u (.suggestion sid) with _ | version
      · rw [Db.read_of_not_writes hw, Db.write_committed] at hrow
        have hnone : s.writes u (.suggestion sid) = none := by
          by_cases hk : u = t ∧ sid = id
          · obtain ⟨rfl, rfl⟩ := hk
            rw [Db.writes_write_self] at hw
            cases hw
          · by_cases hu : u = t
            · rwa [Db.writes_write_of_ne s _ (by simpa [hu] using hk)] at hw
            · rwa [Db.writes_write_other s _ hfree hu] at hw
        rw [← Db.read_of_not_writes hnone] at hrow
        exact hdecided sid row hrow hrowJob hpending
      · rw [Db.read_of_writes hw] at hrow
        subst hrow
        rcases hversions u sid row hw with ⟨rfl, rfl, rfl⟩ | hw
        · exact (hreset hpending).1 d document hd hst
        · exact hdecided sid row (Db.read_of_writes hw) hrowJob hpending
    · rcases hversions u' sid row hw with ⟨rfl, rfl, rfl⟩ | hw
      · rcases hbasis : row.resetInReview with _ | _
        · rfl
        · exact absurd hst ((hreset hpending).2 hbasis d document (.inr ⟨u, hd⟩) (hrowJob ▸ hjob))
      · exact hothers u' sid row hw hrowJob hpending
  · rcases hversions u sid row hw with ⟨rfl, rfl, rfl⟩ | hw
    · exact (hreset hpending).2 hbasis d document (.inl hc) hjob
    · exact (h.own u).resetting sid row d document hw hpending hbasis hc hjob

end Settled

/-! ## What the condition says -/

/-- When no suggestion of the job is open, the job is decided as `t` sees it. -/
theorem decided_of_closed {jobId : Uuid}
    (h : ∀ k ∈ s.keys, openSuggestion s t jobId k = false) :
    Decided jobId (s.read t) ∧ ∀ u id (row : Suggestion),
      s.writes u (.suggestion id) = some (some row) → row.analysisJobId = jobId →
        row.status = .pending → row.resetInReview = false := by
  refine ⟨fun id row hrow hjob hpending => ?_, fun u id row hw hjob hpending => ?_⟩
  · have hk := h (.suggestion id) (Db.mem_keys_of_read hrow)
    simp [openSuggestion, hrow, Suggestion.pendingFor, hjob, hpending] at hk
  · have hk := h (.suggestion id) (Db.mem_keys_of_writes (hw ▸ Option.some_ne_none _))
    have hnewest : s.newest (.suggestion id) = some row := by
      simp [Db.newest, Db.writes_eq_some.mp hw]
    simp only [openSuggestion, hnewest, Suggestion.pendingFor, hjob, hpending, Option.any_some,
      decide_true, Bool.true_and, Bool.or_eq_false_iff] at hk
    exact hk.2

/-- When no document of the job is ready, none is for anybody. -/
theorem not_ready_of_closed {jobId : Uuid} (h : ∀ k ∈ s.keys, readyDocument s jobId k = false)
    {id : Uuid} {document : Document} (hlive : s.Live (.document id) document)
    (hjob : document.currentAnalysisJobId = some jobId) : document.status ≠ .ready := by
  intro hst
  rcases hlive with hc | ⟨u, hw⟩
  · have hk := h (.document id) (Db.mem_keys_of_committed hc)
    simp [readyDocument, hc, Document.readyWith, hjob, hst] at hk
  · have hk := h (.document id) (Db.mem_keys_of_writes (hw ▸ Option.some_ne_none _))
    have hnewest : s.newest (.document id) = some document := by
      simp [Db.newest, Db.writes_eq_some.mp hw]
    simp [readyDocument, hnewest, Document.readyWith, hjob, hst] at hk

/-- Transaction `t` makes no document ready. -/
def WritesNoReady (t : Process) (s : AppDb) : Prop :=
  ∀ id (document : Document), s.writes t (.document id) = some (some document) →
    document.status ≠ .ready

/-- What the process has to show: a reset goes with no ready document, and is covered when it is
committed. -/
def ReviewCovered (t : Process) : AppStmt → AppDb → Prop
  | .update (.suggestion id) p g, s => ∀ row : Suggestion, s.read t (.suggestion id) = some row →
      p row = true → (g row).status = .pending → WritesNoReady t s
  | .commit, s => ReopenCovered t s
  | _, _ => True

/-- The statements of these operations keep the job of a row. -/
theorem Sent.sameJob {kind : OperationKind} {k : Key} {p : Row k → Bool} {g : Row k → Row k}
    (h : Sent kind (.update k p g)) (hkind : kind ∈ reviewKinds) (row : Row k) :
    SameJob k row (g row) := by
  cases h with
  | documentCurrent hk => exact OperationKind.elim_of_mem hkind hk (by decide)
  | suggestionDecide hk hp hf => exact (hf row).2.1
  | documentStatus | documentReopen | documentVersion | documentExport | suggestionReset => rfl
  | jobStatus | jobColumns | jobBegun | runClaim | runRelease | runComplete => trivial

/-- A row that keeps its job is current in the same document. -/
theorem SameJob.currentJob (k : Key) {a b : Row k} (h : SameJob k a b) :
    currentJob k b = currentJob k a := by
  cases k
  case document => exact h
  all_goals rfl

/-- **One statement** of these operations, when the checks have not grown stale. -/
theorem Settled.effect {kind : OperationKind} {f : AppStmt} (h : Settled s) (he : Effect t s f s')
    (hsent : Sent kind f) (hkind : kind ∈ reviewKinds) (hfresh : reviewCheckFresh t f s)
    (hcov : ReviewCovered t f s) : Settled s' := by
  have hkept : s'.Pending SameJob := by
    refine h.kept.effect SameJob.refl he hsent.deletes ?_
    rintro k p g r row rfl hread hp hrow hsame
    exact hsame.trans _ _ _ _ (hsent.sameJob hkind r)
  cases he with
  | same => exact h
  | draw => exact h.draw
  | delete => cases hsent
  | send m =>
      cases hsent
      rename_i hk
      exact OperationKind.elim_of_mem hkind hk (by decide)
  | commit => exact h.commit hcov
  | rollback => exact h.rollback
  | update hfree hread hp huniq =>
      rename_i k p g r
      have hcurrent := h.current.update (v := g r) hfree hread
        (hsent.sameJob hkind r).currentJob
      cases k
      case document id =>
        refine h.write_document hkept hcurrent hfree fun hst jobId hjob => ?_
        exact decided_of_closed (hfresh r hread hp hst jobId hjob)
      case suggestion id =>
        refine h.write_suggestion hkept hcurrent hfree fun hpending => ⟨hcov r hread hp hpending, ?_⟩
        intro hbasis d document hlive hjob
        exact not_ready_of_closed (hfresh r hread hp hpending hbasis) hlive hjob
      all_goals exact h.write_other hkept hcurrent (by simp) (by simp)
  | insert =>
      cases hsent with
      | insertDocument | insertRun | insertSuggestion => simp [reviewKinds] at hkind
      | insertJob hk => exact OperationKind.elim_of_mem hkind hk (by decide)

/-- The contract of the runs in which no check of a review is stale. -/
def settledContract : Contract Process Key Row Message where
  inv := Settled
  guar := fun _ _ _ => True
  allowed := reviewCheckFresh
  guar_refl := fun _ _ _ => trivial
  rollback := fun _ _ h => ⟨h.rollback, trivial⟩
  tick := fun n _ h => h.tick n

/-! ## The programs that decide -/

/-- Transaction `t` has reset no suggestion. -/
def WritesNoPending (t : Process) (s : AppDb) : Prop :=
  ∀ id (row : Suggestion), s.writes t (.suggestion id) = some (some row) → row.status ≠ .pending

/-- An idle process has reset nothing. -/
theorem WritesNoPending.of_idle (h : s.Idle t) : WritesNoPending t s := by
  intro id row hw
  rw [h] at hw
  cases hw

/-- Without a reset there is nothing to cover at the commit. -/
theorem WritesNoPending.reopenCovered (h : WritesNoPending t s) : ReopenCovered t s :=
  fun id row hw hpending => absurd hpending (h id row hw)

/-- No step of another process resets a suggestion for `t`. -/
theorem stable_writesNoPending : settledContract.Stable t (WritesNoPending t) := by
  refine Stable.of_writes fun s s' h hp => ?_
  unfold WritesNoPending
  rwa [h]

/-- The operations that reset no suggestion. -/
def decidingKinds : List OperationKind := [.reviewSave, .finalizeReview, .finalize]

/-- The operations without resets decide the rows they write. -/
theorem Sent.decides {kind : OperationKind} {id : Uuid} {p : Suggestion → Bool}
    {g : Suggestion → Suggestion} (h : Sent kind (.update (.suggestion id) p g))
    (hkind : kind ∈ decidingKinds) (row : Suggestion) : (g row).status ≠ .pending := by
  cases h with
  | suggestionDecide hk hp hf => exact (hf row).1
  | suggestionReset hk => exact OperationKind.elim_of_mem hkind hk (by decide)

/-- Their statements keep the transaction without resets. -/
theorem Sent.writesNoPending {kind : OperationKind} {f : AppStmt} (h : Sent kind f)
    (hkind : kind ∈ decidingKinds) (he : Effect t s f s') (hp : WritesNoPending t s) :
    WritesNoPending t s' := by
  have hother : ∀ {k} (version : Option (Row k)), (∀ id, k ≠ .suggestion id) →
      WritesNoPending t (s.write t k version) := by
    intro k version hk id row hw
    rw [Db.writes_write_of_ne s _ (hk id).symm] at hw
    exact hp id row hw
  cases he with
  | same | draw | send => exact hp
  | delete => cases h
  | commit => exact .of_idle (Db.idle_commit s t)
  | rollback => exact .of_idle (Db.idle_rollback s t)
  | update hfree hread hcond huniq =>
      rename_i k p g r
      cases k
      case suggestion id =>
        intro sid row hw
        by_cases hk : sid = id
        · subst hk
          rw [Db.writes_write_self, Option.some.injEq, Option.some.injEq] at hw
          subst hw
          exact h.decides hkind r
        · rw [Db.writes_write_of_ne s _ (by simpa using hk)] at hw
          exact hp sid row hw
      all_goals exact hother _ (by simp)
  | insert =>
      cases h with
      | insertDocument | insertRun | insertSuggestion => simp [decidingKinds] at hkind
      | insertJob hk => exact OperationKind.elim_of_mem hkind hk (by decide)

namespace Settled

/-- A program that sends the statements of such an operation. -/
theorem triple_decides {kind : OperationKind} {α : Type} {p : Session α} (h : p.Sends (Sent kind))
    (hkind : kind ∈ decidingKinds) :
    settledContract.Triple t p (WritesNoPending t) fun _ => WritesNoPending t := by
  refine Triple.of_sends stable_writesNoPending ?_ h
  intro f hf s hinv hp hfresh b s' he
  have heffect := exec_effect he
  have hkind' : ∀ kind ∈ decidingKinds, kind ∈ reviewKinds := by decide
  refine ⟨hinv.effect heffect hf (hkind' kind hkind) hfresh ?_, trivial,
    hf.writesNoPending hkind heffect hp⟩
  cases f with
  | commit => exact hp.reopenCovered
  | update k p g =>
      cases k
      case suggestion id => exact fun row _ _ hpending => absurd hpending (hf.decides hkind row)
      all_goals trivial
  | insert | delete | get | find | draw | now | send | await | rollback => trivial

end Settled

/-! ## The programs that reset -/

/-- Transaction `t` has reset suggestions of the job alone, on a document loaded with status `st`,
and makes no document ready. -/
structure Resetting (t : Process) (jobId : Uuid) (st : DocumentStatus) (s : AppDb) : Prop where
  documents : WritesNoReady t s
  suggestions : ∀ id (row : Suggestion), s.writes t (.suggestion id) = some (some row) →
    row.status = .pending → row.analysisJobId = jobId ∧ row.basis.documentStatus = some st

/-- Transaction `t` has reopened the document of the job. -/
def Reopened (t : Process) (jobId : Uuid) (s : AppDb) : Prop :=
  ∃ id, ∃ document : Document, s.writes t (.document id) = some (some document) ∧
    document.currentAnalysisJobId = some jobId ∧ document.status ≠ .ready

section resets

variable {jobId : Uuid} {st : DocumentStatus}

/-- An idle process has reset nothing, on any document. -/
theorem Resetting.of_idle (h : s.Idle t) : Resetting t jobId st s := by
  refine ⟨fun id document hw => ?_, fun id row hw => ?_⟩
  all_goals
    rw [h] at hw
    cases hw

/-- What was reset in a ready document is covered by reopening it. -/
theorem Resetting.reopenCovered (h : Resetting t jobId st s)
    (hst : DocumentLifecycle.canResetReview st = true) (hreopened : st = .ready → Reopened t jobId s) :
    ReopenCovered t s := by
  intro id row hw hpending hbasis
  obtain ⟨rfl, hrow⟩ := h.suggestions id row hw hpending
  have hready : st = .ready := by
    cases st <;> simp_all [DocumentLifecycle.canResetReview, Suggestion.resetInReview]
  exact hreopened hready

/-- No step of another process resets for `t`. -/
theorem stable_resetting : settledContract.Stable t (Resetting t jobId st) := by
  refine Stable.of_writes fun s s' h hp => ⟨fun id document hw => ?_, fun id row hw => ?_⟩
  all_goals rw [h] at hw
  · exact hp.documents id document hw
  · exact hp.suggestions id row hw

/-- No step of another process takes back the reopening. -/
theorem stable_reopened : settledContract.Stable t (Reopened t jobId) := by
  refine Stable.of_writes fun s s' h hp => ?_
  unfold Reopened
  rwa [h]

/-- The statements of a reset of suggestions. -/
inductive Resets (jobId : Uuid) (st : DocumentStatus) : AppStmt → Prop
  | reads {f} (h : Reads f) : Resets jobId st f
  | reset {id} {p : Suggestion → Bool} {basis : Basis}
      (hp : ∀ row, p row = true → row.analysisJobId = jobId)
      (hbasis : basis.documentStatus = some st) :
      Resets jobId st (.update (.suggestion id) p (SuggestionRepository.reset basis))

/-- A suggestion of the job is reset. -/
theorem Settled.reset {id : Uuid} {p : Suggestion → Bool} {basis : Basis} {row : Suggestion}
    (h : Settled s) (hp : Resetting t jobId st s) (hst : DocumentLifecycle.canResetReview st = true)
    (hbasis : basis.documentStatus = some st) (hjob : row.analysisJobId = jobId)
    (hfresh : reviewCheckFresh t (.update (.suggestion id) p (SuggestionRepository.reset basis)) s)
    (hfree : s.lockedByOther t (.suggestion id) = false)
    (hread : s.read t (.suggestion id) = some row) (hcond : p row = true)
    (huniq : s.uniqueness t (.suggestion id) (SuggestionRepository.reset basis row) = .free) :
    Settled (s.write t (.suggestion id) (some (SuggestionRepository.reset basis row))) ∧
      Resetting t jobId st
        (s.write t (.suggestion id) (some (SuggestionRepository.reset basis row))) := by
  refine ⟨h.effect (.update hfree hread hcond huniq) (.suggestionReset
    (by simp : OperationKind.patch ∈ _)
    hbasis hst) (by decide) hfresh fun _ _ _ _ => hp.documents, fun d document hw => ?_,
    fun sid row' hw hpending => ?_⟩
  · rw [Db.writes_write_of_ne s _ (by simp)] at hw
    exact hp.documents d document hw
  · by_cases hk : sid = id
    · subst hk
      rw [Db.writes_write_self, Option.some.injEq, Option.some.injEq] at hw
      subst hw
      exact ⟨hjob, hbasis⟩
    · rw [Db.writes_write_of_ne s _ (by simpa using hk)] at hw
      exact hp.suggestions sid row' hw hpending

namespace Settled

/-- A program that resets suggestions of the job. -/
theorem triple_resets {α : Type} {p : Session α} (h : p.Sends (Resets jobId st))
    (hst : DocumentLifecycle.canResetReview st = true) :
    settledContract.Triple t p (Resetting t jobId st) fun _ => Resetting t jobId st := by
  refine Triple.of_sends stable_resetting ?_ h
  intro f hf s hinv hp hfresh b s' he
  cases hf with
  | reads hr =>
      have hsame : s' = s := by
        cases hr <;> exact (Prod.mk.inj (Option.some.inj he)).2.symm
      subst hsame
      exact ⟨hinv, trivial, hp⟩
  | reset hjob hbasis =>
      rcases exec_update_cases he with ⟨rfl, -⟩ | ⟨rfl, -⟩ | ⟨r, hfree, hread, hcond, huniq, -, rfl⟩
      · exact ⟨hinv, trivial, hp⟩
      · exact ⟨hinv, trivial, hp⟩
      · obtain ⟨hinv', hp'⟩ := hinv.reset hp hst hbasis (hjob r hcond) hfresh hfree hread hcond huniq
        exact ⟨hinv', trivial, hp'⟩

/-- The state of a transaction that has reset the suggestions with the given ids. -/
def ResetIds (t : Process) (jobId : Uuid) (st : DocumentStatus) (ids : List Uuid) (s : AppDb) :
    Prop :=
  Resetting t jobId st s ∧ (ids = [] → WritesNoPending t s)

/-- Nor does it change which suggestions were reset. -/
theorem stable_resetIds {ids : List Uuid} :
    settledContract.Stable t (ResetIds t jobId st ids) :=
  stable_resetting.and (Stable.all fun _ => stable_writesNoPending)

/-- **The loop that resets**: when no id comes back, nothing was reset. -/
theorem triple_updateRows {p : Uuid → Suggestion → Bool} {basis : Basis}
    (hjob : ∀ id row, p id row = true → row.analysisJobId = jobId)
    (hbasis : basis.documentStatus = some st) (hst : DocumentLifecycle.canResetReview st = true) :
    ∀ ids, settledContract.Triple t
      (SuggestionRepository.updateRows p (fun _ => SuggestionRepository.reset basis) ids)
      (ResetIds t jobId st []) (ending (ResetIds t jobId st) fun _ _ => True)
  | [] => fun _ _ h => h
  | id :: rest => by
      refine Triple.update (A := fun o s => Resetting t jobId st s ∧
        ((∀ row, o ≠ .updated row) → WritesNoPending t s)) ?_ ?_ ?_ ?_ fun o => ?_
      · exact fun o => stable_resetting.and (Stable.all fun _ => stable_writesNoPending)
      · exact fun s _ h _ => ⟨h.1, fun _ => h.2 rfl⟩
      · exact fun s _ _ h _ _ _ => ⟨h.1, fun _ => h.2 rfl⟩
      · intro s row hinv h hfresh hfree hread hcond huniq
        obtain ⟨hinv', hp'⟩ :=
          hinv.reset h.1 hst hbasis (hjob id row hcond) hfresh hfree hread hcond huniq
        exact ⟨hinv', trivial, hp', fun hne => absurd rfl (hne _)⟩
      · rcases o with _ | _ | row
        · change settledContract.Triple t (SuggestionRepository.updateRows p
            (fun _ => SuggestionRepository.reset basis) rest >>= fun updated => pure updated) _ _
          refine Triple.bind ((triple_updateRows hjob hbasis hst rest).pre
            fun s _ h => ⟨h.1, fun _ => h.2 (by simp)⟩) (fun updated => ?_) fun _ _ _ _ => trivial
          exact fun s _ h => h
        · exact fun _ _ _ => trivial
        · change settledContract.Triple t (SuggestionRepository.updateRows p
            (fun _ => SuggestionRepository.reset basis) rest >>= fun updated =>
              pure (id :: updated)) _ _
          refine Triple.bind ((triple_resets (sends_updateRows (fun id => ?_) rest) hst).pre
            fun s _ h => h.1) (fun updated => ?_) fun _ _ _ _ => trivial
          · exact .reset (hjob id) hbasis
          · exact fun s _ h => ⟨h, by simp⟩

/-- A bulk reset leaves a transaction that has reset the suggestions that it found. -/
theorem triple_updateWhere {p : Uuid → Suggestion → Bool} {basis : Basis}
    (hjob : ∀ id row, p id row = true → row.analysisJobId = jobId)
    (hbasis : basis.documentStatus = some st) (hst : DocumentLifecycle.canResetReview st = true) :
    settledContract.Triple t
      (SuggestionRepository.updateWhere p (fun _ => SuggestionRepository.reset basis))
      (ResetIds t jobId st []) (ending (ResetIds t jobId st) fun _ _ => True) :=
  (triple_reads (sends_selectIds _) stable_resetIds).bind
    (fun ids => triple_updateRows hjob hbasis hst ids) fun _ _ _ _ => trivial

/-- So does `reset_to_pending`. -/
theorem triple_resetToPending {ids : Option (List Uuid)} {basis : Basis}
    (hbasis : basis.documentStatus = some st) (hst : DocumentLifecycle.canResetReview st = true) :
    settledContract.Triple t (SuggestionRepository.resetToPending jobId ids basis)
      (ResetIds t jobId st []) (ending (ResetIds t jobId st) fun _ _ => True) := by
  unfold SuggestionRepository.resetToPending
  split
  · exact fun _ _ h => h
  all_goals
    refine triple_updateWhere (fun id row hp => ?_) hbasis hst
    simp only [Bool.and_eq_true, decide_eq_true_eq] at hp
  · exact hp.1.1
  · exact hp.1

/-- So does the reset that a patch asks for. -/
theorem triple_resetMany {ids : Option (List Uuid)} {filter : Option PatchFilter} {basis : Basis}
    (hbasis : basis.documentStatus = some st) (hst : DocumentLifecycle.canResetReview st = true) :
    settledContract.Triple t (SuggestionService.resetToPending jobId ids filter basis)
      (ResetIds t jobId st []) (ending (ResetIds t jobId st) fun _ _ => True) := by
  unfold SuggestionService.resetToPending
  split
  · split
    · exact fun _ _ h => h
    · exact triple_resetToPending hbasis hst
  · refine (triple_resetToPending hbasis hst).bind (fun resetIds => ?_) fun _ _ _ _ => trivial
    split
    · exact fun _ _ h => h
    · exact fun _ _ _ => trivial

end Settled

/-- A document is written that is not ready. -/
theorem Resetting.write_document {id : Uuid} {new : Document} (h : Resetting t jobId st s)
    (hst : new.status ≠ .ready) : Resetting t jobId st (s.write t (.document id) (some new)) := by
  refine ⟨fun d document hw => ?_, fun sid row hw => ?_⟩
  · by_cases hk : d = id
    · subst hk
      rw [Db.writes_write_self, Option.some.injEq, Option.some.injEq] at hw
      subst hw
      exact hst
    · rw [Db.writes_write_of_ne s _ (by simpa using hk)] at hw
      exact h.documents d document hw
  · rw [Db.writes_write_of_ne s _ (by simp)] at hw
    exact h.suggestions sid row hw

/-- Writing a suggestion leaves the document reopened. -/
theorem Reopened.write_suggestion {id : Uuid} {new : Suggestion} (h : Reopened t jobId s) :
    Reopened t jobId (s.write t (.suggestion id) (some new)) := by
  obtain ⟨d, document, hw, hdocument⟩ := h
  exact ⟨d, document, (Db.writes_write_of_ne s _ (by simp)).trans hw, hdocument⟩

/-- The committed row of a document or a suggestion belongs to the job. -/
def BelongsTo (jobId : Uuid) (k : Key) (s : AppDb) : Prop :=
  match k with
  | .document id => ∃ document : Document, s.committed (.document id) = some document ∧
      document.currentAnalysisJobId = some jobId
  | .suggestion id => ∃ row : Suggestion, s.committed (.suggestion id) = some row ∧
      row.analysisJobId = jobId
  | _ => True

/-- A committed row stays with its job. -/
theorem Settled.belongsTo {u : Process} {k : Key} (h : Settled s) (hf : Frame u s s')
    (hb : BelongsTo jobId k s) : BelongsTo jobId k s' := by
  cases k
  case document id =>
    obtain ⟨row, hrow, hjob⟩ := hb
    obtain ⟨row', hrow', hsame⟩ :=
      hf.committed_along SameJob.refl h.kept (.document id) row hrow
    exact ⟨row', hrow', Eq.trans hsame hjob⟩
  case suggestion id =>
    obtain ⟨row, hrow, hjob⟩ := hb
    obtain ⟨row', hrow', hsame⟩ :=
      hf.committed_along SameJob.refl h.kept (.suggestion id) row hrow
    exact ⟨row', hrow', Eq.trans hsame hjob⟩
  all_goals trivial

/-- No step of another process takes a row from its job. -/
theorem stable_belongsTo {k : Key} : settledContract.Stable t (BelongsTo jobId k) := by
  refine ⟨fun u s s' _ hi _ hf _ hb => hi.belongsTo hf hb, fun n s _ hb => ?_⟩
  cases k
  case document id | suggestion id => exact hb
  all_goals trivial

/-- A row goes on to belong to its job, whatever the program does. -/
theorem triple_belongsTo {α : Type} {k : Key} {p : Session α} {P : AppDb → Prop}
    {Q : Except DomainError α → AppDb → Prop} (h : settledContract.Triple t p P Q) :
    settledContract.Triple t p (fun s => P s ∧ BelongsTo jobId k s)
      fun r s => Q r s ∧ BelongsTo jobId k s :=
  h.frame stable_belongsTo fun _ _ hi _ hf hb => hi.belongsTo hf hb

/-- What a reset has come to before its commit. -/
def ResetDone (t : Process) (jobId : Uuid) (st : DocumentStatus) (s : AppDb) : Prop :=
  Resetting t jobId st s ∧ (st = .ready → Reopened t jobId s)

/-- What a reset has come to is kept by the steps of others. -/
theorem stable_resetDone : settledContract.Stable t (ResetDone t jobId st) :=
  stable_resetting.and (Stable.all fun _ => stable_reopened)

namespace Settled

/-- A ready document is reopened, or the reset fails. -/
theorem triple_reopenReview {document : Loaded Document}
    (hjob : document.row.currentAnalysisJobId = some jobId) :
    settledContract.Triple t (SuggestionService.reopenReview document)
      (Resetting t jobId document.row.status)
      (ending (fun _ => ResetDone t jobId document.row.status) fun _ _ => True) := by
  unfold SuggestionService.reopenReview
  split
  · rename_i hst
    rw [hst, hjob]
    change settledContract.Triple t (update (.document document.id)
      (DocumentRepository.comparesTo (some jobId) .ready) (Document.withStatus .awaitingApproval
        { currentJob := some jobId, documentStatus := some .ready }) >>= fun o =>
      (matched o >>= fun found => pure found.isSome) >>= fun reopened =>
        if reopened = true then
          (pure ⟨document.id, { document.row with status := .awaitingApproval }⟩ :
            Session (Loaded Document))
        else throw (.invalidDocumentStatus .changedConcurrently)) _ _
    refine Triple.update (A := fun o s => ∀ row, o = .updated row → ResetDone t jobId .ready s)
      ?_ ?_ ?_ ?_ fun o => ?_
    · exact fun o => Stable.all fun row => Stable.all fun _ => stable_resetDone
    · rintro s - - - row ⟨⟩
    · rintro s r - - - - - row ⟨⟩
    · intro s r hinv hp hfresh hfree hread hcond huniq
      refine ⟨hinv.effect (.update hfree hread hcond huniq)
        (.documentReopen (by simp : OperationKind.resetSuggestion ∈ _)) (by decide) hfresh trivial, trivial,
        fun _ _ => ⟨hp.write_document (by simp [Document.withStatus]), fun _ => ?_⟩⟩
      simp only [DocumentRepository.comparesTo, Bool.and_eq_true, decide_eq_true_eq] at hcond
      exact ⟨_, _, Db.writes_write_self _ _ _ _, hcond.2, by simp [Document.withStatus]⟩
    · rcases o with _ | _ | row
      · exact fun _ _ _ => trivial
      · exact fun _ _ _ => trivial
      · exact fun s _ h => h row rfl
  · rename_i hst
    exact fun s _ hp => ⟨hp, fun hready => absurd hready hst⟩

/-- The commit of a reset. -/
theorem triple_commit_covered {α : Type} {rest : Unit → Session α} {P : AppDb → Prop}
    (hP : ∀ s, P s → ReopenCovered t s) (hrest : settledContract.Triple t (rest ()) (fun _ => True)
      fun _ _ => True) :
    settledContract.Triple t (Session.commit >>= rest) P fun _ _ => True :=
  Triple.commit (Stable.const True) (fun s hinv hp _ => ⟨hinv.commit (hP s hp), trivial, trivial⟩) hrest

/-- A session that ends without saying anything. -/
theorem triple_withUow_any {α : Type} {body : Session α} {P : AppDb → Prop}
    (h : settledContract.Triple t body P fun _ _ => True) :
    settledContract.Triple t (withUow body) P fun _ _ => True :=
  triple_withUow h (fun _ => Stable.const True) (fun _ _ _ _ => trivial) fun _ _ _ _ => trivial

/-- `patch_suggestions` keeps the contract. -/
theorem triple_patchSuggestions {projectId documentId userId : Uuid} {target : SuggestionStatus}
    {ids : Option (List Uuid)} {filter : Option PatchFilter} :
    settledContract.Triple t
      (SuggestionService.patchSuggestions projectId documentId userId target ids filter)
      (fun s => s.Idle t) fun _ _ => True := by
  unfold SuggestionService.patchSuggestions
  split
  · exact fun _ _ _ => trivial
  refine triple_withUow_any ?_
  refine (triple_reads (sends_getDocumentOrRaise _ _) Stable.idle).seq fun document => ?_
  split
  · refine triple_assertDecisionsResettable (fun _ _ _ _ => trivial) fun hst =>
      triple_assertHasActiveJob (fun _ _ _ _ => trivial) fun jobId hjob => ?_
    refine ((triple_resetMany rfl hst).pre fun s _ hidle =>
      ⟨Resetting.of_idle hidle, fun _ => .of_idle hidle⟩).seq fun updatedIds => ?_
    refine Triple.bind (J := ending (fun _ => ReopenCovered t) fun _ _ => True) ?_ (fun _ => ?_)
      fun _ _ _ _ => trivial
    · split
      · rename_i hnone
        exact fun s _ h => (h.2 hnone).reopenCovered
      · refine (triple_reopenReview hjob).mono (fun s _ h => h.1) ?_
        rintro (e | d) s - h
        · trivial
        · exact h.1.reopenCovered hst h.2
    · exact triple_commit_covered (fun _ h => h) fun _ _ _ => trivial
  · -- the decisions of a patch are statements that a save sends
    refine triple_assertAwaitingApproval (fun _ _ _ _ => trivial) fun _ =>
      triple_assertHasActiveJob (fun _ _ _ _ => trivial) fun jobId _ => ?_
    refine (triple_decides ?_ (by decide : OperationKind.reviewSave ∈ _)).mono
      (fun s _ hidle => .of_idle hidle) fun _ _ _ _ => trivial
    exact (sends_decidePending fun _ _ _ hp hf => .suggestionDecide (by simp) hp hf).bind fun _ =>
      sends_commit.bind fun _ => trivial

/-- The suggestion was loaded from the current job of the document. -/
theorem triple_getSuggestionForDocument {document : Loaded Document} {suggestionId : Uuid} :
    settledContract.Triple t (SuggestionService.getSuggestionForDocument document suggestionId)
      (fun s => s.Idle t)
      (ending (fun suggestion s =>
        (document.row.currentAnalysisJobId = some suggestion.row.analysisJobId) ∧ s.Idle t ∧
          BelongsTo suggestion.row.analysisJobId (.suggestion suggestion.id) s)
        fun _ _ => True) := by
  refine Triple.get (A := fun found s => s.Idle t ∧ ∀ row, found = some row →
    BelongsTo row.analysisJobId (.suggestion suggestionId) s) ?_ ?_ fun found => ?_
  · exact fun found => Stable.idle.and (Stable.all fun row => Stable.all fun _ => stable_belongsTo)
  · intro s _ hidle
    refine ⟨hidle, fun row hrow => ?_⟩
    rw [hidle.read] at hrow
    exact ⟨row, hrow, rfl⟩
  · rcases found with _ | row
    · exact fun _ _ _ => trivial
    · dsimp only [Option.map_some]
      change settledContract.Triple t (if some row.analysisJobId = document.row.currentAnalysisJobId
        then (pure ⟨suggestionId, row⟩ : Session (Loaded Suggestion))
        else throw (.staleSuggestionJob suggestionId row.analysisJobId)) _ _
      split
      · rename_i hjob
        exact fun s _ h => ⟨hjob.symm, h.1, h.2 row rfl⟩
      · exact fun _ _ _ => trivial

/-- One suggestion of the job is reset. -/
theorem triple_resetStatus {suggestion : Loaded Suggestion} {basis : Basis}
    (hbasis : basis.documentStatus = some st) (hst : DocumentLifecycle.canResetReview st = true) :
    settledContract.Triple t (SuggestionRepository.resetStatus suggestion basis)
      (fun s => ResetDone t jobId st s ∧ BelongsTo jobId (.suggestion suggestion.id) s)
      (ending (fun _ => ResetDone t jobId st) fun _ _ => True) := by
  refine Triple.update (A := fun _ => ResetDone t jobId st) (fun _ => stable_resetDone)
    (fun _ _ h _ => h.1) (fun _ _ _ h _ _ _ => h.1) ?_ fun o => ?_
  · rintro s r hinv ⟨hp, row, hrow, hjob⟩ hfresh hfree hread hcond huniq
    obtain ⟨r', hr', hsame⟩ := hinv.kept.read SameJob.refl t (.suggestion suggestion.id) row hrow
    rw [hread] at hr'
    cases hr'
    obtain ⟨hinv', hp'⟩ :=
      hinv.reset hp.1 hst hbasis (Eq.trans hsame hjob) hfresh hfree hread hcond huniq
    exact ⟨hinv', trivial, hp', fun hready => (hp.2 hready).write_suggestion⟩
  · rcases o with _ | _ | row
    · exact fun _ _ h => h
    · exact fun _ _ _ => trivial
    · exact fun _ _ h => h

/-- `reset_suggestion` keeps the contract. -/
theorem triple_resetSuggestion {projectId documentId suggestionId : Uuid} :
    settledContract.Triple t
      (SuggestionService.resetSuggestion projectId documentId suggestionId)
      (fun s => s.Idle t) fun _ _ => True := by
  refine triple_withUow_any ?_
  refine (triple_reads (sends_getDocumentOrRaise _ _) Stable.idle).seq fun document => ?_
  refine triple_assertDecisionsResettable (fun _ _ _ _ => trivial) fun hst => ?_
  refine triple_getSuggestionForDocument.seq fun suggestion => Triple.fact fun hjob => ?_
  split
  · exact fun _ _ _ => trivial
  refine ((triple_belongsTo (triple_reopenReview hjob)).pre fun s _ h =>
    ⟨Resetting.of_idle h.1, h.2⟩).seq fun _ => ?_
  refine (triple_resetStatus rfl hst).seq fun updated => ?_
  split
  · exact triple_commit_covered (fun s h => h.1.reopenCovered hst h.2) fun _ _ _ => trivial
  · exact fun _ _ _ => trivial

/-- The review of a ready document is reopened by primary key. -/
theorem triple_resetStatusOf {document : Loaded Document} {basis : Basis}
    (hbasis : basis = { currentJob := some jobId, documentStatus := some document.row.status })
    (hst : DocumentLifecycle.canResetReview document.row.status = true) :
    settledContract.Triple t
      (AnalysisJobService.setDocumentStatus document .awaitingApproval basis)
      (fun s => Resetting t jobId document.row.status s ∧
        BelongsTo jobId (.document document.id) s)
      (ending (fun _ => ResetDone t jobId document.row.status) fun _ _ => True) := by
  subst hbasis
  unfold AnalysisJobService.setDocumentStatus documentTransition
  rcases htr : DocumentLifecycle.transition document.row.status .awaitingApproval with _ | status
  · exact fun _ _ _ => trivial
  obtain ⟨rfl, -⟩ := DocumentLifecycle.transition_eq_some.mp htr
  change settledContract.Triple t (DocumentRepository.updateStatus document .awaitingApproval _) _ _
  unfold DocumentRepository.updateStatus
  split
  · rename_i hsame
    exact fun s _ h => ⟨h.1, fun hready => by rw [hready] at hsame; cases hsame⟩
  rename_i hne
  have hready : document.row.status = .ready := by
    rcases hrow : document.row.status with _ | _ | _ | _ <;>
      simp_all [DocumentLifecycle.canResetReview]
  rw [hready]
  refine (triple_flush (A := ResetDone t jobId .ready) stable_resetDone ?_).mono (fun _ _ h => h) ?_
  · rintro s r hinv ⟨hp, row, hrow, hjob⟩ hfresh hfree hread hcond huniq
    obtain ⟨r', hr', hsame⟩ := hinv.kept.read SameJob.refl t (.document document.id) row hrow
    rw [hread] at hr'
    cases hr'
    refine ⟨hinv.effect (.update hfree hread hcond huniq)
      (.documentStatus .reset) (by decide : OperationKind.resetAnalysis ∈ _) hfresh trivial, trivial,
      hp.write_document (by simp [Document.withStatus]), fun _ => ?_⟩
    exact ⟨_, _, Db.writes_write_self _ _ _ _, Eq.trans hsame hjob, by simp [Document.withStatus]⟩
  · rintro (e | d) s - h
    · trivial
    · exact h.2

/-- `reset_analysis` keeps the contract. -/
theorem triple_resetAnalysis {projectId documentId : Uuid} :
    settledContract.Triple t (AnalysisJobService.resetAnalysis projectId documentId)
      (fun s => s.Idle t) fun _ _ => True := by
  refine triple_withUow_any ?_
  refine (triple_getDocumentOrRaise (A := fun document s => s.Idle t ∧
    ∀ jobId, document.row.currentAnalysisJobId = some jobId →
      BelongsTo jobId (.document document.id) s) ?_ ?_).seq fun document => ?_
  · exact fun document => Stable.idle.and (Stable.all fun jobId => Stable.all fun _ => stable_belongsTo)
  · intro s row _ hidle hread
    rw [hidle.read] at hread
    exact ⟨hidle, fun jobId hjob => ⟨row, hread, hjob⟩⟩
  split
  · rename_i hst
    split
    · exact fun _ _ _ => trivial
    rename_i jobId hjob
    refine ((triple_belongsTo (k := .document document.id) (triple_resetToPending rfl hst)).pre
      fun s _ h => ⟨⟨Resetting.of_idle h.1, fun _ => .of_idle h.1⟩, h.2 jobId hjob⟩).seq
        fun resetIds => ?_
    refine ((triple_resetStatusOf rfl hst).pre fun s _ h => ⟨h.1.1, h.2⟩).seq fun _ => ?_
    exact triple_commit_covered (fun s h => h.1.reopenCovered hst h.2) fun _ _ _ => trivial
  · exact fun _ _ _ => trivial

/-- A request whose result is dropped. -/
theorem triple_request_any {α : Type} {body : Session α}
    (h : settledContract.Triple t body (fun s => s.Idle t) fun _ _ => True) :
    settledContract.Triple t (request body) (fun s => s.Idle t) fun _ _ => True :=
  triple_request (Q := fun _ _ => True)
    (triple_closing h (fun _ => Stable.const True) fun _ _ _ _ => trivial)
    (fun _ _ _ _ => trivial) fun _ _ _ _ => trivial

/-- **Every operation of a review keeps the contract.** -/
theorem triple_program {op : Operation} (hkind : op.kind ∈ reviewKinds) :
    settledContract.Triple t op.program (fun s => s.Idle t) fun _ _ => True := by
  by_cases hdecides : op.kind ∈ decidingKinds
  · exact (triple_decides op.sends hdecides).mono (fun _ _ h => .of_idle h) fun _ _ _ _ => trivial
  cases op <;> simp [Operation.kind, reviewKinds] at hkind <;>
    simp [Operation.kind, decidingKinds] at hdecides
  case patch => exact triple_request_any triple_patchSuggestions
  case resetSuggestion => exact triple_request_any triple_resetSuggestion
  case resetAnalysis => exact triple_request_any triple_resetAnalysis

end Settled

end resets

/-! ## Whole runs -/

/-- No document is ready with a pending suggestion of its current job. -/
def ReadyDecided (s : AppDb) : Prop :=
  ∀ id (document : Document) jobId, s.committed (.document id) = some document →
    document.status = .ready → document.currentAnalysisJobId = some jobId → Decided jobId s.committed

/-- A job is current in one document. -/
def OneDocument (s : AppDb) : Prop :=
  ∀ id id' (document document' : Document) jobId, s.committed (.document id) = some document →
    s.committed (.document id') = some document' → document.currentAnalysisJobId = some jobId →
      document'.currentAnalysisJobId = some jobId → id = id'

/-- Every start of these operations is verified. -/
theorem Settled.verified {c : AppConfig} (hinit : c.Initial fun kind => kind ∈ reviewKinds)
    (hone : OneDocument c.db) (hready : ReadyDecided c.db) :
    settledContract.Verified (fun _ _ _ => True) c := by
  have hidle : ∀ u, c.db.Idle u := Db.idle_of_quiet hinit.quiet
  refine ⟨⟨Db.Pending.of_quiet hinit.quiet, Db.Unique.of_quiet hinit.quiet ?_, hready,
    fun u => ⟨fun id document jobId hd => ?_, fun id row documentId document hw => ?_⟩⟩,
    fun u p hp => ?_⟩
  · intro k k' v v' i hv hv' hi hi'
    cases k
    case document id =>
      cases k'
      case document id' => rw [hone id id' v v' i hv hv' hi hi']
      all_goals cases hi'
    all_goals cases hi
  · rw [hidle] at hd
    cases hd
  · rw [hidle] at hw
    cases hw
  · obtain ⟨op, hkind, rfl⟩ := hinit.procs u p hp
    exact ⟨_, Stable.idle, hidle u, Settled.triple_program hkind⟩

/-- **When a ready document has no pending suggestion.** In a run of review operations and final
tasks in which no check of a review is stale, every committed ready document is decided. -/
theorem ready_document_decided {c₀ c : AppConfig}
    (hinit : c₀.Initial fun kind => kind ∈ reviewKinds) (hone : OneDocument c₀.db)
    (hready : ReadyDecided c₀.db) (hrun : c₀.Steps reviewCheckFresh c) : ReadyDecided c.db :=
  ((Settled.verified hinit hone hready).steps hrun).inv.ready

/-! ## The end of a review and a reset -/

/-- A document in review whose only suggestion is accepted; process 0 finishes the review, process 1
resets the suggestion. -/
def reviewedDocument : AppConfig :=
  AppConfig.start
    [⟨.document (9, 0), { projectId := (9, 2), name := "a.txt", format := .txt, storageKey := "a"
                          sizeBytes := 1, status := .awaitingApproval
                          currentAnalysisJobId := some (9, 1) }⟩,
      ⟨.job (9, 1), { documentId := (9, 0), status := .success }⟩,
      ⟨.suggestion (9, 3), { analysisJobId := (9, 1), documentId := (9, 0), sectionRef := []
                             changeType := .add, status := .accepted }⟩]
    []
    [.finalizeReview (9, 2) (9, 0) none, .resetSuggestion (9, 2) (9, 0) (9, 3)]

/-- The document under review is such a start. -/
theorem reviewedDocument_initial :
    reviewedDocument.Initial fun kind => kind ∈ reviewKinds :=
  AppConfig.initial_start (by simp [Operation.kind, reviewKinds])

/-- The rows of `reviewedDocument` that the invariant speaks about. -/
theorem reviewedDocument_document {id : Uuid} {document : Document}
    (h : reviewedDocument.db.committed (.document id) = some document) :
    id = (9, 0) ∧ document.status = .awaitingApproval := by
  have hmem := AppConfig.mem_rows_of_committed h
  simp only [List.mem_cons, Sigma.mk.injEq, Key.document.injEq, reduceCtorEq, false_and,
    List.not_mem_nil, or_false] at hmem
  obtain ⟨rfl, hrow⟩ := hmem
  cases hrow
  exact ⟨rfl, rfl⟩

/-- Its job is current in one document. -/
theorem reviewedDocument_oneDocument : OneDocument reviewedDocument.db := by
  intro id id' document document' jobId h h' _ _
  rw [(reviewedDocument_document h).1, (reviewedDocument_document h').1]

/-- No document is ready there. -/
theorem reviewedDocument_decided : ReadyDecided reviewedDocument.db := by
  intro id document jobId h hst
  rw [(reviewedDocument_document h).2] at hst
  cases hst

/-- The review is finished before the reset begins: the ready document is decided. -/
theorem finished_review_decided :
    ∃ c, reviewedDocument.Steps reviewCheckFresh c ∧
      documentStatus c.db (9, 0) = some .ready ∧ ReadyDecided c.db := by
  obtain ⟨c, hrun, hc⟩ := Config.exists_steps_of_run reviewCheckFresh (List.replicate 5 (.act 0))
    reviewedDocument (fun c => documentStatus c.db (9, 0) = some .ready) (by decide +kernel)
  exact ⟨c, hrun, of_decide_eq_true hc, ready_document_decided reviewedDocument_initial
    reviewedDocument_oneDocument reviewedDocument_decided hrun⟩

/-- The suggestions are counted, then the reset is committed, then the document is made ready. -/
theorem pending_in_ready_document :
    ¬ ∀ c₀ c : AppConfig, c₀.Initial (fun kind => kind ∈ reviewKinds) → OneDocument c₀.db →
      ReadyDecided c₀.db → c₀.Steps Config.anyStmt c → ReadyDecided c.db := by
  intro h
  obtain ⟨c, hrun, hc⟩ := Config.exists_steps_of_run Config.anyStmt
    (List.replicate 2 (.act 0) ++ List.replicate 5 (.act 1) ++ List.replicate 2 (.act 0))
    reviewedDocument
    (fun c => (c.db.committed (.document (9, 0))).any (Document.readyWith (9, 1)) &&
      (c.db.committed (.suggestion (9, 3))).any (Suggestion.pendingFor (9, 1)))
    (by decide +kernel)
  rw [Bool.and_eq_true, Option.any_eq_true, Option.any_eq_true] at hc
  obtain ⟨⟨document, hdocument, hready⟩, row, hrow, hpending⟩ := hc
  simp only [Document.readyWith, Bool.and_eq_true, decide_eq_true_eq] at hready
  simp only [Suggestion.pendingFor, Bool.and_eq_true, decide_eq_true_eq] at hpending
  exact h reviewedDocument c reviewedDocument_initial reviewedDocument_oneDocument
    reviewedDocument_decided hrun (9, 0) document (9, 1) hdocument hready.2 hready.1 (9, 3) row hrow
    hpending.1 hpending.2

end SyncBack
