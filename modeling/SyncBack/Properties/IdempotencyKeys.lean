import SyncBack.Application.SessionRules
import SyncBack.Txn.Unique

/-!
# Calls with one idempotency key

Any number of calls of `create_job` run at the same time. The lookups of a call and its insert are
not one step; what makes the callers agree is the unique index on the document and the key, and
the second lookup after a refused insert. `idempotency_key_agreement` says so for every
interleaving: one job for the key, one caller that is told of its creation, the same job for every
other caller, and that job rather than a conflict for a caller whose insert came too late.
-/

namespace SyncBack

open Txn Session Contract

/-! ## The calls -/

/-- A call of `create_job`. -/
structure CreateCall where
  projectId : Uuid
  documentId : Uuid
  idempotencyKey : Option String
  force : Bool

/-- The request of a call, with the result that the caller is told. -/
def CreateCall.program (call : CreateCall) : Session (Loaded AnalysisJob × Loaded Document) :=
  closing (AnalysisJobService.createJob call.projectId call.documentId call.idempotencyKey
    call.force)

/-- The call is about the document and uses the key. -/
def CreateCall.Asks (call : CreateCall) (documentId : Uuid) (key : String) : Prop :=
  call.documentId = documentId ∧ call.idempotencyKey = some key

/-- A configuration of calls. -/
abbrev CreateConfig := Config Process Key Row Message DomainError (Loaded AnalysisJob × Loaded Document)

/-- A start: the committed rows satisfy the unique indexes, and every process is one of the
calls. -/
structure CreateStart (calls : Process → Option CreateCall) (c : CreateConfig) : Prop where
  quiet : ∀ k, c.db.dirty k = none
  unique : ∀ (k k' : Key) (v : Row k) (v' : Row k'), c.db.committed k = some v →
    c.db.committed k' = some v' → k' ≠ k → UniqueIndex.clash k v k' v' = false
  procs : ∀ t, c.procs t = (calls t).map CreateCall.program

/-- The job that a caller is given, created by the call or before it. -/
def receivedJob : Except DomainError (Loaded AnalysisJob × Loaded Document) → Option (Loaded AnalysisJob)
  | .ok (job, _) => some job
  | .error (.analysisJobAlreadyExists id row) => some ⟨id, row⟩
  | .error _ => none

/-- The job is committed for the document under the key. -/
def HasKey (documentId : Uuid) (key : Option String) (job : Loaded AnalysisJob) (s : AppDb) : Prop :=
  s.committed (.job job.id) = some job.row ∧ job.row.documentId = documentId ∧
    job.row.idempotencyKey = key

/-! ## The invariant -/

/-- The entry of a job in the unique index on document and key. -/
def keyEntry : (k : Key) → Row k → Option (Uuid × String)
  | .job _, (row : AnalysisJob) => row.idempotencyKey.map (Prod.mk row.documentId)
  | _, _ => none

/-- An entry of the index is a job with the key. -/
theorem keyEntry_eq_some {k : Key} {row : Row k} {i : Uuid × String} (h : keyEntry k row = some i) :
    ∃ (id : Uuid) (job : AnalysisJob), (⟨k, row⟩ : Sigma Row) = ⟨.job id, job⟩ ∧
      job.documentId = i.1 ∧ job.idempotencyKey = some i.2 := by
  cases k
  case job id =>
    obtain ⟨key, hkey, rfl⟩ := Option.map_eq_some_iff.mp h
    exact ⟨id, row, rfl, rfl, hkey⟩
  all_goals cases h

instance : Indexed keyEntry where
  clash h h' := by
    obtain ⟨id, job, hk, hdocument, hkey⟩ := keyEntry_eq_some h
    obtain ⟨id', job', hk', hdocument', hkey'⟩ := keyEntry_eq_some h'
    cases hk
    cases hk'
    simp [UniqueIndex.clash, AnalysisJob.clash, hdocument, hdocument', hkey, hkey']

/-- A committed job stays as it is: nobody but its creator writes it. -/
def KeepsJobs : (k : Key) → Row k → Row k → Prop
  | .job _, old, new => new = old
  | _, _, _ => True

/-- A row stays as it is. -/
theorem KeepsJobs.refl (k : Key) (row : Row k) : KeepsJobs k row row := by
  cases k <;> trivial

/-- Rows that stay twice stay. -/
theorem KeepsJobs.trans (k : Key) (a b c : Row k) (h : KeepsJobs k a b) (h' : KeepsJobs k b c) :
    KeepsJobs k a c := by
  cases k
  case job => exact Eq.trans h' h
  all_goals trivial

/-- A job that stays keeps its entry. -/
theorem KeepsJobs.keyEntry (k : Key) (old new : Row k) (h : KeepsJobs k old new) :
    keyEntry k new = keyEntry k old := by
  cases k
  case job => exact congrArg _ h
  all_goals rfl

/-- What holds of the jobs at any time. -/
structure OneJobPerKey (s : AppDb) : Prop where
  kept : s.Pending KeepsJobs
  unique : s.Unique keyEntry

variable {s s' : AppDb} {t : Process}

namespace OneJobPerKey

/-- **One statement keeps the invariant**: the index decides on an insert, and nothing else writes
a job. -/
theorem effect {f : AppStmt} (h : OneJobPerKey s) (he : Effect t s f s') (hsent : Sent .create f) :
    OneJobPerKey s' := by
  refine ⟨h.kept.effect KeepsJobs.refl he hsent.deletes ?_,
    h.unique.effect KeepsJobs.keyEntry h.kept he hsent.deletes ?_⟩
  · rintro k p g r row rfl - - - -
    cases hsent with
    | jobStatus _ hkind => simp at hkind
    | jobColumns _ hkind => simp at hkind
    | _ => trivial
  · rintro k p g r rfl - -
    cases hsent with
    | jobStatus _ hkind => simp at hkind
    | jobColumns _ hkind => simp at hkind
    | _ => rfl

/-- Two committed jobs with one document and key are one. -/
theorem eq_of_hasKey (h : OneJobPerKey s) {documentId : Uuid} {key : String}
    {job job' : Loaded AnalysisJob} (hjob : HasKey documentId (some key) job s)
    (hjob' : HasKey documentId (some key) job' s) : job = job' := by
  have hentry : ∀ {job : Loaded AnalysisJob}, HasKey documentId (some key) job s →
      keyEntry (.job job.id) job.row = some (documentId, key) := by
    rintro job ⟨-, hdocument, hkey⟩
    simp [SyncBack.keyEntry, hdocument, hkey]
  obtain ⟨id, row⟩ := job
  obtain ⟨id', row'⟩ := job'
  have hid := h.unique (.job id) (.job id') row row' _ (.inl hjob.1) (.inl hjob'.1) (hentry hjob)
    (hentry hjob')
  cases hid
  cases hjob.1.symm.trans hjob'.1
  rfl

/-- A committed job stays. -/
theorem hasKey_step (h : OneJobPerKey s) (hf : Frame t s s') {documentId : Uuid}
    {key : Option String} {job : Loaded AnalysisJob} (hjob : HasKey documentId key job s) :
    HasKey documentId key job s' := by
  obtain ⟨row, hrow, hkept⟩ := hf.committed_along KeepsJobs.refl h.kept (.job job.id) _ hjob.1
  exact ⟨hrow.trans (congrArg some hkept), hjob.2⟩

end OneJobPerKey

/-- The contract of the calls. -/
def createContract : Contract Process Key Row Message where
  inv := OneJobPerKey
  guar := fun _ _ _ => True
  allowed := Config.anyStmt
  guar_refl := fun _ _ _ => trivial
  rollback := fun _ _ h => ⟨h.effect .rollback .rollback, trivial⟩
  tick := fun _ _ h => ⟨h.kept, h.unique⟩

/-- No step of another process removes the job of a key. -/
theorem stable_hasKey {documentId : Uuid} {key : Option String} {job : Loaded AnalysisJob} :
    createContract.Stable t (HasKey documentId key job) :=
  ⟨fun _ _ _ _ hi _ hf _ h => hi.hasKey_step hf h, fun _ _ _ h => h⟩

/-! ## The lookups -/

/-- The jobs of an answer are committed, when the transaction has written nothing. -/
theorem hasKey_of_select {p : (k : Key) → Row k → Bool} {job : Loaded AnalysisJob}
    (hidle : s.Idle t) (h : job ∈ AnalysisJobRepository.jobs (s.select t p)) :
    s.committed (.job job.id) = some job.row ∧ p (.job job.id) job.row = true := by
  obtain ⟨hread, hp⟩ := Db.mem_select.mp (AnalysisJobRepository.mem_jobs.mp h)
  exact ⟨hidle.read _ ▸ hread, hp⟩

/-- The lookup by key finds committed jobs with that key. -/
theorem triple_findByKey {documentId : Uuid} {key : Option String} :
    createContract.Triple t (AnalysisJobService.findByKey documentId key) (fun s => s.Idle t)
      (ending (fun found s => s.Idle t ∧ ∀ job, found = some job → HasKey documentId key job s)
        fun _ _ => True) := by
  rcases key with _ | key
  · refine fun s _ hidle => ⟨hidle, ?_⟩
    rintro job ⟨⟩
  refine Triple.find (A := fun rows s => s.Idle t ∧ ∀ job ∈ AnalysisJobRepository.jobs rows,
    HasKey documentId (some key) job s) (fun rows => ?_) (fun s _ hidle => ⟨hidle, fun job hjob => ?_⟩)
    fun rows s _ h => ⟨h.1, fun job hjob => h.2 job (List.mem_of_head? hjob)⟩
  · exact Stable.idle.and (Stable.all fun job => Stable.all fun _ => stable_hasKey)
  · obtain ⟨hrow, hp⟩ := hasKey_of_select hidle hjob
    simp only [Bool.and_eq_true, decide_eq_true_eq] at hp
    exact ⟨hrow, hp⟩

/-- The lookup of an active job. -/
theorem triple_getActive {documentId : Uuid} :
    createContract.Triple t (AnalysisJobRepository.getActiveByDocumentId documentId)
      (fun s => s.Idle t)
      (ending (fun found s => ∀ job, found = some job →
        HasKey documentId job.row.idempotencyKey job s) fun _ _ => True) := by
  refine Triple.find (A := fun rows s => ∀ job ∈ AnalysisJobRepository.jobs rows,
    HasKey documentId job.row.idempotencyKey job s) (fun rows => ?_) (fun s _ hidle job hjob => ?_)
    fun rows s _ h job hjob => h job (List.mem_of_getLast? hjob)
  · exact Stable.all fun job => Stable.all fun _ => stable_hasKey
  · obtain ⟨hrow, hp⟩ := hasKey_of_select hidle hjob
    simp only [Bool.and_eq_true, decide_eq_true_eq] at hp
    exact ⟨hrow, hp.1, rfl⟩

/-! ## The creation -/

/-- One statement of a call within the contract. -/
theorem create_step {f : AppStmt} (h : OneJobPerKey s) (he : Effect t s f s')
    (hsent : Sent .create f) : createContract.inv s' ∧ createContract.guar t s s' :=
  ⟨h.effect he hsent, trivial⟩

/-- A program of a call, when nothing is relied on. -/
theorem triple_sent {α : Type} {p : Session α} (h : p.Sends (Sent .create)) :
    createContract.Triple t p (fun _ => True) fun _ _ => True :=
  Triple.of_sends (Stable.const True) (fun _ hf _ hinv _ _ _ _ he =>
    ⟨(create_step hinv (exec_effect he) hf).1, trivial, trivial⟩) h

/-- Transaction `t` has inserted the job. -/
def Inserted (t : Process) (documentId : Uuid) (key : Option String) (job : Loaded AnalysisJob)
    (s : AppDb) : Prop :=
  (job.id.1 = t ∧ job.row.documentId = documentId ∧ job.row.idempotencyKey = key) ∧
    s.writes t (.job job.id) = some (some job.row)

/-- No step of another process changes the job that `t` has inserted. -/
theorem stable_inserted {documentId : Uuid} {key : Option String} {job : Loaded AnalysisJob} :
    createContract.Stable t (Inserted t documentId key job) :=
  (Stable.const _).and (Stable.of_writes fun s s' h hw => by rw [h, hw])

/-- A creation inserts the job under its key. -/
theorem triple_insertJob {document : Loaded Document} {key : Option String} :
    createContract.Triple t (AnalysisJobRepository.createForDocument document .pending key)
      (fun _ => True) (ending (Inserted t document.id key) fun _ _ => True) := by
  refine Triple.draw (A := fun id _ => id.1 = t) (fun _ => Stable.const _)
    (fun s hinv _ => ⟨(create_step hinv .draw .draw).1, trivial, rfl⟩) fun id => ?_
  refine Triple.insert (A := fun inserted s => inserted = true → Inserted t document.id key
    ⟨id, { documentId := document.id, idempotencyKey := key }⟩ s) (fun _ => ?_) ?_ ?_ fun inserted => ?_
  · exact Stable.all fun _ => stable_inserted
  · rintro s - - - ⟨⟩
  · intro s hinv hid _ hfree hread huniq
    exact ⟨(create_step hinv (.insert hfree hread huniq) (.insertJob (by simp))).1, trivial,
      fun _ => ⟨⟨hid, rfl, rfl⟩, Db.writes_write_self _ _ _ _⟩⟩
  · cases inserted
    · exact fun _ _ _ => trivial
    · exact fun _ _ h => h rfl

/-- Setting the current job leaves the inserted job. -/
theorem triple_setCurrentJob {document : Loaded Document} {jobId : Option Uuid} {documentId : Uuid}
    {key : Option String} {job : Loaded AnalysisJob} :
    createContract.Triple t (DocumentRepository.setCurrentJob document jobId)
      (Inserted t documentId key job)
      (ending (fun _ => Inserted t documentId key job) fun _ _ => True) := by
  unfold DocumentRepository.setCurrentJob
  split
  · exact fun _ _ h => h
  · refine (triple_flush (A := Inserted t documentId key job) stable_inserted ?_).mono
      (fun _ _ h => h) ?_
    · intro s r hinv hjob _ hfree hread hp huniq
      refine ⟨(create_step hinv (.update hfree hread hp huniq) (.documentCurrent (by simp))).1,
        trivial, hjob.1, ?_⟩
      rw [Db.writes_write_of_ne s _ (by simp), hjob.2]
    · rintro (e | d) s - h
      · trivial
      · exact h.2

/-- What a call knows of the job that it goes on with. -/
def Stored (t : Process) (documentId : Uuid) (key : Option String) :
    CreateOutcome → AppDb → Prop
  | .created job _, s => job.id.1 = t ∧ HasKey documentId key job s
  | .existing job, s => HasKey documentId key job s

/-- Storing a job ends with the job committed, or with a conflict. -/
theorem triple_store {document : Loaded Document} {key : Option String}
    (hst : DocumentLifecycle.canStartAnalysis document.row.status = true) :
    createContract.Triple t (AnalysisJobService.storeJob document key) (fun _ => True)
      (ending (Stored t document.id key) fun _ _ => True) := by
  unfold AnalysisJobService.storeJob
  refine Triple.bind ((triple_sent (sends_restart (Sent.restart (by simp) hst))).and_returns returns_restart)
    (fun document' => ?_) fun _ _ _ _ => trivial
  refine Triple.fact (F := document'.id = document.id) (P := fun _ => True) (fun hid => ?_) |>.pre
    fun _ _ h => ⟨h.2, trivial⟩
  rw [← hid]
  refine Triple.bind triple_insertJob (fun job => ?_) fun _ _ _ _ => trivial
  refine Triple.bind triple_setCurrentJob (fun document'' => ?_) fun _ _ _ _ => trivial
  have hst : createContract.Stable t (Stored t document'.id key (.created job document'')) :=
    (Stable.const _).and stable_hasKey
  refine Triple.commit (A := Stored t document'.id key (.created job document'')) hst ?_
    fun _ _ h => h
  rintro s hinv ⟨⟨hcreator, hjob⟩, hw⟩ -
  exact ⟨(create_step hinv .commit .commit).1, trivial, hcreator,
    by rw [Db.commit_committed, Db.read_of_writes hw], hjob⟩

/-- `_create_job_once` ends with a job under the key, or with a conflict, and idle. -/
theorem triple_createOnce {projectId documentId : Uuid} {key : Option String} {force : Bool} :
    createContract.Triple t (AnalysisJobService.createJobOnce projectId documentId key force)
      (fun s => s.Idle t)
      (ending (Stored t documentId key) fun _ s => s.Idle t) := by
  refine triple_withUow (Q := ending (Stored t documentId key) fun _ _ => True) ?_
    (fun _ => Stable.idle) (fun _ _ _ h => h) fun _ s _ _ => Db.idle_rollback s t
  refine Triple.bind (triple_getDocumentOrRaise
    (A := fun document s => document.id = documentId ∧ s.Idle t)
    (fun _ => (Stable.const _).and Stable.idle) fun s row _ hidle _ => ⟨rfl, hidle⟩)
    (fun document => Triple.fact fun hid => ?_) fun _ _ _ _ => trivial
  subst hid
  refine Triple.bind triple_findByKey (fun existing => ?_) fun _ _ _ _ => trivial
  split
  · exact fun s _ h => h.2 _ rfl
  split
  · rename_i hst
    refine Triple.bind (triple_getActive.pre fun _ _ h => h.1) (fun active => ?_)
      fun _ _ _ _ => trivial
    split
    · rename_i job
      split
      · rename_i hkey
        exact fun s _ h => hkey.2 ▸ h job rfl
      · exact fun _ _ _ => trivial
    · split
      · exact fun _ _ _ => trivial
      · exact (triple_store hst).pre fun _ _ _ => trivial
  · exact fun _ _ _ => trivial

/-- The exception carries no job. -/
def NoJob (e : DomainError) : Prop := ∀ id row, e ≠ .analysisJobAlreadyExists id row

/-- A unit of work raises what its body raises. -/
theorem raises_withUow {α : Type} {E : DomainError → Prop} {body : Session α}
    (h : body.Raises E) : (withUow body).Raises E :=
  h.tryCatch fun _ he _ => he

/-- A flush raises no exception with a job. -/
theorem raises_flushed {ρ : Type} (o : Outcome ρ) : (flushed o).Raises NoJob := by
  rcases o with _ | _ | _
  · exact fun _ _ h => by cases h
  · exact fun _ _ h => by cases h
  · trivial

/-- Looking for a key raises nothing. -/
theorem raises_findByKey {documentId : Uuid} {key : Option String} {E : DomainError → Prop} :
    (AnalysisJobService.findByKey documentId key).Raises E := by
  cases key
  · trivial
  · exact fun _ => trivial

/-- Storing a job raises no exception with a job. -/
theorem raises_store {document : Loaded Document} {key : Option String} :
    (AnalysisJobService.storeJob document key).Raises NoJob := by
  unfold AnalysisJobService.storeJob
  refine Prog.Raises.bind ?_ fun document' => Prog.Raises.bind ?_ fun job => Prog.Raises.bind ?_
    fun document'' => Prog.Raises.bind (fun _ => trivial) fun _ => trivial
  · split
    · trivial
    · unfold AnalysisJobService.setDocumentStatus documentTransition DocumentRepository.updateStatus
      refine Prog.Raises.bind ?_ fun status => ?_
      · split
        · trivial
        · exact fun _ _ h => by cases h
      · split
        · trivial
        · exact Prog.Raises.bind (fun _ => trivial) fun o =>
            (raises_flushed o).bind fun _ => trivial
  · refine Prog.Raises.bind (fun _ => trivial) fun id => Prog.Raises.bind (fun _ => trivial)
      fun inserted => ?_
    split
    · trivial
    · exact fun _ _ h => by cases h
  · unfold DocumentRepository.setCurrentJob
    split
    · trivial
    · exact Prog.Raises.bind (fun _ => trivial) fun o => (raises_flushed o).bind fun _ => trivial

/-- `_create_job_once` returns a job that it has found, and never raises with it. -/
theorem raises_createOnce {projectId documentId : Uuid} {key : Option String} {force : Bool} :
    (AnalysisJobService.createJobOnce projectId documentId key force).Raises NoJob := by
  refine raises_withUow (Prog.Raises.bind ?_ fun document =>
    raises_findByKey.bind fun existing => ?_)
  · refine Prog.Raises.bind (fun _ => trivial) fun found => ?_
    split
    · split
      · trivial
      · exact fun _ _ h => by cases h
    · exact fun _ _ h => by cases h
  split
  · trivial
  split
  · refine Prog.Raises.bind (fun _ => trivial) fun active => ?_
    split
    · split
      · trivial
      · exact fun _ _ h => by cases h
    · split
      · exact fun _ _ h => by cases h
      · exact raises_store
  · exact fun _ _ h => by cases h

/-- What a caller is told. -/
def Told (t : Process) (call : CreateCall) :
    Except DomainError (Loaded AnalysisJob × Loaded Document) → AppDb → Prop
  | .ok (job, _), s => job.id.1 = t ∧ HasKey call.documentId call.idempotencyKey job s
  | .error e, s => ∀ id row, e = .analysisJobAlreadyExists id row →
      HasKey call.documentId call.idempotencyKey ⟨id, row⟩ s

/-- What a caller was told stays true. -/
theorem stable_told {call : CreateCall}
    {r : Except DomainError (Loaded AnalysisJob × Loaded Document)} :
    createContract.Stable t (Told t call r) := by
  rcases r with e | ⟨job, document⟩
  · exact Stable.all fun id => Stable.all fun row => Stable.all fun _ => stable_hasKey
  · exact (Stable.const _).and stable_hasKey

/-- The second lookup after a refused insert. -/
theorem triple_raiseCreateConflict {call : CreateCall} :
    createContract.Triple t
      (AnalysisJobService.raiseCreateConflict call.documentId call.idempotencyKey)
      (fun s => s.Idle t)
      (ending (Stored t call.documentId call.idempotencyKey) fun e => Told t call (.error e)) := by
  have htold : ∀ e, createContract.Stable t (Told t call (.error e)) := fun _ => stable_told
  refine Triple.bind (J := ending (fun found s => ∀ job, found = some job →
    HasKey call.documentId call.idempotencyKey job s) fun e => Told t call (.error e))
    (triple_withUow (triple_findByKey.and_raises (E := fun _ => False) raises_findByKey) htold
      (fun _ _ _ h => h.2) fun _ _ _ h => h.2.elim) (fun existing => ?_) fun _ _ _ h => h
  split
  · rename_i job
    rintro s - h id row ⟨⟩
    exact h job rfl
  · rintro s - - id row ⟨⟩

/-- **A call of `create_job`**, whatever the others do. -/
theorem triple_call {call : CreateCall} :
    createContract.Triple t call.program (fun s => s.Idle t) (Told t call) := by
  refine triple_closing (Q := Told t call) ?_ (fun _ => stable_told) fun r s _ h => ?_
  · refine Triple.bind (Triple.tryCatch
      (Q := ending (Stored t call.documentId call.idempotencyKey) fun e => Told t call (.error e))
      (triple_createOnce.and_raises raises_createOnce) (fun _ _ _ h => h) fun e => ?_)
      (fun outcome => ?_) fun _ _ _ h => h
    · split
      · exact triple_raiseCreateConflict.pre fun _ _ h => h.1
      · rintro s - h id row rfl
        exact absurd rfl (h.2 id row)
    · split
      · exact fun _ _ h => h
      · rintro s - h id row ⟨⟩
        exact h
  · rcases r with e | ⟨job, document⟩ <;> exact h

/-! ## A refused insert -/

/-- What a call still has to do when its insert was refused. -/
def afterConflict (documentId : Uuid) (key : Option String) :
    Session (Loaded AnalysisJob × Loaded Document) := do
  rollback
  closing do
    let outcome ← AnalysisJobService.raiseCreateConflict documentId key
    match outcome with
    | .created job document => pure (job, document)
    | .existing job => throw (.analysisJobAlreadyExists job.id job.row)

/-- A job is inserted for the document under the key, and a refusal is followed by the second
lookup. -/
def InsertsJob (documentId : Uuid) (key : Option String) : (f : AppStmt) →
    (f.Resp Process → Session (Loaded AnalysisJob × Loaded Document)) → Prop
  | .insert (.job _) (row : AnalysisJob), next => (row.documentId = documentId ∧
      row.idempotencyKey = key) ∧ next false = afterConflict documentId key
  | _, _ => True

/-- The statement inserts no job. -/
def NoInsert (f : AppStmt) : Prop := ∀ id row, f ≠ .insert (.job id) row

/-- A read inserts nothing. -/
theorem NoInsert.of_reads {f : AppStmt} (h : Reads f) : NoInsert f := by
  rintro id row rfl
  cases h

instance : AllowsTransaction NoInsert where
  reads := NoInsert.of_reads
  commit _ _ := by simp
  rollback _ _ := by simp

/-- A statement without an insert meets the condition. -/
theorem insertsJob_of_noInsert {documentId : Uuid} {key : Option String} {f : AppStmt}
    {next : f.Resp Process → Session (Loaded AnalysisJob × Loaded Document)} (h : NoInsert f) :
    InsertsJob documentId key f next := by
  cases f with
  | insert k row =>
      cases k
      case job id => exact absurd rfl (h id row)
      all_goals trivial
  | _ => trivial

section points

variable {documentId : Uuid} {key : Option String} {α : Type}

/-- A condition that is met by every statement but the insert of a job for the document under the
key, and by that insert if its refusal raises a conflict. -/
structure MetByInsert (documentId : Uuid) (key : Option String)
    (Φ : (f : AppStmt) → (f.Resp Process → Session α) → Prop) : Prop where
  other : ∀ f next, NoInsert f → Φ f next
  insert : ∀ id (row : AnalysisJob) (next : Bool → Session α), row.documentId = documentId →
    row.idempotencyKey = key → next false = throw .analysisJobConflict → Φ (.insert (.job id) row) next

/-- The insert of a creation is the one that the condition is about. -/
theorem points_insert {document : Loaded Document}
    {Φ : (f : AppStmt) → (f.Resp Process → Session (Loaded AnalysisJob)) → Prop}
    (hΦ : MetByInsert document.id key Φ) :
    (AnalysisJobRepository.createForDocument document .pending key).Points Φ :=
  ⟨hΦ.other _ _ fun _ _ => by simp, fun id =>
    ⟨hΦ.insert id _ _ rfl rfl rfl, fun inserted => by cases inserted <;> trivial⟩⟩

/-- So is that of `_store_job`. -/
theorem points_store {document : Loaded Document}
    {Φ : (f : AppStmt) → (f.Resp Process → Session CreateOutcome) → Prop}
    (hΦ : MetByInsert document.id key Φ) : (AnalysisJobService.storeJob document key).Points Φ := by
  unfold AnalysisJobService.storeJob
  refine Prog.Points.bind (Prog.Points.of_sends (fun f next hf => hΦ.other f _ hf)
    (sends_restart fun _ _ _ => by simp)) returns_restart fun document' hid => ?_
  rw [← hid] at hΦ
  refine Prog.Points.bind (points_insert ⟨fun f next hf => hΦ.other f _ hf,
    fun id row next hdocument hkey hnext => hΦ.insert id row _ hdocument hkey (by rw [hnext]; rfl)⟩)
    (Prog.Returns.any (Q := fun _ => True) fun _ => trivial) fun job _ => ?_
  exact Prog.Points.of_sends (fun f next hf => hΦ.other f _ hf) ((sends_setCurrentJob
    fun _ _ => by simp).bind fun _ => (Prog.Sends.stmt fun _ _ => by simp).bind fun _ => trivial)

/-- The only insert of `_create_job_once`. -/
theorem points_createOnce {projectId : Uuid} {force : Bool}
    {Φ : (f : AppStmt) → (f.Resp Process → Session CreateOutcome) → Prop}
    (hother : ∀ f next, NoInsert f → Φ f next)
    (hinsert : ∀ id (row : AnalysisJob) (next : Bool → Session CreateOutcome),
      row.documentId = documentId → row.idempotencyKey = key →
        (next false = rollback >>= fun _ => throw .analysisJobConflict) →
          Φ (.insert (.job id) row) next) :
    (AnalysisJobService.createJobOnce projectId documentId key force).Points Φ := by
  have hreads : ∀ {β : Type} {p : Session β} {g : β → Session CreateOutcome}, p.Sends Reads →
      p.Points fun f next => Φ f fun b => withUow (next b >>= g) := fun h =>
    Prog.Points.of_sends (fun f next hf => hother f _ (NoInsert.of_reads hf)) h
  refine Prog.Points.tryCatch ?_ fun e => ⟨hother _ _ fun _ _ => by simp, fun _ => trivial⟩
  refine Prog.Points.bind (hreads (sends_getDocumentOrRaise _ _)) returns_getDocumentOrRaise
    fun document hid => ?_
  subst hid
  refine Prog.Points.bind (Q := fun _ => True) (hreads (sends_findByKey _ _))
    (Prog.Returns.any fun _ => trivial) fun existing _ => ?_
  split
  · trivial
  split
  · refine Prog.Points.bind (Q := fun _ => True) (hreads (sends_getActive _))
      (Prog.Returns.any fun _ => trivial) fun active _ => ?_
    split
    · split <;> trivial
    · split
      · trivial
      · refine points_store ⟨fun f next hf => hother f _ hf, fun id row next hd hk hnext => ?_⟩
        exact hinsert id row _ hd hk (by rw [hnext]; rfl)
  · trivial

/-- **The insert of a call.** -/
theorem points_call {call : CreateCall} :
    call.program.Points (InsertsJob call.documentId call.idempotencyKey) := by
  refine Prog.Points.bind (Q := fun _ => True) (Prog.Points.tryCatch ?_ fun e => ?_)
    (Prog.Returns.any fun _ => trivial) fun a _ => ⟨trivial, fun _ => trivial⟩
  · refine Prog.Points.bind (Q := fun _ => True) (Prog.Points.tryCatch ?_ fun e => ?_)
      (Prog.Returns.any fun _ => trivial) fun outcome _ => ?_
    · refine points_createOnce (fun f next hf => insertsJob_of_noInsert hf) ?_
      intro id row next hdocument hkey hnext
      refine ⟨⟨hdocument, hkey⟩, ?_⟩
      dsimp only
      rw [hnext]
      rfl
    · refine Prog.Points.of_sends (P := NoInsert) (fun f next hf => insertsJob_of_noInsert hf) ?_
      split
      · exact sends_raiseCreateConflict
      · trivial
    · cases outcome <;> trivial
  · exact ⟨trivial, fun _ => trivial⟩

end points

/-- A list of one element, however often, begins with it. -/
theorem head_eq_of_forall {α : Type} {a : α} : ∀ {l : List α}, a ∈ l → (∀ b ∈ l, b = a) →
    l.head? = some a
  | [], ha, _ => by cases ha
  | b :: l, _, h => congrArg some (h b List.mem_cons_self)

/-- The second lookup finds the rival. -/
theorem triple_afterConflict {documentId : Uuid} {key : String} {rival : Loaded AnalysisJob} :
    createContract.Triple t (afterConflict documentId (some key)) (HasKey documentId (some key) rival)
      fun r _ => r = .error (.analysisJobAlreadyExists rival.id rival.row) := by
  have hrival : createContract.Stable t fun s => s.Idle t ∧ HasKey documentId (some key) rival s :=
    Stable.idle.and stable_hasKey
  refine Triple.rollback hrival (fun s _ h => ⟨Db.idle_rollback s t, h⟩) ?_
  refine triple_closing (Q := fun r _ => r = .error (.analysisJobAlreadyExists rival.id rival.row))
    ?_ (fun _ => Stable.const _) fun _ _ _ h => h
  have hfind : createContract.Triple t (AnalysisJobService.findByKey documentId (some key))
      (fun s => s.Idle t ∧ HasKey documentId (some key) rival s)
      (ending (fun found _ => found = some rival) fun _ _ => False) := by
    refine Triple.find (A := fun rows _ => (AnalysisJobRepository.jobs rows).head? = some rival)
      (fun _ => Stable.const _) ?_ fun rows _ _ h => h
    rintro s hinv ⟨hidle, hrow, hjob⟩
    refine head_eq_of_forall (AnalysisJobRepository.mem_jobs.mpr (Db.mem_select.mpr ⟨(hidle.read _).trans hrow, ?_⟩))
      fun job hmem => ?_
    · simpa using hjob
    · obtain ⟨hrow', hp⟩ := hasKey_of_select hidle hmem
      simp only [Bool.and_eq_true, decide_eq_true_eq] at hp
      exact hinv.eq_of_hasKey ⟨hrow', hp⟩ ⟨hrow, hjob⟩
  have hraise : createContract.Triple t
      (AnalysisJobService.raiseCreateConflict documentId (some key))
      (fun s => s.Idle t ∧ HasKey documentId (some key) rival s)
      (ending (fun _ _ => False) fun e _ => e = .analysisJobAlreadyExists rival.id rival.row) := by
    refine Triple.bind (J := ending (fun found _ => found = some rival) fun _ _ => False)
      (triple_withUow hfind (fun _ => Stable.const False) (fun _ _ _ h => h) fun _ _ _ h => h)
      (fun existing => ?_) fun _ _ _ h => h.elim
    split
    · rintro s - ⟨⟩
      rfl
    · rintro s - ⟨⟩
  refine hraise.bind (fun outcome => ?_) fun e _ _ h => by rw [h]
  split <;> exact fun _ _ h => h.elim

/-- A call that is about to insert a job when a rival is committed goes on to the second lookup. -/
theorem triple_lateInsert {documentId : Uuid} {key : String} {id : Uuid} {row : AnalysisJob}
    {rival : Loaded AnalysisJob}
    {next : Bool → Session (Loaded AnalysisJob × Loaded Document)}
    (hinsert : InsertsJob documentId (some key) (.insert (.job id) row) next) :
    createContract.Triple t (.op (.insert (.job id) row) next) (HasKey documentId (some key) rival)
      fun r _ => r = .error (.analysisJobAlreadyExists rival.id rival.row) := by
  obtain ⟨⟨hdocument, hkey⟩, hnext⟩ := hinsert
  refine Triple.insert (A := fun inserted s => inserted = false ∧ HasKey documentId (some key) rival s)
    (fun _ => (Stable.const _).and stable_hasKey) (fun _ _ h _ => ⟨rfl, h⟩) ?_ fun inserted => ?_
  · rintro s hinv ⟨hrow, hdocument', hkey'⟩ - hfree hread huniq
    -- the entry of the rival is in the index
    refine absurd huniq (Db.not_free_of_live (i := (documentId, key)) KeepsJobs.keyEntry hinv.kept
      (show Key.job rival.id ≠ .job id from fun h => ?_) (.inl hrow) ?_ ?_)
    · obtain ⟨own, hown, -⟩ := hinv.kept.read KeepsJobs.refl t _ _ hrow
      obtain rfl := Key.job.inj h
      rw [hread] at hown
      cases hown
    · simp [keyEntry, hdocument, hkey]
    · simp [keyEntry, hdocument', hkey']
  · refine Triple.fact fun hb => ?_
    subst hb
    rw [hnext]
    exact triple_afterConflict

/-! ## The agreement -/

/-- **Agreement** of the callers that use one key for one document. -/
structure KeyAgreement (calls : Process → Option CreateCall) (documentId : Uuid) (key : String)
    (c : CreateConfig) : Prop where
  /-- Only one job is ever committed. -/
  one_job : ∀ c', c.Steps Config.anyStmt c' → ∀ job job', HasKey documentId (some key) job c.db →
    HasKey documentId (some key) job' c'.db → job = job'
  /-- Only one caller is told that the job was created. -/
  one_creator : ∀ t u x y, calls t = some x → calls u = some y → x.Asks documentId key →
    y.Asks documentId key → ∀ r r', c.result t = some (.ok r) → c.result u = some (.ok r') → t = u
  /-- The callers that are given a job are given the same, which is committed. -/
  same_job : ∀ t u x y, calls t = some x → calls u = some y → x.Asks documentId key →
    y.Asks documentId key → ∀ r r' job job', c.result t = some r → c.result u = some r' →
      receivedJob r = some job → receivedJob r' = some job' →
        job = job' ∧ HasKey documentId (some key) job c.db
  /-- A caller whose insert comes after the commit of a rival is given the job of the rival. -/
  lost_race : ∀ t x id row next rival, calls t = some x → x.Asks documentId key →
    c.procs t = some (.op (.insert (.job id) row) next) → HasKey documentId (some key) rival c.db →
      ∀ c', c.Steps Config.anyStmt c' → ∀ r, c'.result t = some r →
        r = .error (.analysisJobAlreadyExists rival.id rival.row)

/-- The calls of a start are verified against the contract. -/
theorem verified_calls {calls : Process → Option CreateCall} {c : CreateConfig}
    (h : CreateStart calls c) :
    createContract.Verified (fun t r s => ∀ call, calls t = some call → Told t call r s) c := by
  refine ⟨⟨Db.Pending.of_quiet h.quiet, Db.Unique.of_quiet h.quiet ?_⟩, fun t p hp => ?_⟩
  · intro k k' v v' i hv hv' hi hi'
    by_contra hne
    have hclash := h.unique k k' v v' hv hv' (Ne.symm hne)
    rw [Indexed.clash hi hi'] at hclash
    cases hclash
  · rw [h.procs] at hp
    obtain ⟨call, hcall, rfl⟩ := Option.map_eq_some_iff.mp hp
    refine ⟨_, Stable.idle, Db.idle_of_quiet h.quiet t, triple_call.mono (fun _ _ h => h) ?_⟩
    intro r s _ htold call' hcall'
    rw [hcall] at hcall'
    cases hcall'
    exact htold

/-- **Idempotency keys.** In every configuration that calls of `create_job` can reach, the callers
that use one key for one document agree. -/
theorem idempotency_key_agreement {calls : Process → Option CreateCall} {c₀ c : CreateConfig}
    (hstart : CreateStart calls c₀) (hrun : c₀.Steps Config.anyStmt c) (documentId : Uuid)
    (key : String) : KeyAgreement calls documentId key c := by
  have hv := (verified_calls hstart).steps hrun
  have hgiven : ∀ {t x r job}, calls t = some x → x.Asks documentId key → c.result t = some r →
      receivedJob r = some job → HasKey documentId (some key) job c.db := by
    rintro t x r job hx ⟨rfl, hkey⟩ hr hjob
    have htold := hv.result hr x hx
    rw [← hkey]
    match r, hjob with
    | .ok (_, _), rfl => exact htold.2
    | .error (.analysisJobAlreadyExists id row), rfl => exact htold id row rfl
  have hcreator : ∀ {t x r}, calls t = some x → c.result t = some (.ok r) → r.1.id.1 = t :=
    fun hx hr => (hv.result hr _ hx).1
  refine ⟨fun c' hs job job' hjob hjob' => ?_, fun t u x y hx hy hax hay r r' hr hr' => ?_,
    fun t u x y hx hy hax hay r r' job job' hr hr' hjob hjob' => ?_,
    fun t x id row next rival hx hax hp hrival c' hs r hr => ?_⟩
  · obtain ⟨row, hrow, hsame⟩ := hv.along (fun _ h => h.kept) KeepsJobs.refl KeepsJobs.trans hs
      (.job job.id) _ hjob.1
    have hkept : HasKey documentId (some key) job c'.db :=
      ⟨hrow.trans (congrArg some hsame), hjob.2⟩
    exact (hv.steps hs).inv.eq_of_hasKey hkept hjob'
  · have hsame := hv.inv.eq_of_hasKey (hgiven hx hax hr rfl) (hgiven hy hay hr' rfl)
    rw [← hcreator hx hr, ← hcreator hy hr', hsame]
  · have h := hgiven hx hax hr hjob
    exact ⟨hv.inv.eq_of_hasKey h (hgiven hy hay hr' hjob'), h⟩
  · obtain ⟨rfl, hkey⟩ := hax
    have hinsert : InsertsJob x.documentId x.idempotencyKey (.insert (.job id) row) next := by
      refine (Config.points_of_steps hrun (fun p hp => ?_) _ hp).1
      rw [hstart.procs, hx] at hp
      cases hp
      exact points_call
    rw [hkey] at hinsert
    have hlate : createContract.Verified
        (fun u r _ => u = t → r = .error (.analysisJobAlreadyExists rival.id rival.row)) c := by
      refine ⟨hv.inv, fun u p hu => ?_⟩
      by_cases hut : u = t
      · subst hut
        cases hp.symm.trans hu
        exact ⟨_, stable_hasKey, hrival, (triple_lateInsert hinsert).mono (fun _ _ h => h)
          fun _ _ _ h _ => h⟩
      · obtain ⟨P, hst, hP, htriple⟩ := hv.2 u p hu
        exact ⟨P, hst, hP, htriple.mono (fun _ _ h => h) fun _ _ _ _ h => absurd h hut⟩
    exact (hlate.steps hs).result hr rfl

/-! ## Two calls at once -/

/-- Two calls with one key. -/
def twoCalls : Process → Option CreateCall := fun t =>
  [⟨(9, 2), (9, 0), some "key", false⟩, ⟨(9, 2), (9, 0), some "key", false⟩][t]?

/-- A new document; processes 0 and 1 are the two calls. -/
def concurrentCalls : CreateConfig where
  db := AppDb.ofRows
    [⟨.document (9, 0), { projectId := (9, 2), name := "a.txt", format := .txt, storageKey := "a"
                          sizeBytes := 1, status := .draft }⟩] []
  procs t := (twoCalls t).map CreateCall.program

/-- The two calls are such a start. -/
theorem concurrentCalls_start : CreateStart twoCalls concurrentCalls where
  quiet _ := rfl
  unique k k' v v' hv hv' hne := by
    have hk := List.of_mem_dlookup hv
    have hk' := List.of_mem_dlookup hv'
    simp only [List.mem_cons, Sigma.mk.injEq, List.not_mem_nil, or_false] at hk hk'
    exact absurd (hk'.1.trans hk.1.symm) hne
  procs _ := rfl

/-- Both calls look up the key and an active job, and find none. -/
def bothLookUp : List (Move Process) := [.act 0, .act 0, .act 0, .act 1, .act 1, .act 1]

/-- The first call inserts its job and commits; the insert of the second one is refused. -/
def firstCommits : List (Move Process) := List.replicate 5 (.act 0) ++ List.replicate 5 (.act 1)

/-- The second call is given the job of the first one. -/
theorem late_call_given_same_job :
    ∃ c r r' job, concurrentCalls.Steps Config.anyStmt c ∧ c.result 0 = some r ∧
      c.result 1 = some r' ∧ r.isOk = true ∧ r'.isOk = false ∧ receivedJob r = some job ∧
      receivedJob r' = some job := by
  obtain ⟨c, hrun, hc⟩ := Config.exists_steps_of_run Config.anyStmt (bothLookUp ++ firstCommits)
    concurrentCalls (fun c => ((c.result 0).any fun r => r.isOk && (receivedJob r).isSome) &&
      (c.result 1).any fun r => !r.isOk && (receivedJob r).isSome) (by decide +kernel)
  simp only [Bool.and_eq_true, Option.any_eq_true, Bool.not_eq_true', Option.isSome_iff_exists] at hc
  obtain ⟨⟨r, hr, hok, job, hjob⟩, r', hr', hnot, job', hjob'⟩ := hc
  have hsame := (idempotency_key_agreement concurrentCalls_start hrun (9, 0) "key").same_job 0 1
    _ _ rfl rfl ⟨rfl, rfl⟩ ⟨rfl, rfl⟩ r r' job job' hr hr' hjob hjob'
  exact ⟨c, r, r', job, hrun, hr, hr', hok, hnot, hjob, by rw [hjob', hsame.1]⟩

end SyncBack
