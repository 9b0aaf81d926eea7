import SyncBack.Application.Operations
import SyncBack.Application.StartRules

/-!
# A bulk start is many single starts

`bulk_create_jobs_for_project` runs many transactions in one session, some of which are rolled
back. With nobody else at work each document comes to what it would have come to alone: its round
of the loop reads and writes the rows of that document only (`Starts.congr`, `Starts.others`), so
neither the rounds before nor the rounds after matter to it (`startOrSkipEach_evaluates`, by
induction on the list), and reading the jobs again at the end changes none of them.

A new job has the identifier that `uuid4` draws for it. To compare two starts, they draw the same
one.
-/

set_option linter.unusedSectionVars false

namespace SyncBack

open Txn Session AnalysisJobService

/-! ## The rows of one document -/

/-- The rows that concern a document: all but the other documents and their jobs. -/
def concerns (documentId : Uuid) : (k : Key) → Row k → Bool
  | .document id, _ => id = documentId
  | .job _, (row : AnalysisJob) => row.documentId = documentId
  | _, _ => true

/-- The rows that concern the document are the same. -/
def SameFor (documentId : Uuid) (rows rows' : (k : Key) → Option (Row k)) : Prop :=
  ∀ k, (rows k).filter (concerns documentId k) = (rows' k).filter (concerns documentId k)

namespace SameFor

variable {documentId : Uuid} {rows rows' rows'' : (k : Key) → Option (Row k)}

/-- The rows are the same as themselves. -/
theorem refl (rows : (k : Key) → Option (Row k)) : SameFor documentId rows rows := fun _ => rfl

/-- Sameness for a document is symmetric. -/
theorem symm (h : SameFor documentId rows rows') : SameFor documentId rows' rows :=
  fun k => (h k).symm

/-- And transitive. -/
theorem trans (h : SameFor documentId rows rows') (h' : SameFor documentId rows' rows'') :
    SameFor documentId rows rows'' :=
  fun k => (h k).trans (h' k)

/-- The document is there too. -/
theorem document (h : SameFor documentId rows rows') {row : Document}
    (hrow : rows (.document documentId) = some row) :
    rows' (.document documentId) = some row := by
  have hmem : row ∈ (rows (.document documentId)).filter (concerns documentId _) :=
    Option.mem_filter_iff.mpr ⟨hrow, decide_eq_true rfl⟩
  rw [h] at hmem
  exact (Option.mem_filter_iff.mp hmem).1

/-- So are its jobs. -/
theorem job (h : SameFor documentId rows rows') {id : Uuid} {row : AnalysisJob}
    (hrow : rows (.job id) = some row) (hdocument : row.documentId = documentId) :
    rows' (.job id) = some row := by
  have hmem : row ∈ (rows (.job id)).filter (concerns documentId _) :=
    Option.mem_filter_iff.mpr ⟨hrow, decide_eq_true hdocument⟩
  rw [h] at hmem
  exact (Option.mem_filter_iff.mp hmem).1

/-- An active job of the document is one there too. -/
theorem hasActiveJob (h : SameFor documentId rows rows') (hactive : HasActiveJob rows documentId) :
    HasActiveJob rows' documentId := by
  obtain ⟨id, job, hrow, hdocument, hstatus⟩ := hactive
  exact ⟨id, job, h.job hrow hdocument, hdocument, hstatus⟩

variable {projectId : Uuid} {force : Bool}

/-- The checks look at the rows of the document only. -/
theorem refuses (h : SameFor documentId rows rows') {e : DomainError}
    (hrefuses : Refuses projectId documentId force rows e) :
    Refuses projectId documentId force rows' e := by
  cases hrefuses with
  | notFound hmissing => exact .notFound fun row hrow => hmissing row (h.symm.document hrow)
  | invalidStatus hrow hproject hstatus => exact .invalidStatus (h.document hrow) hproject hstatus
  | running hrow hproject hstatus hactive =>
      exact .running (h.document hrow) hproject hstatus (h.hasActiveJob hactive)
  | unconfirmed hrow hproject hstatus hidle hconfirm =>
      exact .unconfirmed (h.document hrow) hproject hstatus
        (fun hactive => hidle (h.symm.hasActiveJob hactive)) hconfirm

/-- What allows a start allows it there too. -/
theorem accepts (h : SameFor documentId rows rows') {row : Document}
    (haccepts : Accepts projectId documentId force rows row) :
    Accepts projectId documentId force rows' row where
  document := h.document haccepts.document
  project := haccepts.project
  status := haccepts.status
  idle := fun hactive => haccepts.idle (h.symm.hasActiveJob hactive)
  confirmed := haccepts.confirmed

end SameFor

/-! ## One start -/

/-- The identifiers that the process is still to draw name no job. -/
def Unused (t : Process) (a : View Row) : Prop := ∀ n, a.drawn ≤ n → a.seen (.job (t, n)) = none

/-- What the start of one document comes to. -/
inductive Starts (projectId : Uuid) (force : Bool) (run : EnqueueRun) (t : Process)
    (documentId : Uuid) :
    View Row → Except DomainError (Loaded AnalysisJob) → View Row → Prop
  | refused {a : View Row} {e : DomainError}
      (h : Refuses projectId documentId force a.seen e) :
      Starts projectId force run t documentId a (.error e) a
  | accepted {a : View Row} {row : Document}
      (h : Accepts projectId documentId force a.seen row) :
      Starts projectId force run t documentId a
        (.ok ⟨(t, a.drawn), dispatchedJob run a.clock { documentId }⟩)
        (started t documentId run a row)

/-- The outcome of a document in a bulk start says what its start came to: the job, in all its
columns, or the reason why it was skipped. -/
def BulkJobOutcome.Reports (o : BulkJobOutcome) :
    Except DomainError (Loaded AnalysisJob) → Prop
  | .ok job => ∃ basis, o = { documentId := o.documentId
                              job := some ⟨job.id, job.row.withBasis basis⟩, jobId := some job.id }
  | .error e => skipOf o.documentId e = some o

/-- A report of an exception has a reason and no job. -/
theorem BulkJobOutcome.Reports.of_error {o : BulkJobOutcome} {e : DomainError}
    (h : o.Reports (.error e)) : o.job = none ∧ o.jobId = none ∧ o.skipReason.isSome = true := by
  change skipOf o.documentId e = some o at h
  unfold skipOf at h
  split at h
  case h_5 => cases h
  all_goals
    rw [← Option.some.inj h]
    exact ⟨rfl, rfl, rfl⟩

/-- A report of a job has that job and no reason. -/
theorem BulkJobOutcome.Reports.of_ok {o : BulkJobOutcome} {job : Loaded AnalysisJob}
    (h : o.Reports (.ok job)) : o.job.isSome = true ∧ o.jobId = some job.id ∧ o.skipReason = none := by
  obtain ⟨basis, ho⟩ := h
  rw [ho]
  exact ⟨rfl, rfl, rfl⟩

/-- Exactly one of a job and a skip reason. -/
theorem BulkJobOutcome.Reports.xor {o : BulkJobOutcome}
    {r : Except DomainError (Loaded AnalysisJob)} (h : o.Reports r) :
    Xor (o.job.isSome = true) (o.skipReason.isSome = true) := by
  rcases r with e | job
  · obtain ⟨hjob, -, hreason⟩ := h.of_error
    exact .inr ⟨hreason, by simp [hjob]⟩
  · obtain ⟨hjob, -, hreason⟩ := h.of_ok
    exact .inl ⟨hjob, by simp [hreason]⟩

section start

variable {projectId documentId : Uuid} {force : Bool} {run : EnqueueRun} {t : Process}
  {a a' b : View Row} {row : Document} {r : Except DomainError (Loaded AnalysisJob)}

/-- The dispatched job is one of the same document. -/
theorem dispatchedJob_documentId (run : EnqueueRun) (clock : ℕ) (job : AnalysisJob) :
    (dispatchedJob run clock job).documentId = job.documentId := by
  cases run <;> rfl

/-- The loop knows every exception of a refused start. -/
theorem Refuses.skipOf {rows : (k : Key) → Option (Row k)} {e : DomainError}
    (h : Refuses projectId documentId force rows e) :
    ∃ reason message,
      AnalysisJobService.skipOf documentId e = some (skipped documentId reason message) := by
  cases h <;> exact ⟨_, _, rfl⟩

/-- Every start comes to something. -/
theorem exists_starts (projectId : Uuid) (force : Bool) (run : EnqueueRun) (t : Process)
    (documentId : Uuid) (a : View Row) :
    ∃ r a', Starts projectId force run t documentId a r a' := by
  rcases refuses_or_accepts projectId documentId force a.seen with ⟨e, h⟩ | ⟨row, h⟩
  · exact ⟨_, _, .refused h⟩
  · exact ⟨_, _, .accepted h⟩

/-- The rows of the document after a start depend on its rows before. -/
theorem sameFor_started (h : SameFor documentId a.seen b.seen) (hdrawn : a.drawn = b.drawn)
    (hclock : a.clock = b.clock) :
    SameFor documentId (started t documentId run a row).seen
      (started t documentId run b row).seen := by
  intro k
  simp only [started, settled_seen, View.draw_seen, hdrawn, hclock]
  by_cases hdocument : k = .document documentId
  · subst hdocument
    simp only [Function.update_self]
  rw [Function.update_of_ne hdocument, Function.update_of_ne hdocument]
  by_cases hjob : k = .job (t, b.drawn)
  · subst hjob
    simp only [Function.update_self]
  rw [Function.update_of_ne hjob, Function.update_of_ne hjob]
  exact h k

/-- The rows of other documents stay as they are. -/
theorem sameFor_other_started (hunused : Unused t a) {other : Uuid} (hother : other ≠ documentId) :
    SameFor other (started t documentId run a row).seen a.seen := by
  intro k
  simp only [started, settled_seen, View.draw_seen]
  by_cases hdocument : k = .document documentId
  · subst hdocument
    have hconcerns : ∀ row, concerns other (.document documentId) row = false :=
      fun _ => decide_eq_false (Ne.symm hother)
    rw [Option.filter_eq_none_iff.mpr fun row _ => by simp [hconcerns],
      Option.filter_eq_none_iff.mpr fun row _ => by simp [hconcerns]]
  rw [Function.update_of_ne hdocument]
  by_cases hjob : k = .job (t, a.drawn)
  · subst hjob
    rw [Function.update_self, hunused a.drawn (Nat.le_refl _), Option.filter_none]
    refine Option.filter_eq_none_iff.mpr fun job hjob => ?_
    cases hjob
    change ¬ decide ((dispatchedJob run a.clock { documentId }).documentId = other) = true
    simp [dispatchedJob_documentId, Ne.symm hother]
  rw [Function.update_of_ne hjob]

namespace Starts

/-- **A start depends on the rows of its document alone.** -/
theorem congr (h : Starts projectId force run t documentId a r a')
    (hsame : SameFor documentId a.seen b.seen) (hdrawn : a.drawn = b.drawn)
    (hclock : a.clock = b.clock) :
    ∃ b', Starts projectId force run t documentId b r b' ∧ SameFor documentId a'.seen b'.seen := by
  cases h with
  | refused h => exact ⟨b, .refused (hsame.refuses h), hsame⟩
  | accepted h =>
      rw [hdrawn, hclock]
      exact ⟨_, .accepted (hsame.accepts h), sameFor_started hsame hdrawn hclock⟩

/-- It changes nothing for another document. -/
theorem others (h : Starts projectId force run t documentId a r a') (hunused : Unused t a)
    {other : Uuid} (hother : other ≠ documentId) : SameFor other a'.seen a.seen := by
  cases h with
  | refused => exact .refl _
  | accepted => exact sameFor_other_started hunused hother

/-- It leaves nothing uncommitted. -/
theorem clean (h : Starts projectId force run t documentId a r a') (hclean : a.Clean) :
    a'.Clean := by
  cases h with
  | refused => exact hclean
  | accepted => exact clean_settled

/-- It takes no time. -/
theorem clock (h : Starts projectId force run t documentId a r a') : a'.clock = a.clock := by
  cases h <;> rfl

/-- It takes identifiers one after another. -/
theorem drawn_le (h : Starts projectId force run t documentId a r a') : a.drawn ≤ a'.drawn := by
  cases h with
  | refused => exact Nat.le_refl _
  | accepted => exact Nat.le_succ _

/-- The identifiers that are left stay unused. -/
theorem unused (h : Starts projectId force run t documentId a r a') (hunused : Unused t a) :
    Unused t a' := by
  cases h with
  | refused => exact hunused
  | accepted =>
      intro n hn
      have hne : Key.job (t, n) ≠ .job (t, a.drawn) := by
        rintro ⟨⟩
        exact absurd hn (Nat.not_succ_le_self _)
      simp only [started, settled_seen, View.draw_seen]
      rw [Function.update_of_ne Key.job_ne_document, Function.update_of_ne hne]
      exact hunused n (Nat.le_of_succ_le hn)

/-- The job of an accepted start is in the database. -/
theorem job_row {job : Loaded AnalysisJob}
    (h : Starts projectId force run t documentId a (.ok job) a') :
    job.row.documentId = documentId ∧
      ∃ basis, a'.seen (.job job.id) = some (job.row.withBasis basis) := by
  cases h with
  | accepted =>
      refine ⟨dispatchedJob_documentId .., dispatchBasis run, ?_⟩
      simp only [started, settled_seen]
      rw [Function.update_of_ne Key.job_ne_document, Function.update_self]

/-- The start of one document as a request of its own. -/
theorem evaluates_startAnalysisJob (h : Starts projectId force run t documentId a r a')
    (hclean : a.Clean) (hunused : Unused t a) (held : Bool) :
    (startAnalysisJob projectId documentId none force held run).Evaluates t a r a' := by
  cases h with
  | refused h => exact h.evaluates_startAnalysisJob hclean held run
  | accepted h => exact h.evaluates_startAnalysisJob (hunused _ (Nat.le_refl _)) held run

/-- The start of one document as a round of the bulk start. -/
theorem evaluates_startOrSkip (h : Starts projectId force run t documentId a r a')
    (hclean : a.Clean) (hunused : Unused t a) (held : Bool) :
    ∃ o : BulkJobOutcome, o.documentId = documentId ∧ o.Reports r ∧
      (startOrSkip projectId force held run documentId).Evaluates t a (.ok o) a' := by
  cases h with
  | accepted h =>
      refine ⟨{ documentId, job := some ⟨(t, a.drawn), dispatchedJob run a.clock { documentId }⟩
                jobId := some (t, a.drawn) }, rfl, ⟨_, rfl⟩, ?_⟩
      have hcreate := (h.evaluates_createJob (hunused _ (Nat.le_refl _))).bind
        (g := fun created => pure (Sum.inr created : BulkJobOutcome ⊕ _)) Prog.Evaluates.pure
      exact hcreate.tryCatch.bind
        ((h.evaluates_dispatchJob held run).bind Prog.Evaluates.pure)
  | refused h =>
      obtain ⟨reason, message, hskip⟩ := h.skipOf
      refine ⟨skipped documentId reason message, rfl, hskip, ?_⟩
      have hcreate := (h.evaluates_createJob (t := t) hclean).bind_error
        (g := fun created => pure (Sum.inr created : BulkJobOutcome ⊕ _))
      refine Prog.Evaluates.bind (x := .inl (skipped documentId reason message))
        (hcreate.tryCatch_error ?_) Prog.Evaluates.pure
      rw [hskip]
      exact Prog.Evaluates.pure

end Starts

end start

/-! ## The loop -/

/-- What the loop over the documents `ids` leads to, from the view `a` to the view `a'`. -/
structure StartsEach (projectId : Uuid) (force : Bool) (run : Uuid → EnqueueRun) (t : Process)
    (ids : List Uuid) (a : View Row) (outcomes : List BulkJobOutcome) (a' : View Row) : Prop where
  /-- One outcome for each document, in order. -/
  documents : outcomes.map (·.documentId) = ids
  clean : a'.Clean
  /-- The other documents have not been touched. -/
  others : ∀ documentId ∉ ids, SameFor documentId a'.seen a.seen
  /-- Each document has come to what it comes to alone, from any view that has its rows. -/
  alone : ∀ o ∈ outcomes, ∃ n r, a.drawn ≤ n ∧ o.Reports r ∧ ∀ b : View Row, b.drawn = n →
    b.clock = a.clock → SameFor o.documentId a.seen b.seen →
      ∃ b', Starts projectId force (run o.documentId) t o.documentId b r b' ∧
        SameFor o.documentId a'.seen b'.seen
  /-- The jobs of the outcomes are in the database. -/
  jobs : ∀ o ∈ outcomes, ∀ job, o.job = some job →
    ∃ basis, a'.seen (.job job.id) = some (job.row.withBasis basis)

section loop

variable {projectId : Uuid} {force : Bool} {held : Uuid → Bool} {run : Uuid → EnqueueRun}
  {t : Process} {a a₁ a' : View Row}

/-- **The step of the loop**: a start of the first document, and the loop over the others. -/
theorem StartsEach.cons {documentId : Uuid} {ids : List Uuid} {o : BulkJobOutcome}
    {outcomes : List BulkJobOutcome} {r : Except DomainError (Loaded AnalysisJob)}
    (hfirst : Starts projectId force (run documentId) t documentId a r a₁)
    (hunused : Unused t a) (ho : o.documentId = documentId) (hreports : o.Reports r)
    (hfresh : documentId ∉ ids) (h : StartsEach projectId force run t ids a₁ outcomes a') :
    StartsEach projectId force run t (documentId :: ids) a (o :: outcomes) a' where
  documents := by rw [List.map_cons, ho, h.documents]
  clean := h.clean
  others := by
    intro other hother
    have hne : other ≠ documentId := fun heq => hother (heq ▸ List.mem_cons_self)
    have hmem : other ∉ ids := fun hmem => hother (List.mem_cons_of_mem _ hmem)
    exact (h.others other hmem).trans (hfirst.others hunused hne)
  alone := by
    intro o' ho'
    rcases List.mem_cons.mp ho' with rfl | hmem
    · -- the document of this round: the later rounds leave its rows alone
      refine ⟨a.drawn, r, Nat.le_refl _, hreports, fun b hdrawn hclock hsame => ?_⟩
      subst ho
      obtain ⟨b', hstarts, hb'⟩ := hfirst.congr hsame hdrawn.symm hclock.symm
      exact ⟨b', hstarts, (h.others _ hfresh).trans hb'⟩
    · -- a later document: this round leaves its rows alone
      obtain ⟨n, r', hn, hreports', halone⟩ := h.alone o' hmem
      have hne : o'.documentId ≠ documentId := by
        rintro heq
        rw [← heq, ← h.documents] at hfresh
        exact hfresh (List.mem_map_of_mem hmem)
      refine ⟨n, r', Nat.le_trans hfirst.drawn_le hn, hreports', fun b hdrawn hclock hsame => ?_⟩
      exact halone b hdrawn (hclock.trans hfirst.clock.symm)
        ((hfirst.others hunused hne).trans hsame)
  jobs := by
    intro o' ho' job hjob
    rcases List.mem_cons.mp ho' with rfl | hmem
    · rcases r with e | job₀
      · rw [hreports.of_error.1] at hjob
        cases hjob
      · obtain ⟨basis, ho''⟩ := hreports
        rw [ho''] at hjob
        cases hjob
        obtain ⟨hdocument, basis', hrow⟩ := hfirst.job_row
        exact ⟨basis', (h.others _ hfresh).symm.job hrow hdocument⟩
    · exact h.jobs o' hmem job hjob

/-- **The loop**: the induction is on the list, and each round starts where the last one ended. -/
theorem startOrSkipEach_evaluates (projectId : Uuid) (force : Bool) (held : Uuid → Bool)
    (run : Uuid → EnqueueRun) :
    ∀ {ids : List Uuid} {a : View Row}, ids.Nodup → a.Clean → Unused t a →
      ∃ outcomes a', StartsEach projectId force run t ids a outcomes a' ∧
        (startOrSkipEach projectId force held run ids).Evaluates t a (.ok outcomes) a'
  | [], a, _, hclean, _ => by
      refine ⟨[], a, ⟨rfl, hclean, fun _ _ => .refl _, ?_, ?_⟩, Prog.Evaluates.pure⟩
      · exact fun _ h => absurd h List.not_mem_nil
      · exact fun _ h => absurd h List.not_mem_nil
  | documentId :: ids, a, hnodup, hclean, hunused => by
      obtain ⟨hfresh, hrest⟩ := List.nodup_cons.mp hnodup
      obtain ⟨r, a₁, hfirst⟩ := exists_starts projectId force (run documentId) t documentId a
      obtain ⟨o, ho, hreports, hround⟩ :=
        hfirst.evaluates_startOrSkip hclean hunused (held documentId)
      obtain ⟨outcomes, a', h, hloop⟩ := startOrSkipEach_evaluates projectId force held
        run hrest (hfirst.clean hclean) (hfirst.unused hunused)
      exact ⟨o :: outcomes, a', h.cons hfirst hunused ho hreports hfresh,
        hround.bind (hloop.bind Prog.Evaluates.pure)⟩

end loop

/-! ## Reading the jobs again -/

/-- What reading the jobs again makes of an outcome. -/
def Reloads (jobs : List (Loaded AnalysisJob)) (o o' : BulkJobOutcome) : Prop :=
  o' = o ∨ ∃ job ∈ jobs, o.jobId = some job.id ∧ o' = { o with job := some job }

section reload

variable {jobs : List (Loaded AnalysisJob)} {t : Process} {a : View Row}

/-- One outcome after its job was read again. -/
theorem reloads_head (o : BulkJobOutcome) (expired : Bool) :
    Reloads jobs o (if (o.jobId.bind fun id => jobs.find? (·.id = id)).isSome && expired then
      { o with job := o.jobId.bind fun id => jobs.find? (·.id = id) } else o) := by
  split
  · rename_i h
    obtain ⟨job, hfound⟩ := Option.isSome_iff_exists.mp (Bool.and_eq_true_iff.mp h).1
    obtain ⟨id, hid, hfind⟩ := Option.bind_eq_some_iff.mp hfound
    obtain rfl : job.id = id := by simpa using List.find?_some hfind
    exact .inr ⟨job, List.mem_of_find?_eq_some hfind, hid, by rw [hfound]⟩
  · exact .inl rfl

/-- So it is for every outcome, by induction on them. -/
theorem mem_withReloaded :
    ∀ {outcomes : List BulkJobOutcome} {o' : BulkJobOutcome}, o' ∈ withReloaded jobs outcomes →
      ∃ o ∈ outcomes, Reloads jobs o o'
  | [], _, h => absurd h List.not_mem_nil
  | o :: later, o', h => by
      rcases List.mem_cons.mp h with rfl | hmem
      · exact ⟨o, List.mem_cons_self, reloads_head o _⟩
      · obtain ⟨o₁, ho₁, hreloads⟩ := mem_withReloaded hmem
        exact ⟨o₁, List.mem_cons_of_mem _ ho₁, hreloads⟩

/-- Reading a job again keeps the document of an outcome. -/
theorem Reloads.documentId {o o' : BulkJobOutcome} (h : Reloads jobs o o') :
    o'.documentId = o.documentId := by
  rcases h with rfl | ⟨_, _, _, rfl⟩
  · rfl
  · rfl

/-- It keeps the documents of all. -/
theorem withReloaded_documents : ∀ outcomes : List BulkJobOutcome,
    (withReloaded jobs outcomes).map (·.documentId) = outcomes.map (·.documentId)
  | [] => rfl
  | o :: later =>
      congrArg₂ List.cons (reloads_head o _).documentId (withReloaded_documents later)

/-- An outcome reports the same before and after. -/
theorem BulkJobOutcome.Reports.reload {o o' : BulkJobOutcome}
    {r : Except DomainError (Loaded AnalysisJob)} (h : o.Reports r)
    (hjobs : ∀ job ∈ jobs, a.seen (.job job.id) = some job.row)
    (hrow : ∀ job, o.job = some job →
      ∃ basis, a.seen (.job job.id) = some (job.row.withBasis basis))
    (hreload : Reloads jobs o o') : o'.Reports r := by
  rcases hreload with rfl | ⟨job, hmem, hid, rfl⟩
  · exact h
  rcases r with e | job₀
  · rw [h.of_error.2.1] at hid
    cases hid
  · obtain ⟨basis, ho⟩ := h
    rw [ho] at hid hrow
    have hsame : job₀.id = job.id := Option.some.inj hid
    obtain ⟨basis', hseen⟩ := hrow _ rfl
    rw [hsame, hjobs job hmem] at hseen
    have hjob : job = ⟨job₀.id, job₀.row.withBasis basis'⟩ := by
      obtain ⟨id, row⟩ := job
      rw [hsame]
      exact congrArg (Loaded.mk id) (Option.some.inj hseen)
    refine ⟨basis', ?_⟩
    rw [hjob, ho]

/-- The jobs that are listed are seen. -/
theorem answers_listByIds (jobIds : List Uuid) :
    (AnalysisJobRepository.listByIds jobIds).Answers t a
      (fun jobs => ∀ job ∈ jobs, a.seen (.job job.id) = some job.row) a := by
  unfold AnalysisJobRepository.listByIds
  split
  · exact Prog.Evaluates.pure.answers fun _ h => absurd h List.not_mem_nil
  · refine Prog.Answers.find.bind fun rows hrows => Prog.Evaluates.pure.answers ?_
    intro job hjob
    exact ((hrows _ _).mp (AnalysisJobRepository.mem_jobs.mp hjob)).1

/-- Reading the jobs again changes the jobs of the outcomes alone. -/
theorem answers_reloadJobs (outcomes : List BulkJobOutcome) :
    (reloadJobs outcomes).Answers t a
      (fun outcomes' => outcomes'.map (·.documentId) = outcomes.map (·.documentId) ∧
        ∃ jobs : List (Loaded AnalysisJob), (∀ job ∈ jobs, a.seen (.job job.id) = some job.row) ∧
          ∀ o' ∈ outcomes', ∃ o ∈ outcomes, Reloads jobs o o') a := by
  unfold reloadJobs
  dsimp only
  split
  · refine Prog.Evaluates.pure.answers ⟨rfl, [], fun _ h => absurd h List.not_mem_nil, ?_⟩
    exact fun o ho => ⟨o, ho, .inl rfl⟩
  · refine Prog.Answers.bind (answers_listByIds _).tryCatch fun jobs hjobs => ?_
    exact Prog.Evaluates.pure.answers
      ⟨withReloaded_documents outcomes, jobs, hjobs, fun o' ho' => mem_withReloaded ho'⟩

end reload

/-! ## The bulk start -/

/-- `dict.fromkeys` leaves each document once. -/
theorem nodup_eraseDups {α : Type} [BEq α] [LawfulBEq α] : ∀ xs : List α, xs.eraseDups.Nodup
  | [] => List.nodup_nil
  | x :: xs => by
      rw [List.eraseDups_cons, List.nodup_cons, List.mem_eraseDups]
      refine ⟨by simp, nodup_eraseDups _⟩
termination_by xs => xs.length
decreasing_by exact Nat.lt_succ_of_le (List.length_filter_le _ _)

/-- **A bulk start equals single starts**: it returns one outcome for each distinct document, in
order of first occurrence, each with exactly one of a job and a skip reason; and the outcome and
the committed rows of a document are those of the single start of this document alone, whichever
the other documents are and whatever the queue does with their jobs. `hunused` is what `uuid4`
promises: the identifiers that it will draw name no job. -/
theorem bulk_equals_single_starts (projectId : Uuid) (documentIds : List Uuid) (force : Bool)
    (held : Uuid → Bool) (run : Uuid → EnqueueRun) (t : Process) (s : AppDb) (hquiet : s.Quiet)
    (hunused : ∀ n, s.drawn t ≤ n → s.committed (.job (t, n)) = none) :
    ∃ outcomes s',
      (bulkCreateJobsForProject projectId (some documentIds) force held run).runAlone t s =
        some (.ok outcomes, s') ∧
      outcomes.map (·.documentId) = documentIds.eraseDups ∧
      (outcomes.map (·.documentId)).Nodup ∧
      ∀ o ∈ outcomes, Xor (o.job.isSome = true) (o.skipReason.isSome = true) ∧
        ∃ n r, s.drawn t ≤ n ∧ o.Reports r ∧ ∀ held', ∃ s₁,
          (startAnalysisJob projectId o.documentId none force held' (run o.documentId)).runAlone t
            (s.drawNext t n) = some (r, s₁) ∧
          SameFor o.documentId s'.committed s₁.committed := by
  obtain ⟨a, ha⟩ : ∃ a : View Row, a = ⟨s.committed, s.committed, s.drawn t, s.clock⟩ := ⟨_, rfl⟩
  have hview : s.Shows t a := ha ▸ Db.Shows.of_quiet hquiet t
  have hclean : a.Clean := by rw [ha]; rfl
  have hunused' : Unused t a := by rw [ha]; exact hunused
  obtain ⟨outcomes, a', heach, hloop⟩ := startOrSkipEach_evaluates projectId force held run
    (nodup_eraseDups documentIds) hclean hunused'
  have hreload := answers_reloadJobs (t := t) (a := a') outcomes
  have hbulk := (hloop.answers (R := (· = outcomes)) rfl).bind (g := reloadJobs) (by
    rintro _ rfl
    exact hreload)
  obtain ⟨outcomes', s', ⟨hdocuments, jobs, hjobs, hreloads⟩, hrun, hs'⟩ := hbulk s hview
  rw [heach.documents] at hdocuments
  refine ⟨outcomes', s', hrun, hdocuments, hdocuments ▸ nodup_eraseDups documentIds, ?_⟩
  intro o' ho'
  obtain ⟨o, ho, hreloaded⟩ := hreloads o' ho'
  obtain ⟨n, r, hn, hreports, halone⟩ := heach.alone o ho
  have hreports' := hreports.reload hjobs (heach.jobs o ho) hreloaded
  rw [hreloaded.documentId]
  refine ⟨hreports'.xor, n, r, by rwa [ha] at hn, hreports', fun held' => ?_⟩
  -- the single start, from the view where it draws the same identifier
  obtain ⟨b, hb⟩ : ∃ b : View Row, b = ⟨s.committed, s.committed, n, s.clock⟩ := ⟨_, rfl⟩
  obtain ⟨b', hstarts, hsame⟩ := halone b (by rw [hb]) (by rw [hb, ha]) (by rw [hb, ha]; exact .refl _)
  have hsingle := hstarts.evaluates_startAnalysisJob (by rw [hb]; rfl)
    (fun m hm => by
      rw [hb] at hm ⊢
      exact hunused m (Nat.le_trans (by rwa [ha] at hn) hm)) held'
  obtain ⟨s₁, hrun₁, hs₁⟩ := hsingle (s.drawNext t n) (hb ▸ Db.Shows.of_quiet_drawNext hquiet t n)
  refine ⟨s₁, hrun₁, ?_⟩
  rw [hs'.committed, hs₁.committed, ← heach.clean, ← hstarts.clean (by rw [hb]; rfl)]
  exact hsame

/-- A draft and a ready document of one project, and a document of another project. -/
def threeDocuments : AppDb :=
  AppDb.ofRows
    [⟨.document (9, 0), { projectId := (9, 2), name := "a.txt", format := .txt, storageKey := "a"
                          sizeBytes := 1 }⟩,
      ⟨.document (9, 1), { projectId := (9, 2), name := "b.txt", format := .txt, storageKey := "b"
                           sizeBytes := 1, status := .ready }⟩,
      ⟨.document (9, 3), { projectId := (9, 4), name := "c.txt", format := .txt, storageKey := "c"
                           sizeBytes := 1 }⟩] []

/-- The queue is down for the ready document. -/
def downForReady (documentId : Uuid) : EnqueueRun :=
  if documentId = (9, 1) then .failed "down" false else .accepted "t"

/-- Documents of three kinds, one of them given twice. -/
theorem threeDocuments_bulk :
    ∃ outcomes s',
      (bulkCreateJobsForProject (9, 2) (some [(9, 3), (9, 0), (9, 1), (9, 0), (7, 7)]) true
        (fun _ => true) downForReady).runAlone 0 threeDocuments = some (.ok outcomes, s') ∧
      outcomes.map (·.documentId) = [(9, 3), (9, 0), (9, 1), (7, 7)] := by
  obtain ⟨outcomes, s', hrun, hdocuments, -⟩ := bulk_equals_single_starts (9, 2)
    [(9, 3), (9, 0), (9, 1), (9, 0), (7, 7)] true (fun _ => true) downForReady 0 threeDocuments
    (fun _ => rfl) fun _ _ => rfl
  exact ⟨outcomes, s', hrun, hdocuments⟩

/-- One job is in the queue, one has failed with it, and two documents are skipped. -/
example :
    ((bulkCreateJobsForProject (9, 2) (some [(9, 3), (9, 0), (9, 1), (9, 0), (7, 7)]) true
      (fun _ => true) downForReady).runAlone 0 threeDocuments).any (fun a =>
        match a.1 with
        | .ok outcomes => outcomes.map (fun o => (o.job.map (·.row.status), o.skipReason)) =
            [(none, some .notFound), (some .dispatched, none), (some .failed, none),
              (none, some .notFound)]
        | .error _ => false) = true := by
  decide +kernel

end SyncBack
