import SyncBack.Application.Statements
import SyncBack.Txn.Rows

/-!
# The columns of a suggestion agree

Seven methods write the columns `status`, `decided_by`, `decided_at` and `edited_text` of a
suggestion. `Suggestion.Sound` is what these columns have to say together, and it holds of every
version of every row, whichever sessions send whichever of the writes and commit or roll back in
between.

The writes are of two kinds. A decision takes a pending row to `accepted` or `rejected`; a reset
takes a decided row back to `pending`. The condition of each `UPDATE` is what makes it so, and
`ColumnWrite` records it once for each kind.
-/

namespace SyncBack

open Txn Session

/-- What the columns of a suggestion say together. -/
structure Suggestion.Sound (row : Suggestion) : Prop where
  decidedAt : row.status = .pending ↔ row.decidedAt = none
  pending : row.status = .pending → row.decidedBy = none ∧ row.editedText = none
  edited : row.editedText ≠ none → row.status = .accepted

/-- The ways of a suggestion from one status to another. -/
inductive SuggestionStatus.Moves : SuggestionStatus → SuggestionStatus → Prop
  | accept : Moves .pending .accepted
  | reject : Moves .pending .rejected
  | reset {status} (h : status ≠ .pending) : Moves status .pending

/-! ## The writes -/

/-- The write methods of the repository, with their arguments. A batch of the model's items stands
for the suggestions that `map_to_suggestions` makes of it. -/
inductive SuggestionWrite where
  | bulkCreate (batch : List LLMSuggestionItem) (analysisJobId documentId : Uuid)
      (documentText : Text) (documentFormat : DocumentFormat)
  | updateStatus (suggestion : Loaded Suggestion) (decision : SuggestionDecision)
  | bulkUpdateStatus (decisions : ReviewDecisions)
  | bulkAcceptAll (analysisJobId userId : Uuid)
  | bulkRejectAll (analysisJobId userId : Uuid)
  | resetStatus (suggestion : Loaded Suggestion) (basis : Basis)
  | resetToPending (analysisJobId : Uuid) (ids : Option (List Uuid)) (basis : Basis)

/-- A decision as the service builds it. -/
def SuggestionDecision.WellFormed (decision : SuggestionDecision) : Prop :=
  decision.status ≠ .pending ∧ (decision.editedText ≠ none → decision.status = .accepted)

namespace SuggestionWrite

/-- The decisions among the arguments are as the service builds them. -/
def WellFormed : SuggestionWrite → Prop
  | updateStatus _ decision => decision.WellFormed
  | bulkUpdateStatus decisions => ∀ decision ∈ decisions.decisions, decision.WellFormed
  | _ => True

/-- The call of the method. -/
def call : SuggestionWrite → Session Unit
  | bulkCreate batch analysisJobId documentId documentText documentFormat =>
      SuggestionRepository.bulkCreate (SuggestionMapper.mapToSuggestions batch analysisJobId
        documentId documentText documentFormat)
  | updateStatus suggestion decision => SuggestionRepository.updateStatus suggestion decision
  | bulkUpdateStatus decisions => do
      let _ ← SuggestionRepository.bulkUpdateStatus decisions
      pure ()
  | bulkAcceptAll analysisJobId userId => do
      let _ ← SuggestionRepository.bulkAcceptAll analysisJobId userId
      pure ()
  | bulkRejectAll analysisJobId userId => do
      let _ ← SuggestionRepository.bulkRejectAll analysisJobId userId
      pure ()
  | resetStatus suggestion basis => do
      let _ ← SuggestionRepository.resetStatus suggestion basis
      pure ()
  | resetToPending analysisJobId ids basis => do
      let _ ← SuggestionRepository.resetToPending analysisJobId ids basis
      pure ()

end SuggestionWrite

/-- What a session does with its suggestions. -/
inductive SuggestionCommand where
  | write (w : SuggestionWrite)
  | commit
  | rollback

namespace SuggestionCommand

/-- The arguments of a write are well formed. -/
def WellFormed : SuggestionCommand → Prop
  | write w => w.WellFormed
  | commit | rollback => True

/-- The statements of the command. -/
def run : SuggestionCommand → Session Unit
  | write w => w.call
  | commit => Session.commit
  | rollback => Session.rollback

/-- A session that runs the commands; an exception ends it. -/
def session (commands : List SuggestionCommand) : Session Unit := closing (Prog.each commands run)

end SuggestionCommand

/-! ## What the writes send -/

/-- The statements of writes whose updates move a status along `E`. -/
inductive ColumnWrite (E : SuggestionStatus → SuggestionStatus → Prop) : AppStmt → Prop
  | reads {f} (h : Reads f) : ColumnWrite E f
  | draw : ColumnWrite E .draw
  | insert {id} {row : Suggestion} (h : row.Sound) : ColumnWrite E (.insert (.suggestion id) row)
  | update {id} {p : Suggestion → Bool} {f : Suggestion → Suggestion}
      (keeps : ∀ row, p row = true → row.Sound → (f row).Sound)
      (moves : ∀ row, p row = true → E row.status (f row).status) :
      ColumnWrite E (.update (.suggestion id) p f)

instance (E : SuggestionStatus → SuggestionStatus → Prop) : AllowsReads (ColumnWrite E) := ⟨.reads⟩

/-- A pending row becomes a decided one. -/
def SuggestionStatus.Decides (a b : SuggestionStatus) : Prop := a = .pending ∧ b ≠ .pending

/-- A decided row becomes a pending one. -/
def SuggestionStatus.Resets (a b : SuggestionStatus) : Prop := a ≠ .pending ∧ b = .pending

namespace Suggestion

variable {row : Suggestion}

/-- A pending row that is decided without an edited text. -/
theorem Sound.decide (h : row.Sound) (hpending : row.status = .pending) {status : SuggestionStatus}
    (hstatus : status ≠ .pending) (userId : Uuid) (now : ℕ) :
    ({ row with status, decidedBy := some userId, decidedAt := some now } : Suggestion).Sound where
  decidedAt := by simp [hstatus]
  pending := fun hp => absurd hp hstatus
  edited := fun he => absurd (h.pending hpending).2 he

/-- A reset row is sound. -/
theorem sound_reset (basis : Basis) (row : Suggestion) :
    (SuggestionRepository.reset basis row).Sound where
  decidedAt := by simp [SuggestionRepository.reset]
  pending := fun _ => ⟨rfl, rfl⟩
  edited := fun he => absurd rfl he

/-- The suggestions of the mapper are new. -/
theorem sound_of_mem_mapToSuggestions {batch : List LLMSuggestionItem} {jobId documentId : Uuid}
    {text : Text} {format : DocumentFormat}
    (h : row ∈ SuggestionMapper.mapToSuggestions batch jobId documentId text format) :
    row.Sound := by
  obtain ⟨raw, -, hitem⟩ := List.mem_filterMap.mp h
  simp only [SuggestionMapper.mapItem] at hitem
  split at hitem
  · cases hitem
  · obtain ⟨changeType, -, rfl⟩ := Option.map_eq_some_iff.mp hitem
    exact ⟨by simp, fun _ => ⟨rfl, rfl⟩, fun he => absurd rfl he⟩

end Suggestion

namespace SuggestionRepository

/-- An id that gets an edited text is among the accepted ones. -/
theorem accepted_of_edit {decisions : List SuggestionDecision}
    (hwf : ∀ decision ∈ decisions, decision.WellFormed) {id : Uuid}
    (h : ((decisions.filter (·.editedText.isSome)).find? (·.suggestionId = id)).bind
      (·.editedText) ≠ none) :
    id ∈ (decisions.filter (·.status = .accepted)).map (·.suggestionId) := by
  obtain ⟨text, htext⟩ := Option.ne_none_iff_exists'.mp h
  obtain ⟨decision, hfind, hedit⟩ := Option.bind_eq_some_iff.mp htext
  have hmem := (List.mem_filter.mp (List.mem_of_find?_eq_some hfind)).1
  have hid : decision.suggestionId = id := by simpa using List.find?_some hfind
  have haccepted : decision.status = .accepted :=
    (hwf decision hmem).2 (by rw [hedit]; exact Option.some_ne_none text)
  exact List.mem_map.mpr ⟨decision, List.mem_filter.mpr ⟨hmem, by simpa using haccepted⟩, hid⟩

/-- A decided row is sound. -/
theorem sound_decided {decisions : ReviewDecisions}
    (hwf : ∀ decision ∈ decisions.decisions, decision.WellFormed) (now : ℕ) (id : Uuid)
    (row : Suggestion) : (decided decisions now id row).Sound where
  decidedAt := by
    refine iff_of_false decided_row.1 ?_
    simp [decided]
  pending := fun hp => absurd hp decided_row.1
  edited := fun he => if_pos (accepted_of_edit hwf he)

end SuggestionRepository

section sends

open SuggestionStatus

/-- Deciding all of a job decides pending rows. -/
theorem columnWrite_decideAll {status : SuggestionStatus} (hstatus : status ≠ .pending)
    (jobId userId : Uuid) :
    (SuggestionRepository.bulkDecideAll status jobId userId).Sends
      (ColumnWrite SuggestionStatus.Decides) := by
  refine sends_now.bind fun n => sends_updateWhere fun id => .update (fun row hp hsound => ?_) ?_
  · have hpending : row.status = .pending := by simp_all
    exact hsound.decide hpending hstatus userId n
  · intro row hp
    have hpending : row.status = .pending := by simp_all
    exact ⟨hpending, hstatus⟩

/-- Deciding one suggestion decides a pending row. -/
theorem columnWrite_updateStatus {suggestion : Loaded Suggestion} {decision : SuggestionDecision}
    (hwf : decision.WellFormed) :
    (SuggestionRepository.updateStatus suggestion decision).Sends
      (ColumnWrite SuggestionStatus.Decides) := by
  refine sends_now.bind fun n => (sends_update ?_).bind fun o => (sends_matched o).bind fun _ => ?_
  · refine .update (fun row hp hsound => ?_) fun row hp => ?_
    · exact hsound.decide (of_decide_eq_true hp) hwf.1 decision.userId n
    · exact ⟨of_decide_eq_true hp, hwf.1⟩
  · split <;> trivial

/-- The decisions of a review decide pending rows. -/
theorem columnWrite_bulkUpdateStatus {decisions : ReviewDecisions}
    (hwf : ∀ decision ∈ decisions.decisions, decision.WellFormed) :
    (SuggestionRepository.bulkUpdateStatus decisions).Sends
      (ColumnWrite SuggestionStatus.Decides) :=
  sends_bulkUpdateStatus fun id n => .update
    (fun row _ _ => SuggestionRepository.sound_decided hwf n id row)
    fun _ hp => ⟨pending_of_decidable hp, decided_row.1⟩

/-- Resetting one suggestion resets a decided row. -/
theorem columnWrite_resetStatus {suggestion : Loaded Suggestion} {basis : Basis} :
    (SuggestionRepository.resetStatus suggestion basis).Sends
      (ColumnWrite SuggestionStatus.Resets) := by
  refine (sends_update ?_).bind fun o => (sends_matched o).bind fun _ => trivial
  exact .update (fun row _ _ => Suggestion.sound_reset basis row)
    fun row hp => ⟨of_decide_eq_true hp, rfl⟩

/-- Resetting those of a job resets decided rows. -/
theorem columnWrite_resetToPending {jobId : Uuid} {ids : Option (List Uuid)} {basis : Basis} :
    (SuggestionRepository.resetToPending jobId ids basis).Sends
      (ColumnWrite SuggestionStatus.Resets) := by
  have hreset : ∀ id (p : Suggestion → Bool), (∀ row, p row = true → row.status ≠ .pending) →
      ColumnWrite SuggestionStatus.Resets
        (.update (.suggestion id) p (SuggestionRepository.reset basis)) :=
    fun id p hp => .update (fun row _ _ => Suggestion.sound_reset basis row)
      fun row hrow => ⟨hp row hrow, rfl⟩
  unfold SuggestionRepository.resetToPending
  split
  · trivial
  · exact sends_updateWhere fun id => hreset id _ fun row hp => by simp_all
  · exact sends_updateWhere fun id => hreset id _ fun row hp => by simp_all

/-- What the mapper makes is stored pending. -/
theorem columnWrite_bulkCreate {E : SuggestionStatus → SuggestionStatus → Prop}
    {batch : List LLMSuggestionItem} {jobId documentId : Uuid} {text : Text}
    {format : DocumentFormat} :
    (SuggestionRepository.bulkCreate (SuggestionMapper.mapToSuggestions batch jobId documentId text
      format)).Sends (ColumnWrite E) := by
  refine Prog.Sends.each fun row hrow => (Prog.Sends.stmt ColumnWrite.draw).bind fun id =>
    (Prog.Sends.stmt (.insert (Suggestion.sound_of_mem_mapToSuggestions hrow))).bind fun _ => ?_
  split <;> trivial

/-- **A method decides or resets**; none does both. -/
theorem SuggestionWrite.sends {w : SuggestionWrite} (h : w.WellFormed) :
    w.call.Sends (ColumnWrite SuggestionStatus.Decides) ∨
      w.call.Sends (ColumnWrite SuggestionStatus.Resets) := by
  cases w with
  | bulkCreate batch jobId documentId text format => exact .inl columnWrite_bulkCreate
  | updateStatus suggestion decision => exact .inl (columnWrite_updateStatus h)
  | bulkUpdateStatus decisions =>
      exact .inl ((columnWrite_bulkUpdateStatus h).bind fun _ => trivial)
  | bulkAcceptAll jobId userId =>
      exact .inl ((columnWrite_decideAll (by simp) jobId userId).bind fun _ => trivial)
  | bulkRejectAll jobId userId =>
      exact .inl ((columnWrite_decideAll (by simp) jobId userId).bind fun _ => trivial)
  | resetStatus suggestion basis => exact .inr (columnWrite_resetStatus.bind fun _ => trivial)
  | resetToPending jobId ids basis => exact .inr (columnWrite_resetToPending.bind fun _ => trivial)

end sends

/-! ## Statuses along a run -/

/-- The row stays, and its status stays or moves along `E`. -/
def StatusAlong (E : SuggestionStatus → SuggestionStatus → Prop) : (k : Key) → Row k → Row k → Prop
  | .suggestion _, a, b => Relation.ReflGen E a.status b.status
  | _, _, _ => True

/-- The constraint on single rows: suggestions are sound. -/
def SoundRow : (k : Key) → Row k → Prop
  | .suggestion _, row => row.Sound
  | _, _ => True

section along

variable {E E' : SuggestionStatus → SuggestionStatus → Prop}

/-- A row stays. -/
theorem StatusAlong.refl (k : Key) (row : Row k) : StatusAlong E k row row := by
  cases k with
  | suggestion id => exact Relation.ReflGen.refl
  | _ => trivial

/-- Two moves are one. -/
theorem reflGen_trans (htrans : ∀ a b c, E a b → E b c → E a c) {a b c : SuggestionStatus}
    (h : Relation.ReflGen E a b) (h' : Relation.ReflGen E b c) : Relation.ReflGen E a c := by
  rcases h with _ | h
  · exact h'
  rcases h' with _ | h'
  · exact .single h
  · exact .single (htrans _ _ _ h h')

/-- A row that moves twice moves. -/
theorem StatusAlong.trans (htrans : ∀ a b c, E a b → E b c → E a c) (k : Key) (a b c : Row k)
    (h : StatusAlong E k a b) (h' : StatusAlong E k b c) : StatusAlong E k a c := by
  cases k with
  | suggestion id => exact reflGen_trans htrans h h'
  | _ => trivial

/-- More moves may be allowed. -/
theorem ColumnWrite.mono (h : ∀ a b, E a b → E' a b) {f : AppStmt} (hf : ColumnWrite E f) :
    ColumnWrite E' f := by
  cases hf with
  | reads hr => exact .reads hr
  | draw => exact .draw
  | insert hrow => exact .insert hrow
  | update keeps moves => exact .update keeps fun row hp => h _ _ (moves row hp)

/-- No write deletes a row. -/
theorem ColumnWrite.deletes {f : AppStmt} (hf : ColumnWrite E f) : f.deletes = false := by
  cases hf with
  | reads hr => cases hr <;> rfl
  | draw | insert | update => rfl

/-- A write moves the rows that it matches. -/
theorem ColumnWrite.along {k : Key} {p : Row k → Bool} {g : Row k → Row k} {r : Row k}
    (hf : ColumnWrite E (.update k p g)) (hp : p r = true) : StatusAlong E k r (g r) := by
  cases hf with
  | reads hr => cases hr
  | update keeps moves => exact .single (moves r hp)

/-- The row that a column write leaves behind moves along `E`. -/
theorem ColumnWrite.read_along {t : Process} {s s' : AppDb} {f : AppStmt} (hf : ColumnWrite E f)
    (he : Effect t s f s') (k : Key) : Along (StatusAlong E) k (s.read t k) (s'.read t k) := by
  refine he.read_along (fun k a => StatusAlong.refl k a) hf.deletes ?_ ?_ k
  · rintro rfl
    rcases hf with ⟨⟨⟩⟩
  · rintro k p g r rfl hp
    exact hf.along hp

/-- A decision is a move. -/
theorem moves_of_decides (a b : SuggestionStatus) (h : a.Decides b) : a.Moves b := by
  obtain ⟨rfl, hb⟩ := h
  cases b with
  | pending => exact absurd rfl hb
  | accepted => exact .accept
  | rejected => exact .reject

/-- So is a reset. -/
theorem moves_of_resets (a b : SuggestionStatus) (h : a.Resets b) : a.Moves b := by
  obtain ⟨ha, rfl⟩ := h
  exact .reset ha

end along

/-! ## Sessions -/

/-- The statements of a session. -/
inductive SessionWrite : AppStmt → Prop
  | column {f} (h : ColumnWrite SuggestionStatus.Moves f) : SessionWrite f
  | commit : SessionWrite .commit
  | rollback : SessionWrite .rollback

instance : AllowsTransaction SessionWrite where
  reads h := .column (.reads h)
  commit := .commit
  rollback := .rollback

/-- A session of well-formed commands sends such writes. -/
theorem SuggestionCommand.sends {commands : List SuggestionCommand}
    (h : ∀ command ∈ commands, command.WellFormed) :
    (SuggestionCommand.session commands).Sends SessionWrite := by
  refine sends_closing (Prog.Sends.each fun command hmem => ?_)
  cases command with
  | write w =>
      rcases SuggestionWrite.sends (h _ hmem) with hw | hw
      · exact hw.mono fun f hf => .column (hf.mono moves_of_decides)
      · exact hw.mono fun f hf => .column (hf.mono moves_of_resets)
  | commit => exact sends_commit
  | rollback => exact sends_rollback

/-- No transaction is open, the committed suggestions are sound, and every process is a session of
well-formed commands. -/
structure SuggestionStart (c : AppConfig) : Prop where
  quiet : ∀ k, c.db.dirty k = none
  sound : ∀ id row, c.db.committed (.suggestion id) = some row → row.Sound
  sessions : ∀ t p, c.procs t = some p → ∃ commands : List SuggestionCommand,
    (∀ command ∈ commands, command.WellFormed) ∧ p = SuggestionCommand.session commands

/-- The row that a process sees is still there, with the same status or one move further. -/
def KeptRow (old new : Option Suggestion) : Prop :=
  ∀ row, old = some row → ∃ row', new = some row' ∧
    Relation.ReflGen SuggestionStatus.Moves row.status row'.status

/-- The rows stay sound along a run. -/
theorem rows_of_steps {c c' : AppConfig}
    (hstart : SuggestionStart c) (hs : c.Steps Config.anyStmt c') : c'.db.Rows SoundRow := by
  have hrows : c.db.Rows SoundRow := by
    refine Db.Rows.of_quiet hstart.quiet fun k row hk => ?_
    cases k with
    | suggestion id => exact hstart.sound id row hk
    | _ => trivial
  refine ((Contract.verified_ofRows (F := SessionWrite) hrows ?_ ?_ ?_).steps hs).inv
  · intro t p hp
    obtain ⟨commands, hwf, rfl⟩ := hstart.sessions t p hp
    exact SuggestionCommand.sends hwf
  · intro k p g row hf hp hrow
    rcases hf with ⟨hf⟩
    rcases hf with hr | _ | _ | ⟨keeps, moves⟩
    · cases hr
    · exact keeps row hp hrow
  · intro k row hf
    rcases hf with ⟨hf⟩
    rcases hf with hr | _ | hsound | _
    · cases hr
    · exact hsound

/-- What a process sees of a row moves with its own writes. -/
theorem SessionWrite.read_along {t : Process} {s s' : AppDb} {f : AppStmt} (hf : SessionWrite f)
    (hne : f ≠ .rollback) (he : Effect t s f s') (k : Key) :
    Along (StatusAlong SuggestionStatus.Moves) k (s.read t k) (s'.read t k) := by
  refine he.read_along (fun k a => StatusAlong.refl k a) ?_ hne ?_ k
  · cases hf with
    | column h => exact h.deletes
    | commit | rollback => rfl
  · rintro k p g r rfl hp
    rcases hf with ⟨h⟩
    exact h.along hp

/-- A session moves the rows that it sees one move at a time. -/
theorem kept_of_act {c c' c'' : AppConfig}
    (hstart : SuggestionStart c) (hs : c.Steps Config.anyStmt c') {t : Process}
    (hact : c'.move (.act t) = some c'') (hnext : c'.next t ≠ some .rollback) (id : Uuid) :
    KeptRow (c'.db.read t (.suggestion id)) (c''.db.read t (.suggestion id)) := by
  rcases Config.move_cases hact with ⟨u, f, next, b, hu, hp, he, -⟩ | ⟨u, hu, -⟩ | ⟨n, hn, -⟩
  · cases hu
    have hpoints := Config.points_of_steps (F := fun f _ => SessionWrite f) hs
      (fun p hp => by
        obtain ⟨commands, hwf, rfl⟩ := hstart.sessions t p hp
        exact Prog.Points.of_sends (fun _ _ h => h) (SuggestionCommand.sends hwf)) _ hp
    have hne : f ≠ .rollback := by simpa [Config.next, hp] using hnext
    exact hpoints.1.read_along hne (exec_effect he) (.suggestion id)
  · cases hu
  · cases hn

/-- A method that runs alone moves every row at most once. -/
theorem kept_of_call {w : SuggestionWrite} (hwf : w.WellFormed) {t : Process} {s s' : AppDb}
    {r : Except DomainError Unit} (h : w.call.runAlone t s = some (r, s')) (id : Uuid) :
    KeptRow (s.read t (.suggestion id)) (s'.read t (.suggestion id)) := by
  have key : ∀ E : SuggestionStatus → SuggestionStatus → Prop, (∀ a b c, E a b → E b c → E a c) →
      (∀ a b, E a b → a.Moves b) → w.call.Sends (ColumnWrite E) →
      KeptRow (s.read t (.suggestion id)) (s'.read t (.suggestion id)) := by
    intro E htrans hmoves hsends row hrow
    have hr : Along (StatusAlong E) (.suggestion id) (s.read t (.suggestion id))
        (s'.read t (.suggestion id)) := by
      refine hsends.runAlone_rel (r := fun s s' => Along (StatusAlong E) (.suggestion id)
        (s.read t (.suggestion id)) (s'.read t (.suggestion id))) ?_ ?_ ?_ h
      · exact fun s => Along.refl (fun k a => StatusAlong.refl k a) (.suggestion id) _
      · intro s₁ s₂ s₃ h₁ h₂
        exact Along.trans (fun k a b c => StatusAlong.trans htrans k a b c) h₁ h₂
      · exact fun f hf s b s' he => hf.read_along (exec_effect he) (.suggestion id)
    obtain ⟨row', hrow', hE⟩ := hr row hrow
    exact ⟨row', hrow', Relation.ReflGen.mono hmoves _ _ hE⟩
  rcases SuggestionWrite.sends hwf with hsends | hsends
  · exact key _ (fun a b c hab hbc => absurd hbc.1 hab.2) moves_of_decides hsends
  · exact key _ (fun a b c hab hbc => absurd hab.2 hbc.1) moves_of_resets hsends

/-! ## The result -/

/-- **The columns of a suggestion agree in every state of every run** of sessions that write
suggestions, commit and roll back in any interleaving; a statement that does not roll back moves
the status of a row that its session sees at most once, and so does a whole write method. -/
theorem suggestion_rows_sound {c c' : AppConfig}
    (hstart : SuggestionStart c) (hs : c.Steps Config.anyStmt c') :
    (∀ id row, c'.db.Live (.suggestion id) row → row.Sound) ∧
      (∀ t c'', c'.move (.act t) = some c'' → c'.next t ≠ some .rollback → ∀ id,
        KeptRow (c'.db.read t (.suggestion id)) (c''.db.read t (.suggestion id))) ∧
      ∀ w : SuggestionWrite, w.WellFormed → ∀ t s s' r, w.call.runAlone t s = some (r, s') →
        ∀ id, KeptRow (s.read t (.suggestion id)) (s'.read t (.suggestion id)) := by
  refine ⟨fun id row hlive => ?_, ?_, ?_⟩
  · exact rows_of_steps hstart hs (.suggestion id) row hlive
  · exact fun t c'' hact hnext id => kept_of_act hstart hs hact hnext id
  · exact fun w hwf t s s' r h id => kept_of_call hwf h id

/-- One session accepts the pending suggestion with an edited text, another resets the job. -/
def editAndReset : AppConfig where
  db := AppDb.ofRows
    [⟨.suggestion (9, 1), { analysisJobId := (9, 2), documentId := (9, 0), sectionRef := []
                            changeType := .modify }⟩] []
  procs t := [SuggestionCommand.session
      [.write (.bulkUpdateStatus
        { decisions := [{ suggestionId := (9, 1), status := .accepted, userId := (9, 3)
                          editedText := some ['a'] }]
          documentId := some (9, 0), userId := (9, 3), analysisJobId := some (9, 2) }), .commit],
    SuggestionCommand.session [.write (.resetToPending (9, 2) none {}), .commit]][t]?

/-- The two sessions are such a start. -/
theorem editAndReset_start : SuggestionStart editAndReset where
  quiet _ := rfl
  sound id row h := by
    have hmem := List.of_mem_dlookup h
    simp only [List.mem_singleton] at hmem
    cases hmem
    exact ⟨by simp, fun _ => ⟨rfl, rfl⟩, fun he => absurd rfl he⟩
  sessions t p hp := by
    have hmem := List.mem_of_getElem? hp
    simp only [List.mem_cons, List.not_mem_nil, or_false] at hmem
    rcases hmem with rfl | rfl
    · refine ⟨_, ?_, rfl⟩
      simp [SuggestionCommand.WellFormed, SuggestionWrite.WellFormed, SuggestionDecision.WellFormed]
    · exact ⟨_, by simp [SuggestionCommand.WellFormed, SuggestionWrite.WellFormed], rfl⟩

/-- The edited text is committed with an accepted suggestion. -/
theorem edited_suggestion_sound :
    ∃ c, editAndReset.Steps Config.anyStmt c ∧
      ∃ row : Suggestion, c.db.committed (.suggestion (9, 1)) = some row ∧
        row.editedText = some ['a'] ∧ row.Sound := by
  obtain ⟨c, hrun, hc⟩ := Config.exists_steps_of_run Config.anyStmt
    (List.replicate 4 (.act 0)) editAndReset
    (fun c => (c.db.committed (.suggestion (9, 1))).any
      fun row : Suggestion => row.editedText = some ['a']) (by decide +kernel)
  obtain ⟨row, hrow, hedit⟩ := (Option.any_eq_true _ _).mp hc
  exact ⟨c, hrun, row, hrow, of_decide_eq_true hedit,
    (suggestion_rows_sound editAndReset_start hrun).1 (9, 1) row (.inl hrow)⟩

end SyncBack
