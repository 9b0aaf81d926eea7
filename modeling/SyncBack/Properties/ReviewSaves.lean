import SyncBack.Application.SessionRules
import SyncBack.Txn.Pending

/-!
# The chain of review saves

Any number of saves of a review run at the same time. A save increments the version of the review
if it still is the expected one; the lock on the document keeps the others out until it commits.
`review_saves_chain` counts the saves that have committed: the version is the initial one plus
their number, their expected versions are consecutive, a save that has raised has left nothing
behind, and a decision once committed stays.

A save that exports the document commits twice, so the saves are counted by process and not by
commit (`savers`).
-/

namespace SyncBack

open Txn Session Contract

/-! ## The saves -/

/-- A call of `atomic_review_save`. -/
structure SaveCall where
  projectId : Uuid
  documentId : Uuid
  userId : Uuid
  reviewVersion : ℤ
  acceptedIds : List Uuid
  rejectedIds : List Uuid
  finalize : Bool
  exporting : Option ExportRun
  editedTexts : Uuid → Option Text

/-- The request of a call. -/
def SaveCall.operation (call : SaveCall) : Operation :=
  .reviewSave call.projectId call.documentId call.userId call.reviewVersion call.acceptedIds
    call.rejectedIds call.finalize call.exporting call.editedTexts

/-- The document of a call with the version that it expects. -/
def asked (saves : Process → Option SaveCall) (t : Process) : Option (Uuid × ℤ) :=
  (saves t).map fun call => (call.documentId, call.reviewVersion)

/-- A start: no transaction is open or committed, and every process is one of the calls. -/
structure SaveStart (saves : Process → Option SaveCall) (c : AppConfig) : Prop where
  quiet : ∀ k, c.db.dirty k = none
  log : c.db.log = []
  procs : ∀ t, c.procs t = (saves t).map fun call => call.operation.program

/-- The history of the committed transactions. -/
abbrev History := List (Process × ((k : Key) → Option (Option (Row k))))

/-- The processes that have committed a version of the document, in the order of their first
commits. -/
def savers (id : Uuid) (log : History) : List Process :=
  log.foldl (fun seen entry =>
    if (entry.2 (.document id)).isSome ∧ entry.1 ∉ seen then seen ++ [entry.1] else seen) []

/-- A commit that writes the document adds its process to the savers, once. -/
theorem savers_concat (id : Uuid) (log : History) (t : Process)
    (w : (k : Key) → Option (Option (Row k))) :
    savers id (log ++ [(t, w)]) =
      if (w (.document id)).isSome ∧ t ∉ savers id log then savers id log ++ [t]
      else savers id log := by
  unfold savers
  rw [List.foldl_append]
  rfl

/-- Who has saved after it. -/
theorem mem_savers_concat {id : Uuid} {log : History} {t u : Process}
    {w : (k : Key) → Option (Option (Row k))} :
    u ∈ savers id (log ++ [(t, w)]) ↔
      u ∈ savers id log ∨ (w (.document id)).isSome ∧ u = t := by
  rw [savers_concat]
  split
  · rename_i h
    simp [h.1]
  · rename_i h
    refine ⟨.inl, ?_⟩
    rintro (hu | ⟨hw, rfl⟩)
    · exact hu
    · by_contra hu
      exact h ⟨hw, hu⟩

/-- Who has saved is in the log. -/
theorem exists_entry_of_mem_savers {id : Uuid} {t : Process} {log : History}
    (h : t ∈ savers id log) : ∃ w, (t, w) ∈ log := by
  induction log using List.reverseRecOn with
  | nil => cases h
  | append_singleton log entry ih =>
      obtain ⟨u, w⟩ := entry
      rcases mem_savers_concat.mp h with h | ⟨-, rfl⟩
      · obtain ⟨w', hw'⟩ := ih h
        exact ⟨w', List.mem_append_left _ hw'⟩
      · exact ⟨w, List.mem_append_right _ (List.mem_singleton.mpr rfl)⟩

/-! ## The invariant -/

/-- A decision that is committed stays. -/
def KeepsDecisions : (k : Key) → Row k → Row k → Prop
  | .suggestion _, (old : Suggestion), new => old.status ≠ .pending → new = old
  | _, _, _ => True

/-- A row keeps its decisions. -/
theorem KeepsDecisions.refl (k : Key) (row : Row k) : KeepsDecisions k row row := by
  cases k
  case suggestion => exact fun _ => rfl
  all_goals trivial

/-- What is kept twice is kept. -/
theorem KeepsDecisions.trans (k : Key) (a b c : Row k) (h : KeepsDecisions k a b)
    (h' : KeepsDecisions k b c) : KeepsDecisions k a c := by
  cases k
  case suggestion =>
    intro ha
    obtain rfl := h ha
    exact h' ha
  all_goals trivial

variable {saves : Process → Option SaveCall} {initial : Uuid → ℤ} {s s' : AppDb} {t : Process}

/-- What holds of the version of a document that transaction `t` has written: it is the committed
one for a second commit, and the next one of the expected one for a first commit. -/
def OwnSave (saves : Process → Option SaveCall) (t : Process) (s : AppDb) : Prop :=
  ∀ id version, s.writes t (.document id) = some version →
    ∃ new old : Document, version = some new ∧ s.committed (.document id) = some old ∧
      (t ∈ savers id s.log ∧ new.reviewVersion = old.reviewVersion ∨
        t ∉ savers id s.log ∧ new.reviewVersion = old.reviewVersion + 1 ∧
          asked saves t = some (id, old.reviewVersion))

/-- What holds of versions and saves at any time. -/
structure Chained (saves : Process → Option SaveCall) (initial : Uuid → ℤ) (s : AppDb) : Prop where
  kept : s.Pending KeepsDecisions
  version : ∀ id (row : Document), s.committed (.document id) = some row →
    row.reviewVersion = initial id + (savers id s.log).length
  chain : ∀ id, (savers id s.log).map (asked saves) =
    (List.range (savers id s.log).length).map fun i : ℕ => some (id, initial id + (i : ℤ))
  own : ∀ t, OwnSave saves t s

/-- Transaction `t` has committed nothing. -/
def Unsaved (t : Process) (s : AppDb) : Prop := ∀ w, (t, w) ∉ s.log

/-- Process `t` has incremented the version of the document, which stands. -/
def Versioned (id : Uuid) (t : Process) (s : AppDb) : Prop :=
  (∃ new : Document, s.writes t (.document id) = some (some new)) ∨
    t ∈ savers id s.log ∧ ∃ row : Document, s.committed (.document id) = some row

/-- A process without a save is no saver. -/
theorem Unsaved.not_mem (h : Unsaved t s) (id : Uuid) : t ∉ savers id s.log := fun hmem => by
  obtain ⟨w, hw⟩ := exists_entry_of_mem_savers hmem
  exact h w hw

/-- A transaction without versions has nothing to show. -/
theorem OwnSave.of_writes_none (h : ∀ k, s.writes t k = none) : OwnSave saves t s := by
  intro id new hw
  rw [h] at hw
  cases hw

namespace Chained

/-- The versions of the others are as good as before. -/
theorem own_other (h : Chained saves initial s) (hf : Frame t s s') {u : Process} (hu : u ≠ t) :
    OwnSave saves u s' := by
  intro id version hw
  rw [hf.writes u hu] at hw
  obtain ⟨new, old, hversion, hold, hnew⟩ := h.own u id version hw
  refine ⟨new, old, hversion, by rw [hf.committed_of_locked hu.symm (hw ▸ Option.some_ne_none _), hold], ?_⟩
  have hsavers : u ∈ savers id s'.log ↔ u ∈ savers id s.log := by
    rcases hf.committed with ⟨-, hlog⟩ | ⟨-, hlog, -⟩
    · rw [hlog]
    · rw [hlog, mem_savers_concat]
      exact or_iff_left fun h => hu h.2
  rw [hsavers]
  exact hnew

/-- A write that no document is the subject of. -/
theorem own_write_other {k : Key} {v : Option (Row k)} (h : OwnSave saves t s)
    (hk : ∀ id, Key.document id ≠ k) : OwnSave saves t (s.write t k v) := by
  intro id new hw
  rw [Db.writes_write_of_ne s v (hk id)] at hw
  exact h id new hw

/-- The row of a document that `t` sees, when it has incremented the version. -/
theorem read_versioned (h : Chained saves initial s) {id : Uuid} {row : Document}
    (hver : Versioned id t s) (hread : s.read t (.document id) = some row) :
    ∃ old : Document, s.committed (.document id) = some old ∧
      (t ∈ savers id s.log ∧ row.reviewVersion = old.reviewVersion ∨
        t ∉ savers id s.log ∧ row.reviewVersion = old.reviewVersion + 1 ∧
          asked saves t = some (id, old.reviewVersion)) := by
  rcases hw : s.writes t (.document id) with _ | version
  · rw [Db.read_of_not_writes hw] at hread
    rcases hver with ⟨new, hnew⟩ | ⟨hmem, -⟩
    · rw [hw] at hnew
      cases hnew
    · exact ⟨row, hread, .inl ⟨hmem, rfl⟩⟩
  · rw [Db.read_of_writes hw] at hread
    obtain ⟨new, old, hnew, hold, hcase⟩ := h.own t id version hw
    cases hread.symm.trans hnew
    exact ⟨old, hold, hcase⟩

/-- The increment, and the later writes of the same save. -/
theorem own_write_document {id : Uuid} {row new : Document} (h : Chained saves initial s)
    (hread : s.read t (.document id) = some row)
    (hcase : Versioned id t s ∧ new.reviewVersion = row.reviewVersion ∨
      (s.Idle t ∧ Unsaved t s) ∧ new.reviewVersion = row.reviewVersion + 1 ∧
        asked saves t = some (id, row.reviewVersion)) :
    OwnSave saves t (s.write t (.document id) (some new)) := by
  intro id' new' hw
  by_cases hid : id' = id
  · subst hid
    rw [Db.writes_write_self] at hw
    cases hw
    rcases hcase with ⟨hver, hsame⟩ | ⟨⟨hidle, hunsaved⟩, hnext⟩
    · obtain ⟨old, hold, hold'⟩ := h.read_versioned hver hread
      exact ⟨new, old, rfl, hold, by rw [hsame]; exact hold'⟩
    · exact ⟨new, row, rfl, (hidle.read _).symm.trans hread, .inr ⟨hunsaved.not_mem _, hnext⟩⟩
  · rw [Db.writes_write_of_ne s _ (by simpa using hid)] at hw
    exact h.own t id' new' hw

/-- A write that keeps decisions keeps the chain, if its versions are shown. -/
theorem write {k : Key} {v : Option (Row k)} (h : Chained saves initial s)
    (hfree : s.lockedByOther t k = false) (hkept : (s.write t k v).Pending KeepsDecisions)
    (hown : OwnSave saves t (s.write t k v)) : Chained saves initial (s.write t k v) := by
  refine ⟨hkept, h.version, h.chain, fun u => ?_⟩
  by_cases hu : u = t
  · exact hu ▸ hown
  · exact h.own_other (Frame.write hfree) hu

/-- A rollback keeps the chain. -/
theorem rollback (h : Chained saves initial s) : Chained saves initial (s.rollback t) := by
  refine ⟨h.kept.rollback, h.version, h.chain, fun u => ?_⟩
  by_cases hu : u = t
  · subst hu
    exact OwnSave.of_writes_none (Db.writes_rollback_self s u)
  · exact h.own_other (Frame.rollback t s) hu

/-- **A commit** adds its save to the chain, or belongs to a save that is on it. -/
theorem commit (h : Chained saves initial s) : Chained saves initial (s.commit t) := by
  have hsavers : ∀ id, savers id (s.commit t).log =
      if (s.writes t (.document id)).isSome ∧ t ∉ savers id s.log then savers id s.log ++ [t]
      else savers id s.log := fun id => savers_concat id s.log t _
  refine ⟨h.kept.commit, fun id row hrow => ?_, fun id => ?_, fun u => ?_⟩
  · rw [Db.commit_committed] at hrow
    rw [hsavers]
    rcases hw : s.writes t (.document id) with _ | version
    · rw [Db.read_of_not_writes hw] at hrow
      simpa using h.version id row hrow
    · obtain ⟨new, old, rfl, hold, hcase⟩ := h.own t id version hw
      rw [Db.read_of_writes hw] at hrow
      cases hrow
      have hversion := h.version id old hold
      rcases hcase with ⟨hmem, hsame⟩ | ⟨hnot, hnext, -⟩
      · simp [hmem, hsame, hversion]
      · simp only [hnot, Option.isSome_some, not_false_eq_true, and_self, if_true,
          List.length_append, List.length_singleton, hnext, hversion]
        push_cast
        omega
  · rw [hsavers]
    split
    · rename_i hfirst
      obtain ⟨version, hw⟩ := Option.isSome_iff_exists.mp hfirst.1
      obtain ⟨new, old, -, hold, hcase⟩ := h.own t id version hw
      obtain ⟨-, -, hasked⟩ := hcase.resolve_left fun hmem => hfirst.2 hmem.1
      rw [List.map_append, h.chain id, List.length_append, List.length_singleton, List.range_succ,
        List.map_append, List.map_singleton, List.map_singleton, hasked, h.version id old hold]
    · exact h.chain id
  · by_cases hu : u = t
    · subst hu
      exact OwnSave.of_writes_none (Db.writes_commit_self s u)
    · exact h.own_other (Frame.commit t s) hu

end Chained

/-- What the program has to know before it writes a document. -/
def SaveCovered (saves : Process → Option SaveCall) (t : Process) (f : AppStmt) (s : AppDb) : Prop :=
  ∀ id p g, f = .update (.document id) p g → ∀ row : Document, p row = true →
    Versioned id t s ∧ (g row).reviewVersion = row.reviewVersion ∨
      (s.Idle t ∧ Unsaved t s) ∧ (g row).reviewVersion = row.reviewVersion + 1 ∧
        asked saves t = some (id, row.reviewVersion)

/-- **One statement keeps the invariant.** -/
theorem Chained.effect {f : AppStmt} (h : Chained saves initial s) (he : Effect t s f s')
    (hsent : Sent .reviewSave f) (hcov : SaveCovered saves t f s) : Chained saves initial s' := by
  have hkept : s'.Pending KeepsDecisions := by
    refine h.kept.effect KeepsDecisions.refl he hsent.deletes ?_
    rintro k p g r row rfl - hp - hR
    cases k
    case suggestion id =>
      intro hdecided
      obtain rfl := hR hdecided
      cases hsent with
      | suggestionDecide hkind hpending hdecide => exact absurd (hpending _ hp) hdecided
      | suggestionReset hkind => simp at hkind
    all_goals trivial
  cases he with
  | same => exact h
  | draw => exact ⟨hkept, h.version, h.chain, h.own⟩
  | send => exact ⟨hkept, h.version, h.chain, h.own⟩
  | delete => cases hsent
  | commit => exact h.commit
  | rollback => exact h.rollback
  | update hfree hread hp huniq =>
      rename_i k p g r
      refine h.write hfree hkept ?_
      cases k
      case document id => exact h.own_write_document hread (hcov id p g rfl r hp)
      all_goals exact Chained.own_write_other (h.own t) (by simp)
  | insert hfree hread huniq =>
      cases hsent with
      | insertJob hkind => simp at hkind

/-- The contract of the saves. -/
def saveContract (saves : Process → Option SaveCall) (initial : Uuid → ℤ) :
    Contract Process Key Row Message where
  inv := Chained saves initial
  guar := fun _ _ _ => True
  allowed := Config.anyStmt
  guar_refl := fun _ _ _ => trivial
  rollback := fun _ _ h => ⟨h.rollback, trivial⟩
  tick := fun _ _ h => ⟨h.kept, h.version, h.chain, h.own⟩

/-! ## The program of a save -/

/-- One statement of a save within the contract. -/
theorem save_step {f : AppStmt} (h : Chained saves initial s) (he : Effect t s f s')
    (hsent : Sent .reviewSave f) (hcov : SaveCovered saves t f s) :
    (saveContract saves initial).inv s' ∧ (saveContract saves initial).guar t s s' :=
  ⟨h.effect he hsent hcov, trivial⟩

/-- No step of another process saves for `t`. -/
theorem stable_unsaved : (saveContract saves initial).Stable t (Unsaved t) := by
  refine ⟨fun u s s' hu _ _ hf _ h w hw => ?_, fun _ _ _ h => h⟩
  rcases hf.committed with ⟨-, hlog⟩ | ⟨-, hlog, -⟩
  · exact h w (hlog ▸ hw)
  · rw [hlog, List.mem_append, List.mem_singleton] at hw
    rcases hw with hw | hw
    · exact h w hw
    · exact hu (Prod.mk.inj hw).1.symm

/-- Who has saved has saved. -/
theorem mem_savers_step (hf : Frame t s s') {id : Uuid} {u : Process} (hmem : u ∈ savers id s.log) :
    u ∈ savers id s'.log := by
  rcases hf.committed with ⟨-, hlog⟩ | ⟨-, hlog, -⟩
  · rw [hlog]
    exact hmem
  · rw [hlog, mem_savers_concat]
    exact .inl hmem

/-- A document that stands goes on to stand, and who has saved it has saved it. -/
theorem Chained.versioned_step (h : Chained saves initial s) (hf : Frame t s s') {id : Uuid}
    {u : Process} (hmem : u ∈ savers id s.log ∧ ∃ row : Document, s.committed (.document id) = some row) :
    u ∈ savers id s'.log ∧ ∃ row : Document, s'.committed (.document id) = some row := by
  obtain ⟨hmem, row, hrow⟩ := hmem
  obtain ⟨row', hrow', -⟩ := hf.committed_along KeepsDecisions.refl h.kept (.document id) row hrow
  exact ⟨mem_savers_step hf hmem, row', hrow'⟩

/-- No step of another process changes the version that `t` has written. -/
theorem stable_versioned {id : Uuid} : (saveContract saves initial).Stable t (Versioned id t) := by
  refine ⟨fun u s s' hu hi _ hf _ h => ?_, fun _ _ _ h => h⟩
  rcases h with ⟨new, hnew⟩ | hmem
  · exact .inl ⟨new, by rw [hf.writes t hu.symm, hnew]⟩
  · exact .inr (hi.versioned_step hf hmem)

/-- Transaction `t` has incremented the version of the document and committed nothing. -/
def Incremented (id : Uuid) (t : Process) (s : AppDb) : Prop :=
  Unsaved t s ∧ ∃ new : Document, s.writes t (.document id) = some (some new)

/-- Nor whether it has incremented it. -/
theorem stable_incremented {id : Uuid} :
    (saveContract saves initial).Stable t (Incremented id t) :=
  stable_unsaved.and (Stable.of_writes fun s s' h hp => by rw [h]; exact hp)

/-- The statements that count suggestions and decide on them. -/
inductive Decides : AppStmt → Prop
  | reads {f} (h : Reads f) : Decides f
  | decided {decisions id now} :
      Decides (.update (.suggestion id) (SuggestionRepository.decidable decisions id)
        (SuggestionRepository.decided decisions now id))

instance : AllowsReads Decides := ⟨.reads⟩

/-- The statements between are those of a save. -/
theorem Decides.sent {f : AppStmt} (h : Decides f) : Sent .reviewSave f := by
  cases h with
  | reads h => exact AllowsReads.reads h
  | decided => exact Sent.decided (by simp)

/-- They leave the version incremented. -/
theorem triple_decides {id : Uuid} {α : Type} {p : Session α} (h : p.Sends Decides) :
    (saveContract saves initial).Triple t p (Incremented id t) fun _ => Incremented id t := by
  refine Triple.of_sends stable_incremented (fun f hf s hinv hL _ b s' he => ?_) h
  have heffect := exec_effect he
  have hcov : SaveCovered saves t f s := by
    rintro id p g rfl
    cases hf with
    | reads h => cases h
  obtain ⟨hinv', hguar⟩ := save_step hinv heffect hf.sent hcov
  refine ⟨hinv', hguar, ?_⟩
  cases hf with
  | reads h =>
      cases h <;> cases heffect <;> exact hL
  | decided =>
      cases heffect with
      | same => exact hL
      | update => exact ⟨hL.1, by rw [Db.writes_write_of_ne _ _ (by simp)]; exact hL.2⟩

/-- The increment of the version. -/
theorem triple_increment {document : Loaded Document} {version : ℤ}
    (hasked : asked saves t = some (document.id, version)) :
    (saveContract saves initial).Triple t
      (DocumentRepository.compareAndIncrementReviewVersion document version)
      (fun s => s.Idle t ∧ Unsaved t s)
      (ending (fun found s => Unsaved t s ∧ (found ≠ none → Incremented document.id t s))
        fun _ => Unsaved t) := by
  refine Triple.update (A := fun o s => Unsaved t s ∧
    ∀ row, o = .updated row → Incremented document.id t s) (fun o => ?_) ?_ ?_ ?_ fun o => ?_
  · exact stable_unsaved.and (Stable.all fun _ => Stable.all fun _ => stable_incremented)
  · rintro s - ⟨-, h⟩ -
    exact ⟨h, fun _ => by rintro ⟨⟩⟩
  · rintro s r - ⟨-, h⟩ - - -
    exact ⟨h, fun _ => by rintro ⟨⟩⟩
  · intro s r hinv hpre _ hfree hread hp huniq
    have hcov : SaveCovered saves t (.update (.document document.id)
        (fun (row : Document) => row.reviewVersion = version) Document.withNextVersion) s := by
      rintro id p g ⟨⟩ row hrow
      exact .inr ⟨hpre, rfl, by rw [hasked, decide_eq_true_eq.mp hrow]⟩
    obtain ⟨hinv', hguar⟩ := save_step hinv (.update hfree hread hp huniq) .documentVersion hcov
    exact ⟨hinv', hguar, hpre.2, fun _ _ => ⟨hpre.2, _, Db.writes_write_self _ _ _ _⟩⟩
  · rcases o with _ | _ | row
    · exact fun s _ h => ⟨h.1, fun h => absurd rfl h⟩
    · exact fun s _ h => h.1
    · exact fun s _ h => ⟨h.1, fun _ => h.2 row rfl⟩

/-- A later write of the document in the same save. -/
theorem triple_writeAgain {id : Uuid} {f : Document → Document} {ρ : Type} {x : ρ}
    {P : AppDb → Prop} (hsent : Sent .reviewSave (.update (.document id) (fun _ => true) f))
    (hsame : ∀ row, (f row).reviewVersion = row.reviewVersion)
    (hver : ∀ s, P s → Versioned id t s)
    {A : AppDb → Prop} (hst : (saveContract saves initial).Stable t A)
    (hA : ∀ s new, P s → A (s.write t (.document id) (some new))) :
    (saveContract saves initial).Triple t (update (.document id) (fun _ => true) f >>= fun o =>
      flushed o >>= fun _ => (pure x : Session ρ)) P (ending (fun a s => a = x ∧ A s) fun _ _ => False) := by
  refine triple_flushDocument hst (fun s hinv hP => ?_) fun s r hinv hP _ hfree hread huniq => ?_
  · rcases hver s hP with ⟨new, hnew⟩ | ⟨-, row, hrow⟩
    · exact ⟨new, Db.read_of_writes hnew⟩
    · obtain ⟨new, hnew, -⟩ := hinv.kept.read KeepsDecisions.refl t (.document id) row hrow
      exact ⟨new, hnew⟩
  · have hcov : SaveCovered saves t (.update (.document id) (fun _ => true) f) s := by
      rintro id p g ⟨⟩ row -
      exact .inl ⟨hver s hP, hsame row⟩
    obtain ⟨hinv', hguar⟩ := save_step hinv (.update hfree hread rfl huniq) hsent hcov
    exact ⟨hinv', hguar, hA s _ hP⟩

/-- After a commit the save is in the chain. -/
theorem versioned_commit {id : Uuid} (h : Incremented id t s) :
    t ∈ savers id (s.commit t).log ∧ ∃ row : Document, (s.commit t).committed (.document id) = some row := by
  obtain ⟨-, new, hnew⟩ := h
  refine ⟨mem_savers_concat.mpr (.inr ⟨by rw [hnew]; rfl, rfl⟩), new, ?_⟩
  rw [Db.commit_committed, Db.read_of_writes hnew]

/-- The export raises before it has committed anything, or commits the save. -/
theorem triple_export {document : Loaded Document} {exporting : Option ExportRun} :
    (saveContract saves initial).Triple t (SuggestionService.exportIfAsked document exporting)
      (Incremented document.id t)
      (ending (fun _ => Versioned document.id t) fun _ => Unsaved t) := by
  rcases exporting with _ | _ | _
  · exact fun s _ h => .inl h.2
  · exact fun s _ h => h.1
  refine Triple.tryCatch (J := ending (fun _ => Versioned document.id t) fun _ => Unsaved t)
    (triple_withUow (Q := ending (fun _ => Versioned document.id t) fun _ _ => False) ?_
      (fun _ => stable_unsaved) (fun _ _ _ h => h) fun _ _ _ h => h.elim) (fun _ _ _ h => h)
    fun _ _ _ h => h
  refine Triple.bind (J := ending (fun _ => Incremented document.id t) fun _ _ => False) ?_
    (fun d => ?_) fun _ _ _ h => h
  · unfold DocumentRepository.updateExportedKey
    split
    · exact fun _ _ h => h
    · refine (triple_writeAgain (A := Incremented document.id t) (.documentExport (by simp))
        (fun _ => rfl) (fun s h => .inl h.2) stable_incremented fun s new h => ?_).mono
        (fun _ _ h => h) ?_
      · exact ⟨h.1, new, Db.writes_write_self _ _ _ _⟩
      · rintro (e | d) s - h
        · exact h
        · exact h.2
  · refine Triple.commit stable_versioned ?_ fun _ _ h => h
    exact fun s hinv h _ => ⟨hinv.commit, trivial, .inr (versioned_commit h)⟩

/-- The review is finished; this cannot fail. -/
theorem triple_finish {id : Uuid} {document : Loaded Document} (hid : document.id = id)
    (hst : document.row.status = .awaitingApproval) {jobId : Uuid}
    (hjob : document.row.currentAnalysisJobId = some jobId) :
    (saveContract saves initial).Triple t (SuggestionService.finishReview document 0)
      (Versioned id t) (ending (fun _ => Versioned id t) fun _ _ => False) := by
  subst hid
  unfold SuggestionService.finishReview DocumentRepository.updateStatus SuggestionService.basisOf
  rw [hst, hjob]
  refine (triple_writeAgain (A := Versioned document.id t) (.documentStatus (.finish (by simp)))
    (fun _ => rfl) (fun s h => h) stable_versioned fun s new _ => ?_).mono (fun _ _ h => h) ?_
  · exact .inl ⟨new, Db.writes_write_self _ _ _ _⟩
  · rintro (e | d) s - h
    · exact h
    · exact h.2

/-- The end of a review leaves the version written. -/
theorem triple_finalizeSave {document d : Loaded Document} {pending : ℕ}
    {exporting : Option ExportRun} (hd : SameReading document d)
    (hst : document.row.status = .awaitingApproval) {jobId : Uuid}
    (hjob : document.row.currentAnalysisJobId = some jobId) :
    (saveContract saves initial).Triple t (SuggestionService.finalizeSave d pending exporting)
      (Incremented document.id t)
      (ending (fun _ => Versioned document.id t) fun _ => Unsaved t) := by
  unfold SuggestionService.finalizeSave
  split
  · rename_i hzero
    rw [hzero, ← hd.1]
    refine Triple.bind (triple_export.and_returns returns_exportIfAsked) (fun d' => ?_)
      fun _ _ _ h => h
    refine (Triple.fact (F := SameReading d d') fun hd' => ?_).pre fun _ _ h => ⟨h.2, h.1⟩
    have hread := hd.trans hd'
    refine (triple_finish (hd'.1) (hread.2.1.trans hst) (hread.2.2.trans hjob)).mono
      (fun _ _ h => h) ?_
    rintro (e | d'') s - h
    · exact h.elim
    · exact h
  · exact fun s _ h => h.1

/-- What a caller is told of its save. -/
def SaveTold (id : Uuid) (t : Process) {α : Type} : Except DomainError α → AppDb → Prop :=
  ending (fun _ s => t ∈ savers id s.log) fun _ => Unsaved t

/-- The commit makes the process a saver. -/
theorem triple_commitSave {id : Uuid} {α : Type} {a : α} :
    (saveContract saves initial).Triple t (commit >>= fun _ => (pure a : Session α))
      (Versioned id t) (SaveTold id t) := by
  refine Triple.commit (A := fun s => t ∈ savers id s.log ∧ ∃ row : Document,
    s.committed (.document id) = some row) ?_ ?_ fun s _ h => h.1
  · exact ⟨fun _ _ _ _ hi _ hf _ h => hi.versioned_step hf h, fun _ _ _ h => h⟩
  · intro s hinv hver _
    refine ⟨hinv.commit, trivial, ?_⟩
    rcases hver with ⟨new, hnew⟩ | hmem
    · refine ⟨mem_savers_concat.mpr (.inr ⟨by rw [hnew]; rfl, rfl⟩), new, ?_⟩
      rw [Db.commit_committed, Db.read_of_writes hnew]
    · exact hinv.versioned_step (Frame.commit t s) hmem

/-- **A save**, whatever the others do. -/
theorem triple_save {call : SaveCall} (hcall : saves t = some call) {document : Loaded Document}
    (hid : document.id = call.documentId) :
    (saveContract saves initial).Triple t
      (SuggestionService.saveLoaded document call.documentId call.userId call.reviewVersion
        call.acceptedIds call.rejectedIds call.finalize call.exporting call.editedTexts)
      (fun s => s.Idle t ∧ Unsaved t s) (SaveTold call.documentId t) := by
  have hasked : asked saves t = some (document.id, call.reviewVersion) := by
    rw [asked, hcall, hid]
    rfl
  rw [← hid]
  refine triple_assertAwaitingApproval (fun _ _ _ h => h.2) fun hst =>
    triple_assertHasActiveJob (fun _ _ _ h => h.2) fun jobId hjob => ?_
  refine Triple.bind ((triple_increment hasked).and_returns returns_compareAndIncrement)
    (fun found => ?_) fun _ _ _ h => h
  rcases found with _ | d
  · exact fun s _ h => h.1.1
  refine (Triple.fact (F := SameReading document d) (P := Incremented document.id t) fun hd => ?_).pre
    fun s _ h => ⟨h.2 d rfl, h.1.2 (Option.some_ne_none d)⟩
  refine Triple.bind (triple_decides (sends_bulkUpdateStatus fun _ _ => .decided))
    (fun updated => ?_) fun _ _ _ h => h.1
  split
  · refine Triple.bind (triple_decides (sends_count _ _)) (fun pending => ?_) fun _ _ _ h => h.1
    refine Triple.bind (J := ending (fun _ => Versioned document.id t) fun _ => Unsaved t) ?_
      (fun d' => triple_commitSave) fun _ _ _ h => h
    split
    · exact triple_finalizeSave hd hst hjob
    · exact fun s _ h => .inl h.2
  · exact fun s _ h => h.1

/-- A save with its session. -/
theorem triple_saveRequest {call : SaveCall} (hcall : saves t = some call) :
    (saveContract saves initial).Triple t call.operation.program
      (fun s => s.Idle t ∧ Unsaved t s)
      (ending (fun _ s => t ∈ savers call.documentId s.log) fun _ s => Unsaved t s ∧ s.Idle t) := by
  have hbody : (saveContract saves initial).Triple t
      (SuggestionService.atomicReviewSave call.projectId call.documentId call.userId
        call.reviewVersion call.acceptedIds call.rejectedIds call.finalize call.exporting
        call.editedTexts) (fun s => s.Idle t ∧ Unsaved t s) (SaveTold call.documentId t) := by
    refine triple_withUow (Q := SaveTold call.documentId t) ?_ (fun _ => stable_unsaved)
      (fun _ _ _ h => h) fun _ _ _ h => h
    refine Triple.bind ((triple_reads (sends_getDocumentOrRaise _ _)
      (Stable.idle.and stable_unsaved)).and_returns returns_getDocumentOrRaise)
      (fun document => ?_) fun _ _ _ h => h.2
    exact (Triple.fact fun hid => triple_save hcall hid).pre fun _ _ h => ⟨h.2, h.1⟩
  refine triple_request (triple_closing (E := ending (fun _ s => t ∈ savers call.documentId s.log)
    fun _ s => Unsaved t s ∧ s.Idle t) hbody ?_ ?_) (fun _ _ _ h => h) fun _ _ _ h => h
  · rintro (e | a)
    · exact stable_unsaved.and Stable.idle
    · exact ⟨fun _ _ _ _ _ _ hf _ h => mem_savers_step hf h, fun _ _ _ h => h⟩
  · rintro (e | a) s - h
    · exact ⟨h, Db.idle_rollback s t⟩
    · exact h

/-! ## The chain -/

/-- **The chain of saves** from the database of the start to a later one. -/
structure SaveChain (saves : Process → Option SaveCall) (c₀ c : AppConfig) : Prop where
  /-- The version counts the committed saves. -/
  version : ∀ id (old new : Document), c₀.db.committed (.document id) = some old →
    c.db.committed (.document id) = some new →
      new.reviewVersion = old.reviewVersion + (savers id c.db.log).length
  /-- The expected versions of the committed saves are consecutive, in the order of the commits. -/
  consecutive : ∀ id (old : Document), c₀.db.committed (.document id) = some old →
    (savers id c.db.log).map (asked saves) =
      (List.range (savers id c.db.log).length).map fun i : ℕ => some (id, old.reviewVersion + (i : ℤ))
  /-- They are different. -/
  distinct : ∀ id, ((savers id c.db.log).map (asked saves)).Nodup
  /-- A save that has succeeded is committed. -/
  succeeded : ∀ t call, saves t = some call → ∀ a, c.result t = some (.ok a) →
    t ∈ savers call.documentId c.db.log
  /-- A save that has failed has committed nothing and has no open transaction. -/
  failed : ∀ t e, c.result t = some (.error e) → (∀ w, (t, w) ∉ c.db.log) ∧ c.db.Idle t
  /-- A committed decision stays. -/
  kept : ∀ c', c.Steps Config.anyStmt c' → ∀ id (row : Suggestion),
    c.db.committed (.suggestion id) = some row → row.status ≠ .pending →
      c'.db.committed (.suggestion id) = some row

/-- The saves of a start are verified against the contract. -/
theorem verified_saves {c : AppConfig} (h : SaveStart saves c) :
    (saveContract saves fun id => ((c.db.committed (.document id)).map Document.reviewVersion).getD 0).Verified
      (fun t => ending (fun _ s => ∀ call, saves t = some call → t ∈ savers call.documentId s.log)
        fun _ s => Unsaved t s ∧ s.Idle t) c := by
  refine ⟨⟨Db.Pending.of_quiet h.quiet, fun id row hrow => ?_, fun id => ?_,
    fun t => OwnSave.of_writes_none (Db.idle_of_quiet h.quiet t)⟩, fun t p hp => ?_⟩
  · simp [h.log, hrow, savers]
  · simp [h.log, savers]
  · rw [h.procs] at hp
    obtain ⟨call, hcall, rfl⟩ := Option.map_eq_some_iff.mp hp
    refine ⟨_, Stable.idle.and stable_unsaved,
      ⟨Db.idle_of_quiet h.quiet t, fun w hw => by rw [h.log] at hw; cases hw⟩,
      (triple_saveRequest hcall).mono (fun _ _ h => h) ?_⟩
    rintro (e | a) s - hpost
    · exact hpost
    · intro call' hcall'
      rw [hcall] at hcall'
      cases hcall'
      exact hpost

/-- **Review saves.** In every configuration that saves can reach, those that have committed form a
chain, and the others have left nothing behind. -/
theorem review_saves_chain {c₀ c : AppConfig} (hstart : SaveStart saves c₀)
    (hrun : c₀.Steps Config.anyStmt c) : SaveChain saves c₀ c := by
  have hv := (verified_saves hstart).steps hrun
  refine ⟨fun id old new hold hnew => ?_, fun id old hold => ?_, fun id => ?_,
    fun t call hcall a hr => hv.result hr call hcall, fun t e hr => hv.result hr,
    fun c' hs id row hrow hdecided => ?_⟩
  · have hversion := hv.inv.version id new hnew
    rwa [hold] at hversion
  · have hchain := hv.inv.chain id
    rwa [hold] at hchain
  · rw [hv.inv.chain id]
    refine List.Nodup.map (fun i j hij => ?_) List.nodup_range
    have hadd := (Prod.mk.inj (Option.some.inj hij)).2
    omega
  · obtain ⟨row', hrow', hkept⟩ := hv.along (fun _ h => h.kept) KeepsDecisions.refl
      KeepsDecisions.trans hs (.suggestion id) row hrow
    rw [hrow', hkept hdecided]

/-! ## Two saves of one version -/

/-- Two saves that expect version 0; one accepts the suggestion, the other rejects it. -/
def twoSaves : Process → Option SaveCall := fun t =>
  [⟨(9, 2), (9, 0), (9, 5), 0, [(9, 4)], [], false, none, fun _ => none⟩,
    ⟨(9, 2), (9, 0), (9, 6), 0, [], [(9, 4)], true, some .saves, fun _ => none⟩][t]?

/-- A document in review with one suggestion; processes 0 and 1 are the two saves. -/
def concurrentSaves : AppConfig where
  db := AppDb.ofRows
    [⟨.document (9, 0), { projectId := (9, 2), name := "a.txt", format := .txt, storageKey := "a"
                          sizeBytes := 1, status := .awaitingApproval
                          currentAnalysisJobId := some (9, 1) }⟩,
      ⟨.suggestion (9, 4), { analysisJobId := (9, 1), documentId := (9, 0), sectionRef := []
                             changeType := .delete }⟩] []
  procs t := (twoSaves t).map fun call => call.operation.program

/-- The two saves are such a start. -/
theorem concurrentSaves_start : SaveStart twoSaves concurrentSaves where
  quiet _ := rfl
  log := rfl
  procs _ := rfl

/-- Both saves read the document; the one that exports commits, and the other comes too late. -/
def lateSave : List (Move Process) :=
  [.act 0, .act 1] ++ List.replicate 10 (.act 1) ++ List.replicate 3 (.act 0)

/-- The save that came too late has left nothing behind. -/
theorem late_save_leaves_nothing :
    ∃ c new e, concurrentSaves.Steps Config.anyStmt c ∧
      c.db.committed (.document (9, 0)) = some new ∧
      new.reviewVersion = 0 + (savers (9, 0) c.db.log).length ∧ 1 ∈ savers (9, 0) c.db.log ∧
      c.result 0 = some (.error e) ∧ (∀ w, (0, w) ∉ c.db.log) ∧ c.db.Idle 0 := by
  obtain ⟨c, hrun, hc⟩ := Config.exists_steps_of_run Config.anyStmt lateSave concurrentSaves
    (fun c => (c.db.committed (.document (9, 0))).isSome && (c.result 1).any Except.isOk &&
      (c.result 0).any fun r => !r.isOk) (by decide +kernel)
  simp only [Bool.and_eq_true, Option.any_eq_true, Option.isSome_iff_exists] at hc
  obtain ⟨⟨⟨new, hnew⟩, r, hr, hok⟩, r', hr', hfailed⟩ := hc
  obtain ⟨a, rfl⟩ : ∃ a, r = .ok a := by cases r <;> simp_all [Except.isOk, Except.toBool]
  obtain ⟨e, rfl⟩ : ∃ e, r' = .error e := by cases r' <;> simp_all [Except.isOk, Except.toBool]
  have h := review_saves_chain concurrentSaves_start hrun
  obtain ⟨hlog, hidle⟩ := h.failed 0 e hr'
  exact ⟨c, new, e, hrun, hnew, h.version (9, 0) _ new rfl hnew, h.succeeded 1 _ rfl a hr, hr',
    hlog, hidle⟩

end SyncBack
