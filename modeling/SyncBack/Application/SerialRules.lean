import SyncBack.Application.ProjectOperations
import SyncBack.Application.Statements
import SyncBack.Txn.Serial

/-!
# Serial rules for sessions

The rules of serial runs for the forms that every session has, and for the statements over many
rows. Most parts of a session keep an assertion that a rollback keeps too; the rules are stated for
such an assertion `J`.
-/

namespace SyncBack

open Txn Session

variable {t : Process} {s : AppDb} {α : Type} {J : AppDb → Prop}

/-- `async with uow:` rolls back when the body raises. -/
theorem ensures_withUow (hrollback : ∀ s, J s → J (s.rollback t)) {body : Session α}
    (h : body.Ensures t s fun _ s' => J s') : (withUow body).Ensures t s fun _ s' => J s' := by
  refine Prog.Ensures.tryCatch (E := fun _ s' => J s') (h.mono fun r s' hj => ?_) fun e s' hj => ?_
  · cases r <;> exact hj
  · rintro b s'' he
    obtain ⟨-, rfl⟩ := Prod.mk.inj (Option.some.inj he)
    exact hrollback s' hj

/-- A request keeps what its body and a rollback keep. -/
theorem ensures_request (hrollback : ∀ s, J s → J (s.rollback t)) {body : Session α}
    (h : body.Ensures t s fun _ s' => J s') : (request body).Ensures t s fun _ s' => J s' := by
  refine Prog.Ensures.bind (A := fun _ s' => J s') (E := fun _ s' => J s') ?_ (fun _ _ hj => hj)
    fun _ _ hj => hj
  refine Prog.Ensures.bind (A := fun _ s' => J s') (E := fun _ s' => J s')
    ((ensures_withUow hrollback h).mono fun r s' hj => ?_) (fun a s' hj => ?_) fun _ _ hj => hj
  · cases r <;> exact hj
  · rintro b s'' he
    obtain ⟨-, rfl⟩ := Prod.mk.inj (Option.some.inj he)
    exact hrollback s' hj

/-- A session leaves no transaction open. -/
theorem idle_closing {body : Session α} :
    (closing body).Ensures t s fun _ s' => s'.Idle t := by
  have hrollback : ∀ (s : AppDb) b s', exec t .rollback s = some (b, s') → s'.Idle t := by
    intro s b s' he
    obtain ⟨-, rfl⟩ := Prod.mk.inj (Option.some.inj he)
    exact Db.idle_rollback s t
  have hany : ∀ {p : Session α} {s : AppDb}, p.Ensures t s fun _ _ => True :=
    Prog.Ensures.of_sends (F := fun _ => True) (fun _ _ _ _ _ _ => trivial)
      (Prog.Sends.any fun _ => trivial) trivial
  refine Prog.Ensures.bind (A := fun _ _ => True) (E := fun _ s' => s'.Idle t) ?_
    (fun a s' _ b s'' he => hrollback s' b s'' he) fun _ _ hidle => hidle
  refine Prog.Ensures.tryCatch (E := fun _ _ => True) (hany.mono fun r s' _ => ?_)
    fun e s' _ b s'' he => hrollback s' b s'' he
  cases r <;> trivial

/-- A request ends its transaction. -/
theorem idle_request {body : Session α} : (request body).Ensures t s fun _ s' => s'.Idle t := by
  refine Prog.Ensures.bind (A := fun _ s' => s'.Idle t) (E := fun _ s' => s'.Idle t)
    (idle_closing.mono fun r s' hidle => ?_) (fun _ _ hidle => hidle) fun _ _ hidle => hidle
  cases r <;> exact hidle

/-- Waiting for a message changes nothing. -/
theorem idle_delivered {delivery : Option (List Uuid)} {jobId : Uuid} (h : s.Idle t) :
    (delivered delivery jobId).Ensures t s fun _ s' => s'.Idle t := by
  cases delivery with
  | none => exact h
  | some sourceIds =>
      intro b s' he
      cases exec_effect he with
      | same => exact h

/-- Loading a document and checking its project. -/
theorem ensures_getDocumentOrRaise {projectId documentId : Uuid}
    {Q : Except DomainError α → AppDb → Prop} {rest : Loaded Document → Session α}
    (hfound : ∀ row : Document, s.read t (.document documentId) = some row →
      row.projectId = projectId → (rest ⟨documentId, row⟩).Ensures t s Q)
    (hmissing : ∀ e, (∀ row : Document, s.read t (.document documentId) = some row →
      row.projectId ≠ projectId) → Q (.error e) s) :
    (getDocumentOrRaise projectId documentId >>= rest).Ensures t s Q := by
  intro b s' he
  obtain ⟨rfl, rfl⟩ := Prod.mk.inj (Option.some.inj he)
  rcases hrow : s.read t (.document documentId) with _ | row
  · exact hmissing _ fun row h => nomatch hrow.symm.trans h
  · by_cases hproject : row.projectId = projectId
    · change ((if row.projectId = projectId then pure _ else _ : Session _) >>= rest).Ensures t s Q
      rw [if_pos hproject]
      exact hfound row hrow hproject
    · change ((if row.projectId = projectId then _ else throw _ : Session _) >>= rest).Ensures t s Q
      rw [if_neg hproject]
      refine hmissing _ fun row' h => ?_
      obtain rfl := Option.some.inj (hrow.symm.trans h)
      exact hproject

/-! ## Statements over many rows -/

section protectedRows

variable {protects : Key → Prop} {P : (k : Key) → Row k → Prop}

/-- Deleting rows that are not protected; the deleted keys are none of the protected ones. -/
theorem ensures_deleteRows {p : (k : Key) → Row k → Bool}
    (hp : ∀ k, protects k → ∀ row, P k row → p k row = false) :
    ∀ {keys : List Key} {s : AppDb}, s.Protected protects P →
      (deleteRows p keys).Ensures t s (ending (fun deleted s' => s'.Protected protects P ∧
        ∀ k ∈ deleted, ¬ protects k) fun _ s' => s'.Protected protects P)
  | [], s, hs => ⟨hs, fun _ hk => absurd hk List.not_mem_nil⟩
  | k :: rest, s, hs => by
      intro b s' he
      change (deleteRows p rest >>= fun deleted =>
        pure (if b.isSome then k :: deleted else deleted)).Ensures t s' _
      have hs' : s'.Protected protects P := by
        refine hs.effect (exec_effect he) fun k₁ hk₁ => ⟨?_, ?_⟩
        · rintro p₁ g r ⟨⟩
        · rintro p₁ r heq hr
          cases heq
          exact hp k hk₁ r hr
      have hb : b.isSome = true → ¬ protects k := by
        intro hsome hk
        rcases exec_delete_cases he with ⟨-, rfl⟩ | ⟨r, -, hread, hpr, rfl, -⟩
        · cases hsome
        · obtain ⟨r', hread', hr'⟩ := (hs k hk).read t
          obtain rfl := Option.some.inj (hread.symm.trans hread')
          rw [hp k hk r hr'] at hpr
          cases hpr
      refine Prog.Ensures.bind (ensures_deleteRows hp hs') (fun deleted s'' h => ?_)
        fun _ _ h => h
      refine ⟨h.1, fun k' hk' => ?_⟩
      split at hk'
      · rename_i hsome
        rcases List.mem_cons.mp hk' with rfl | hk'
        · exact hb hsome
        · exact h.2 k' hk'
      · exact h.2 k' hk'

/-- A deletion that spares the protected rows leaves them. -/
theorem ensures_deleteWhere {p : (k : Key) → Row k → Bool}
    (hp : ∀ k, protects k → ∀ row, P k row → p k row = false) (hs : s.Protected protects P) :
    (deleteWhere p).Ensures t s (ending (fun deleted s' => s'.Protected protects P ∧
      ∀ k ∈ deleted, ¬ protects k) fun _ s' => s'.Protected protects P) :=
  Prog.Ensures.find (ensures_deleteRows hp hs)

/-- A part that sends no statement against the protected rows. -/
theorem ensures_spares {p : Session α} {F : AppStmt → Prop}
    (hF : ∀ f, F f → ∀ k, protects k → f.Spares k (P k)) (hp : p.Sends F)
    (hs : s.Protected protects P) : p.Ensures t s fun _ s' => s'.Protected protects P :=
  Prog.Ensures.of_sends (fun _ _ _ hf hj he => hj.effect he (hF _ hf)) hp hs

/-- So does a rollback. -/
theorem protected_rollback (s : AppDb) (hs : s.Protected protects P) :
    (s.rollback t).Protected protects P :=
  fun k hk => (hs k hk).rollback

end protectedRows

end SyncBack
