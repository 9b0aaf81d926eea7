import Mathlib.Order.BooleanAlgebra.Set
import SyncBack.TwoStores.Program

/-!
# References from the database into the object store

The rows of the database name objects: `refs d` is the set of the names. The two stores have no
transaction in common, so the set of objects and the set of references change apart, and two things
can go wrong: a committed row names an object that is not there (`Sound` excludes it), and an object
is there that no committed row names (`Covered` excludes it).

`transaction`, `removeAll` and `uploading` are the three ways in which programs combine the stores:
a query with its commit; the removal of objects that nothing refers to any more; an object stored
before the row that names it, and removed again when the row was not stored. For each of them one
theorem says that `Sound` survives a failure or a stop at any call, and one says what a run without
failures leaves behind.
-/

set_option linter.unusedSectionVars false

namespace TwoStores

variable {D O ε ε' α β : Type} [DecidableEq O]

namespace Stores

/-- The objects that are there. -/
def stored (s : Stores D O) : Set O := {k | s.objects k = true}

/-- An object is stored if it is there. -/
@[simp] theorem mem_stored {s : Stores D O} {k : O} : k ∈ s.stored ↔ s.objects k = true := Iff.rfl

/-- One object more is stored. -/
@[simp] theorem stored_put (s : Stores D O) (k : O) : (s.put k).stored = insert k s.stored := by
  ext x
  by_cases hx : x = k <;> simp [put, hx]

/-- One object less is stored. -/
@[simp] theorem stored_remove (s : Stores D O) (k : O) :
    (s.remove k).stored = s.stored \ {k} := by
  ext x
  by_cases hx : x = k <;> simp [remove, hx]

/-- The stores differ at most in the working copy. -/
def Agrees (s s' : Stores D O) : Prop := s'.committed = s.committed ∧ s'.objects = s.objects

end Stores

open Stores

variable (refs : D → Set O) (W : D → Prop)

/-- **Every committed reference has its object**, and the committed database has its invariant. -/
structure Sound (s : Stores D O) : Prop where
  wellFormed : W s.committed
  intact : refs s.committed ⊆ s.stored

/-- **Every object has a committed reference.** -/
def Covered (s : Stores D O) : Prop := s.stored ⊆ refs s.committed

variable {refs W} {s s' : Stores D O}

namespace Sound

/-- The working copy does not matter. -/
theorem of_agrees (hs : Sound refs W s) (h : s.Agrees s') : Sound refs W s' where
  wellFormed := h.1 ▸ hs.wellFormed
  intact := by
    have hstored : s'.stored = s.stored := by simp [stored, h.2]
    rw [h.1, hstored]
    exact hs.intact

/-- An object more does no harm. -/
theorem put (hs : Sound refs W s) (k : O) : Sound refs W (s.put k) :=
  ⟨hs.wellFormed, stored_put s k ▸ hs.intact.trans (Set.subset_insert k _)⟩

/-- An object may be removed if no committed row names it. -/
theorem remove (hs : Sound refs W s) {k : O} (hk : k ∉ refs s.committed) :
    Sound refs W (s.remove k) :=
  ⟨hs.wellFormed, stored_remove s k ▸ Set.subset_sdiff_singleton hs.intact hk⟩

/-- A transaction may be committed if the objects that it names are there. -/
theorem commit (hW : W s.working) (h : refs s.working ⊆ s.stored) :
    Sound refs W { s with committed := s.working } :=
  ⟨hW, h⟩

end Sound

namespace Prog

/-! ## A transaction -/

/-- Roll the transaction back when the body raises; `failed e` is raised when that fails too. -/
def undoing (failed : ε → ε) (body : Prog D O ε α) : Prog D O ε α :=
  body.handle fun e => do
    let _ ← call (failed e) .rollback
    .throw e

/-- A query and its commit, any call of which may raise `e`. -/
def transaction (e : ε) (q : Query D ε α) : Prog D O ε α :=
  undoing (fun _ => e) do
    let a ← q.calls e
    let _ ← call e .commit
    .pure a

/-- What a query and its commit leave when the query goes through. -/
def committing (s : Stores D O) (d : D) : Stores D O := { s with committed := d, working := d }

/-- A rollback on an exception is safe if the invariant does not look at the working copy. -/
theorem safe_undoing {I : Stores D O → Prop} {A : α → Stores D O → Prop}
    {E : ε → Stores D O → Prop} {failed : ε → ε} {body : Prog D O ε α}
    (hE : ∀ e s₁, I s₁ → E e s₁ → I s₁.close ∧ E e s₁.close ∧ E (failed e) s₁)
    (h : body.Safe I s (ending A E)) : (undoing failed body).Safe I s (ending A E) := by
  refine Safe.handle (E := E) (fun e s₁ hs₁ he => ?_) (h.mono fun r s₁ hr => ?_)
  · obtain ⟨hclose, heclose, hfailed⟩ := hE e s₁ hs₁ he
    refine Safe.call hs₁ ⟨hclose, heclose⟩ fun s₂ hfail => ?_
    rw [Call.fails_rollback] at hfail
    exact hfail ▸ ⟨hs₁, hfailed⟩
  · cases r with
    | ok a => exact hr
    | error e => exact hr

/-- **A transaction leaves the stores alone unless it goes through**, and then the references of
what it commits must be there. -/
theorem safe_transaction {A : α → Stores D O → Prop} {e : ε} {q : Query D ε α}
    (hs : Sound refs W s)
    (hq : ∀ a d, q.run s.working = (.ok a, d) →
      W d ∧ refs d ⊆ s.stored ∧ A a (committing s d)) :
    (transaction e q).Safe (Sound refs W) s (ending A fun _ s₁ => s.Agrees s₁) := by
  refine safe_undoing (fun e s₁ hs₁ he => ⟨hs₁.of_agrees ⟨rfl, rfl⟩, he, he⟩) ?_
  refine Safe.bind (A := fun a s₁ => s.Agrees s₁ ∧ W s₁.working ∧ refs s₁.working ⊆ s.stored ∧
    A a (committing s s₁.working)) (E := fun _ s₁ => s.Agrees s₁)
    (fun a s₁ hs₁ ha => ?_) (fun _ _ he => he) ?_
  · obtain ⟨hagree, hW, hrefs, hA⟩ := ha
    have hstored : s₁.stored = s.stored := by simp [stored, hagree.2]
    have hend : committing s s₁.working = { s₁ with committed := s₁.working } := by
      simp [committing, hagree.2]
    rw [hend] at hA
    refine Safe.call hs₁ ⟨Sound.commit hW (hstored ▸ hrefs), hA⟩ fun s₂ hfail => ?_
    rw [Call.fails_commit] at hfail
    exact hfail ▸ ⟨hs₁, hagree⟩
  · refine Query.safe_calls (fun s₁ d h₁ => h₁.of_agrees ⟨rfl, rfl⟩) hs (fun a d hrun => ?_)
      fun _ _ => ⟨rfl, rfl⟩
    obtain ⟨hW, hrefs, hA⟩ := hq a d hrun
    exact ⟨⟨rfl, rfl⟩, hW, hrefs, hA⟩

/-- With an exception the transaction is rolled back. -/
theorem run_undoing {failed : ε → ε} {body : Prog D O ε α} :
    (undoing failed body).run s = match body.run s with
      | (.ok a, s₁) => (.ok a, s₁)
      | (.error e, s₁) => (.error e, s₁.close) := by
  rw [undoing, run_handle]
  rcases body.run s with ⟨_ | a, s₁⟩ <;> rfl

/-- A transaction commits what its query has done, or is rolled back. -/
theorem run_transaction {e : ε} {q : Query D ε α} :
    (transaction e q).run s = match q.run s.working with
      | (.ok a, d) => (.ok a, committing s d)
      | (.error e, _) => (.error e, s.close) := by
  rw [transaction, run_undoing, run_bind, Query.run_calls]
  rcases q.run s.working with ⟨_ | a, d⟩ <;> rfl

/-! ## Removing objects -/

/-- Remove objects one by one; a removal that fails is passed over. -/
def removeAll (e : ε) (keys : List O) : Prog D O ε Unit :=
  each keys fun k => (call e (.remove k)).handle fun _ => .pure ()

/-- **Objects that nothing refers to can be removed.** -/
theorem safe_removeAll {e : ε} {keys : List O} (hs : Sound refs W s)
    (hkeys : ∀ k ∈ keys, k ∉ refs s.committed) :
    (removeAll e keys).Safe (Sound refs W) s
      (ending (fun _ s₁ => s₁.committed = s.committed) fun _ _ => True) := by
  refine Safe.each hs rfl fun k hk s₁ hs₁ heq => ?_
  have hremove : Sound refs W (s₁.remove k) := hs₁.remove (heq ▸ hkeys k hk)
  refine ⟨hs₁, ⟨hremove, heq⟩, fun s₂ hfail => ?_⟩
  rw [Call.fails_remove] at hfail
  rcases hfail with rfl | rfl
  · exact ⟨hs₁, heq⟩
  · exact ⟨hremove, heq⟩

/-- Objects are removed one after another, by induction on them. -/
theorem run_removeAll {e : ε} : ∀ {keys : List O} {s : Stores D O},
    ∃ s', (removeAll e keys).run s = (.ok (), s') ∧ s'.committed = s.committed ∧
      s'.stored = s.stored \ {k | k ∈ keys}
  | [], s => ⟨s, rfl, rfl, by simp⟩
  | k :: keys, s => by
      obtain ⟨s', hrun, hcommitted, hstored⟩ :=
        @run_removeAll e keys (s.remove k)
      refine ⟨s', hrun, hcommitted, ?_⟩
      rw [hstored, stored_remove]
      ext x
      simp only [Set.mem_sdiff, Set.mem_singleton_iff, Set.mem_ofPred_eq, List.mem_cons, not_or]
      tauto

/-! ## Rows removed with their objects -/

/-- Commit the removal of rows, then remove the objects that the query names. -/
def deleting (e : ε) (q : Query D ε (List O)) : Prog D O ε Unit := do
  let keys ← transaction e q
  removeAll e keys

/-- The removal of rows is safe when it names no object that a remaining row refers to. -/
theorem safe_deleting {e : ε} {q : Query D ε (List O)} (hs : Sound refs W s)
    (hq : ∀ keys d, q.run s.working = (.ok keys, d) →
      W d ∧ refs d ⊆ refs s.committed ∧ ∀ k ∈ keys, k ∉ refs d) :
    (deleting e q).Safe (Sound refs W) s fun _ _ => True := by
  refine Safe.bind (fun keys s₁ hs₁ hkeys => ?_) (fun _ _ _ => trivial)
    (safe_transaction (A := fun keys s₁ => ∀ k ∈ keys, k ∉ refs s₁.committed) hs
      fun keys d hrun => ?_)
  · exact (safe_removeAll hs₁ hkeys).mono fun _ _ _ => trivial
  · obtain ⟨hW, hrefs, hkeys⟩ := hq keys d hrun
    exact ⟨hW, hrefs.trans hs.intact, hkeys⟩

/-- What the removal of rows leaves when nothing fails. -/
theorem run_deleting {e : ε} {q : Query D ε (List O)} :
    (∃ e' d, q.run s.working = (.error e', d) ∧ ((deleting e q).run s).2 = s.close) ∨
    ∃ keys d, q.run s.working = (.ok keys, d) ∧ ((deleting e q).run s).2.committed = d ∧
      ((deleting e q).run s).2.stored = s.stored \ {k | k ∈ keys} := by
  rw [deleting, run_bind, run_transaction]
  rcases hrun : q.run s.working with ⟨e' | keys, d⟩
  · exact .inl ⟨e', d, rfl, rfl⟩
  · obtain ⟨s', hremove, hcommitted, hstored⟩ :=
      @run_removeAll _ _ _ _ e keys (committing s d)
    refine .inr ⟨keys, d, rfl, ?_⟩
    change ((removeAll e keys).run (committing s d)).2.committed = d ∧
      ((removeAll e keys).run (committing s d)).2.stored = _
    rw [hremove]
    exact ⟨hcommitted, hstored⟩

/-! ## Objects stored before the row that names them -/

/-- Remove the object again, then go on with the exception. -/
def compensate (e : ε) (k : O) (err : ε) : Prog D O ε α := do
  let _ ← call e (.remove k)
  .throw err

/-- A compensation is safe if no committed row names the object. -/
theorem safe_compensate {e err : ε} {k : O} (hs : Sound refs W s) (hk : k ∉ refs s.committed) :
    (compensate e k err : Prog D O ε α).Safe (Sound refs W) s fun _ _ => True := by
  refine Safe.call hs ⟨hs.remove hk, trivial⟩ fun s₁ hfail => ?_
  rw [Call.fails_remove] at hfail
  rcases hfail with rfl | rfl
  · exact ⟨hs, trivial⟩
  · exact ⟨hs.remove hk, trivial⟩

end Prog

/-! ## What covers the objects -/

/-- Rows are removed with every object that only they referred to. -/
theorem Covered.delete {keys : List O} (h : Covered refs s)
    (hrefs : refs s.committed ⊆ refs s'.committed ∪ {k | k ∈ keys})
    (hstored : s'.stored = s.stored \ {k | k ∈ keys}) : Covered refs s' := by
  intro k hk
  rw [hstored] at hk
  exact (hrefs (h hk.1)).resolve_right hk.2

/-- An object is stored with a row that refers to it. -/
theorem Covered.store {k : O} (h : Covered refs s)
    (hrefs : insert k (refs s.committed) ⊆ refs s'.committed)
    (hstored : s'.stored ⊆ insert k s.stored) : Covered refs s' :=
  hstored.trans ((Set.insert_subset_insert h).trans hrefs)

end TwoStores
