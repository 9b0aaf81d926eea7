import SyncBack.Txn.Interleaving

/-!
# Committed rows and their uncommitted versions

Many properties of whole runs are about how a commit may change a row: a relation `R k` between
the committed row and the version that replaces it. `Db.Pending R` says it of every uncommitted
version *now*, against the row that is committed now. It is kept by everything that other
transactions do, since a row with an uncommitted version is locked; so it is enough to check `R`
when a version is written, and a commit then changes committed rows along `R`.
-/

set_option linter.unusedSectionVars false

namespace Txn

variable {T K : Type} {V : K → Type} {M ε α : Type} [DecidableEq T] [DecidableEq K]
  [DecidableEq M] [UniqueIndex K V]

/-- A row that stands goes on to stand, changed along `R`. -/
def Along (R : (k : K) → V k → V k → Prop) (k : K) (old new : Option (V k)) : Prop :=
  ∀ row, old = some row → ∃ row', new = some row' ∧ R k row row'

/-- Every uncommitted version is a change along `R` of the committed row. -/
def Db.Pending (R : (k : K) → V k → V k → Prop) (s : Db T K V M) : Prop :=
  ∀ t k v, s.writes t k = some v → Along R k (s.committed k) v

variable {R : (k : K) → V k → V k → Prop} {s s' : Db T K V M} {t : T}

namespace Along

/-- A row stays. -/
theorem refl (hrefl : ∀ k a, R k a a) (k : K) (o : Option (V k)) : Along R k o o :=
  fun row h => ⟨row, h, hrefl k row⟩

/-- One change after another. -/
theorem trans (htrans : ∀ k a b c, R k a b → R k b c → R k a c) {k : K} {o₁ o₂ o₃ : Option (V k)}
    (h : Along R k o₁ o₂) (h' : Along R k o₂ o₃) : Along R k o₁ o₃ := by
  intro row hrow
  obtain ⟨row₂, h₂, hR⟩ := h row hrow
  obtain ⟨row₃, h₃, hR'⟩ := h' row₂ h₂
  exact ⟨row₃, h₃, htrans k _ _ _ hR hR'⟩

end Along

namespace Db.Pending

/-- With no open transaction there is nothing to check. -/
theorem of_quiet (h : ∀ k, s.dirty k = none) : s.Pending R := by
  intro t k v hw
  rw [writes_eq_some, h k] at hw
  cases hw

/-- A write of an unlocked row along the relation. -/
theorem write {k : K} {v : Option (V k)} (h : s.Pending R) (hfree : s.lockedByOther t k = false)
    (hv : Along R k (s.committed k) v) : (s.write t k v).Pending R := by
  intro t' k' v' hw
  by_cases hk : k' = k
  · subst hk
    by_cases ht : t' = t
    · subst ht
      rw [writes_write_self, Option.some.injEq] at hw
      rw [← hw]
      exact hv
    · rw [writes_write_other s v hfree ht] at hw
      exact h t' k' v' hw
  · rw [writes_write_of_ne s v hk] at hw
    exact h t' k' v' hw

/-- A rollback leaves the others pending. -/
theorem rollback (h : s.Pending R) : (s.rollback t).Pending R := by
  intro t' k v hw
  by_cases ht : t' = t
  · subst ht
    rw [writes_rollback_self] at hw
    cases hw
  · rw [writes_rollback_other s ht] at hw
    exact h t' k v hw

/-- So does a commit. -/
theorem commit (h : s.Pending R) : (s.commit t).Pending R := by
  intro t' k v hw
  by_cases ht : t' = t
  · subst ht
    rw [writes_commit_self] at hw
    cases hw
  · have hlocked : s.writes t' k ≠ none := by
      rw [← writes_commit_other s ht, hw]
      exact Option.some_ne_none v
    rw [(Frame.commit t s).committed_of_locked (Ne.symm ht) hlocked]
    rw [writes_commit_other s ht] at hw
    exact h t' k v hw

/-- A row that `t` sees is a change along `R` of the committed one. -/
theorem read (hrefl : ∀ k a, R k a a) (h : s.Pending R) (t : T) (k : K) :
    Along R k (s.committed k) (s.read t k) := by
  rcases hw : s.writes t k with _ | v
  · rw [read_of_not_writes hw]
    exact Along.refl hrefl k _
  · rw [read_of_writes hw]
    exact h t k v hw

/-- A row that `t` rewrites. -/
theorem update (hrefl : ∀ k a, R k a a) (h : s.Pending R) {k : K} {r v : V k}
    (hfree : s.lockedByOther t k = false) (hr : s.read t k = some r)
    (hv : ∀ row, s.committed k = some row → R k row r → R k row v) :
    (s.write t k (some v)).Pending R := by
  refine h.write hfree fun row hrow => ?_
  obtain ⟨r', hr', hR⟩ := h.read hrefl t k row hrow
  obtain rfl := Option.some.inj (hr.symm.trans hr')
  exact ⟨v, rfl, hv row hrow hR⟩

/-- A row that `t` adds. -/
theorem insert (hrefl : ∀ k a, R k a a) (h : s.Pending R) {k : K} {v : V k}
    (hfree : s.lockedByOther t k = false) (hr : s.read t k = none) :
    (s.write t k (some v)).Pending R := by
  refine h.write hfree fun row hrow => ?_
  obtain ⟨r', hr', -⟩ := h.read hrefl t k row hrow
  rw [hr] at hr'
  cases hr'

/-- **One statement** that deletes nothing: it is enough to check the version that an update
writes. -/
theorem effect (hrefl : ∀ k a, R k a a) {f : Stmt K V M} (h : s.Pending R) (he : Effect t s f s')
    (hdeletes : f.deletes = false)
    (hupdate : ∀ k p g r row, f = .update k p g → s.read t k = some r → p r = true →
      s.committed k = some row → R k row r → R k row (g r)) : s'.Pending R := by
  cases he with
  | same => exact h
  | update hfree hr hp hu =>
      exact h.update hrefl hfree hr fun row => hupdate _ _ _ _ row rfl hr hp
  | insert hfree hr hu => exact h.insert hrefl hfree hr
  | delete => cases hdeletes
  | draw => exact h
  | send => exact h
  | commit => exact h.commit
  | rollback => exact h.rollback

end Db.Pending

/-- A step changes committed rows along `R`. -/
theorem Frame.committed_along (hrefl : ∀ k a, R k a a) (hf : Frame t s s') (h : s.Pending R)
    (k : K) : Along R k (s.committed k) (s'.committed k) := by
  rcases hf.committed with ⟨hc, -⟩ | ⟨hc, -⟩
  · rw [hc]
    exact Along.refl hrefl k _
  · rw [hc]
    exact h.read hrefl t k

namespace Contract

/-- The contract that checks `R` at every write and nothing else. -/
def ofPending (R : (k : K) → V k → V k → Prop) (allowed : T → Stmt K V M → Db T K V M → Prop) :
    Contract T K V M where
  inv := Db.Pending R
  guar := fun _ _ _ => True
  allowed := allowed
  guar_refl := fun _ _ _ => trivial
  rollback := fun _ _ h => ⟨h.rollback, trivial⟩
  tick := fun _ _ h => h

/-- A start without open transactions is verified, if the versions that allowed statements write
are changes along `R`. -/
theorem verified_ofPending {allowed : T → Stmt K V M → Db T K V M → Prop}
    {c : Config T K V M ε α} {F : T → Stmt K V M → Prop} (hrefl : ∀ k a, R k a a)
    (hquiet : ∀ k, c.db.dirty k = none) (hprocs : ∀ t p, c.procs t = some p → p.Sends (F t))
    (hdeletes : ∀ t f, F t f → f.deletes = false)
    (hupdate : ∀ t k p g s r row, F t (.update k p g) → allowed t (.update k p g) s →
      s.read t k = some r → p r = true → s.committed k = some row → R k row r → R k row (g r)) :
    (ofPending R allowed).Verified (fun _ _ _ => True) c := by
  refine ⟨Db.Pending.of_quiet hquiet, fun t p hp => ⟨_, Stable.const True, trivial, ?_⟩⟩
  refine Triple.of_sends (Stable.const True) ?_ (hprocs t p hp)
  intro f hf s hinv _ hal b s' he
  refine ⟨?_, trivial, trivial⟩
  refine Db.Pending.effect hrefl hinv (exec_effect he) (hdeletes t f hf) ?_
  rintro k p g r row rfl hr hpr hrow hR
  exact hupdate t k p g s r row hf hal hr hpr hrow hR

/-- **Runs that change committed rows along a preorder**, for every contract that keeps `R`. -/
theorem Verified.along {C : Contract T K V M} {Q : T → Except ε α → Db T K V M → Prop}
    {c c' : Config T K V M ε α} (hv : C.Verified Q c) (hkeep : ∀ s, C.inv s → s.Pending R)
    (hrefl : ∀ k a, R k a a) (htrans : ∀ k a b c, R k a b → R k b c → R k a c)
    (hs : c.Steps C.allowed c') (k : K) : Along R k (c.db.committed k) (c'.db.committed k) :=
  hv.steps_rel (r := fun s s' => Along R k (s.committed k) (s'.committed k)) hs
    (fun _ => Along.refl hrefl k _) (fun _ _ _ h h' => h.trans htrans h')
    (fun _ _ _ hi _ hf _ => hf.committed_along hrefl (hkeep _ hi) k)
    fun _ _ _ => Along.refl hrefl k _

/-- Committed rows change along the relation in every run. -/
theorem Verified.committed_along {allowed : T → Stmt K V M → Db T K V M → Prop}
    {Q : T → Except ε α → Db T K V M → Prop} {c c' : Config T K V M ε α}
    (hv : (ofPending R allowed).Verified Q c) (hrefl : ∀ k a, R k a a)
    (htrans : ∀ k a b c, R k a b → R k b c → R k a c) (hs : c.Steps allowed c') (k : K) :
    Along R k (c.db.committed k) (c'.db.committed k) :=
  hv.along (fun _ h => h) hrefl htrans hs k

end Contract

end Txn
