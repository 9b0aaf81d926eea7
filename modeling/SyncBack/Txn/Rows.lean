import SyncBack.Txn.Pending

/-!
# Row constraints

A condition `P k v` on single rows, such as a check on the columns of a table. `Db.Rows P` says it
of every version of a row, committed or not, so it holds of whatever a session can read. Nothing
but writing a row can break it: an update has to keep the condition, an insert has to establish it.

The second half is about the row that one process sees: a statement other than a rollback changes
it along the relation that its updates follow (`Effect.read_along`).
-/

set_option linter.unusedSectionVars false

namespace Txn

variable {T K : Type} {V : K → Type} {M ε α : Type} [DecidableEq T] [DecidableEq K]
  [DecidableEq M] [UniqueIndex K V]

namespace Db

/-- The row stands under `k`, committed or in an open transaction. -/
def Live (s : Db T K V M) (k : K) (v : V k) : Prop :=
  s.committed k = some v ∨ ∃ t, s.writes t k = some (some v)

/-- Every version of every row satisfies `P`. -/
def Rows (P : (k : K) → V k → Prop) (s : Db T K V M) : Prop := ∀ k v, s.Live k v → P k v

variable {P : (k : K) → V k → Prop} {s s' : Db T K V M} {t : T}

/-- What is read is live. -/
theorem live_of_read {k : K} {v : V k} (h : s.read t k = some v) : s.Live k v := by
  rcases hw : s.writes t k with _ | version
  · rw [read_of_not_writes hw] at h
    exact .inl h
  · rw [read_of_writes hw] at h
    subst h
    exact .inr ⟨t, hw⟩

namespace Live

variable {k : K} {v : V k}

/-- A rollback brings no row. -/
theorem of_rollback (h : (s.rollback t).Live k v) : s.Live k v := by
  refine h.imp_right ?_
  rintro ⟨u, hu⟩
  by_cases hut : u = t
  · rw [hut, writes_rollback_self] at hu
    cases hu
  · rw [writes_rollback_other s hut] at hu
    exact ⟨u, hu⟩

/-- Neither does a commit. -/
theorem of_commit (h : (s.commit t).Live k v) : s.Live k v := by
  rcases h with h | ⟨u, hu⟩
  · exact live_of_read h
  · exact of_rollback (.inr ⟨u, hu⟩)

/-- A deletion adds none. -/
theorem of_delete {k₀ : K} (hfree : s.lockedByOther t k₀ = false)
    (h : (s.write t k₀ none).Live k v) : s.Live k v := by
  rcases h with h | ⟨u, hu⟩
  · exact .inl h
  by_cases hk : k = k₀
  · subst hk
    by_cases hut : u = t
    · rw [hut, writes_write_self] at hu
      cases hu
    · rw [writes_write_other s _ hfree hut] at hu
      exact .inr ⟨u, hu⟩
  · rw [writes_write_of_ne s _ hk] at hu
    exact .inr ⟨u, hu⟩

/-- A write adds one row. -/
theorem of_write {k₀ : K} {w : V k₀} (hfree : s.lockedByOther t k₀ = false)
    (h : (s.write t k₀ (some w)).Live k v) :
    s.Live k v ∨ (⟨k, v⟩ : Sigma V) = ⟨k₀, w⟩ := by
  rcases h with h | ⟨u, hu⟩
  · exact .inl (.inl h)
  by_cases hk : k = k₀
  · subst hk
    by_cases hut : u = t
    · rw [hut, writes_write_self] at hu
      cases hu
      exact .inr rfl
    · rw [writes_write_other s _ hfree hut] at hu
      exact .inl (.inr ⟨u, hu⟩)
  · rw [writes_write_of_ne s _ hk] at hu
    exact .inl (.inr ⟨u, hu⟩)

end Live

namespace Rows

/-- With no open transaction only the committed rows count. -/
theorem of_quiet (h : ∀ k, s.dirty k = none) (hc : ∀ k v, s.committed k = some v → P k v) :
    s.Rows P := by
  rintro k v (hlive | ⟨t, ht⟩)
  · exact hc k v hlive
  · rw [idle_of_quiet h t k] at ht
    cases ht

/-- What is read satisfies the predicate. -/
theorem read {k : K} {v : V k} (h : s.Rows P) (hread : s.read t k = some v) : P k v :=
  h k v (live_of_read hread)

/-- So does what is written. -/
theorem write {k : K} {v : V k} (h : s.Rows P) (hfree : s.lockedByOther t k = false)
    (hv : P k v) : (s.write t k (some v)).Rows P := by
  intro k' v' hlive
  rcases hlive.of_write hfree with hlive | heq
  · exact h k' v' hlive
  · cases heq
    exact hv

/-- **One statement**: it is enough to check the row that an update or an insert writes. -/
theorem effect {f : Stmt K V M} (h : s.Rows P) (he : Effect t s f s')
    (hupdate : ∀ k p g r, f = .update k p g → p r = true → P k r → P k (g r))
    (hinsert : ∀ k v, f = .insert k v → P k v) : s'.Rows P := by
  cases he with
  | same | draw | send => exact h
  | update hfree hread hp hu => exact h.write hfree (hupdate _ _ _ _ rfl hp (h.read hread))
  | insert hfree hread hu => exact h.write hfree (hinsert _ _ rfl)
  | delete hfree hread hp => exact fun k v hlive => h k v (hlive.of_delete hfree)
  | commit => exact fun k v hlive => h k v hlive.of_commit
  | rollback => exact fun k v hlive => h k v hlive.of_rollback

end Rows

end Db

/-- **What one statement does to the rows that its process sees**, if it deletes nothing and does
not roll back. -/
theorem Effect.read_along {R : (k : K) → V k → V k → Prop} (hrefl : ∀ k a, R k a a)
    {s s' : Db T K V M} {t : T} {f : Stmt K V M} (he : Effect t s f s')
    (hdeletes : f.deletes = false) (hrollback : f ≠ .rollback)
    (hupdate : ∀ k p g r, f = .update k p g → p r = true → R k r (g r)) (k : K) :
    Along R k (s.read t k) (s'.read t k) := by
  cases he with
  | same | draw | send => exact Along.refl hrefl k _
  | @update k₀ p g r hfree hread hp hu =>
      by_cases hk : k = k₀
      · subst hk
        rw [Db.read_write_self, hread]
        rintro row ⟨⟩
        exact ⟨g r, rfl, hupdate k p g r rfl hp⟩
      · rw [Db.read_write_of_ne s _ hk]
        exact Along.refl hrefl k _
  | @insert k₀ v hfree hread hu =>
      by_cases hk : k = k₀
      · subst hk
        rw [hread]
        rintro row ⟨⟩
      · rw [Db.read_write_of_ne s _ hk]
        exact Along.refl hrefl k _
  | delete => cases hdeletes
  | commit =>
      rw [Db.read_commit_self]
      exact Along.refl hrefl k _
  | rollback => exact absurd rfl hrollback

namespace Contract

/-- The contract that checks `P` at every write and nothing else. -/
def ofRows (P : (k : K) → V k → Prop) : Contract T K V M where
  inv := Db.Rows P
  guar := fun _ _ _ => True
  allowed := Config.anyStmt
  guar_refl := fun _ _ _ => trivial
  rollback := fun _ _ h => ⟨fun k v hlive => h k v hlive.of_rollback, trivial⟩
  tick := fun _ _ h => h

/-- A start whose rows satisfy `P` is verified, if updates keep `P` and inserts establish it. -/
theorem verified_ofRows {P : (k : K) → V k → Prop} {c : Config T K V M ε α} {F : Stmt K V M → Prop}
    (hrows : c.db.Rows P) (hprocs : ∀ t p, c.procs t = some p → p.Sends F)
    (hupdate : ∀ k p g r, F (.update k p g) → p r = true → P k r → P k (g r))
    (hinsert : ∀ k v, F (.insert k v) → P k v) :
    (ofRows P).Verified (fun _ _ _ => True) c := by
  refine ⟨hrows, fun t p hp => ⟨_, Stable.const True, trivial, ?_⟩⟩
  refine Triple.of_sends (Stable.const True) ?_ (hprocs t p hp)
  intro f hf s hinv _ _ b s' he
  refine ⟨Db.Rows.effect hinv (exec_effect he) ?_ ?_, trivial, trivial⟩
  · rintro k p g r rfl hp hr
    exact hupdate k p g r hf hp hr
  · rintro k v rfl
    exact hinsert k v hf

end Contract

end Txn
