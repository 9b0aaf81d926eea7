import SyncBack.Txn.Rows

/-!
# Deletions

A deletion is decided when its statement runs and becomes visible when its transaction commits. In
between the row is locked, so nobody else can change what is committed under its key:

* `Db.Deletes P` — every row whose deletion is not committed yet satisfies `P`, in its committed
  version. It is enough to check `P` when the row is deleted;
* `Db.Stands k P` — the row under `k` is there, in every version, and satisfies `P`. It stays there
  as long as no statement deletes it.
-/

set_option linter.unusedSectionVars false

namespace Txn

variable {T K : Type} {V : K → Type} {M ε α : Type} [DecidableEq T] [DecidableEq K]
  [DecidableEq M] [UniqueIndex K V]

namespace Db

/-- The committed rows that open transactions have deleted satisfy `P`. -/
def Deletes (P : (k : K) → V k → Prop) (s : Db T K V M) : Prop :=
  ∀ t k row, s.writes t k = some none → s.committed k = some row → P k row

/-- The row under `k` is there, in every version, and satisfies `P`. -/
structure Stands (s : Db T K V M) (k : K) (P : V k → Prop) : Prop where
  committed : ∃ row, s.committed k = some row ∧ P row
  writes : ∀ t v, s.writes t k = some v → ∃ row, v = some row ∧ P row

/-! ## Deletions that are not committed -/

namespace Deletes

variable {P : (k : K) → V k → Prop} {s s' : Db T K V M} {t : T}

/-- A quiet database deletes nothing. -/
theorem of_quiet (h : ∀ k, s.dirty k = none) : s.Deletes P := by
  intro t k row hw
  rw [idle_of_quiet h t k] at hw
  cases hw

/-- A write deletes what satisfies `P`, if anything. -/
theorem write {k : K} {v : Option (V k)} (h : s.Deletes P) (hfree : s.lockedByOther t k = false)
    (hv : v = none → ∀ row, s.committed k = some row → P k row) : (s.write t k v).Deletes P := by
  intro t' k' row hw hrow
  by_cases hk : k' = k
  · subst hk
    by_cases ht : t' = t
    · subst ht
      rw [writes_write_self, Option.some.injEq] at hw
      exact hv hw row hrow
    · rw [writes_write_other s v hfree ht] at hw
      exact h t' k' row hw hrow
  · rw [writes_write_of_ne s v hk] at hw
    exact h t' k' row hw hrow

/-- A rollback deletes nothing. -/
theorem rollback (h : s.Deletes P) : (s.rollback t).Deletes P := by
  intro t' k row hw hrow
  by_cases ht : t' = t
  · subst ht
    rw [writes_rollback_self] at hw
    cases hw
  · rw [writes_rollback_other s ht] at hw
    exact h t' k row hw hrow

/-- A commit deletes what its versions do. -/
theorem commit (h : s.Deletes P) : (s.commit t).Deletes P := by
  intro t' k row hw hrow
  by_cases ht : t' = t
  · subst ht
    rw [writes_commit_self] at hw
    cases hw
  · rw [writes_commit_other s ht] at hw
    have hlocked : s.writes t' k ≠ none := by
      rw [hw]
      exact Option.some_ne_none _
    rw [(Frame.commit t s).committed_of_locked (Ne.symm ht) hlocked] at hrow
    exact h t' k row hw hrow

/-- **One statement**: it is enough to check the row that a deletion takes away. -/
theorem effect {f : Stmt K V M} (h : s.Deletes P) (he : Effect t s f s')
    (hdelete : ∀ k p r, f = .delete k p → s.read t k = some r → p r = true →
      ∀ row, s.committed k = some row → P k row) : s'.Deletes P := by
  cases he with
  | same | draw | send => exact h
  | update hfree hread hp hu => exact h.write hfree fun hv => nomatch hv
  | insert hfree hread hu => exact h.write hfree fun hv => nomatch hv
  | delete hfree hread hp => exact h.write hfree fun _ => hdelete _ _ _ rfl hread hp
  | commit => exact h.commit
  | rollback => exact h.rollback

/-- A committed row that a step takes away satisfies `P`. -/
theorem gone (h : s.Deletes P) (hf : Frame t s s') {k : K} {row : V k}
    (hrow : s.committed k = some row) (hgone : s'.committed k = none) : P k row := by
  rcases hf.committed with ⟨hc, -⟩ | ⟨hc, -⟩
  · rw [hc, hrow] at hgone
    cases hgone
  · rw [hc] at hgone
    rcases hw : s.writes t k with _ | v
    · rw [read_of_not_writes hw, hrow] at hgone
      cases hgone
    · rw [read_of_writes hw] at hgone
      subst hgone
      exact h t k row hw hrow

end Deletes

/-! ## Rows that stand -/

namespace Stands

variable {k : K} {P : V k → Prop} {s s' : Db T K V M} {t : T}

/-- A committed row of a quiet database stands. -/
theorem of_quiet (h : ∀ k, s.dirty k = none) {row : V k} (hrow : s.committed k = some row)
    (hp : P row) : s.Stands k P := by
  refine ⟨⟨row, hrow, hp⟩, fun t v hw => ?_⟩
  rw [idle_of_quiet h t k] at hw
  cases hw

/-- Everybody reads a row that stands. -/
theorem read (h : s.Stands k P) (t : T) : ∃ row, s.read t k = some row ∧ P row := by
  rcases hw : s.writes t k with _ | v
  · rw [read_of_not_writes hw]
    exact h.committed
  · obtain ⟨row, rfl, hp⟩ := h.writes t v hw
    exact ⟨row, read_of_writes hw, hp⟩

/-- Its own version may be written. -/
theorem write_self {row : V k} (h : s.Stands k P) (hfree : s.lockedByOther t k = false)
    (hp : P row) : (s.write t k (some row)).Stands k P := by
  refine ⟨h.committed, fun t' w hw => ?_⟩
  by_cases ht : t' = t
  · subst ht
    rw [writes_write_self, Option.some.injEq] at hw
    exact ⟨row, hw.symm, hp⟩
  · rw [writes_write_other s _ hfree ht] at hw
    exact h.writes t' w hw

/-- Other rows may be. -/
theorem write_of_ne {k' : K} {v : Option (V k')} (h : s.Stands k P) (hne : k ≠ k') :
    (s.write t k' v).Stands k P := by
  refine ⟨h.committed, fun t' w hw => ?_⟩
  rw [writes_write_of_ne s v hne] at hw
  exact h.writes t' w hw

/-- A rollback leaves it. -/
theorem rollback (h : s.Stands k P) : (s.rollback t).Stands k P := by
  refine ⟨h.committed, fun t' w hw => ?_⟩
  by_cases ht : t' = t
  · subst ht
    rw [writes_rollback_self] at hw
    cases hw
  · rw [writes_rollback_other s ht] at hw
    exact h.writes t' w hw

/-- So does a commit. -/
theorem commit (h : s.Stands k P) : (s.commit t).Stands k P :=
  ⟨h.read t, h.rollback.writes⟩

/-- **One statement**: it keeps the row unless it updates it out of `P` or deletes it. -/
theorem effect {f : Stmt K V M} (h : s.Stands k P) (he : Effect t s f s')
    (hupdate : ∀ p g r, f = .update k p g → p r = true → P r → P (g r))
    (hdelete : ∀ p r, f = .delete k p → P r → p r = false) : s'.Stands k P := by
  obtain ⟨r₀, hr₀, hp₀⟩ := h.read t
  cases he with
  | same | draw | send => exact ⟨h.committed, h.writes⟩
  | @update k' p g r hfree hread hp hu =>
      by_cases hk : k = k'
      · subst hk
        obtain rfl := Option.some.inj (hr₀.symm.trans hread)
        exact h.write_self hfree (hupdate p g r₀ rfl hp hp₀)
      · exact h.write_of_ne hk
  | @insert k' v hfree hread hu =>
      by_cases hk : k = k'
      · subst hk
        rw [hr₀] at hread
        cases hread
      · exact h.write_of_ne hk
  | @delete k' p r hfree hread hp =>
      by_cases hk : k = k'
      · subst hk
        obtain rfl := Option.some.inj (hr₀.symm.trans hread)
        rw [hdelete p r₀ rfl hp₀] at hp
        cases hp
      · exact h.write_of_ne hk
  | commit => exact h.commit
  | rollback => exact h.rollback

end Stands

end Db

namespace Contract

/-- The contract that checks `P` at every deletion and nothing else. -/
def ofDeletes (P : (k : K) → V k → Prop) (allowed : T → Stmt K V M → Db T K V M → Prop) :
    Contract T K V M where
  inv := Db.Deletes P
  guar := fun _ _ _ => True
  allowed := allowed
  guar_refl := fun _ _ _ => trivial
  rollback := fun _ _ h => ⟨h.rollback, trivial⟩
  tick := fun _ _ h => h

/-- A start without open transactions is verified, if the rows that allowed statements delete
satisfy `P`. -/
theorem verified_ofDeletes {P : (k : K) → V k → Prop}
    {allowed : T → Stmt K V M → Db T K V M → Prop} {c : Config T K V M ε α}
    (hquiet : ∀ k, c.db.dirty k = none)
    (hdelete : ∀ t k p s r row, allowed t (.delete k p) s → s.read t k = some r → p r = true →
      s.committed k = some row → P k row) :
    (ofDeletes P allowed).Verified (fun _ _ _ => True) c := by
  refine ⟨Db.Deletes.of_quiet hquiet, fun t p _ => ⟨_, Stable.const True, trivial, ?_⟩⟩
  refine Triple.of_sends (Stable.const True) (fun f _ s hinv _ hal b s' he => ?_)
    (Prog.Sends.any (P := fun _ => True) fun _ => trivial)
  refine ⟨Db.Deletes.effect hinv (exec_effect he) ?_, trivial, trivial⟩
  rintro k p r rfl hr hp row hrow
  exact hdelete t k p s r row hal hr hp hrow

/-- **A step of a run takes away only rows that satisfy `P`.** -/
theorem Verified.gone {P : (k : K) → V k → Prop} {allowed : T → Stmt K V M → Db T K V M → Prop}
    {Q : T → Except ε α → Db T K V M → Prop} {c c' : Config T K V M ε α}
    (hv : (ofDeletes P allowed).Verified Q c) (hs : c.Step allowed c') {k : K} {row : V k}
    (hrow : c.db.committed k = some row) (hgone : c'.db.committed k = none) : P k row := by
  rcases hv.step_cases hs with ⟨t, hf, -⟩ | ⟨n, hn⟩
  · exact Db.Deletes.gone hv.inv hf hrow hgone
  · rw [hn] at hgone
    exact absurd (hrow.symm.trans hgone) (Option.some_ne_none row)

end Contract

end Txn
