import SyncBack.Txn.Rows

/-!
# Unique columns

A unique index on columns that no update changes. `index k v` is the entry of the row `v` under
`k`, `none` for a row that the index leaves out. The database refuses a row whose entry is taken,
and makes it wait for an entry that another transaction may still give up; `Db.Unique` is what
this comes to: at any time, the committed and the uncommitted rows have different entries.
-/

set_option linter.unusedSectionVars false

namespace Txn

variable {T K : Type} {V : K → Type} {M I : Type} [DecidableEq T] [DecidableEq K]
  [DecidableEq M] [UniqueIndex K V]

/-- Rows with the same entry clash. -/
class Indexed (index : (k : K) → V k → Option I) : Prop where
  clash : ∀ {k k' : K} {v : V k} {v' : V k'} {i : I}, index k v = some i → index k' v' = some i →
    UniqueIndex.clash k v k' v' = true

namespace Db

/-- Different rows have different entries. -/
def Unique (index : (k : K) → V k → Option I) (s : Db T K V M) : Prop :=
  ∀ k k' v v' i, s.Live k v → s.Live k' v' → index k v = some i → index k' v' = some i → k = k'

variable {index : (k : K) → V k → Option I} {R : (k : K) → V k → V k → Prop} {s s' : Db T K V M}
  {t : T}

/-- The index does not pass a row whose entry a live row has. -/
theorem not_free_of_live [Indexed index] (hR : ∀ k a b, R k a b → index k b = index k a)
    (hp : s.Pending R) {k k' : K} {v : V k} {v' : V k'} {i : I} (hne : k' ≠ k)
    (hlive : s.Live k' v') (hv : index k v = some i) (hv' : index k' v' = some i) :
    s.uniqueness t k v ≠ .free := by
  intro hfree
  have hclash : ∀ w : V k', index k' w = some i →
      ¬ (s.read t k' = some w ∨
        s.lockedByOther t k' = true ∧ (s.committed k' = some w ∨ s.newest k' = some w)) := by
    intro w hw hread
    have h := not_clash_of_free hfree hne hread
    rw [Indexed.clash hv hw] at h
    cases h
  rcases hl : s.lockedByOther t k' with _ | _
  · -- then `t` sees the row, or its own version of it
    obtain ⟨w, hw, hread⟩ : ∃ w, index k' w = some i ∧ s.read t k' = some w := by
      rcases hlive with hc | ⟨u, hu⟩
      · rcases hwr : s.writes t k' with _ | version
        · exact ⟨v', hv', by rw [read_of_not_writes hwr, hc]⟩
        · obtain ⟨w, rfl, hRw⟩ := hp t k' version hwr v' hc
          exact ⟨w, (hR k' v' w hRw).trans hv', read_of_writes hwr⟩
      · have hut : u = t := by
          by_contra hut
          rw [lockedByOther_eq_false.mp hl u hut] at hu
          cases hu
        subst hut
        exact ⟨v', hv', read_of_writes hu⟩
    exact hclash w hw (.inl hread)
  · rcases hlive with hc | ⟨u, hu⟩
    · exact hclash v' hv' (.inr ⟨hl, .inl hc⟩)
    · refine hclash v' hv' (.inr ⟨hl, .inr ?_⟩)
      simp [newest, writes_eq_some.mp hu]

namespace Unique

/-- With no open transaction only the committed rows count. -/
theorem of_quiet (h : ∀ k, s.dirty k = none)
    (hc : ∀ k k' v v' i, s.committed k = some v → s.committed k' = some v' → index k v = some i →
      index k' v' = some i → k = k') : s.Unique index := by
  have hlive : ∀ {k v}, s.Live k v → s.committed k = some v := by
    rintro k v (hlive | ⟨t, ht⟩)
    · exact hlive
    · rw [idle_of_quiet h t k] at ht
      cases ht
  exact fun k k' v v' i hv hv' => hc k k' v v' i (hlive hv) (hlive hv')

/-- A write of an unlocked row without a rival. -/
theorem write {k : K} {v : V k} (h : s.Unique index) (hfree : s.lockedByOther t k = false)
    (hnew : ∀ k' v' i, s.Live k' v' → index k v = some i → index k' v' = some i → k' = k) :
    (s.write t k (some v)).Unique index := by
  intro k₁ k₂ v₁ v₂ i h₁ h₂ hi₁ hi₂
  rcases h₁.of_write hfree with h₁ | h₁ <;> rcases h₂.of_write hfree with h₂ | h₂
  · exact h k₁ k₂ v₁ v₂ i h₁ h₂ hi₁ hi₂
  · cases h₂
    exact hnew k₁ v₁ i h₁ hi₂ hi₁
  · cases h₁
    exact (hnew k₂ v₂ i h₂ hi₁ hi₂).symm
  · cases h₁
    cases h₂
    rfl

/-- A commit keeps entries unique. -/
theorem commit (h : s.Unique index) : (s.commit t).Unique index :=
  fun k k' v v' i hv hv' => h k k' v v' i hv.of_commit hv'.of_commit

/-- So does a rollback. -/
theorem rollback (h : s.Unique index) : (s.rollback t).Unique index :=
  fun k k' v v' i hv hv' => h k k' v v' i hv.of_rollback hv'.of_rollback

/-- A row that keeps its entry. -/
theorem update {k : K} {v r : V k} (h : s.Unique index) (hfree : s.lockedByOther t k = false)
    (hread : s.read t k = some r) (hsame : index k v = index k r) :
    (s.write t k (some v)).Unique index := by
  refine h.write hfree fun k' v' i hv' hi hi' => ?_
  rw [hsame] at hi
  exact h k' k v' r i hv' (live_of_read hread) hi' hi

/-- **One statement** that deletes nothing: it is enough that updates leave the entry of a row alone. -/
theorem effect [Indexed index] (hR : ∀ k a b, R k a b → index k b = index k a) {f : Stmt K V M}
    (h : s.Unique index) (hp : s.Pending R) (he : Effect t s f s') (hdeletes : f.deletes = false)
    (hupdate : ∀ k p g r, f = .update k p g → s.read t k = some r → p r = true →
      index k (g r) = index k r) : s'.Unique index := by
  cases he with
  | same | draw | send => exact h
  | commit => exact h.commit
  | rollback => exact h.rollback
  | delete => cases hdeletes
  | update hfree hread hpr huniq => exact h.update hfree hread (hupdate _ _ _ _ rfl hread hpr)
  | insert hfree hread huniq =>
      refine h.write hfree fun k' v' i hv' hi hi' => ?_
      by_contra hne
      exact not_free_of_live hR hp hne hv' hi hi' huniq

end Unique

end Db

end Txn
