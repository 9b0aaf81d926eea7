import Mathlib.Data.List.Basic
import Mathlib.Logic.Function.Basic

/-!
# Row versions under READ COMMITTED

A store keeps, for every key, the latest **committed** row and at most one **uncommitted**
version, tagged with the transaction that wrote it. Since there is one slot for the uncommitted
version, two transactions can never hold the write lock of one row: the lock discipline of the
database is a property of the type, not an invariant that each proof has to carry.

* `Db.read t k` — what transaction `t` sees: its own version if it has one, else the latest
  committed row;
* `Db.write`, `Db.commit`, `Db.rollback` — the three ways a transaction changes the store;
* `Db.log` — a history variable: the committed transactions in commit order, each with the
  versions it wrote. No operation reads it.

The other components are what a session needs besides rows: a source of identifiers that are
never drawn twice, a clock, and the list of messages handed to a broker.
-/

set_option linter.unusedSectionVars false

namespace Txn

/-- The state of a database shared by the transactions `T`, with rows `V k` under keys `k : K`
and messages `M`. `support` says that `keys` enumerates every key that has a row version. -/
structure Db (T K : Type) (V : K → Type) (M : Type) where
  /-- The latest committed row of each key. -/
  committed : (k : K) → Option (V k)
  /-- The uncommitted version of each key and its writer; `some (t, none)` is a deletion. -/
  dirty : (k : K) → Option (T × Option (V k))
  /-- The keys that ever had a version, in order of first appearance. -/
  keys : List K
  /-- The committed transactions, in commit order, with the versions each of them wrote. -/
  log : List (T × ((k : K) → Option (Option (V k))))
  /-- How many identifiers each process has drawn. -/
  drawn : T → ℕ
  /-- The clock shared by all processes. -/
  clock : ℕ
  /-- The messages handed to the broker. -/
  sent : List M
  support : ∀ k, k ∉ keys → committed k = none ∧ dirty k = none

namespace Db

variable {T K : Type} {V : K → Type} {M : Type} [DecidableEq T]

/-- The version of `k` that transaction `t` has written and not yet committed. -/
def writes (s : Db T K V M) (t : T) (k : K) : Option (Option (V k)) :=
  match s.dirty k with
  | some (t', v) => if t' = t then some v else none
  | none => none

/-- What transaction `t` sees under `k`. -/
def read (s : Db T K V M) (t : T) (k : K) : Option (V k) :=
  (s.writes t k).getD (s.committed k)

/-- Some other transaction holds the write lock of `k`. -/
def lockedByOther (s : Db T K V M) (t : T) (k : K) : Bool :=
  match s.dirty k with
  | some (t', _) => t' ≠ t
  | none => false

/-- The version of `k` that would be current if its open writer committed. -/
def newest (s : Db T K V M) (k : K) : Option (V k) :=
  match s.dirty k with
  | some (_, v) => v
  | none => s.committed k

/-! ## Locks -/

/-- A version is a dirty row of the transaction. -/
theorem writes_eq_some {s : Db T K V M} {t : T} {k : K} {v : Option (V k)} :
    s.writes t k = some v ↔ s.dirty k = some (t, v) := by
  unfold writes
  rcases h : s.dirty k with _ | ⟨t', v'⟩
  · simp
  · by_cases ht : t' = t <;> simp [ht]

/-- The transaction has written a row that is dirty in its name. -/
theorem writes_ne_none {s : Db T K V M} {t : T} {k : K} :
    s.writes t k ≠ none ↔ ∃ v, s.dirty k = some (t, v) := by
  rw [Option.ne_none_iff_exists']
  simp only [writes_eq_some]

/-- The write lock of a row has one owner. -/
theorem writes_exclusive {s : Db T K V M} {t t' : T} {k : K} (h : s.writes t k ≠ none)
    (h' : s.writes t' k ≠ none) : t = t' := by
  obtain ⟨v, hv⟩ := writes_ne_none.mp h
  obtain ⟨v', hv'⟩ := writes_ne_none.mp h'
  rw [hv] at hv'
  exact (Prod.mk.inj (Option.some.inj hv')).1

/-- A row has one writer at most. -/
theorem writes_eq_none_of_other {s : Db T K V M} {t t' : T} {k : K} (h : s.writes t k ≠ none)
    (ht : t' ≠ t) : s.writes t' k = none := by
  by_contra h'
  exact ht (writes_exclusive h' h)

/-- A lock is held by another transaction with a version. -/
theorem lockedByOther_eq_true {s : Db T K V M} {t : T} {k : K} :
    s.lockedByOther t k = true ↔ ∃ t', t' ≠ t ∧ s.writes t' k ≠ none := by
  unfold lockedByOther
  rcases h : s.dirty k with _ | ⟨t', v⟩
  · simp [writes, h]
  · simp only [ne_eq, decide_not, Bool.not_eq_eq_eq_not, Bool.not_true, decide_eq_false_iff_not]
    constructor
    · intro ht
      exact ⟨t', ht, by simp [writes, h]⟩
    · rintro ⟨u, hu, hw⟩ rfl
      obtain ⟨w, hw⟩ := writes_ne_none.mp hw
      rw [h] at hw
      exact hu (Prod.mk.inj (Option.some.inj hw)).1.symm

/-- Without such a transaction there is no lock. -/
theorem lockedByOther_eq_false {s : Db T K V M} {t : T} {k : K} :
    s.lockedByOther t k = false ↔ ∀ t', t' ≠ t → s.writes t' k = none := by
  rw [← Bool.not_eq_true, lockedByOther_eq_true]
  simp only [not_exists, not_and, ne_eq, not_not]

/-- A transaction sees what it wrote. -/
theorem read_of_writes {s : Db T K V M} {t : T} {k : K} {v : Option (V k)}
    (h : s.writes t k = some v) : s.read t k = v := by
  simp [read, h]

/-- Elsewhere it sees what is committed. -/
theorem read_of_not_writes {s : Db T K V M} {t : T} {k : K} (h : s.writes t k = none) :
    s.read t k = s.committed k := by
  simp [read, h]

/-- A key with a version visible to somebody is enumerated. -/
theorem mem_keys_of_read {s : Db T K V M} {t : T} {k : K} {v : V k} (h : s.read t k = some v) :
    k ∈ s.keys := by
  by_contra hk
  obtain ⟨hc, hd⟩ := s.support k hk
  simp [read, writes, hc, hd] at h

/-- A committed row is among the keys. -/
theorem mem_keys_of_committed {s : Db T K V M} {k : K} {v : V k} (h : s.committed k = some v) :
    k ∈ s.keys := by
  by_contra hk
  rw [(s.support k hk).1] at h
  cases h

/-- So is a written one. -/
theorem mem_keys_of_writes {s : Db T K V M} {t : T} {k : K} (h : s.writes t k ≠ none) :
    k ∈ s.keys := by
  by_contra hk
  exact h (by simp [writes, (s.support k hk).2])

/-! ## The three changes -/

section write

variable [DecidableEq K]

/-- Transaction `t` writes the version `v` of `k` and takes its write lock. -/
def write (s : Db T K V M) (t : T) (k : K) (v : Option (V k)) : Db T K V M :=
  { s with
    dirty := Function.update s.dirty k (some (t, v))
    keys := if k ∈ s.keys then s.keys else s.keys ++ [k]
    support := by
      intro k' hk'
      have hne : k' ≠ k := by
        rintro rfl
        split at hk' <;> simp_all
      have hmem : k' ∉ s.keys := by
        intro h
        split at hk' <;> simp_all
      rw [Function.update_of_ne hne]
      exact s.support k' hmem }

/-- A write commits nothing. -/
@[simp] theorem write_committed (s : Db T K V M) (t : T) (k : K) (v : Option (V k)) :
    (s.write t k v).committed = s.committed := rfl

/-- It is the version of its transaction. -/
@[simp] theorem writes_write_self (s : Db T K V M) (t : T) (k : K) (v : Option (V k)) :
    (s.write t k v).writes t k = some v := by
  simp [writes, write]

/-- Other rows keep their versions. -/
theorem writes_write_of_ne (s : Db T K V M) {t t' : T} {k k' : K} (v : Option (V k))
    (h : k' ≠ k) : (s.write t k v).writes t' k' = s.writes t' k' := by
  simp [writes, write, Function.update_of_ne h]

/-- A write does not touch the versions of another transaction, when the row is not locked. -/
theorem writes_write_other (s : Db T K V M) {t t' : T} {k : K} (v : Option (V k))
    (hfree : s.lockedByOther t k = false) (ht : t' ≠ t) :
    (s.write t k v).writes t' = s.writes t' := by
  funext k'
  by_cases hk : k' = k
  · subst hk
    rw [lockedByOther_eq_false.mp hfree t' ht]
    simp [writes, write, Ne.symm ht]
  · exact writes_write_of_ne s v hk

/-- The writer sees its version. -/
@[simp] theorem read_write_self (s : Db T K V M) (t : T) (k : K) (v : Option (V k)) :
    (s.write t k v).read t k = v := by
  simp [read]

/-- What anybody sees elsewhere stays. -/
theorem read_write_of_ne (s : Db T K V M) {t t' : T} {k k' : K} (v : Option (V k))
    (h : k' ≠ k) : (s.write t k v).read t' k' = s.read t' k' := by
  simp [read, writes_write_of_ne s v h]

/-- What `t` sees after a write. -/
theorem read_write (s : Db T K V M) (t : T) (k : K) (v : Option (V k)) :
    (s.write t k v).read t = Function.update (s.read t) k v := by
  funext k'
  by_cases hk : k' = k
  · subst hk
    rw [read_write_self, Function.update_self]
  · rw [read_write_of_ne s v hk, Function.update_of_ne hk]

end write

/-- Keys without versions have none after a commit. -/
private theorem commit_support (s : Db T K V M) (t : T) (k : K) (hk : k ∉ s.keys) :
    s.read t k = none ∧ (if (s.writes t k).isSome then none else s.dirty k) = none := by
  obtain ⟨hc, hd⟩ := s.support k hk
  simp [read, writes, hc, hd]

/-- Transaction `t` commits: its versions become the committed rows and its locks go. -/
def commit (s : Db T K V M) (t : T) : Db T K V M :=
  { s with
    committed := s.read t
    dirty := fun k => if (s.writes t k).isSome then none else s.dirty k
    log := s.log ++ [(t, s.writes t)]
    support := fun k hk => commit_support s t k hk }

/-- Transaction `t` rolls back: its versions and its locks go. -/
def rollback (s : Db T K V M) (t : T) : Db T K V M :=
  { s with
    dirty := fun k => if (s.writes t k).isSome then none else s.dirty k
    support := fun k hk => ⟨(s.support k hk).1, (commit_support s t k hk).2⟩ }

/-- What is committed is what the transaction saw. -/
@[simp] theorem commit_committed (s : Db T K V M) (t : T) : (s.commit t).committed = s.read t := rfl

/-- The log has the versions that were committed. -/
@[simp] theorem commit_log (s : Db T K V M) (t : T) :
    (s.commit t).log = s.log ++ [(t, s.writes t)] := rfl

/-- A rollback commits nothing. -/
@[simp] theorem rollback_committed (s : Db T K V M) (t : T) :
    (s.rollback t).committed = s.committed := rfl

/-- It takes the versions of its transaction away. -/
theorem writes_rollback_self (s : Db T K V M) (t : T) (k : K) : (s.rollback t).writes t k = none := by
  unfold writes rollback
  rcases h : s.dirty k with _ | ⟨t', v⟩
  · simp [writes, h]
  · by_cases ht : t' = t <;> simp [writes, h, ht]

/-- The versions of others stay. -/
theorem writes_rollback_other (s : Db T K V M) {t t' : T} (ht : t' ≠ t) :
    (s.rollback t).writes t' = s.writes t' := by
  funext k
  rcases h : s.dirty k with _ | ⟨u, v⟩
  · simp [writes, rollback, h]
  · by_cases hu : u = t
    · subst hu
      simp [writes, rollback, h, Ne.symm ht]
    · simp [writes, rollback, h, hu]

/-- A commit leaves its transaction without versions. -/
theorem writes_commit_self (s : Db T K V M) (t : T) (k : K) : (s.commit t).writes t k = none :=
  writes_rollback_self s t k

/-- The versions of others stay. -/
theorem writes_commit_other (s : Db T K V M) {t t' : T} (ht : t' ≠ t) :
    (s.commit t).writes t' = s.writes t' :=
  writes_rollback_other s ht

/-- After a commit or a rollback the transaction sees the committed rows. -/
theorem read_commit_self (s : Db T K V M) (t : T) (k : K) : (s.commit t).read t k = s.read t k := by
  rw [read_of_not_writes (writes_commit_self s t k), commit_committed]

/-- After a rollback the transaction sees what is committed. -/
theorem read_rollback_self (s : Db T K V M) (t : T) (k : K) :
    (s.rollback t).read t k = s.committed k := by
  rw [read_of_not_writes (writes_rollback_self s t k), rollback_committed]

/-- Transaction `t` has written nothing yet. -/
def Idle (s : Db T K V M) (t : T) : Prop := ∀ k, s.writes t k = none

/-- Without dirty rows every transaction is idle. -/
theorem idle_of_quiet {s : Db T K V M} (h : ∀ k, s.dirty k = none) (t : T) : s.Idle t := by
  intro k
  simp [writes, h k]

/-- A transaction is idle after its commit. -/
theorem idle_commit (s : Db T K V M) (t : T) : (s.commit t).Idle t := writes_commit_self s t

/-- So it is after its rollback. -/
theorem idle_rollback (s : Db T K V M) (t : T) : (s.rollback t).Idle t := writes_rollback_self s t

/-- An idle transaction sees what is committed. -/
theorem Idle.read {s : Db T K V M} {t : T} (h : s.Idle t) (k : K) : s.read t k = s.committed k :=
  read_of_not_writes (h k)

end Db

/-! ## What a step of one transaction leaves alone -/

variable {T K : Type} {V : K → Type} {M : Type} [DecidableEq T]

/-- **The frame of a step of transaction `t`**: the versions of the others stay, and the
committed rows stay unless `t` commits, when they become what `t` saw. -/
structure Frame (t : T) (s s' : Db T K V M) : Prop where
  writes : ∀ t', t' ≠ t → s'.writes t' = s.writes t'
  committed : (s'.committed = s.committed ∧ s'.log = s.log) ∨
    (s'.committed = s.read t ∧ s'.log = s.log ++ [(t, s.writes t)] ∧ ∀ k, s'.writes t k = none)
  drawn : ∀ t', t' ≠ t → s'.drawn t' = s.drawn t'
  drawn_le : s.drawn t ≤ s'.drawn t
  sent : ∀ m ∈ s.sent, m ∈ s'.sent
  clock : s'.clock = s.clock

namespace Frame

variable {t : T} {s s' : Db T K V M}

/-- Nothing happens. -/
theorem refl (t : T) (s : Db T K V M) : Frame t s s :=
  ⟨fun _ _ => rfl, .inl ⟨rfl, rfl⟩, fun _ _ => rfl, Nat.le_refl _, fun _ h => h, rfl⟩

/-- A write that waits for nobody. -/
theorem write [DecidableEq K] {k : K} {v : Option (V k)} (h : s.lockedByOther t k = false) :
    Frame t s (s.write t k v) :=
  ⟨fun _ ht => Db.writes_write_other s v h ht, .inl ⟨rfl, rfl⟩, fun _ _ => rfl, Nat.le_refl _,
    fun _ h => h, rfl⟩

/-- A commit. -/
theorem commit (t : T) (s : Db T K V M) : Frame t s (s.commit t) :=
  ⟨fun _ ht => Db.writes_commit_other s ht,
    .inr ⟨rfl, rfl, fun k => Db.writes_commit_self s t k⟩, fun _ _ => rfl, Nat.le_refl _, fun _ h => h, rfl⟩

/-- A rollback. -/
theorem rollback (t : T) (s : Db T K V M) : Frame t s (s.rollback t) :=
  ⟨fun _ ht => Db.writes_rollback_other s ht, .inl ⟨rfl, rfl⟩, fun _ _ => rfl, Nat.le_refl _,
    fun _ h => h, rfl⟩

/-- A row that `t` has not written is committed unchanged. -/
theorem committed_of_not_writes (h : Frame t s s') {k : K} (hk : s.writes t k = none) :
    s'.committed k = s.committed k := by
  rcases h.committed with ⟨hc, -⟩ | ⟨hc, -⟩
  · rw [hc]
  · rw [hc, Db.read_of_not_writes hk]

/-- The committed row under a lock stays while others step. -/
theorem committed_of_locked (h : Frame t s s') {t' : T} (ht : t ≠ t') {k : K}
    (hk : s.writes t' k ≠ none) : s'.committed k = s.committed k :=
  h.committed_of_not_writes (Db.writes_eq_none_of_other hk ht)

end Frame

end Txn
