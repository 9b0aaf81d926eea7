import SyncBack.Txn.Store

/-!
# Statements and transactional programs

`Stmt` lists the statements a session can send, `exec t f s` runs one of them for process `t`;
`none` means that the statement waits for a row lock (or for a message) and cannot run yet. A
program is a tree of statements, each followed by what the program does with the answer; it ends
with a value or with an exception.

The semantics of a conditional update is READ COMMITTED: a row that does not match the condition
in its committed version is skipped at once; a row that matches while another transaction holds
its lock is waited for, and the condition is evaluated again on the version that is then current.
An insert or an update that would clash with a unique index fails when the rival row is settled
and waits while the rival row is another transaction's unfinished business.
-/

set_option linter.unusedSectionVars false

namespace Txn

/-- The unique indexes of a schema: `clash k v k' v'` says that the rows `v` and `v'` cannot
both stand, under the different keys `k` and `k'`. -/
class UniqueIndex (K : Type) (V : K → Type) where
  clash : (k : K) → V k → (k' : K) → V k' → Bool

/-- The answer to a conditional update of one row. -/
inductive Outcome (ρ : Type) where
  /-- No row matched the condition. -/
  | missed
  /-- The new row would break a unique index. -/
  | violated
  /-- The row as it stands after the update. -/
  | updated (row : ρ)

/-- The verdict of the unique indexes on a new row. -/
inductive Verdict where
  | free
  | taken
  | wait
  deriving DecidableEq

/-- The statements of a session over the keys `K`, rows `V` and messages `M`. -/
inductive Stmt (K : Type) (V : K → Type) (M : Type) where
  /-- Read one row by its key. -/
  | get (k : K)
  /-- Read every row that satisfies a condition. -/
  | find (p : (k : K) → V k → Bool)
  /-- Change the row under `k` if it satisfies `p`. -/
  | update (k : K) (p : V k → Bool) (f : V k → V k)
  /-- Insert a row; a clash with a unique index undoes the insert alone (a savepoint). -/
  | insert (k : K) (v : V k)
  /-- Delete the row under `k` if it satisfies `p`. -/
  | delete (k : K) (p : V k → Bool)
  /-- Draw an identifier that nobody else draws. -/
  | draw
  | now
  /-- Hand a message to the broker. -/
  | send (m : M)
  /-- Wait until a message has been handed to the broker. -/
  | await (m : M)
  | commit
  | rollback

/-- The statement can take a row away. -/
def Stmt.deletes {K : Type} {V : K → Type} {M : Type} : Stmt K V M → Bool
  | .delete _ _ => true
  | _ => false

/-- The answer of the database to a statement. -/
def Stmt.Resp (T : Type) {K : Type} {V : K → Type} {M : Type} : Stmt K V M → Type
  | .get k => Option (V k)
  | .find _ => List (Sigma V)
  | .update k _ _ => Outcome (V k)
  | .insert _ _ => Bool
  | .delete k _ => Option (V k)
  | .draw => T × ℕ
  | .now => ℕ
  | .send _ | .await _ | .commit | .rollback => Unit

namespace Db

variable {T K : Type} {V : K → Type} {M : Type} [DecidableEq T] [DecidableEq K] [UniqueIndex K V]

/-- Does the row `v` under `k` clash with the version `w` of `k'`? -/
def clashes (k : K) (v : V k) (k' : K) (w : Option (V k')) : Bool :=
  k' ≠ k && w.any (UniqueIndex.clash k v k')

/-- What the unique indexes say about `t` storing `v` under `k`: a settled rival decides, a rival
that another transaction has not finished with is waited for. -/
def uniqueness (s : Db T K V M) (t : T) (k : K) (v : V k) : Verdict :=
  if s.keys.any fun k' => !s.lockedByOther t k' && clashes k v k' (s.read t k') then
    .taken
  else if s.keys.any fun k' => s.lockedByOther t k' &&
      (clashes k v k' (s.committed k') || clashes k v k' (s.newest k')) then
    .wait
  else
    .free

/-- A row that no index speaks about is never refused. -/
theorem uniqueness_of_not_clash {s : Db T K V M} {t : T} {k : K} {v : V k}
    (h : ∀ k' v', UniqueIndex.clash k v k' v' = false) : s.uniqueness t k v = .free := by
  have hclashes : ∀ k' (w : Option (V k')), clashes k v k' w = false := by
    intro k' w
    cases w <;> simp [clashes, h]
  simp [uniqueness, hclashes]

/-- The rows that `t` sees and that satisfy `p`. -/
def select (s : Db T K V M) (t : T) (p : (k : K) → V k → Bool) : List (Sigma V) :=
  s.keys.filterMap fun k => ((s.read t k).filter (p k)).map (Sigma.mk k)

/-- What a search finds is seen and satisfies the predicate. -/
theorem mem_select {s : Db T K V M} {t : T} {p : (k : K) → V k → Bool} {k : K} {v : V k} :
    (⟨k, v⟩ : Sigma V) ∈ s.select t p ↔ s.read t k = some v ∧ p k v = true := by
  unfold select
  rw [List.mem_filterMap]
  constructor
  · rintro ⟨k', -, h⟩
    obtain ⟨v', hv', hsigma⟩ := Option.map_eq_some_iff.mp h
    cases hsigma
    exact Option.filter_eq_some_iff.mp hv'
  · rintro h
    exact ⟨k, mem_keys_of_read h.1, Option.map_eq_some_iff.mpr ⟨v, Option.filter_eq_some_iff.mpr h, rfl⟩⟩

/-- Selected rows of which only a part of the key is returned. -/
theorem mem_filterMap_select_iff {α : Type} {s : Db T K V M} {t : T} {p : (k : K) → V k → Bool}
    {part : Sigma V → Option α} {a : α} {k : K}
    (hkey : ∀ k' v, p k' v = true → part ⟨k', v⟩ = some a → k' = k)
    (hrow : ∀ v, p k v = true ∧ part ⟨k, v⟩ = some a) :
    a ∈ (s.select t p).filterMap part ↔ s.read t k ≠ none := by
  rw [List.mem_filterMap]
  constructor
  · rintro ⟨⟨k', v⟩, hmem, hpart⟩
    obtain ⟨hread, hp⟩ := mem_select.mp hmem
    obtain rfl := hkey k' v hp hpart
    rw [hread]
    exact Option.some_ne_none v
  · intro hread
    obtain ⟨v, hv⟩ := Option.ne_none_iff_exists'.mp hread
    exact ⟨⟨k, v⟩, mem_select.mpr ⟨hv, (hrow v).1⟩, (hrow v).2⟩

/-- `t` waits for the lock of `k`: the committed row matches and another transaction holds it. -/
def waits (s : Db T K V M) (t : T) (k : K) (p : V k → Bool) : Bool :=
  s.lockedByOther t k && (s.committed k).any p

/-- Change the row under `k` if it satisfies `p`; `none` while `t` has to wait. -/
def tryUpdate (s : Db T K V M) (t : T) (k : K) (p : V k → Bool) (f : V k → V k) :
    Option (Outcome (V k) × Db T K V M) :=
  if s.waits t k p then none
  else if s.lockedByOther t k then some (.missed, s)
  else
    match s.read t k with
    | none => some (.missed, s)
    | some r =>
        if p r then
          match s.uniqueness t k (f r) with
          | .wait => none
          | .taken => some (.violated, s)
          | .free => some (.updated (f r), s.write t k (some (f r)))
        else some (.missed, s)

/-- Insert a row under `k`; `none` while `t` has to wait, `false` on a clash. -/
def tryInsert (s : Db T K V M) (t : T) (k : K) (v : V k) : Option (Bool × Db T K V M) :=
  if s.lockedByOther t k then none
  else if (s.read t k).isSome then some (false, s)
  else
    match s.uniqueness t k v with
    | .wait => none
    | .taken => some (false, s)
    | .free => some (true, s.write t k (some v))

/-- Delete the row under `k` if it satisfies `p` and answer with it; `none` while `t` has to wait. -/
def tryDelete (s : Db T K V M) (t : T) (k : K) (p : V k → Bool) :
    Option (Option (V k) × Db T K V M) :=
  if s.waits t k p then none
  else if s.lockedByOther t k then some (none, s)
  else
    match s.read t k with
    | none => some (none, s)
    | some r => if p r then some (some r, s.write t k none) else some (none, s)

/-- The database after `t` drew an identifier. -/
def draw (s : Db T K V M) (t : T) : Db T K V M :=
  { s with drawn := Function.update s.drawn t (s.drawn t + 1) }

/-- The database after a message was handed to the broker. -/
def send (s : Db T K V M) (m : M) : Db T K V M := { s with sent := s.sent ++ [m] }

end Db

variable {T K : Type} {V : K → Type} {M : Type} [DecidableEq T] [DecidableEq K] [DecidableEq M]
  [UniqueIndex K V]

/-- Run one statement for process `t`; `none` if it has to wait. -/
def exec (t : T) : (f : Stmt K V M) → Db T K V M → Option (f.Resp T × Db T K V M)
  | .get k, s => some (s.read t k, s)
  | .find p, s => some (s.select t p, s)
  | .update k p f, s => s.tryUpdate t k p f
  | .insert k v, s => s.tryInsert t k v
  | .delete k p, s => s.tryDelete t k p
  | .draw, s => some ((t, s.drawn t), s.draw t)
  | .now, s => some (s.clock, s)
  | .send m, s => some ((), s.send m)
  | .await m, s => if m ∈ s.sent then some ((), s) else none
  | .commit, s => some ((), s.commit t)
  | .rollback, s => some ((), s.rollback t)

/-! ## Inversion of the statements that write -/

/-- **What an update can do**: it changes nothing and answers that no row visible to `t` matched,
or that an index was violated, or it rewrites the row that `t` sees, which satisfies the condition
and is not locked by anybody else. -/
theorem exec_update_cases {t : T} {k : K} {p : V k → Bool} {f : V k → V k} {s s' : Db T K V M}
    {b : Outcome (V k)} (h : exec t (.update k p f) s = some (b, s')) :
    (s' = s ∧ b = .missed ∧ ∀ r, s.read t k = some r → p r = false) ∨ (s' = s ∧ b = .violated ∧
      ∃ r, s.read t k = some r ∧ p r = true ∧ s.uniqueness t k (f r) = .taken) ∨
      ∃ r, s.lockedByOther t k = false ∧ s.read t k = some r ∧ p r = true ∧
        s.uniqueness t k (f r) = .free ∧ b = .updated (f r) ∧ s' = s.write t k (some (f r)) := by
  change s.tryUpdate t k p f = some (b, s') at h
  unfold Db.tryUpdate at h
  by_cases hw : s.waits t k p = true
  · simp [hw] at h
  rw [if_neg hw] at h
  by_cases hl : s.lockedByOther t k = true
  · rw [if_pos hl] at h
    obtain ⟨rfl, rfl⟩ := Prod.mk.inj (Option.some.inj h)
    refine .inl ⟨rfl, rfl, fun r hr => ?_⟩
    obtain ⟨u, hu, hwr⟩ := Db.lockedByOther_eq_true.mp hl
    rw [Db.read_of_not_writes (Db.writes_eq_none_of_other hwr hu.symm)] at hr
    simpa [Db.waits, hl, hr] using hw
  rw [if_neg hl] at h
  rcases hr : s.read t k with _ | r
  · simp only [hr] at h
    obtain ⟨rfl, rfl⟩ := Prod.mk.inj (Option.some.inj h)
    exact .inl ⟨rfl, rfl, by simp⟩
  simp only [hr] at h
  by_cases hp : p r = true
  · rw [if_pos hp] at h
    rcases hu : s.uniqueness t k (f r) with _ | _ | _
    · simp only [hu] at h
      obtain ⟨rfl, rfl⟩ := Prod.mk.inj (Option.some.inj h)
      exact .inr (.inr ⟨r, by simpa using hl, rfl, hp, hu, rfl, rfl⟩)
    · simp only [hu] at h
      obtain ⟨rfl, rfl⟩ := Prod.mk.inj (Option.some.inj h)
      exact .inr (.inl ⟨rfl, rfl, r, rfl, hp, hu⟩)
    · simp [hu] at h
  · rw [if_neg hp] at h
    obtain ⟨rfl, rfl⟩ := Prod.mk.inj (Option.some.inj h)
    exact .inl ⟨rfl, rfl, by simpa using hp⟩

/-- **What an insert can do**: it changes nothing and answers `false`, or it adds a row where
`t` sees none. -/
theorem exec_insert_cases {t : T} {k : K} {v : V k} {s s' : Db T K V M} {b : Bool}
    (h : exec t (.insert k v) s = some (b, s')) :
    (s' = s ∧ b = false ∧ ((s.read t k).isSome ∨ s.uniqueness t k v = .taken)) ∨
      (s.lockedByOther t k = false ∧ s.read t k = none ∧ s.uniqueness t k v = .free ∧
        b = true ∧ s' = s.write t k (some v)) := by
  change s.tryInsert t k v = some (b, s') at h
  unfold Db.tryInsert at h
  by_cases hl : s.lockedByOther t k = true
  · simp [hl] at h
  rw [if_neg hl] at h
  by_cases hr : (s.read t k).isSome = true
  · rw [if_pos hr] at h
    obtain ⟨rfl, rfl⟩ := Prod.mk.inj (Option.some.inj h)
    exact .inl ⟨rfl, rfl, .inl hr⟩
  rw [if_neg hr] at h
  rcases hu : s.uniqueness t k v with _ | _ | _
  · simp only [hu] at h
    obtain ⟨rfl, rfl⟩ := Prod.mk.inj (Option.some.inj h)
    exact .inr ⟨by simpa using hl, by simpa using hr, rfl, rfl, rfl⟩
  · simp only [hu] at h
    obtain ⟨rfl, rfl⟩ := Prod.mk.inj (Option.some.inj h)
    exact .inl ⟨rfl, rfl, .inr rfl⟩
  · simp [hu] at h

/-- **What a delete can do**: it changes nothing and answers that there is no such row, or it takes
away the row that `t` sees, which satisfies the condition and is not locked by anybody else. -/
theorem exec_delete_cases {t : T} {k : K} {p : V k → Bool} {s s' : Db T K V M} {b : Option (V k)}
    (h : exec t (.delete k p) s = some (b, s')) :
    (s' = s ∧ b = none) ∨ ∃ r, s.lockedByOther t k = false ∧ s.read t k = some r ∧ p r = true ∧
      b = some r ∧ s' = s.write t k none := by
  change s.tryDelete t k p = some (b, s') at h
  unfold Db.tryDelete at h
  by_cases hw : s.waits t k p = true
  · simp [hw] at h
  rw [if_neg hw] at h
  by_cases hl : s.lockedByOther t k = true
  · rw [if_pos hl] at h
    obtain ⟨rfl, rfl⟩ := Prod.mk.inj (Option.some.inj h)
    exact .inl ⟨rfl, rfl⟩
  rw [if_neg hl] at h
  rcases hr : s.read t k with _ | r
  · simp only [hr] at h
    obtain ⟨rfl, rfl⟩ := Prod.mk.inj (Option.some.inj h)
    exact .inl ⟨rfl, rfl⟩
  by_cases hp : p r = true
  · simp only [hr, if_pos hp] at h
    obtain ⟨rfl, rfl⟩ := Prod.mk.inj (Option.some.inj h)
    exact .inr ⟨r, by simpa using hl, rfl, hp, rfl, rfl⟩
  · simp only [hr, if_neg hp] at h
    obtain ⟨rfl, rfl⟩ := Prod.mk.inj (Option.some.inj h)
    exact .inl ⟨rfl, rfl⟩

/-- **How a statement can change the database**, whatever it answers. -/
inductive Effect (t : T) (s : Db T K V M) : Stmt K V M → Db T K V M → Prop where
  | same (f) : Effect t s f s
  | update {k p f r} (free : s.lockedByOther t k = false) (row : s.read t k = some r)
      (cond : p r = true) (uniq : s.uniqueness t k (f r) = .free) :
      Effect t s (.update k p f) (s.write t k (some (f r)))
  | insert {k v} (free : s.lockedByOther t k = false) (row : s.read t k = none)
      (uniq : s.uniqueness t k v = .free) : Effect t s (.insert k v) (s.write t k (some v))
  | delete {k p r} (free : s.lockedByOther t k = false) (row : s.read t k = some r)
      (cond : p r = true) : Effect t s (.delete k p) (s.write t k none)
  | draw : Effect t s .draw (s.draw t)
  | send (m) : Effect t s (.send m) (s.send m)
  | commit : Effect t s .commit (s.commit t)
  | rollback : Effect t s .rollback (s.rollback t)

/-- An executed statement has its effect. -/
theorem exec_effect {t : T} {f : Stmt K V M} {s s' : Db T K V M} {b : f.Resp T}
    (h : exec t f s = some (b, s')) : Effect t s f s' := by
  cases f with
  | get k | find p | now =>
      obtain ⟨-, rfl⟩ := Prod.mk.inj (Option.some.inj h)
      exact .same _
  | update k p f =>
      rcases exec_update_cases h with ⟨rfl, -⟩ | ⟨rfl, -⟩ | ⟨r, hl, hr, hp, hu, -, rfl⟩
      · exact .same _
      · exact .same _
      · exact .update hl hr hp hu
  | insert k v =>
      rcases exec_insert_cases h with ⟨rfl, -⟩ | ⟨hl, hr, hu, -, rfl⟩
      · exact .same _
      · exact .insert hl hr hu
  | delete k p =>
      rcases exec_delete_cases h with ⟨rfl, -⟩ | ⟨r, hl, hr, hp, -, rfl⟩
      · exact .same _
      · exact .delete hl hr hp
  | draw =>
      obtain ⟨-, rfl⟩ := Prod.mk.inj (Option.some.inj h)
      exact .draw
  | send m =>
      obtain ⟨-, rfl⟩ := Prod.mk.inj (Option.some.inj h)
      exact .send m
  | await m =>
      by_cases hm : m ∈ s.sent
      · simp only [exec, if_pos hm] at h
        obtain ⟨-, rfl⟩ := Prod.mk.inj (Option.some.inj h)
        exact .same _
      · simp only [exec, if_neg hm] at h
        cases h
  | commit =>
      obtain ⟨-, rfl⟩ := Prod.mk.inj (Option.some.inj h)
      exact .commit
  | rollback =>
      obtain ⟨-, rfl⟩ := Prod.mk.inj (Option.some.inj h)
      exact .rollback

/-- Every statement stays inside the frame of its process. -/
theorem Effect.frame {t : T} {f : Stmt K V M} {s s' : Db T K V M} (h : Effect t s f s') :
    Frame t s s' := by
  cases h with
  | same => exact Frame.refl t s
  | update hl => exact Frame.write hl
  | insert hl => exact Frame.write hl
  | delete hl => exact Frame.write hl
  | draw =>
      refine ⟨fun _ _ => rfl, .inl ⟨rfl, rfl⟩, fun t' ht => ?_, ?_, fun _ h => h, rfl⟩
      · exact Function.update_of_ne ht _ _
      · simp [Db.draw]
  | send m =>
      exact ⟨fun _ _ => rfl, .inl ⟨rfl, rfl⟩, fun _ _ => rfl, Nat.le_refl _,
        fun _ h => List.mem_append_left _ h, rfl⟩
  | commit => exact Frame.commit t s
  | rollback => exact Frame.rollback t s

/-- A row that passes the unique indexes clashes with no row that `t` sees, nor with either
version of a row that another transaction is working on. -/
theorem not_clash_of_free {s : Db T K V M} {t : T} {k k' : K} {v : V k} {w : V k'}
    (h : s.uniqueness t k v = .free) (hk : k' ≠ k)
    (hw : s.read t k' = some w ∨
      s.lockedByOther t k' = true ∧ (s.committed k' = some w ∨ s.newest k' = some w)) :
    UniqueIndex.clash k v k' w = false := by
  have key : ∀ o : Option (V k'), Db.clashes k v k' o = false → o = some w →
      UniqueIndex.clash k v k' w = false := by
    rintro o ho rfl
    simpa [Db.clashes, hk] using ho
  unfold Db.uniqueness at h
  split at h
  · cases h
  rename_i h1
  split at h
  · cases h
  rename_i h2
  simp only [Bool.not_eq_true, List.any_eq_false, Bool.and_eq_true, Bool.not_eq_eq_eq_not,
    Bool.not_true, not_and, Bool.or_eq_true, not_or] at h1 h2
  rcases hl : s.lockedByOther t k' with _ | _
  · rcases hw with hw | ⟨hw, -⟩
    · exact key _ (h1 k' (Db.mem_keys_of_read hw) hl) hw
    · rw [hl] at hw
      cases hw
  · obtain ⟨u, hu, hwr⟩ := Db.lockedByOther_eq_true.mp hl
    obtain ⟨hc, hn⟩ := h2 k' (Db.mem_keys_of_writes hwr) hl
    rcases hw with hw | ⟨-, hw | hw⟩
    · rw [Db.read_of_not_writes (Db.writes_eq_none_of_other hwr (Ne.symm hu))] at hw
      exact key _ hc hw
    · exact key _ hc hw
    · exact key _ hn hw

/-! ## Programs -/

/-- A program of process statements that ends with a value of `α` or an exception of `ε`. -/
inductive Prog (T K : Type) (V : K → Type) (M ε α : Type) : Type where
  | pure (a : α)
  | throw (e : ε)
  | op (f : Stmt K V M) (next : f.Resp T → Prog T K V M ε α)

namespace Prog

variable {ε α β : Type}

/-- Sequential composition: an exception skips the rest. -/
def bind : Prog T K V M ε α → (α → Prog T K V M ε β) → Prog T K V M ε β
  | .pure a, g => g a
  | .throw e, _ => .throw e
  | .op f next, g => .op f fun b => (next b).bind g

/-- `try … except`: an exception goes to the handler. -/
def tryCatch : Prog T K V M ε α → (ε → Prog T K V M ε α) → Prog T K V M ε α
  | .pure a, _ => .pure a
  | .throw e, g => g e
  | .op f next, g => .op f fun b => (next b).tryCatch g

instance : Monad (Prog T K V M ε) where
  pure := .pure
  bind := bind

instance : MonadExceptOf ε (Prog T K V M ε) where
  throw := .throw
  tryCatch := tryCatch

/-- One statement as a program. -/
def stmt (f : Stmt K V M) : Prog T K V M ε (f.Resp T) := .op f .pure

/-- Run the body for each element of a list, in order. -/
def each {γ : Type} : List γ → (γ → Prog T K V M ε Unit) → Prog T K V M ε Unit
  | [], _ => .pure ()
  | x :: xs, body => (body x).bind fun _ => each xs body

/-- Run a program alone, with no other process in between; `none` if a statement has to wait. -/
def runAlone (t : T) : Prog T K V M ε α → Db T K V M → Option (Except ε α × Db T K V M)
  | .pure a, s => some (.ok a, s)
  | .throw e, s => some (.error e, s)
  | .op f next, s =>
      match exec t f s with
      | none => none
      | some (b, s') => (next b).runAlone t s'

/-- The first statement, and then the rest. -/
theorem runAlone_op {t : T} {f : Stmt K V M} {next : f.Resp T → Prog T K V M ε α}
    {s s' : Db T K V M} {b : f.Resp T} (h : exec t f s = some (b, s')) :
    (Prog.op f next).runAlone t s = (next b).runAlone t s' := by
  simp only [runAlone, h]

/-- A returned value goes to the continuation. -/
@[simp] theorem pure_bind' (a : α) (g : α → Prog T K V M ε β) :
    (Pure.pure a : Prog T K V M ε α) >>= g = g a := rfl

/-- A statement comes before the continuation. -/
@[simp] theorem op_bind (f : Stmt K V M) (next : f.Resp T → Prog T K V M ε α)
    (g : α → Prog T K V M ε β) : Prog.op f next >>= g = .op f fun b => next b >>= g := rfl

/-- Composition is associative. -/
theorem bind_assoc' {γ : Type} (p : Prog T K V M ε α) (g : α → Prog T K V M ε β)
    (h : β → Prog T K V M ε γ) : (p >>= g) >>= h = p >>= fun a => g a >>= h := by
  change (p.bind g).bind h = p.bind fun a => (g a).bind h
  induction p with
  | pure a => rfl
  | throw e => rfl
  | op f next ih =>
      simp only [bind]
      congr 1
      funext b
      exact ih b

/-! ## The statements that a program can send -/

/-- Every statement that the program can send satisfies `P`, whatever the answers are. -/
def Sends (P : Stmt K V M → Prop) : Prog T K V M ε α → Prop
  | .pure _ | .throw _ => True
  | .op f next => P f ∧ ∀ b, (next b).Sends P

namespace Sends

variable {P P' : Stmt K V M → Prop}

/-- Returning a value sends nothing. -/
@[simp] theorem pure (a : α) : (Pure.pure a : Prog T K V M ε α).Sends P := trivial

/-- Neither does an exception. -/
@[simp] theorem throw (e : ε) : (MonadExcept.throw e : Prog T K V M ε α).Sends P := trivial

/-- One statement is what is sent. -/
theorem stmt {f : Stmt K V M} (h : P f) : (stmt f : Prog T K V M ε (f.Resp T)).Sends P :=
  ⟨h, fun _ => trivial⟩

/-- What every statement satisfies is satisfied by those sent. -/
theorem any (h : ∀ f, P f) : ∀ {p : Prog T K V M ε α}, p.Sends P
  | .pure _ | .throw _ => trivial
  | .op _ _ => ⟨h _, fun _ => any h⟩

/-- A weaker condition on statements. -/
theorem mono (h : ∀ f, P f → P' f) : ∀ {p : Prog T K V M ε α}, p.Sends P → p.Sends P'
  | .pure _, _ | .throw _, _ => trivial
  | .op _ _, hp => ⟨h _ hp.1, fun b => mono h (hp.2 b)⟩

/-- What both parts send, by induction on the first. -/
theorem bind : ∀ {p : Prog T K V M ε α} {g : α → Prog T K V M ε β}, p.Sends P →
    (∀ a, (g a).Sends P) → (p >>= g).Sends P
  | .pure a, _, _, hg => hg a
  | .throw _, _, _, _ => trivial
  | .op _ _, _, hp, hg => ⟨hp.1, fun b => bind (hp.2 b) hg⟩

/-- What the body and the handler send. -/
theorem tryCatch : ∀ {p : Prog T K V M ε α} {g : ε → Prog T K V M ε α}, p.Sends P →
    (∀ e, (g e).Sends P) → (p.tryCatch g).Sends P
  | .pure _, _, _, _ => trivial
  | .throw e, _, _, hg => hg e
  | .op _ _, _, hp, hg => ⟨hp.1, fun b => tryCatch (hp.2 b) hg⟩

/-- A loop sends what its bodies send. -/
theorem each {γ : Type} {body : γ → Prog T K V M ε Unit} :
    ∀ {xs : List γ}, (∀ x ∈ xs, (body x).Sends P) → (Prog.each xs body).Sends P
  | [], _ => trivial
  | x :: _, h => bind (h x List.mem_cons_self) fun _ => each fun y hy => h y (List.mem_cons_of_mem _ hy)

end Sends

/-- A program that runs alone changes the database along every preorder that its statements
follow. -/
theorem Sends.runAlone_rel {P : Stmt K V M → Prop} {t : T} {r : Db T K V M → Db T K V M → Prop}
    (hrefl : ∀ s, r s s) (htrans : ∀ s₁ s₂ s₃, r s₁ s₂ → r s₂ s₃ → r s₁ s₃)
    (hstep : ∀ f, P f → ∀ s b s', exec t f s = some (b, s') → r s s') :
    ∀ {p : Prog T K V M ε α} {s s' : Db T K V M} {a : Except ε α}, p.Sends P →
      p.runAlone t s = some (a, s') → r s s'
  | .pure _, s, _, _, _, h | .throw _, s, _, _, _, h => by
      obtain ⟨-, rfl⟩ := Prod.mk.inj (Option.some.inj h)
      exact hrefl s
  | .op f next, s, s', a, hp, h => by
      rcases he : exec t f s with _ | ⟨b, s₁⟩
      · simp [runAlone, he] at h
      · simp only [runAlone, he] at h
        exact htrans _ _ _ (hstep f hp.1 s b s₁ he)
          (runAlone_rel hrefl htrans hstep (hp.2 b) h)

/-! ## The values that a program can return -/

/-- Every value that the program can return satisfies `Q`, whatever the answers are. -/
def Returns (Q : α → Prop) : Prog T K V M ε α → Prop
  | .pure a => Q a
  | .throw _ => True
  | .op _ next => ∀ b, (next b).Returns Q

namespace Returns

variable {P : Stmt K V M → Prop} {Q : α → Prop} {Q' : β → Prop}

/-- What the second part returns. -/
theorem bind : ∀ {p : Prog T K V M ε α} {g : α → Prog T K V M ε β}, p.Returns Q →
    (∀ a, Q a → (g a).Returns Q') → (p >>= g).Returns Q'
  | .pure a, _, hp, hg => hg a hp
  | .throw _, _, _, _ => trivial
  | .op _ _, _, hp, hg => fun b => bind (hp b) hg

/-- What every value satisfies. -/
theorem any (h : ∀ a, Q a) : ∀ {p : Prog T K V M ε α}, p.Returns Q
  | .pure a => h a
  | .throw _ => trivial
  | .op _ _ => fun _ => any h

/-- What the body or the handler returns. -/
theorem tryCatch : ∀ {p : Prog T K V M ε α} {g : ε → Prog T K V M ε α}, p.Returns Q →
    (∀ e, (g e).Returns Q) → (p.tryCatch g).Returns Q
  | .pure _, _, hp, _ => hp
  | .throw e, _, _, hg => hg e
  | .op _ _, _, hp, hg => fun b => tryCatch (hp b) hg

end Returns

/-! ## The exceptions that a program can raise -/

/-- Every exception that the program can raise satisfies `E`, whatever the answers are. -/
def Raises (E : ε → Prop) : Prog T K V M ε α → Prop
  | .pure _ => True
  | .throw e => E e
  | .op _ next => ∀ b, (next b).Raises E

namespace Raises

variable {E E' : ε → Prop}

/-- The exceptions of either part. -/
theorem bind : ∀ {p : Prog T K V M ε α} {g : α → Prog T K V M ε β}, p.Raises E →
    (∀ a, (g a).Raises E) → (p >>= g).Raises E
  | .pure a, _, _, hg => hg a
  | .throw _, _, hp, _ => hp
  | .op _ _, _, hp, hg => fun b => bind (hp b) hg

/-- The exceptions of the handler, for those of the body. -/
theorem tryCatch : ∀ {p : Prog T K V M ε α} {g : ε → Prog T K V M ε α}, p.Raises E →
    (∀ e, E e → (g e).Raises E') → (p.tryCatch g).Raises E'
  | .pure _, _, _, _ => trivial
  | .throw e, _, hp, hg => hg e hp
  | .op _ _, _, hp, hg => fun b => tryCatch (hp b) hg

end Raises

/-- Sequence, when the second part relies on what the first can return. -/
theorem Sends.bind_of_returns {P : Stmt K V M → Prop} {Q : α → Prop} :
    ∀ {p : Prog T K V M ε α} {g : α → Prog T K V M ε β}, p.Sends P → p.Returns Q →
      (∀ a, Q a → (g a).Sends P) → (p >>= g).Sends P
  | .pure a, _, _, hq, hg => hg a hq
  | .throw _, _, _, _, _ => trivial
  | .op _ _, _, hp, hq, hg => ⟨hp.1, fun b => bind_of_returns (hp.2 b) (hq b) hg⟩

/-! ## The points that a program can reach -/

/-- Every statement of the program, with the rest of the program for each answer, satisfies `Φ`. -/
def Points (Φ : (f : Stmt K V M) → (f.Resp T → Prog T K V M ε α) → Prop) :
    Prog T K V M ε α → Prop
  | .pure _ | .throw _ => True
  | .op f next => Φ f next ∧ ∀ b, (next b).Points Φ

namespace Points

variable {Φ Ψ : (f : Stmt K V M) → (f.Resp T → Prog T K V M ε α) → Prop}

/-- A condition on the statements alone. -/
theorem of_sends {P : Stmt K V M → Prop} (h : ∀ f next, P f → Φ f next) :
    ∀ {p : Prog T K V M ε α}, p.Sends P → p.Points Φ
  | .pure _, _ | .throw _, _ => trivial
  | .op _ _, hp => ⟨h _ _ hp.1, fun b => of_sends h (hp.2 b)⟩

/-- Sequence: the rest of the first part is followed by the second part. -/
theorem bind {Φ : (f : Stmt K V M) → (f.Resp T → Prog T K V M ε β) → Prop} {Q : α → Prop}
    {g : α → Prog T K V M ε β} :
    ∀ {p : Prog T K V M ε α}, (p.Points fun f next => Φ f fun b => next b >>= g) → p.Returns Q →
      (∀ a, Q a → (g a).Points Φ) → (p >>= g).Points Φ
  | .pure a, _, hq, hg => hg a hq
  | .throw _, _, _, _ => trivial
  | .op _ _, hp, hq, hg => ⟨hp.1, fun b => bind (hp.2 b) (hq b) hg⟩

/-- The points of the body, each followed by the handler, and those of the handler. -/
theorem tryCatch {g : ε → Prog T K V M ε α} :
    ∀ {p : Prog T K V M ε α}, (p.Points fun f next => Φ f fun b => (next b).tryCatch g) →
      (∀ e, (g e).Points Φ) → (p.tryCatch g).Points Φ
  | .pure _, _, _ => trivial
  | .throw e, _, hg => hg e
  | .op _ _, hp, hg => ⟨hp.1, fun b => tryCatch (hp.2 b) hg⟩

end Points

end Prog

end Txn
