import Mathlib.Logic.Relation
import SyncBack.Txn.Program

/-!
# Interleaved processes and a rely–guarantee logic for them

A configuration is a database and the rest of the program of every process. A move lets one
process run its next statement, kills a process, or lets time pass; `Config.move` is computable,
so a concrete interleaving is a list of moves.

The logic proves facts about every interleaving one program at a time. A `Contract` fixes the
global invariant `inv`, the two-state guarantee `guar` that every process gives, and the
statements `allowed` in the runs under consideration (`True` for all runs). `Triple` is then
sequential: it walks down one program with an assertion about the database that has to be
*stable*, that is, untouched by whatever the contract lets the others do. Its soundness theorem,
`Verified.move`, puts the processes back together.
-/

set_option linter.unusedSectionVars false

namespace Txn

variable {T K : Type} {V : K → Type} {M ε α : Type} [DecidableEq T] [DecidableEq K]
  [DecidableEq M] [UniqueIndex K V]

/-! ## Configurations -/

/-- A database with its processes; a process that crashed has no program. -/
structure Config (T K : Type) (V : K → Type) (M ε α : Type) where
  db : Db T K V M
  procs : T → Option (Prog T K V M ε α)

/-- What can happen next. -/
inductive Move (T : Type) where
  | act (t : T)
  | crash (t : T)
  | tick (n : ℕ)

/-- Let `n` units of time pass. -/
def Db.tick (s : Db T K V M) (n : ℕ) : Db T K V M := { s with clock := s.clock + n }

namespace Config

/-- Perform a move; `none` if the process has ended or has to wait. A crash closes the
connection of the process, so its transaction is rolled back. -/
def move (c : Config T K V M ε α) : Move T → Option (Config T K V M ε α)
  | .act t =>
      match c.procs t with
      | some (.op f next) =>
          (exec t f c.db).map fun r => ⟨r.2, Function.update c.procs t (some (next r.1))⟩
      | _ => none
  | .crash t => some ⟨c.db.rollback t, Function.update c.procs t none⟩
  | .tick n => some ⟨c.db.tick n, c.procs⟩

/-- The result of a process that has ended. -/
def result (c : Config T K V M ε α) (t : T) : Option (Except ε α) :=
  match c.procs t with
  | some (.pure a) => some (.ok a)
  | some (.throw e) => some (.error e)
  | _ => none

/-- The statement that the move would run is allowed. -/
def Allowed (C : T → Stmt K V M → Db T K V M → Prop) (c : Config T K V M ε α) : Move T → Prop
  | .act t =>
      match c.procs t with
      | some (.op f _) => C t f c.db
      | _ => True
  | _ => True

instance (C : T → Stmt K V M → Db T K V M → Prop) [∀ t f s, Decidable (C t f s)]
    (c : Config T K V M ε α) (m : Move T) : Decidable (c.Allowed C m) :=
  match m with
  | .act t =>
      match h : c.procs t with
      | some (.op f _) => decidable_of_iff (C t f c.db) (by simp [Allowed, h])
      | some (.pure _) | some (.throw _) | none => isTrue (by simp [Allowed, h])
  | .crash _ | .tick _ => isTrue trivial

/-- Perform a list of allowed moves. -/
def run (C : T → Stmt K V M → Db T K V M → Prop) [∀ t f s, Decidable (C t f s)] :
    List (Move T) → Config T K V M ε α → Option (Config T K V M ε α)
  | [], c => some c
  | m :: ms, c => if c.Allowed C m then (c.move m).bind (run C ms) else none

/-- One move in which the statement run is allowed by `C`. -/
def Step (C : T → Stmt K V M → Db T K V M → Prop) (c c' : Config T K V M ε α) : Prop :=
  ∃ m, c.Allowed C m ∧ c.move m = some c'

/-- Any number of moves whose statements are all allowed by `C`. -/
def Steps (C : T → Stmt K V M → Db T K V M → Prop) :
    Config T K V M ε α → Config T K V M ε α → Prop :=
  Relation.ReflTransGen (Step C)

/-- No statement is excluded. -/
def anyStmt : T → Stmt K V M → Db T K V M → Prop := fun _ _ _ => True

instance (t : T) (f : Stmt K V M) (s : Db T K V M) : Decidable (anyStmt t f s) := isTrue trivial

/-- What was run was run in steps, by induction on the moves. -/
theorem steps_of_run {C : T → Stmt K V M → Db T K V M → Prop} [∀ t f s, Decidable (C t f s)] :
    ∀ {ms : List (Move T)} {c c' : Config T K V M ε α}, run C ms c = some c' → Steps C c c'
  | [], c, c', h => by
      cases h
      exact .refl
  | m :: ms, c, c', h => by
      by_cases hal : c.Allowed C m
      · rcases hm : c.move m with _ | c₁
        · simp [run, hm] at h
        · simp only [run, if_pos hal, hm, Option.bind_some] at h
          exact .head ⟨m, hal, hm⟩ (steps_of_run h)
      · simp [run, hal] at h

/-- A concrete run, from a test of the configuration that it ends in. -/
theorem exists_steps_of_run (C : T → Stmt K V M → Db T K V M → Prop) [∀ t f s, Decidable (C t f s)]
    (ms : List (Move T)) (c : Config T K V M ε α) (p : Config T K V M ε α → Bool)
    (h : (run C ms c).any p = true) : ∃ c', Steps C c c' ∧ p c' = true := by
  rcases hr : run C ms c with _ | c'
  · simp [hr] at h
  · rw [hr, Option.any_some] at h
    exact ⟨c', steps_of_run hr, h⟩

/-- The statement that the process sends next. -/
def next (c : Config T K V M ε α) (t : T) : Option (Stmt K V M) :=
  match c.procs t with
  | some (.op f _) => some f
  | _ => none

/-- The next statement of the process is its commit. -/
def commits (c : Config T K V M ε α) (t : T) : Bool :=
  match c.procs t with
  | some (.op .commit _) => true
  | _ => false

/-- A process that is about to commit can, where that is allowed. -/
theorem exists_step_of_commits {C : T → Stmt K V M → Db T K V M → Prop} {c : Config T K V M ε α}
    {t : T} (h : c.commits t = true) (hal : C t .commit c.db) :
    ∃ c', c.Step C c' ∧ c'.db = c.db.commit t := by
  unfold commits at h
  split at h
  · rename_i next hp
    exact ⟨⟨c.db.commit t, Function.update c.procs t (some (next ()))⟩,
      ⟨.act t, by simpa [Allowed, hp] using hal, by simp [move, hp, exec]⟩, rfl⟩
  · cases h

/-- The three forms of a move. -/
theorem move_cases {c c' : Config T K V M ε α} {m : Move T} (h : c.move m = some c') :
    (∃ t f next b, m = .act t ∧ c.procs t = some (.op f next) ∧ exec t f c.db = some (b, c'.db) ∧
      c'.procs = Function.update c.procs t (some (next b))) ∨
    (∃ t, m = .crash t ∧ c'.db = c.db.rollback t ∧ c'.procs = Function.update c.procs t none) ∨
    (∃ n, m = .tick n ∧ c'.db = c.db.tick n ∧ c'.procs = c.procs) := by
  cases m with
  | act t =>
      rcases hp : c.procs t with _ | p
      · simp [move, hp] at h
      cases p with
      | pure a => simp [move, hp] at h
      | throw e => simp [move, hp] at h
      | op f next =>
          rcases he : exec t f c.db with _ | ⟨b, db'⟩
          · simp [move, hp, he] at h
          · simp only [move, hp, he, Option.map_some, Option.some.injEq] at h
            subst h
            exact .inl ⟨t, f, next, b, rfl, hp, he, rfl⟩
  | crash t =>
      cases h
      exact .inr (.inl ⟨t, rfl, rfl, rfl⟩)
  | tick n =>
      cases h
      exact .inr (.inr ⟨n, rfl, rfl, rfl⟩)

/-- A move of a process stays inside its frame. -/
theorem frame_of_act {c c' : Config T K V M ε α} {t : T} (h : c.move (.act t) = some c') :
    Frame t c.db c'.db := by
  rcases move_cases h with ⟨u, f, next, b, hu, -, he, -⟩ | ⟨u, hu, -⟩ | ⟨n, hn, -⟩
  · cases hu
    exact (exec_effect he).frame
  · cases hu
  · cases hn

/-- A process waits, or its program goes on with an answer. -/
theorem procs_of_step {C : T → Stmt K V M → Db T K V M → Prop} {c c' : Config T K V M ε α} {t : T}
    {p : Prog T K V M ε α} (hs : c.Step C c') (hp : c'.procs t = some p) :
    c.procs t = some p ∨ ∃ f next b, c.procs t = some (.op f next) ∧ p = next b := by
  obtain ⟨m, -, hm⟩ := hs
  rcases move_cases hm with ⟨u, f, next, b, rfl, hu, -, hps⟩ | ⟨u, rfl, -, hps⟩ | ⟨n, rfl, -, hps⟩
  all_goals rw [hps] at hp
  · by_cases hut : t = u
    · subst hut
      rw [Function.update_self] at hp
      exact .inr ⟨f, next, b, hu, (Option.some.inj hp).symm⟩
    · rw [Function.update_of_ne hut] at hp
      exact .inl hp
  · by_cases hut : t = u
    · subst hut
      rw [Function.update_self] at hp
      cases hp
    · rw [Function.update_of_ne hut] at hp
      exact .inl hp
  · exact .inl hp

/-- Wherever a process gets to, its program was there from the start. -/
theorem points_of_steps {C : T → Stmt K V M → Db T K V M → Prop} {c c' : Config T K V M ε α} {t : T}
    {F : (f : Stmt K V M) → (f.Resp T → Prog T K V M ε α) → Prop} (hs : c.Steps C c')
    (h : ∀ p, c.procs t = some p → p.Points F) : ∀ p, c'.procs t = some p → p.Points F := by
  induction hs with
  | refl => exact h
  | tail _ hstep ih =>
      intro p hp
      rcases procs_of_step hstep hp with hwait | ⟨f, next, b, hact, rfl⟩
      · exact ih p hwait
      · exact (ih _ hact).2 b

end Config

/-! ## Contracts -/

/-- What holds of the database at any time, what each step does to it, and which statements are
considered. A crash and the passing of time respect both. -/
structure Contract (T K : Type) (V : K → Type) (M : Type) [DecidableEq T] where
  inv : Db T K V M → Prop
  guar : T → Db T K V M → Db T K V M → Prop
  allowed : T → Stmt K V M → Db T K V M → Prop
  guar_refl : ∀ t s, inv s → guar t s s
  rollback : ∀ t s, inv s → inv (s.rollback t) ∧ guar t s (s.rollback t)
  tick : ∀ n s, inv s → inv (s.tick n)

/-- A postcondition, by the way the program ends. -/
def ending (Q : α → Db T K V M → Prop) (E : ε → Db T K V M → Prop) :
    Except ε α → Db T K V M → Prop
  | .ok a => Q a
  | .error e => E e

namespace Contract

variable (R : Contract T K V M)

/-- **Stability**: neither another process nor the clock makes the assertion false. -/
structure Stable (t : T) (P : Db T K V M → Prop) : Prop where
  other : ∀ t' s s', t' ≠ t → R.inv s → R.inv s' → Frame t' s s' → R.guar t' s s' → P s → P s'
  tick : ∀ n s, R.inv s → P s → P (s.tick n)

/-- **A program of process `t` from `P` to `Q`**: every allowed statement keeps the invariant and
gives the guarantee, whatever the others did before it, and the rest of the program goes on from
a stable assertion. -/
def Triple (t : T) : Prog T K V M ε α → (Db T K V M → Prop) → (Except ε α → Db T K V M → Prop) → Prop
  | .pure a, P, Q => ∀ s, R.inv s → P s → Q (.ok a) s
  | .throw e, P, Q => ∀ s, R.inv s → P s → Q (.error e) s
  | .op f next, P, Q => ∀ s, R.inv s → P s → R.allowed t f s → ∀ b s', exec t f s = some (b, s') →
      R.inv s' ∧ R.guar t s s' ∧ ∃ P', R.Stable t P' ∧ P' s' ∧ Triple t (next b) P' Q

/-- Every live process of the configuration is at a verified point of its program. -/
def Verified (Q : T → Except ε α → Db T K V M → Prop) (c : Config T K V M ε α) : Prop :=
  R.inv c.db ∧ ∀ t p, c.procs t = some p → ∃ P, R.Stable t P ∧ P c.db ∧ R.Triple t p P (Q t)

variable {R}

/-- **Soundness, one move**: an allowed move keeps the configuration verified. -/
theorem Verified.step {Q : T → Except ε α → Db T K V M → Prop} {c c' : Config T K V M ε α}
    (h : R.Verified Q c) (hs : c.Step R.allowed c') : R.Verified Q c' := by
  obtain ⟨m, hal, hm⟩ := hs
  obtain ⟨hinv, hprocs⟩ := h
  rcases Config.move_cases hm with ⟨t, f, next, b, rfl, hp, he, hps⟩ | ⟨t, rfl, hdb, hps⟩ |
    ⟨n, rfl, hdb, hps⟩
  · obtain ⟨P, -, hP, htr⟩ := hprocs t _ hp
    simp only [Config.Allowed, hp] at hal
    obtain ⟨hinv', hguar, P', hst', hP', htr'⟩ := htr _ hinv hP hal b _ he
    refine ⟨hinv', fun u p hu => ?_⟩
    rw [hps] at hu
    by_cases hut : u = t
    · subst hut
      rw [Function.update_self] at hu
      cases hu
      exact ⟨P', hst', hP', htr'⟩
    · rw [Function.update_of_ne hut] at hu
      obtain ⟨Pu, hstu, hPu, htru⟩ := hprocs u p hu
      exact ⟨Pu, hstu,
        hstu.other t _ _ (Ne.symm hut) hinv hinv' (exec_effect he).frame hguar hPu, htru⟩
  · obtain ⟨hinv', hguar⟩ := R.rollback t _ hinv
    rw [← hdb] at hinv' hguar
    refine ⟨hinv', fun u p hu => ?_⟩
    rw [hps] at hu
    by_cases hut : u = t
    · subst hut
      rw [Function.update_self] at hu
      cases hu
    · rw [Function.update_of_ne hut] at hu
      obtain ⟨Pu, hstu, hPu, htru⟩ := hprocs u p hu
      refine ⟨Pu, hstu, hstu.other t _ _ (Ne.symm hut) hinv hinv' ?_ hguar hPu, htru⟩
      rw [hdb]
      exact Frame.rollback t _
  · have hinv' := R.tick n _ hinv
    rw [← hdb] at hinv'
    refine ⟨hinv', fun u p hu => ?_⟩
    rw [hps] at hu
    obtain ⟨Pu, hstu, hPu, htru⟩ := hprocs u p hu
    refine ⟨Pu, hstu, ?_, htru⟩
    rw [hdb]
    exact hstu.tick n _ hinv hPu

/-- **Soundness, whole runs.** -/
theorem Verified.steps {Q : T → Except ε α → Db T K V M → Prop} {c c' : Config T K V M ε α}
    (h : R.Verified Q c) (hs : c.Steps R.allowed c') : R.Verified Q c' := by
  induction hs with
  | refl => exact h
  | tail _ hstep ih => exact ih.step hstep

/-- The invariant holds in every configuration a verified one leads to. -/
theorem Verified.inv {Q : T → Except ε α → Db T K V M → Prop} {c : Config T K V M ε α}
    (h : R.Verified Q c) : R.inv c.db := h.1

/-- A process that has ended satisfies its postcondition, then and ever after. -/
theorem Verified.result {Q : T → Except ε α → Db T K V M → Prop} {c : Config T K V M ε α}
    (h : R.Verified Q c) {t : T} {r : Except ε α} (hr : c.result t = some r) : Q t r c.db := by
  unfold Config.result at hr
  split at hr
  · rename_i a hp
    cases hr
    obtain ⟨P, -, hP, htr⟩ := h.2 t _ hp
    exact htr _ h.1 hP
  · rename_i e hp
    cases hr
    obtain ⟨P, -, hP, htr⟩ := h.2 t _ hp
    exact htr _ h.1 hP
  · cases hr

/-- What one move of a verified configuration does to its database. -/
theorem Verified.step_cases {Q : T → Except ε α → Db T K V M → Prop} {c c' : Config T K V M ε α}
    (h : R.Verified Q c) (hs : c.Step R.allowed c') :
    (∃ t, Frame t c.db c'.db ∧ R.guar t c.db c'.db) ∨ ∃ n, c'.db = c.db.tick n := by
  obtain ⟨m, hal, hm⟩ := hs
  obtain ⟨hinv, hprocs⟩ := h
  rcases Config.move_cases hm with ⟨t, f, next, b, rfl, hp, he, -⟩ | ⟨t, rfl, hdb, -⟩ |
    ⟨n, rfl, hdb, -⟩
  · obtain ⟨P, -, hP, htr⟩ := hprocs t _ hp
    simp only [Config.Allowed, hp] at hal
    obtain ⟨-, hguar, -⟩ := htr _ hinv hP hal b _ he
    exact .inl ⟨t, (exec_effect he).frame, hguar⟩
  · refine .inl ⟨t, ?_, ?_⟩
    · rw [hdb]
      exact Frame.rollback t _
    · rw [hdb]
      exact (R.rollback t _ hinv).2
  · exact .inr ⟨n, hdb⟩

/-- **Two-state properties of runs**: a reflexive and transitive relation that every guaranteed
step and every tick satisfies relates any two databases of a run. -/
theorem Verified.steps_rel {Q : T → Except ε α → Db T K V M → Prop} {c c' : Config T K V M ε α}
    {r : Db T K V M → Db T K V M → Prop} (h : R.Verified Q c) (hs : c.Steps R.allowed c')
    (hrefl : ∀ s, r s s) (htrans : ∀ s₁ s₂ s₃, r s₁ s₂ → r s₂ s₃ → r s₁ s₃)
    (hguar : ∀ t s s', R.inv s → R.inv s' → Frame t s s' → R.guar t s s' → r s s')
    (htick : ∀ n s, R.inv s → r s (s.tick n)) : r c.db c'.db := by
  induction hs with
  | refl => exact hrefl _
  | tail hpre hstep ih =>
      have hv := h.steps hpre
      refine htrans _ _ _ ih ?_
      rcases hv.step_cases hstep with ⟨t, hf, hg⟩ | ⟨n, hn⟩
      · exact hguar t _ _ hv.1 (hv.step hstep).1 hf hg
      · rw [hn]
        exact htick n _ hv.1

/-! ## Stable assertions -/

namespace Stable

variable {t : T}

/-- What does not depend on the database is stable. -/
theorem const (p : Prop) : R.Stable t fun _ => p := ⟨fun _ _ _ _ _ _ _ _ h => h, fun _ _ _ h => h⟩

/-- So are two stable conditions together. -/
theorem and {P P' : Db T K V M → Prop} (h : R.Stable t P) (h' : R.Stable t P') :
    R.Stable t fun s => P s ∧ P' s :=
  ⟨fun u s s' hu hi hi' hf hg hp =>
      ⟨h.other u s s' hu hi hi' hf hg hp.1, h'.other u s s' hu hi hi' hf hg hp.2⟩,
    fun n s hi hp => ⟨h.tick n s hi hp.1, h'.tick n s hi hp.2⟩⟩

/-- So is a family of them. -/
theorem all {γ : Sort*} {P : γ → Db T K V M → Prop} (h : ∀ x, R.Stable t (P x)) :
    R.Stable t fun s => ∀ x, P x s :=
  ⟨fun u s s' hu hi hi' hf hg hp x => (h x).other u s s' hu hi hi' hf hg (hp x),
    fun n s hi hp x => (h x).tick n s hi (hp x)⟩

/-- So is one of a family. -/
theorem exists_ {γ : Sort*} {P : γ → Db T K V M → Prop} (h : ∀ x, R.Stable t (P x)) :
    R.Stable t fun s => ∃ x, P x s :=
  ⟨fun u s s' hu hi hi' hf hg ⟨x, hp⟩ => ⟨x, (h x).other u s s' hu hi hi' hf hg hp⟩,
    fun n s hi ⟨x, hp⟩ => ⟨x, (h x).tick n s hi hp⟩⟩

/-- The versions that `t` has written are its own business. -/
theorem writes (p : ((k : K) → Option (Option (V k))) → Prop) :
    R.Stable t fun s => p (s.writes t) :=
  ⟨fun _ _ _ hu _ _ hf _ h => by rw [hf.writes t (Ne.symm hu)]; exact h, fun _ _ _ h => h⟩

/-- An assertion about the versions that `t` has written. -/
theorem of_writes {P : Db T K V M → Prop}
    (h : ∀ s s' : Db T K V M, s'.writes t = s.writes t → P s → P s') : R.Stable t P :=
  ⟨fun _ s s' hu _ _ hf _ hp => h s s' (hf.writes t (Ne.symm hu)) hp,
    fun _ s _ hp => h s _ rfl hp⟩

/-- No step of another process writes for `t`. -/
theorem idle : R.Stable t fun s => s.Idle t :=
  of_writes fun s s' h hp k => by rw [h]; exact hp k

/-- The identifiers that `t` has drawn are its own business. -/
theorem drawn (p : ℕ → Prop) : R.Stable t fun s => p (s.drawn t) :=
  ⟨fun _ _ _ hu _ _ hf _ h => by rw [hf.drawn t (Ne.symm hu)]; exact h, fun _ _ _ h => h⟩

/-- A message stays with the broker. -/
theorem sent (m : M) : R.Stable t fun s => m ∈ s.sent :=
  ⟨fun _ _ _ _ _ _ hf _ h => hf.sent m h, fun _ _ _ h => h⟩

/-- The committed row under a lock of `t` does not change. -/
theorem locked (k : K) (p : Option (V k) → Option (Option (V k)) → Prop) :
    R.Stable t fun s => s.writes t k ≠ none ∧ p (s.committed k) (s.writes t k) :=
  ⟨fun _ _ _ hu _ _ hf _ h => by
      rw [hf.writes t (Ne.symm hu), hf.committed_of_locked hu h.1]
      exact h,
    fun _ _ _ h => h⟩

end Stable

/-! ## Rules -/

section rules

variable {t : T} {β : Type} {P P' A : Db T K V M → Prop} {Q Q' : Except ε α → Db T K V M → Prop}

/-- Consequence. -/
theorem Triple.mono : ∀ {p : Prog T K V M ε α} {P P' : Db T K V M → Prop}, R.Triple t p P' Q →
    (∀ s, R.inv s → P s → P' s) → (∀ r s, R.inv s → Q r s → Q' r s) → R.Triple t p P Q'
  | .pure _, _, _, h, hP, hQ => fun s hi hp => hQ _ s hi (h s hi (hP s hi hp))
  | .throw _, _, _, h, hP, hQ => fun s hi hp => hQ _ s hi (h s hi (hP s hi hp))
  | .op _ next, _, _, h, hP, hQ => fun s hi hp hal b s' he => by
      obtain ⟨hinv, hguar, P₁, hst, hP₁, htr⟩ := h s hi (hP s hi hp) hal b s' he
      exact ⟨hinv, hguar, P₁, hst, hP₁, Triple.mono htr (fun _ _ h => h) hQ⟩

/-- A rule of consequence. -/
theorem Triple.pre {p : Prog T K V M ε α} (h : R.Triple t p P' Q) (hP : ∀ s, R.inv s → P s → P' s) :
    R.Triple t p P Q :=
  h.mono hP fun _ _ _ h => h

/-- A fact that is not about the database. -/
theorem Triple.fact {F : Prop} : ∀ {p : Prog T K V M ε α}, (F → R.Triple t p P Q) →
    R.Triple t p (fun s => F ∧ P s) Q
  | .pure _, h => fun s hi hp => h hp.1 s hi hp.2
  | .throw _, h => fun s hi hp => h hp.1 s hi hp.2
  | .op _ _, h => fun s hi hp => h hp.1 s hi hp.2

/-- Sequence: an exception of the first part is an exception of the whole. -/
theorem Triple.bind : ∀ {p : Prog T K V M ε α} {P : Db T K V M → Prop}
    {g : α → Prog T K V M ε β} {J : Except ε α → Db T K V M → Prop}
    {Q : Except ε β → Db T K V M → Prop}, R.Triple t p P J →
    (∀ a, R.Triple t (g a) (J (.ok a)) Q) →
    (∀ e s, R.inv s → J (.error e) s → Q (.error e) s) → R.Triple t (p >>= g) P Q
  | .pure a, _, _, _, _, h, hg, _ => (hg a).pre h
  | .throw _, _, _, _, _, h, _, he => fun s hi hp => he _ s hi (h s hi hp)
  | .op f next, _, g, _, Q, h, hg, he => by
      intro s hi hp hal b s' hex
      obtain ⟨hinv, hguar, P₁, hst, hP₁, htr⟩ := h s hi hp hal b s' hex
      exact ⟨hinv, hguar, P₁, hst, hP₁, Triple.bind htr hg he⟩

/-- Sequence, when nothing is said of how the whole ends. -/
theorem Triple.seq {p : Prog T K V M ε α} {g : α → Prog T K V M ε β}
    {J : Except ε α → Db T K V M → Prop} (h : R.Triple t p P J)
    (hg : ∀ a, R.Triple t (g a) (J (.ok a)) fun _ _ => True) :
    R.Triple t (p >>= g) P fun _ _ => True :=
  h.bind hg fun _ _ _ _ => trivial

/-- An exception handler. -/
theorem Triple.tryCatch : ∀ {p : Prog T K V M ε α} {P : Db T K V M → Prop}
    {g : ε → Prog T K V M ε α} {J Q : Except ε α → Db T K V M → Prop}, R.Triple t p P J →
    (∀ a s, R.inv s → J (.ok a) s → Q (.ok a) s) →
    (∀ e, R.Triple t (g e) (J (.error e)) Q) → R.Triple t (p.tryCatch g) P Q
  | .pure a, _, _, _, _, h, ha, _ => fun s hi hp => ha a s hi (h s hi hp)
  | .throw e, _, _, _, _, h, _, hg => (hg e).pre h
  | .op f next, _, g, _, Q, h, ha, hg => by
      intro s hi hp hal b s' hex
      obtain ⟨hinv, hguar, P₁, hst, hP₁, htr⟩ := h s hi hp hal b s' hex
      exact ⟨hinv, hguar, P₁, hst, hP₁, Triple.tryCatch htr ha hg⟩

/-- What a program can return is known whatever the database is. -/
theorem Triple.and_returns {A : α → Prop} : ∀ {p : Prog T K V M ε α} {P : Db T K V M → Prop},
    R.Triple t p P Q → p.Returns A →
      R.Triple t p P (ending (fun a s => Q (.ok a) s ∧ A a) fun e => Q (.error e))
  | .pure _, _, h, ha => fun s hi hp => ⟨h s hi hp, ha⟩
  | .throw _, _, h, _ => h
  | .op _ _, _, h, ha => fun s hi hp hal b s' he => by
      obtain ⟨hinv, hguar, P₁, hst, hP₁, htr⟩ := h s hi hp hal b s' he
      exact ⟨hinv, hguar, P₁, hst, hP₁, Triple.and_returns htr (ha b)⟩

/-- What a program can raise is known whatever the database is. -/
theorem Triple.and_raises {E : ε → Prop} : ∀ {p : Prog T K V M ε α} {P : Db T K V M → Prop},
    R.Triple t p P Q → p.Raises E →
      R.Triple t p P (ending (fun a => Q (.ok a)) fun e s => Q (.error e) s ∧ E e)
  | .pure _, _, h, _ => h
  | .throw _, _, h, he => fun s hi hp => ⟨h s hi hp, he⟩
  | .op _ _, _, h, he => fun s hi hp hal b s' hex => by
      obtain ⟨hinv, hguar, P₁, hst, hP₁, htr⟩ := h s hi hp hal b s' hex
      exact ⟨hinv, hguar, P₁, hst, hP₁, Triple.and_raises htr (he b)⟩

/-- An assertion that nobody can make false goes with any program. -/
theorem Triple.frame {I : Db T K V M → Prop} (hst : R.Stable t I)
    (hown : ∀ s s', R.inv s → R.inv s' → Frame t s s' → I s → I s') :
    ∀ {p : Prog T K V M ε α} {P : Db T K V M → Prop}, R.Triple t p P Q →
      R.Triple t p (fun s => P s ∧ I s) fun r s => Q r s ∧ I s
  | .pure _, _, h => fun s hi hp => ⟨h s hi hp.1, hp.2⟩
  | .throw _, _, h => fun s hi hp => ⟨h s hi hp.1, hp.2⟩
  | .op _ _, _, h => fun s hi hp hal b s' he => by
      obtain ⟨hinv, hguar, P₁, hst₁, hP₁, htr⟩ := h s hi hp.1 hal b s' he
      exact ⟨hinv, hguar, _, hst₁.and hst, ⟨hP₁, hown s s' hi hinv (exec_effect he).frame hp.2⟩,
        Triple.frame hst hown htr⟩

/-- A loop over a list keeps a stable loop invariant. -/
theorem Triple.each {γ : Type} {body : γ → Prog T K V M ε Unit} {L : Db T K V M → Prop}
    {E : ε → Db T K V M → Prop} :
    ∀ (xs : List γ), (∀ x ∈ xs, R.Triple t (body x) L (ending (fun _ => L) E)) →
      R.Triple t (Prog.each xs body) L (ending (fun _ => L) E)
  | [], _ => fun _ _ h => h
  | x :: xs, h =>
      (h x List.mem_cons_self).bind (fun _ => Triple.each xs fun y hy => h y (List.mem_cons_of_mem _ hy))
        fun _ _ _ h => h

/-- A statement that changes nothing: what is learnt from its answer has to be stable. -/
theorem Triple.read {f : Stmt K V M} {next : f.Resp T → Prog T K V M ε α}
    {A : f.Resp T → Db T K V M → Prop}
    (hsame : ∀ b s s', exec t f s = some (b, s') → s' = s)
    (hst : ∀ b, R.Stable t (A b))
    (hP : ∀ b s, R.inv s → P s → exec t f s = some (b, s) → A b s)
    (hnext : ∀ b, R.Triple t (next b) (A b) Q) : R.Triple t (.op f next) P Q := by
  intro s hi hp _ b s' he
  obtain rfl := hsame b s s' he
  exact ⟨hi, R.guar_refl t _ hi, A b, hst b, hP b _ hi hp he, hnext b⟩

/-- Reading a row. -/
theorem Triple.get {k : K} {next : Option (V k) → Prog T K V M ε α}
    {A : Option (V k) → Db T K V M → Prop} (hst : ∀ v, R.Stable t (A v))
    (hP : ∀ s, R.inv s → P s → A (s.read t k) s)
    (hnext : ∀ v, R.Triple t (next v) (A v) Q) : R.Triple t (.op (.get k) next) P Q := by
  refine Triple.read (fun b s s' h => ?_) hst (fun b s hi hp h => ?_) hnext
  · exact (Prod.mk.inj (Option.some.inj h)).2.symm
  · obtain rfl := (Prod.mk.inj (Option.some.inj h)).1
    exact hP s hi hp

/-- Reading the rows that satisfy a condition. -/
theorem Triple.find {p : (k : K) → V k → Bool} {next : List (Sigma V) → Prog T K V M ε α}
    {A : List (Sigma V) → Db T K V M → Prop} (hst : ∀ v, R.Stable t (A v))
    (hP : ∀ s, R.inv s → P s → A (s.select t p) s)
    (hnext : ∀ v, R.Triple t (next v) (A v) Q) : R.Triple t (.op (.find p) next) P Q := by
  refine Triple.read (fun b s s' h => ?_) hst (fun b s hi hp h => ?_) hnext
  · exact (Prod.mk.inj (Option.some.inj h)).2.symm
  · obtain rfl := (Prod.mk.inj (Option.some.inj h)).1
    exact hP s hi hp

/-- Reading the clock. -/
theorem Triple.now {next : ℕ → Prog T K V M ε α} (hst : R.Stable t P)
    (hnext : ∀ n, R.Triple t (next n) P Q) : R.Triple t (.op .now next) P Q := by
  refine Triple.read (A := fun _ => P) (fun b s s' h => ?_) (fun _ => hst)
    (fun _ _ _ hp _ => hp) hnext
  exact (Prod.mk.inj (Option.some.inj h)).2.symm

/-- Ending the transaction without keeping its writes. -/
theorem Triple.rollback {next : Unit → Prog T K V M ε α} (hst : R.Stable t A)
    (hP : ∀ s, R.inv s → P s → A (s.rollback t))
    (hnext : R.Triple t (next ()) A Q) : R.Triple t (.op .rollback next) P Q := by
  intro s hi hp _ b s' he
  obtain rfl := (Prod.mk.inj (Option.some.inj he)).2
  exact ⟨(R.rollback t s hi).1, (R.rollback t s hi).2, A, hst, hP s hi hp, hnext⟩

/-- A conditional update: either nothing changed, or the row that `t` sees, which satisfied the
condition and is locked by nobody else, was rewritten. -/
theorem Triple.update {k : K} {p : V k → Bool} {f : V k → V k}
    {next : Outcome (V k) → Prog T K V M ε α} {A : Outcome (V k) → Db T K V M → Prop}
    (hst : ∀ o, R.Stable t (A o))
    (hmiss : ∀ s, R.inv s → P s → (∀ r, s.read t k = some r → p r = false) → A .missed s)
    (hviol : ∀ s r, R.inv s → P s → s.read t k = some r → p r = true →
      s.uniqueness t k (f r) = .taken → A .violated s)
    (hdone : ∀ s r, R.inv s → P s → R.allowed t (.update k p f) s → s.lockedByOther t k = false →
      s.read t k = some r → p r = true → s.uniqueness t k (f r) = .free →
      R.inv (s.write t k (some (f r))) ∧ R.guar t s (s.write t k (some (f r))) ∧
        A (.updated (f r)) (s.write t k (some (f r))))
    (hnext : ∀ o, R.Triple t (next o) (A o) Q) : R.Triple t (.op (.update k p f) next) P Q := by
  intro s hi hp hal b s' he
  rcases exec_update_cases he with ⟨rfl, rfl, hm⟩ | ⟨rfl, rfl, r, hr, hpr, hu⟩ |
    ⟨r, hl, hr, hpr, hu, rfl, rfl⟩
  · exact ⟨hi, R.guar_refl t _ hi, A .missed, hst _, hmiss _ hi hp hm, hnext _⟩
  · exact ⟨hi, R.guar_refl t _ hi, A .violated, hst _, hviol _ r hi hp hr hpr hu, hnext _⟩
  · obtain ⟨hinv, hguar, hA⟩ := hdone s r hi hp hal hl hr hpr hu
    exact ⟨hinv, hguar, A (.updated (f r)), hst _, hA, hnext _⟩

/-- An insert: it is refused, or a row is added where `t` saw none. -/
theorem Triple.insert {k : K} {v : V k} {next : Bool → Prog T K V M ε α}
    {A : Bool → Db T K V M → Prop} (hst : ∀ b, R.Stable t (A b))
    (hfail : ∀ s, R.inv s → P s → ((s.read t k).isSome ∨ s.uniqueness t k v = .taken) → A false s)
    (hdone : ∀ s, R.inv s → P s → R.allowed t (.insert k v) s → s.lockedByOther t k = false →
      s.read t k = none → s.uniqueness t k v = .free →
      R.inv (s.write t k (some v)) ∧ R.guar t s (s.write t k (some v)) ∧
        A true (s.write t k (some v)))
    (hnext : ∀ b, R.Triple t (next b) (A b) Q) : R.Triple t (.op (.insert k v) next) P Q := by
  intro s hi hp hal b s' he
  rcases exec_insert_cases he with ⟨rfl, rfl, hf⟩ | ⟨hl, hr, hu, rfl, rfl⟩
  · exact ⟨hi, R.guar_refl t _ hi, A false, hst _, hfail _ hi hp hf, hnext _⟩
  · obtain ⟨hinv, hguar, hA⟩ := hdone s hi hp hal hl hr hu
    exact ⟨hinv, hguar, A true, hst _, hA, hnext _⟩

/-- Drawing an identifier. -/
theorem Triple.draw {next : T × ℕ → Prog T K V M ε α} {A : T × ℕ → Db T K V M → Prop}
    (hst : ∀ x, R.Stable t (A x))
    (hdone : ∀ s, R.inv s → P s →
      R.inv (s.draw t) ∧ R.guar t s (s.draw t) ∧ A (t, s.drawn t) (s.draw t))
    (hnext : ∀ x, R.Triple t (next x) (A x) Q) : R.Triple t (.op .draw next) P Q := by
  intro s hi hp _ b s' he
  obtain ⟨rfl, rfl⟩ := Prod.mk.inj (Option.some.inj he)
  obtain ⟨hinv, hguar, hA⟩ := hdone s hi hp
  exact ⟨hinv, hguar, _, hst _, hA, hnext _⟩

/-- Handing a message to the broker. -/
theorem Triple.send {m : M} {next : Unit → Prog T K V M ε α} (hst : R.Stable t A)
    (hdone : ∀ s, R.inv s → P s → R.inv (s.send m) ∧ R.guar t s (s.send m) ∧ A (s.send m))
    (hnext : R.Triple t (next ()) A Q) : R.Triple t (.op (.send m) next) P Q := by
  intro s hi hp _ b s' he
  obtain rfl := (Prod.mk.inj (Option.some.inj he)).2
  obtain ⟨hinv, hguar, hA⟩ := hdone s hi hp
  exact ⟨hinv, hguar, _, hst, hA, hnext⟩

/-- Waiting for a message. -/
theorem Triple.await {m : M} {next : Unit → Prog T K V M ε α} (hst : R.Stable t P)
    (hnext : R.Triple t (next ()) (fun s => P s ∧ m ∈ s.sent) Q) :
    R.Triple t (.op (.await m) next) P Q := by
  intro s hi hp _ b s' he
  have hm : m ∈ s.sent := by
    by_contra hm
    simp [exec, hm] at he
  simp only [exec, if_pos hm] at he
  obtain rfl := (Prod.mk.inj (Option.some.inj he)).2
  exact ⟨hi, R.guar_refl t _ hi, _, hst.and (Stable.sent m), ⟨hp, hm⟩, hnext⟩

/-- Making the writes of the transaction the committed rows. -/
theorem Triple.commit {next : Unit → Prog T K V M ε α} (hst : R.Stable t A)
    (hdone : ∀ s, R.inv s → P s → R.allowed t .commit s →
      R.inv (s.commit t) ∧ R.guar t s (s.commit t) ∧ A (s.commit t))
    (hnext : R.Triple t (next ()) A Q) : R.Triple t (.op .commit next) P Q := by
  intro s hi hp hal b s' he
  obtain rfl := (Prod.mk.inj (Option.some.inj he)).2
  obtain ⟨hinv, hguar, hA⟩ := hdone s hi hp hal
  exact ⟨hinv, hguar, A, hst, hA, hnext⟩

/-- **A program by its statements alone**: if every statement that satisfies `F` keeps a stable
assertion, so does a program that sends only such statements. -/
theorem Triple.of_sends {F : Stmt K V M → Prop} {L : Db T K V M → Prop} (hst : R.Stable t L)
    (hstep : ∀ f, F f → ∀ s, R.inv s → L s → R.allowed t f s → ∀ b s', exec t f s = some (b, s') →
      R.inv s' ∧ R.guar t s s' ∧ L s') :
    ∀ {p : Prog T K V M ε α}, p.Sends F → R.Triple t p L fun _ => L
  | .pure _, _ => fun _ _ hl => hl
  | .throw _, _ => fun _ _ hl => hl
  | .op f next, hp => fun s hi hl hal b s' he => by
      obtain ⟨hinv, hguar, hl'⟩ := hstep f hp.1 s hi hl hal b s' he
      exact ⟨hinv, hguar, L, hst, hl', Triple.of_sends hst hstep (hp.2 b)⟩

end rules

end Contract

end Txn
