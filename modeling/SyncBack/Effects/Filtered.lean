import Mathlib.Logic.Function.Basic
import SyncBack.Effects.Program

/-!
# Programs behind a filter

A filter stands between a program and the answers to its commands: it keeps a state of its own and
may give the program another answer than the one that came. The commands go through as they are.

`Prog.After p t q` is a run of `p` that stands at `q` after the commands and answers `t`, the earliest
first. `after_filtered` says what the runs of a filtered program are: the runs of the program itself,
on the answers that the filter shows. `after_bind` cuts the run of a composed program where its first
part ends.
-/

namespace Effects

variable {C : Type} {R R' : C → Type} {σ ε ε' α β : Type}

namespace Prog

/-! ## Runs from the beginning -/

/-- After the commands and answers `t` the program stands at `q`. -/
inductive After : Prog R ε α → List (Sigma R) → Prog R ε α → Prop
  | nil (p : Prog R ε α) : After p [] p
  | cons {c : C} {next : R c → Prog R ε α} {t : List (Sigma R)} {q : Prog R ε α} (r : R c)
      (h : After (next r) t q) : After (.op c next) (⟨c, r⟩ :: t) q

/-- The program that has ended so. -/
def ofResult : Except ε α → Prog R ε α
  | .ok a => .pure a
  | .error e => .throw e

/-- The run `t` ends with `r`. -/
def Ends (p : Prog R ε α) (t : List (Sigma R)) (r : Except ε α) : Prop := p.After t (ofResult r)

/-- After no command the program stands where it began. -/
@[simp] theorem after_nil_iff {p q : Prog R ε α} : p.After [] q ↔ q = p := by
  constructor
  · intro h
    cases h
    rfl
  · rintro rfl
    exact .nil q

/-- A program that has returned gives no command. -/
@[simp] theorem pure_after_iff {a : α} {t : List (Sigma R)} {q : Prog R ε α} :
    (Prog.pure a : Prog R ε α).After t q ↔ t = [] ∧ q = .pure a := by
  constructor
  · intro h
    cases h
    exact ⟨rfl, rfl⟩
  · rintro ⟨rfl, rfl⟩
    exact .nil _

/-- Neither does one that has raised. -/
@[simp] theorem throw_after_iff {e : ε} {t : List (Sigma R)} {q : Prog R ε α} :
    (Prog.throw e : Prog R ε α).After t q ↔ t = [] ∧ q = .throw e := by
  constructor
  · intro h
    cases h
    exact ⟨rfl, rfl⟩
  · rintro ⟨rfl, rfl⟩
    exact .nil _

/-- A command is answered, or not yet. -/
@[simp] theorem op_after_iff {c : C} {next : R c → Prog R ε α} {t : List (Sigma R)}
    {q : Prog R ε α} : (Prog.op c next).After t q ↔
      (t = [] ∧ q = .op c next) ∨ ∃ r t', t = ⟨c, r⟩ :: t' ∧ (next r).After t' q := by
  constructor
  · intro h
    cases h with
    | nil => exact .inl ⟨rfl, rfl⟩
    | cons r h => exact .inr ⟨r, _, rfl, h⟩
  · rintro (⟨rfl, rfl⟩ | ⟨r, t', rfl, h⟩)
    · exact .nil _
    · exact .cons r h

/-- A program that has ended gives no command. -/
@[simp] theorem ofResult_after_iff {r : Except ε α} {t : List (Sigma R)} {q : Prog R ε α} :
    (ofResult r).After t q ↔ t = [] ∧ q = ofResult r := by
  cases r with
  | ok a => exact pure_after_iff
  | error e => exact throw_after_iff

/-- Programs that have ended differ by their results. -/
theorem ofResult_injective : Function.Injective (ofResult : Except ε α → Prog R ε α) := by
  intro r r' h
  cases r <;> cases r' <;> cases h <;> rfl

/-- A program that has ended ends so. -/
theorem ofResult_ends_iff {r r' : Except ε α} {t : List (Sigma R)} :
    (ofResult r).Ends t r' ↔ t = [] ∧ r' = r :=
  ofResult_after_iff.trans (and_congr_right fun _ => ofResult_injective.eq_iff)

/-- A run of one program after another: it is still in the first one, or that one has ended. -/
theorem after_bind {p : Prog R ε α} {g : α → Prog R ε β} {t : List (Sigma R)} {q : Prog R ε β} :
    (p.bind g).After t q ↔
      (∃ p', p.After t p' ∧ q = p'.bind g) ∨
      ∃ a t₁ t₂, t = t₁ ++ t₂ ∧ p.After t₁ (.pure a) ∧ (g a).After t₂ q := by
  constructor
  · intro h
    induction p generalizing t with
    | pure a => exact .inr ⟨a, [], t, rfl, .nil _, h⟩
    | throw e =>
        obtain ⟨rfl, rfl⟩ := throw_after_iff.mp h
        exact .inl ⟨.throw e, .nil _, rfl⟩
    | op c next ih =>
        rcases op_after_iff.mp h with ⟨rfl, rfl⟩ | ⟨r, t', rfl, hnext⟩
        · exact .inl ⟨.op c next, .nil _, rfl⟩
        · rcases ih r hnext with ⟨p', hp', rfl⟩ | ⟨a, t₁, t₂, rfl, ht₁, ht₂⟩
          · exact .inl ⟨p', .cons r hp', rfl⟩
          · exact .inr ⟨a, ⟨c, r⟩ :: t₁, t₂, rfl, .cons r ht₁, ht₂⟩
  · rintro (⟨p', h, rfl⟩ | ⟨a, t₁, t₂, rfl, ht₁, ht₂⟩)
    · induction h with
      | nil => exact .nil _
      | cons r _ ih => exact .cons r ih
    · generalize hp' : Prog.pure a = p' at ht₁
      induction ht₁ with
      | nil =>
          subst hp'
          exact ht₂
      | cons r _ ih => exact .cons r (ih hp')

end Prog

/-! ## Filters -/

/-- What stands between a program over `R'` and answers of `R`. -/
structure Filter (R R' : C → Type) (σ : Type) where
  /-- The state after the command was answered so. -/
  next (s : σ) (c : C) (r : R c) : σ
  /-- The answer that the program gets. -/
  shown (s : σ) (c : C) (r : R c) : R' c

namespace Filter

variable (f : Filter R R' σ)

/-- The state after a run. -/
def after (s : σ) : List (Sigma R) → σ
  | [] => s
  | e :: t => after (f.next s e.1 e.2) t

/-- The run as the program sees it. -/
def seen (s : σ) : List (Sigma R) → List (Sigma R')
  | [] => []
  | e :: t => ⟨e.1, f.shown s e.1 e.2⟩ :: seen (f.next s e.1 e.2) t

/-- The commands go through. -/
theorem map_fst_seen (s : σ) (t : List (Sigma R)) :
    (f.seen s t).map Sigma.fst = t.map Sigma.fst := by
  induction t generalizing s with
  | nil => rfl
  | cons e t ih => exact congrArg (e.1 :: ·) (ih _)

end Filter

/-- The program behind the filter, with the state of the filter at its end. -/
def Prog.filtered (f : Filter R R' σ) : Prog R' ε α → σ → Prog R ε' (Except ε α × σ)
  | .pure a, s => .pure (.ok a, s)
  | .throw e, s => .pure (.error e, s)
  | .op c next, s => .op c fun r => (next (f.shown s c r)).filtered f (f.next s c r)

/-- **The runs of a filtered program are the runs of the program, on the answers shown to it.** -/
theorem Prog.after_filtered {f : Filter R R' σ} {p : Prog R' ε α} {s : σ} {t : List (Sigma R)}
    {q : Prog R ε' (Except ε α × σ)} : (p.filtered f s).After t q ↔
      ∃ p', p.After (f.seen s t) p' ∧ q = p'.filtered f (f.after s t) := by
  induction t generalizing p s with
  | nil =>
      constructor
      · intro h
        exact ⟨p, .nil p, after_nil_iff.mp h⟩
      · rintro ⟨p', h, rfl⟩
        rw [after_nil_iff.mp h]
        exact .nil _
  | cons e t ih =>
      cases p with
      | pure a => simp [filtered, Filter.seen]
      | throw x => simp [filtered, Filter.seen]
      | op c next =>
          constructor
          · intro h
            cases h with
            | cons r h =>
                obtain ⟨p', hp', rfl⟩ := ih.mp h
                exact ⟨p', .cons _ hp', rfl⟩
          · rintro ⟨p', h, rfl⟩
            cases e with
            | mk c' r =>
                generalize hseen : f.seen s (⟨c', r⟩ :: t) = t' at h
                cases h with
                | nil => cases hseen
                | cons r' h =>
                    cases hseen
                    exact .cons r (ih.mpr ⟨p', h, rfl⟩)

variable {f : Filter R R' σ} {p : Prog R' ε α} {s : σ} {t : List (Sigma R)}

/-- Behind the filter a program has ended where it has ended itself. -/
theorem Prog.filtered_eq_pure_iff {x : Except ε α × σ} :
    (Prog.pure x : Prog R ε' (Except ε α × σ)) = p.filtered f s ↔ p = .ofResult x.1 ∧ x.2 = s := by
  obtain ⟨r, s'⟩ := x
  cases p <;> cases r <;> simp [filtered, ofResult, eq_comm]

/-- A filtered program raises nothing: its exceptions are results. -/
theorem Prog.filtered_ne_throw {e : ε'} :
    (Prog.throw e : Prog R ε' (Except ε α × σ)) ≠ p.filtered f s := by
  cases p <;> simp [filtered]

/-- A run of what comes after a filtered program: that program is still running, or has ended. -/
theorem Prog.after_filtered_bind {g : Except ε α × σ → Prog R ε' β} {q : Prog R ε' β} :
    ((p.filtered f s).bind g).After t q ↔
      (∃ p', p.After (f.seen s t) p' ∧ q = (p'.filtered f (f.after s t)).bind g) ∨
      ∃ x t₁ t₂, t = t₁ ++ t₂ ∧ p.Ends (f.seen s t₁) x ∧ (g (x, f.after s t₁)).After t₂ q := by
  rw [after_bind]
  constructor
  · rintro (⟨p', hp', rfl⟩ | ⟨⟨x, s'⟩, t₁, t₂, rfl, ht₁, ht₂⟩)
    · obtain ⟨p'', hp'', rfl⟩ := after_filtered.mp hp'
      exact .inl ⟨p'', hp'', rfl⟩
    · obtain ⟨p', hp', hpure⟩ := after_filtered.mp ht₁
      obtain ⟨rfl, rfl⟩ := filtered_eq_pure_iff.mp hpure
      exact .inr ⟨x, t₁, t₂, rfl, hp', ht₂⟩
  · rintro (⟨p', hp', rfl⟩ | ⟨x, t₁, t₂, rfl, hx, ht₂⟩)
    · exact .inl ⟨_, after_filtered.mpr ⟨p', hp', rfl⟩, rfl⟩
    · exact .inr ⟨(x, f.after s t₁), t₁, t₂, rfl,
        after_filtered.mpr ⟨_, hx, filtered_eq_pure_iff.mpr ⟨rfl, rfl⟩⟩, ht₂⟩

/-- The finished runs of what comes after a filtered program. -/
theorem Prog.ends_filtered_bind {g : Except ε α × σ → Prog R ε' β} {r : Except ε' β} :
    ((p.filtered f s).bind g).Ends t r ↔
      ∃ x t₁ t₂, t = t₁ ++ t₂ ∧ p.Ends (f.seen s t₁) x ∧ (g (x, f.after s t₁)).Ends t₂ r := by
  refine after_filtered_bind.trans ⟨?_, .inr⟩
  rintro (⟨p', hp', hend⟩ | h)
  · generalize hq : p'.filtered f (f.after s t) = q at hend
    cases q with
    | pure x =>
        obtain ⟨rfl, hs⟩ := filtered_eq_pure_iff.mp hq.symm
        refine ⟨x.1, t, [], (List.append_nil t).symm, hp', ?_⟩
        rw [← hs]
        exact after_nil_iff.mpr hend
    | throw e => exact absurd hq.symm filtered_ne_throw
    | op c next => cases r <;> cases hend
  · exact h

end Effects
