import SyncBack.Effects.Program

/-!
# Programs with a state of their own

`Prog.Reaches` lists the steps of a run, and `Prog.Under` is what holds of every run whose steps are
all allowed: `F` after each of them, and `G` at the end.

`Stateful` are programs over a variable that keeps its value when an exception is raised, as the
attributes of an object do. `Stateful.Triple` is the logic of pre- and postconditions for them; a
condition speaks about the variable and about the history of commands and answers, and there is one
postcondition for values and one for exceptions.
-/

namespace Effects

variable {C : Type} {R : C → Type} {σ ε α β : Type}

/-- The commands given and their answers, the latest first. -/
abbrev History (R : C → Type) := List (Sigma R)

/-! ## Runs -/

/-- The run of a program gets to another one, with the history it has then. -/
inductive Prog.Reaches (p : Prog R ε α) (es : History R) : Prog R ε α → History R → Prop
  | refl : Reaches p es p es
  | step {c : C} {next : R c → Prog R ε α} {es' : History R} (h : Reaches p es (.op c next) es')
      (r : R c) : Reaches p es (next r) (⟨c, r⟩ :: es')

/-- Every step of the history is allowed. -/
def Meets (A : History R → Prop) : History R → Prop
  | [] => True
  | e :: es => A (e :: es) ∧ Meets A es

/-- Whatever the allowed answers are: `F` holds after each of them, and `G` at the end. -/
def Prog.Under (A F : History R → Prop) (G : Except ε α → History R → Prop) :
    Prog R ε α → History R → Prop
  | .pure a, es => G (.ok a) es
  | .throw e, es => G (.error e) es
  | .op c next, es =>
      ∀ r, A (⟨c, r⟩ :: es) → F (⟨c, r⟩ :: es) ∧ (next r).Under A F G (⟨c, r⟩ :: es)

namespace Prog

variable {A F : History R → Prop} {G : Except ε α → History R → Prop}

/-- **What holds after every allowed step of a run.** -/
theorem Under.reaches {p q : Prog R ε α} {es : History R} (h : p.Under A F G [])
    (hnil : F []) (hreaches : p.Reaches [] q es) (hmeets : Meets A es) :
    F es ∧ q.Under A F G es := by
  induction hreaches with
  | refl => exact ⟨hnil, h⟩
  | step _ r ih => exact (ih hmeets.2).2 r hmeets.1

/-- A rule of consequence. -/
theorem Under.mono {G' : Except ε α → History R → Prop} (hG : ∀ r es, G r es → G' r es) :
    ∀ {p : Prog R ε α} {es : History R}, p.Under A F G es → p.Under A F G' es
  | .pure _, _, h | .throw _, _, h => hG _ _ h
  | .op _ _, _, h => fun r hr => ⟨(h r hr).1, Under.mono hG (h r hr).2⟩

/-- One part after another, by induction on the first. -/
theorem Under.bind {G : Except ε β → History R → Prop} {g : α → Prog R ε β} :
    ∀ {p : Prog R ε α} {es : History R},
      p.Under A F (fun r es => match r with
        | .ok a => (g a).Under A F G es
        | .error e => G (.error e) es) es → (p.bind g).Under A F G es
  | .pure _, _, h | .throw _, _, h => h
  | .op _ _, _, h => fun r hr => ⟨(h r hr).1, Under.bind (h r hr).2⟩

end Prog

/-! ## A variable that survives exceptions -/

/-- A program over a variable of `σ`, with a value or an exception at its end. -/
def Stateful (R : C → Type) (σ ε α : Type) : Type := σ → Prog R Empty (Except ε α × σ)

namespace Stateful

/-- One program after another: an exception skips the rest. -/
def bind (x : Stateful R σ ε α) (f : α → Stateful R σ ε β) : Stateful R σ ε β := fun s =>
  (x s).bind fun
    | (.ok a, s) => f a s
    | (.error e, s) => .pure (.error e, s)

/-- `try … except`. -/
def tryCatch (x : Stateful R σ ε α) (handler : ε → Stateful R σ ε α) : Stateful R σ ε α := fun s =>
  (x s).bind fun
    | (.ok a, s) => .pure (.ok a, s)
    | (.error e, s) => handler e s

instance : Monad (Stateful R σ ε) where
  pure a := fun s => .pure (.ok a, s)
  bind := bind

instance : MonadExceptOf ε (Stateful R σ ε) where
  throw e := fun s => .pure (.error e, s)
  tryCatch := tryCatch

/-- One command. -/
def call (c : C) : Stateful R σ ε (R c) := fun s => .op c fun r => .pure (.ok r, s)

/-- Change the variable. -/
def modify (f : σ → σ) : Stateful R σ ε Unit := fun s => .pure (.ok (), f s)

/-- Read the variable and change it. -/
def modifyGet (f : σ → α × σ) : Stateful R σ ε α := fun s => .pure (.ok (f s).1, (f s).2)

/-! ## Pre- and postconditions -/

/-- A condition on the variable and the history. -/
abbrev Assertion (R : C → Type) (σ : Type) := σ → History R → Prop

/-- The postcondition for values, and the one for exceptions. -/
def ending (Q : α → Assertion R σ) (E : ε → Assertion R σ) :
    Except Empty (Except ε α × σ) → History R → Prop
  | .ok (.ok a, s), es => Q a s es
  | .ok (.error e, s), es => E e s es
  | .error e, _ => nomatch e

/-- **From `P` the program ends with `Q` or raises with `E`**, and `F` holds after each step. -/
def Triple (A F : History R → Prop) (P : Assertion R σ) (x : Stateful R σ ε α)
    (Q : α → Assertion R σ) (E : ε → Assertion R σ) : Prop :=
  ∀ s es, P s es → (x s).Under A F (ending Q E) es

namespace Triple

variable {A F : History R → Prop} {P P' : Assertion R σ} {E E' : ε → Assertion R σ}

/-- Returning a value. -/
theorem pure {a : α} {Q : α → Assertion R σ} (h : ∀ s es, P s es → Q a s es) :
    Triple A F P (Pure.pure a : Stateful R σ ε α) Q E := h

/-- Raising an exception. -/
theorem throw {e : ε} {Q : α → Assertion R σ} (h : ∀ s es, P s es → E e s es) :
    Triple A F P (MonadExcept.throw e : Stateful R σ ε α) Q E := h

/-- A change of the state. -/
theorem modify {f : σ → σ} {Q : Unit → Assertion R σ} (h : ∀ s es, P s es → Q () (f s) es) :
    Triple A F P (Stateful.modify f : Stateful R σ ε Unit) Q E := h

/-- A change of the state with a result. -/
theorem modifyGet {f : σ → α × σ} {Q : α → Assertion R σ}
    (h : ∀ s es, P s es → Q (f s).1 (f s).2 es) :
    Triple A F P (Stateful.modifyGet f : Stateful R σ ε α) Q E := h

/-- One call, whatever is answered. -/
theorem call {c : C} {Q : R c → Assertion R σ}
    (h : ∀ s es r, P s es → A (⟨c, r⟩ :: es) → F (⟨c, r⟩ :: es) ∧ Q r s (⟨c, r⟩ :: es)) :
    Triple A F P (Stateful.call c : Stateful R σ ε (R c)) Q E :=
  fun s es hs r hr => h s es r hs hr

/-- One part after another. -/
theorem bind {x : Stateful R σ ε α} {f : α → Stateful R σ ε β} {M : α → Assertion R σ}
    {Q : β → Assertion R σ} (hx : Triple A F P x M E) (hf : ∀ a, Triple A F (M a) (f a) Q E) :
    Triple A F P (x >>= f) Q E := by
  intro s es hs
  refine Prog.Under.bind (Prog.Under.mono ?_ (hx s es hs))
  rintro (e | ⟨a | a, s'⟩) es' h
  · exact e.elim
  · exact h
  · exact hf a s' es' h

/-- An exception goes to the handler, with the state that it leaves. -/
theorem tryCatch {x : Stateful R σ ε α} {handler : ε → Stateful R σ ε α} {Q : α → Assertion R σ}
    (hx : Triple A F P x Q E) (hhandler : ∀ e, Triple A F (E e) (handler e) Q E') :
    Triple A F P (MonadExcept.tryCatch x handler) Q E' := by
  intro s es hs
  refine Prog.Under.bind (Prog.Under.mono ?_ (hx s es hs))
  rintro (e | ⟨e | a, s'⟩) es' h
  · exact e.elim
  · exact hhandler e s' es' h
  · exact h

/-- A rule of consequence. -/
theorem mono {x : Stateful R σ ε α} {Q Q' : α → Assertion R σ} (hx : Triple A F P' x Q' E')
    (hP : ∀ s es, P s es → P' s es) (hQ : ∀ a s es, Q' a s es → Q a s es)
    (hE : ∀ e s es, E' e s es → E e s es) : Triple A F P x Q E := by
  intro s es hs
  refine Prog.Under.mono ?_ (hx s es (hP s es hs))
  rintro (e | ⟨e | a, s'⟩) es' h
  · exact e.elim
  · exact hE e s' es' h
  · exact hQ a s' es' h

end Triple

end Stateful

end Effects
