import Mathlib.Init

/-!
# Programs of commands

A program over a signature `R` gives commands `c` and goes on with their answers, of type `R c`. What
the commands mean is left open: the answers may come from anywhere. What can be said all the same is
which commands are given, and after which answers.

* `Prog.Always F G p es` — after the commands and answers `es`, whatever the answers are: `F` holds of
  the commands and answers so far wherever the program stands, and `G` of its result and of all of
  them where it ends. `es` has the latest command first.
-/

namespace Effects

variable {C : Type} {R : C → Type} {ε α β : Type}

/-- A program that ends with a value of `α` or an exception of `ε`. -/
inductive Prog {C : Type} (R : C → Type) (ε α : Type) : Type where
  | pure (a : α)
  | throw (e : ε)
  | op (c : C) (next : R c → Prog R ε α)

namespace Prog

/-- Sequential composition: an exception skips the rest. -/
def bind : Prog R ε α → (α → Prog R ε β) → Prog R ε β
  | .pure a, g => g a
  | .throw e, _ => .throw e
  | .op c next, g => .op c fun r => (next r).bind g

/-- `try … except`: an exception goes to the handler. -/
def tryCatch : Prog R ε α → (ε → Prog R ε α) → Prog R ε α
  | .pure a, _ => .pure a
  | .throw e, g => g e
  | .op c next, g => .op c fun r => (next r).tryCatch g

instance : Monad (Prog R ε) where
  pure := .pure
  bind := bind

instance : MonadExceptOf ε (Prog R ε) where
  throw := .throw
  tryCatch := tryCatch

/-- One command as a program. -/
def call (c : C) : Prog R ε (R c) := .op c .pure

/-! ## What a program does, whatever the answers -/

/-- **Wherever the program stands, `F` holds of what it did, and `G` where it ends.** -/
def Always (F : List (Sigma R) → Prop) (G : Except ε α → List (Sigma R) → Prop) :
    Prog R ε α → List (Sigma R) → Prop
  | .pure a, es => F es ∧ G (.ok a) es
  | .throw e, es => F es ∧ G (.error e) es
  | .op c next, es => F es ∧ ∀ r, (next r).Always F G (⟨c, r⟩ :: es)

variable {F : List (Sigma R) → Prop} {G : Except ε α → List (Sigma R) → Prop}

/-- The condition holds where the program stands. -/
theorem Always.here {p : Prog R ε α} {es : List (Sigma R)} (h : p.Always F G es) : F es := by
  cases p <;> exact h.1

/-- A rule of consequence. -/
theorem Always.mono {F' : List (Sigma R) → Prop} {G' : Except ε α → List (Sigma R) → Prop}
    (hF : ∀ es, F es → F' es) (hG : ∀ r es, G r es → G' r es) :
    ∀ {p : Prog R ε α} {es : List (Sigma R)}, p.Always F G es → p.Always F' G' es
  | .pure _, _, h | .throw _, _, h => ⟨hF _ h.1, hG _ _ h.2⟩
  | .op _ _, _, h => ⟨hF _ h.1, fun r => Always.mono hF hG (h.2 r)⟩

/-- What happens after a value, by way of what holds where it is returned. -/
theorem Always.bind {G : Except ε β → List (Sigma R) → Prop} {A : α → List (Sigma R) → Prop}
    {E : ε → List (Sigma R) → Prop} {g : α → Prog R ε β}
    (hg : ∀ a es, F es → A a es → (g a).Always F G es) (he : ∀ e es, E e es → G (.error e) es) :
    ∀ {p : Prog R ε α} {es : List (Sigma R)},
      p.Always F (fun r es => match r with
        | .ok a => A a es
        | .error e => E e es) es → (p >>= g).Always F G es
  | .pure a, es, h => hg a es h.1 h.2
  | .throw e, es, h => ⟨h.1, he e es h.2⟩
  | .op _ _, _, h => ⟨h.1, fun r => Always.bind hg he (h.2 r)⟩

/-- An exception goes to the handler, by way of what holds where it is raised. -/
theorem Always.tryCatch {E : ε → List (Sigma R) → Prop} {g : ε → Prog R ε α}
    (hg : ∀ e es, F es → E e es → (g e).Always F G es) :
    ∀ {p : Prog R ε α} {es : List (Sigma R)},
      p.Always F (fun r es => match r with
        | .ok a => G (.ok a) es
        | .error e => E e es) es → (p.tryCatch g).Always F G es
  | .pure _, _, h => h
  | .throw e, es, h => hg e es h.1 h.2
  | .op _ _, _, h => ⟨h.1, fun r => Always.tryCatch hg (h.2 r)⟩

/-- The value is turned into another one. -/
theorem Always.map {G' : Except ε β → List (Sigma R) → Prop} {f : α → β}
    (hok : ∀ a es, G (.ok a) es → G' (.ok (f a)) es)
    (herror : ∀ e es, G (.error e) es → G' (.error e) es) :
    ∀ {p : Prog R ε α} {es : List (Sigma R)}, p.Always F G es →
      (p >>= fun a => pure (f a)).Always F G' es
  | .pure _, _, h => ⟨h.1, hok _ _ h.2⟩
  | .throw _, _, h => ⟨h.1, herror _ _ h.2⟩
  | .op _ _, _, h => ⟨h.1, fun r => Always.map hok herror (h.2 r)⟩

/-- One command, then the rest. -/
theorem Always.call {G : Except ε β → List (Sigma R) → Prop} {c : C} {g : R c → Prog R ε β}
    {es : List (Sigma R)} (h : F es) (hg : ∀ r, (g r).Always F G (⟨c, r⟩ :: es)) :
    ((call c : Prog R ε (R c)) >>= g).Always F G es :=
  ⟨h, hg⟩

end Prog

end Effects
