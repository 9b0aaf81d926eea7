import Mathlib.Logic.Function.Basic
import Mathlib.Logic.Relation

/-!
# Programs over a database and an object store

A program changes two stores that have no transaction in common: a **database** `D`, of which the
open transaction has a working copy until it commits, and a **store of objects** named by `O`,
where every change is final. Any call may raise, and the program may stop before any call.

The failure branch is part of the syntax: a program is a tree in which every call is followed by
what happens after its answer and by what happens when it raises; `handle` replaces the raised
exceptions at the leaves, so handlers need no semantics of their own. What a transaction asks of the
database before its commit is a `Query`, which has no access to the objects.

* `Prog.Ends p s r s'` — the program can end in `s'` from `s`: with the result `r`, or, when `r` is
  `none`, because it was stopped;
* `Prog.run` — what the program does when no call raises;
* `Prog.Safe I p s Q` — `I` holds wherever the program can stop or end, and `Q` where it ends. It is
  computed by walking through the program, and `Ends.safe` says that it is right.
-/

namespace TwoStores

variable {D O ε ε' α β : Type} [DecidableEq O]

/-- The two stores, and the working copy of the open transaction. -/
structure Stores (D O : Type) where
  committed : D
  working : D
  objects : O → Bool

/-- The calls of a program. -/
inductive Call (D O : Type) where
  /-- Read the working copy. -/
  | read
  /-- Change the working copy. -/
  | write (f : D → D)
  | commit
  | rollback
  /-- Store an object. -/
  | put (k : O)
  /-- Remove an object, if it is there. -/
  | remove (k : O)
  /-- Ask whether an object is there. -/
  | get (k : O)

/-- The answer to a call. -/
def Call.Resp : Call D O → Type
  | .read => D
  | .get _ => Bool
  | .write _ | .commit | .rollback | .put _ | .remove _ => Unit

namespace Stores

/-- No transaction is open. -/
def close (s : Stores D O) : Stores D O := { s with working := s.committed }

/-- The objects after one was stored. -/
def put (s : Stores D O) (k : O) : Stores D O :=
  { s with objects := Function.update s.objects k true }

/-- The objects after one was removed. -/
def remove (s : Stores D O) (k : O) : Stores D O :=
  { s with objects := Function.update s.objects k false }

end Stores

namespace Call

/-- What a call does. -/
def perform : Call D O → Stores D O → Stores D O
  | .read, s => s
  | .write f, s => { s with working := f s.working }
  | .commit, s => { s with committed := s.working }
  | .rollback, s => s.close
  | .put k, s => s.put k
  | .remove k, s => s.remove k
  | .get _, s => s

/-- What a call answers. -/
def answer (s : Stores D O) : (c : Call D O) → c.Resp
  | .read => s.working
  | .get k => s.objects k
  | .write _ | .commit | .rollback | .put _ | .remove _ => ()

/-- What a call that raises leaves behind: a call to the database has done nothing, a call to the
object store may have been carried out all the same. -/
inductive Fails : Call D O → Stores D O → Stores D O → Prop
  | before (c s) : Fails c s s
  | put (k s) : Fails (.put k) s (s.put k)
  | remove (k s) : Fails (.remove k) s (s.remove k)

section

variable {s s' : Stores D O}

/-- A call that raises has done nothing, or has stored or removed its object. -/
theorem fails_iff {c : Call D O} : c.Fails s s' ↔
    s' = s ∨ ∃ k, (c = .put k ∧ s' = s.put k) ∨ (c = .remove k ∧ s' = s.remove k) := by
  constructor
  · rintro (_ | k | k)
    · exact .inl rfl
    · exact .inr ⟨k, .inl ⟨rfl, rfl⟩⟩
    · exact .inr ⟨k, .inr ⟨rfl, rfl⟩⟩
  · rintro (rfl | ⟨k, ⟨rfl, rfl⟩ | ⟨rfl, rfl⟩⟩)
    · exact .before _ _
    · exact .put _ _
    · exact .remove _ _

/-- A read that raises has done nothing. -/
@[simp] theorem fails_read : Fails (.read : Call D O) s s' ↔ s' = s := by simp [fails_iff]

/-- Neither has a write. -/
@[simp] theorem fails_write {f : D → D} : Fails (.write f : Call D O) s s' ↔ s' = s := by
  simp [fails_iff]

/-- Neither has a commit. -/
@[simp] theorem fails_commit : Fails (.commit : Call D O) s s' ↔ s' = s := by simp [fails_iff]

/-- Neither has a rollback. -/
@[simp] theorem fails_rollback : Fails (.rollback : Call D O) s s' ↔ s' = s := by simp [fails_iff]

/-- Neither has a query for an object. -/
@[simp] theorem fails_get {k : O} : Fails (.get k : Call D O) s s' ↔ s' = s := by simp [fails_iff]

/-- An object may have been stored although `put` raises. -/
@[simp] theorem fails_put {k : O} : Fails (.put k : Call D O) s s' ↔ s' = s ∨ s' = s.put k := by
  simp [fails_iff]

/-- An object may have been removed although `remove` raises. -/
@[simp] theorem fails_remove {k : O} :
    Fails (.remove k : Call D O) s s' ↔ s' = s ∨ s' = s.remove k := by
  simp [fails_iff]

end

end Call

/-- A program of calls that ends with a value of `α` or an exception of `ε`. -/
inductive Prog (D O ε α : Type) : Type where
  | pure (a : α)
  | throw (e : ε)
  | op (c : Call D O) (next : c.Resp → Prog D O ε α) (fail : Prog D O ε α)

namespace Prog

/-- Sequential composition: an exception skips the rest. -/
def bind : Prog D O ε α → (α → Prog D O ε β) → Prog D O ε β
  | .pure a, g => g a
  | .throw e, _ => .throw e
  | .op c next fail, g => .op c (fun b => (next b).bind g) (fail.bind g)

/-- `try … except`: an exception goes to the handler. -/
def handle : Prog D O ε α → (ε → Prog D O ε' α) → Prog D O ε' α
  | .pure a, _ => .pure a
  | .throw e, g => g e
  | .op c next fail, g => .op c (fun b => (next b).handle g) (fail.handle g)

instance : Monad (Prog D O ε) where
  pure := .pure
  bind := bind

instance : MonadExceptOf ε (Prog D O ε) where
  throw := .throw
  tryCatch := handle

/-- One call, which raises `e` when it fails. -/
def call (e : ε) (c : Call D O) : Prog D O ε c.Resp := .op c .pure (.throw e)

/-- Run the body for each element of a list, in order. -/
def each {γ : Type} : List γ → (γ → Prog D O ε Unit) → Prog D O ε Unit
  | [], _ => .pure ()
  | x :: xs, body => (body x).bind fun _ => each xs body

/-! ## Runs -/

/-- What the program does when no call raises. -/
def run : Prog D O ε α → Stores D O → Except ε α × Stores D O
  | .pure a, s => (.ok a, s)
  | .throw e, s => (.error e, s)
  | .op c next _, s => (next (c.answer s)).run (c.perform s)

/-- **The ways in which a program can end.** -/
inductive Ends : Prog D O ε α → Stores D O → Option (Except ε α) → Stores D O → Prop
  | pure (a s) : Ends (.pure a) s (some (.ok a)) s
  | throw (e s) : Ends (.throw e) s (some (.error e)) s
  | ok {c next fail s r s'} (h : Ends (next (c.answer s)) (c.perform s) r s') :
      Ends (.op c next fail) s r s'
  | fail {c next fail s s₁ r s'} (hfail : c.Fails s s₁) (h : Ends fail s₁ r s') :
      Ends (.op c next fail) s r s'
  | stop (p s) : Ends p s none s

/-- A program can end as it does when no call raises. -/
theorem ends_run : ∀ (p : Prog D O ε α) (s : Stores D O), p.Ends s (some (p.run s).1) (p.run s).2
  | .pure a, s => .pure a s
  | .throw e, s => .throw e s
  | .op _ next _, _ => .ok (ends_run (next _) _)

/-- One part after another. -/
theorem run_bind : ∀ (p : Prog D O ε α) (g : α → Prog D O ε β) (s : Stores D O),
    (p >>= g).run s = match p.run s with
      | (.ok a, s') => (g a).run s'
      | (.error e, s') => (.error e, s')
  | .pure _, _, _ | .throw _, _, _ => rfl
  | .op _ next _, g, _ => run_bind (next _) g _

/-- An exception goes to the handler. -/
theorem run_handle : ∀ (p : Prog D O ε α) (g : ε → Prog D O ε' α) (s : Stores D O),
    (p.handle g).run s = match p.run s with
      | (.ok a, s') => (.ok a, s')
      | (.error e, s') => (g e).run s'
  | .pure _, _, _ | .throw _, _, _ => rfl
  | .op _ next _, g, _ => run_handle (next _) g _

/-! ## Safety -/

/-- A postcondition, by the way the program ends. -/
def ending (A : α → Stores D O → Prop) (E : ε → Stores D O → Prop) :
    Except ε α → Stores D O → Prop
  | .ok a => A a
  | .error e => E e

/-- **Wherever the program can stop or end, `I` holds, and `Q` where it ends.** -/
def Safe (I : Stores D O → Prop) :
    Prog D O ε α → Stores D O → (Except ε α → Stores D O → Prop) → Prop
  | .pure a, s, Q => I s ∧ Q (.ok a) s
  | .throw e, s, Q => I s ∧ Q (.error e) s
  | .op c next fail, s, Q => I s ∧ (next (c.answer s)).Safe I (c.perform s) Q ∧
      ∀ s', c.Fails s s' → fail.Safe I s' Q

variable {I : Stores D O → Prop} {Q : Except ε α → Stores D O → Prop} {s : Stores D O}

/-- The invariant holds where the program begins. -/
theorem Safe.inv {p : Prog D O ε α} (h : p.Safe I s Q) : I s := by
  cases p <;> exact h.1

/-- **Soundness.** -/
theorem Ends.safe {p : Prog D O ε α} {s s' : Stores D O} {r : Option (Except ε α)}
    (h : p.Ends s r s') (hp : p.Safe I s Q) : I s' ∧ ∀ x, r = some x → Q x s' := by
  induction h with
  | pure a s | throw e s => exact ⟨hp.1, fun x hx => Option.some.inj hx ▸ hp.2⟩
  | ok h ih => exact ih hp.2.1
  | fail hfail h ih => exact ih (hp.2.2 _ hfail)
  | stop p s => exact ⟨hp.inv, fun x hx => nomatch hx⟩

/-- A rule of consequence. -/
theorem Safe.mono {Q' : Except ε α → Stores D O → Prop} (hQ : ∀ r s, Q r s → Q' r s) :
    ∀ {p : Prog D O ε α} {s : Stores D O}, p.Safe I s Q → p.Safe I s Q'
  | .pure _, _, h | .throw _, _, h => ⟨h.1, hQ _ _ h.2⟩
  | .op _ _ _, _, h => ⟨h.1, Safe.mono hQ h.2.1, fun s' hs => Safe.mono hQ (h.2.2 s' hs)⟩

/-- One part after another, by induction on the first. -/
theorem Safe.bind {Q : Except ε β → Stores D O → Prop} {A : α → Stores D O → Prop}
    {E : ε → Stores D O → Prop} {g : α → Prog D O ε β}
    (hg : ∀ a s, I s → A a s → (g a).Safe I s Q) (he : ∀ e s, E e s → Q (.error e) s) :
    ∀ {p : Prog D O ε α} {s : Stores D O}, p.Safe I s (ending A E) → (p >>= g).Safe I s Q
  | .pure a, s, h => hg a s h.1 h.2
  | .throw e, s, h => ⟨h.1, he e s h.2⟩
  | .op _ _ _, _, h =>
      ⟨h.1, Safe.bind hg he h.2.1, fun s' hs => Safe.bind hg he (h.2.2 s' hs)⟩

/-- The handler runs where the exceptions leave it. -/
theorem Safe.handle {Q : Except ε' α → Stores D O → Prop} {E : ε → Stores D O → Prop}
    {g : ε → Prog D O ε' α} (hg : ∀ e s, I s → E e s → (g e).Safe I s Q) :
    ∀ {p : Prog D O ε α} {s : Stores D O}, p.Safe I s (ending (fun a => Q (.ok a)) E) →
      (p.handle g).Safe I s Q
  | .pure _, _, h => h
  | .throw e, s, h => hg e s h.1 h.2
  | .op _ _ _, _, h =>
      ⟨h.1, Safe.handle hg h.2.1, fun s' hs => Safe.handle hg (h.2.2 s' hs)⟩

/-- One call, then the rest. -/
theorem Safe.call {Q : Except ε β → Stores D O → Prop} {e : ε} {c : Call D O}
    {g : c.Resp → Prog D O ε β} {s : Stores D O} (hI : I s)
    (hok : (g (c.answer s)).Safe I (c.perform s) Q)
    (hfail : ∀ s', c.Fails s s' → I s' ∧ Q (.error e) s') : (call e c >>= g).Safe I s Q :=
  ⟨hI, hok, hfail⟩

/-- The body is safe at each element, from every state that the bodies before it can leave. -/
theorem Safe.each {γ : Type} {P : Stores D O → Prop} {E : ε → Stores D O → Prop}
    {body : γ → Prog D O ε Unit} : ∀ {xs : List γ} {s : Stores D O}, I s → P s →
      (∀ x ∈ xs, ∀ s, I s → P s → (body x).Safe I s (ending (fun _ => P) E)) →
      (each xs body).Safe I s (ending (fun _ => P) E)
  | [], _, hI, hP, _ => ⟨hI, hP⟩
  | x :: xs, s, hI, hP, hbody => by
      change (body x >>= fun _ => Prog.each xs body).Safe I s _
      refine Safe.bind (fun _ s' hI hP => ?_) (fun _ _ he => he) (hbody x List.mem_cons_self s hI hP)
      exact Safe.each hI hP fun y hy => hbody y (List.mem_cons_of_mem _ hy)

end Prog

/-! ## Queries -/

/-- What a transaction asks of the database before its commit. -/
inductive Query (D ε α : Type) : Type where
  | pure (a : α)
  | throw (e : ε)
  | read (next : D → Query D ε α)
  | write (f : D → D) (next : Query D ε α)

namespace Query

def bind : Query D ε α → (α → Query D ε β) → Query D ε β
  | .pure a, g => g a
  | .throw e, _ => .throw e
  | .read next, g => .read fun d => (next d).bind g
  | .write f next, g => .write f (next.bind g)

instance : Monad (Query D ε) where
  pure := .pure
  bind := bind

/-- The database as the transaction sees it. -/
def get : Query D ε D := .read .pure

/-- Change the database. -/
def modify (f : D → D) : Query D ε Unit := .write f (.pure ())

/-- Run the body for each element of a list, in order. -/
def each {γ : Type} : List γ → (γ → Query D ε Unit) → Query D ε Unit
  | [], _ => .pure ()
  | x :: xs, body => (body x).bind fun _ => each xs body

/-- What a query answers, and the database it leaves in the transaction. -/
def run : Query D ε α → D → Except ε α × D
  | .pure a, d => (.ok a, d)
  | .throw e, d => (.error e, d)
  | .read next, d => (next d).run d
  | .write f next, d => next.run (f d)

/-- One part of a query after another. -/
theorem run_bind : ∀ (q : Query D ε α) (g : α → Query D ε β) (d : D),
    (q >>= g).run d = match q.run d with
      | (.ok a, d') => (g a).run d'
      | (.error e, d') => (.error e, d')
  | .pure _, _, _ | .throw _, _, _ => rfl
  | .read next, g, d => run_bind (next d) g d
  | .write f next, g, d => run_bind next g (f d)

/-- What a query reads is the database. -/
theorem run_get_bind (g : D → Query D ε α) (d : D) : (get >>= g).run d = (g d).run d := rfl

/-- A query that went through went through in its parts. -/
theorem run_bind_ok {q : Query D ε α} {g : α → Query D ε β} {d d' : D} {b : β}
    (h : (q >>= g).run d = (.ok b, d')) :
    ∃ a d₁, q.run d = (.ok a, d₁) ∧ (g a).run d₁ = (.ok b, d') := by
  rw [run_bind] at h
  split at h
  · rename_i a d₁ heq
    exact ⟨a, d₁, heq, h⟩
  · exact nomatch (Prod.mk.inj h).1

/-- A loop that went through relates the databases as its bodies do. -/
theorem rel_of_each {γ : Type} {R : D → D → Prop} (hrefl : ∀ d, R d d)
    (htrans : ∀ {d₁ d₂ d₃}, R d₁ d₂ → R d₂ d₃ → R d₁ d₃) {body : γ → Query D ε Unit}
    (hbody : ∀ {x d d'}, (body x).run d = (.ok (), d') → R d d') :
    ∀ {xs : List γ} {d d' : D}, (each xs body).run d = (.ok (), d') → R d d'
  | [], d, d', h => (Prod.mk.inj h).2 ▸ hrefl d
  | _ :: _, _, _, h => by
      obtain ⟨_, d₁, hx, hxs⟩ := run_bind_ok h
      exact htrans (hbody hx) (rel_of_each hrefl htrans hbody hxs)

/-- The query as a program, in which any call may raise `e`. -/
def calls (e : ε) : Query D ε α → Prog D O ε α
  | .pure a => .pure a
  | .throw e' => .throw e'
  | .read next => .op .read (fun d => (next d).calls e) (.throw e)
  | .write f next => .op (.write f) (fun _ => next.calls e) (.throw e)

/-- Without an exception the calls of a query are the query. -/
theorem run_calls (e : ε) : ∀ (q : Query D ε α) (s : Stores D O),
    (q.calls e).run s = ((q.run s.working).1, { s with working := (q.run s.working).2 })
  | .pure _, _ | .throw _, _ => rfl
  | .read next, s => run_calls e (next s.working) s
  | .write f next, s => run_calls e next { s with working := f s.working }

/-- A query changes the working copy alone. -/
theorem safe_calls {I : Stores D O → Prop} {Q : Except ε α → Stores D O → Prop} {e : ε}
    (hI : ∀ (s : Stores D O) (d : D), I s → I { s with working := d }) :
    ∀ {q : Query D ε α} {s : Stores D O}, I s →
      (∀ a d, q.run s.working = (.ok a, d) → Q (.ok a) { s with working := d }) →
      (∀ e' d, Q (.error e') { s with working := d }) → (q.calls e).Safe I s Q
  | .pure a, s, hs, hok, _ => ⟨hs, hok a s.working rfl⟩
  | .throw e', s, hs, _, herr => ⟨hs, herr e' s.working⟩
  | .read next, s, hs, hok, herr => by
      refine ⟨hs, safe_calls hI hs hok herr, fun s' hfail => ?_⟩
      rw [Call.fails_read] at hfail
      exact hfail ▸ ⟨hs, herr e s.working⟩
  | .write f next, s, hs, hok, herr => by
      refine ⟨hs, safe_calls hI (hI s _ hs) hok herr, fun s' hfail => ?_⟩
      rw [Call.fails_write] at hfail
      exact hfail ▸ ⟨hs, herr e s.working⟩

end Query

end TwoStores
