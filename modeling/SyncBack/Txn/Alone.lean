import SyncBack.Txn.Serial

/-!
# Programs that run alone

A program that runs with nobody in between ends in one way, and this depends on little: on the
committed rows, on the rows that its transaction sees, on how many identifiers it has drawn and on
the clock. `View` is these four; how the store keeps its versions is left out.

`p.Evaluates t a r a'` is the big-step meaning of a program: started by `t` where it has the view
`a`, it comes to its end, with the result `r` and the view `a'`. The rules follow the program. A
search is the one statement whose answer a view leaves open: it says which rows come, not in which
order. For such parts `p.Answers t a R a'` says that `p` ends with some value that satisfies `R`.
-/

set_option linter.unusedSectionVars false

namespace Txn

variable {T K : Type} {V : K → Type} {M ε α β : Type} [DecidableEq T] [DecidableEq K]
  [DecidableEq M] [UniqueIndex K V]

/-- What a transaction that is alone at work has before it. -/
structure View (V : K → Type) where
  /-- The committed rows. -/
  committed : (k : K) → Option (V k)
  /-- The rows that the transaction sees. -/
  seen : (k : K) → Option (V k)
  /-- How many identifiers its process has drawn. -/
  drawn : ℕ
  clock : ℕ

namespace View

/-- The view after a row was written. -/
def write (a : View V) (k : K) (v : Option (V k)) : View V :=
  { a with seen := Function.update a.seen k v }

/-- The view after an identifier was drawn. -/
def draw (a : View V) : View V := { a with drawn := a.drawn + 1 }

def commit (a : View V) : View V := { a with committed := a.seen }

def rollback (a : View V) : View V := { a with seen := a.committed }

/-- The transaction has written nothing yet. -/
def Clean (a : View V) : Prop := a.seen = a.committed

/-- Storing `v` under `k` breaks no unique index. -/
def Free (a : View V) (k : K) (v : V k) : Prop :=
  ∀ k' v', k' ≠ k → a.seen k' = some v' → UniqueIndex.clash k v k' v' = false

variable {a : View V} {k : K} {v : Option (V k)}

/-- Writing changes what is seen there. -/
@[simp] theorem write_seen : (a.write k v).seen = Function.update a.seen k v := rfl

/-- Writing draws nothing. -/
@[simp] theorem write_drawn : (a.write k v).drawn = a.drawn := rfl

/-- Drawing changes nothing that is seen. -/
@[simp] theorem draw_seen : a.draw.seen = a.seen := rfl

/-- After a commit nothing is left to write. -/
theorem clean_commit : a.commit.Clean := rfl

/-- Rolling back a transaction that has written nothing. -/
theorem Clean.rollback (h : a.Clean) : a.rollback = a := by
  cases a
  cases h
  rfl

/-- A commit keeps of a view what the transaction sees. -/
theorem commit_congr {b : View V} (hseen : a.seen = b.seen) (hdrawn : a.drawn = b.drawn)
    (hclock : a.clock = b.clock) : a.commit = b.commit := by
  simp only [commit, hseen, hdrawn, hclock]

/-- Writing what is there already. -/
theorem write_seen_self : a.write k (a.seen k) = a := by
  simp only [write, Function.update_eq_self]

/-- A row that no index speaks about. -/
theorem free_of_not_clash {v : V k} (h : ∀ k' v', UniqueIndex.clash k v k' v' = false) :
    a.Free k v :=
  fun k' v' _ _ => h k' v'

end View

/-- In `s`, the process `t` is alone at work and has the view `a`. -/
structure Db.Shows (s : Db T K V M) (t : T) (a : View V) : Prop where
  committed : s.committed = a.committed
  seen : s.read t = a.seen
  drawn : s.drawn t = a.drawn
  clock : s.clock = a.clock
  others : ∀ t', t' ≠ t → s.Idle t'

/-- The same database, where the next identifier that `t` draws is its `n`-th. -/
def Db.drawNext (s : Db T K V M) (t : T) (n : ℕ) : Db T K V M :=
  { s with drawn := Function.update s.drawn t n }

namespace Db.Shows

variable {s : Db T K V M} {t : T} {a : View V} {k : K}

/-- The view of a process where no transaction is open. -/
theorem of_quiet (h : s.Quiet) (t : T) :
    s.Shows t ⟨s.committed, s.committed, s.drawn t, s.clock⟩ where
  committed := rfl
  seen := funext fun k => Idle.read (idle_of_quiet h t) k
  drawn := rfl
  clock := rfl
  others := fun t' _ => idle_of_quiet h t'

/-- A quiet database shows what is committed, to a process that will draw from `n` on. -/
theorem of_quiet_drawNext (h : s.Quiet) (t : T) (n : ℕ) :
    (s.drawNext t n).Shows t ⟨s.committed, s.committed, n, s.clock⟩ := by
  have hview := of_quiet (s := s.drawNext t n) h t
  have hdrawn : (s.drawNext t n).drawn t = n := by simp [Db.drawNext]
  rw [hdrawn] at hview
  exact hview

/-- The process sees what its view says. -/
theorem read (h : s.Shows t a) (k : K) : s.read t k = a.seen k := congrFun h.seen k

/-- Nobody else holds a lock. -/
theorem not_locked (h : s.Shows t a) (k : K) : s.lockedByOther t k = false :=
  not_lockedByOther h.others k

/-- A write goes into the view. -/
theorem write (h : s.Shows t a) (k : K) (v : Option (V k)) :
    (s.write t k v).Shows t (a.write k v) where
  committed := h.committed
  seen := by rw [read_write, h.seen, View.write_seen]
  drawn := h.drawn
  clock := h.clock
  others := by
    intro t' ht k'
    rw [writes_write_other s v (h.not_locked k) ht]
    exact h.others t' ht k'

/-- So does a drawn identifier. -/
theorem draw (h : s.Shows t a) : (s.draw t).Shows t a.draw where
  committed := h.committed
  seen := h.seen
  drawn := by
    change Function.update s.drawn t (s.drawn t + 1) t = a.drawn + 1
    rw [Function.update_self, h.drawn]
  clock := h.clock
  others := h.others

/-- A message leaves the view. -/
theorem send (h : s.Shows t a) (m : M) : (s.send m).Shows t a :=
  ⟨h.committed, h.seen, h.drawn, h.clock, h.others⟩

/-- After a commit the view is what is committed. -/
theorem commit (h : s.Shows t a) : (s.commit t).Shows t a.commit where
  committed := h.seen
  seen := by
    funext k
    rw [read_commit_self]
    exact h.read k
  drawn := h.drawn
  clock := h.clock
  others := by
    intro t' ht k
    rw [writes_commit_other s ht]
    exact h.others t' ht k

/-- After a rollback it is what was committed. -/
theorem rollback (h : s.Shows t a) : (s.rollback t).Shows t a.rollback where
  committed := h.committed
  seen := by
    funext k
    rw [read_rollback_self, h.committed]
    rfl
  drawn := h.drawn
  clock := h.clock
  others := by
    intro t' ht k
    rw [writes_rollback_other s ht]
    exact h.others t' ht k

/-- With nobody else at work, the rows in view decide about a unique index. -/
theorem uniqueness (h : s.Shows t a) {v : V k} (hfree : a.Free k v) :
    s.uniqueness t k v = .free := by
  have hclashes : ∀ k', clashes k v k' (s.read t k') = false := by
    intro k'
    rw [h.read k']
    rcases hk : a.seen k' with _ | v'
    · simp [clashes]
    · by_cases hne : k' = k
      · simp [clashes, hne]
      · simp [clashes, hfree k' v' hne hk]
  simp [Db.uniqueness, h.not_locked, hclashes]

/-- A search finds what the view has. -/
theorem mem_select (h : s.Shows t a) {p : (k : K) → V k → Bool} (k : K) (v : V k) :
    (⟨k, v⟩ : Sigma V) ∈ s.select t p ↔ a.seen k = some v ∧ p k v = true := by
  rw [Db.mem_select, h.read]

end Db.Shows

namespace Prog

/-- The program, started by `t` where it has the view `a`, ends with `r` and the view `a'`. -/
def Evaluates (t : T) (p : Prog T K V M ε α) (a : View V) (r : Except ε α) (a' : View V) : Prop :=
  ∀ s, s.Shows t a → ∃ s', p.runAlone t s = some (r, s') ∧ s'.Shows t a'

/-- A sequence runs its first part, and the second part unless there was an exception. -/
theorem runAlone_bind {t : T} {g : α → Prog T K V M ε β} :
    ∀ {p : Prog T K V M ε α} {s s' : Db T K V M} {r : Except ε α},
      p.runAlone t s = some (r, s') →
        (p >>= g).runAlone t s =
          match r with
          | .ok x => (g x).runAlone t s'
          | .error e => some (.error e, s')
  | .pure _, s, s', r, h | .throw _, s, s', r, h => by
      obtain ⟨rfl, rfl⟩ := Prod.mk.inj (Option.some.inj h)
      rfl
  | .op f next, s, s', r, h => by
      rcases he : exec t f s with _ | ⟨b, s₁⟩
      · simp [runAlone, he] at h
      · simp only [runAlone, he] at h
        rw [op_bind, runAlone_op he]
        exact runAlone_bind h

/-- `try … except` runs its body, and the handler after an exception. -/
theorem runAlone_tryCatch {t : T} {g : ε → Prog T K V M ε α} :
    ∀ {p : Prog T K V M ε α} {s s' : Db T K V M} {r : Except ε α},
      p.runAlone t s = some (r, s') →
        (p.tryCatch g).runAlone t s =
          match r with
          | .ok x => some (.ok x, s')
          | .error e => (g e).runAlone t s'
  | .pure _, s, s', r, h | .throw _, s, s', r, h => by
      obtain ⟨rfl, rfl⟩ := Prod.mk.inj (Option.some.inj h)
      rfl
  | .op f next, s, s', r, h => by
      rcases he : exec t f s with _ | ⟨b, s₁⟩
      · simp [runAlone, he] at h
      · simp only [runAlone, he] at h
        change (Prog.op f fun b => (next b).tryCatch g).runAlone t s = _
        rw [runAlone_op he]
        exact runAlone_tryCatch h

namespace Evaluates

variable {t : T} {p : Prog T K V M ε α} {g : α → Prog T K V M ε β} {a a₁ a' : View V} {x : α}
  {e : ε} {k : K}

/-- Returning a value. -/
theorem pure : (Pure.pure x : Prog T K V M ε α).Evaluates t a (.ok x) a :=
  fun s hs => ⟨s, rfl, hs⟩

/-- Raising an exception. -/
theorem throw : (MonadExcept.throw e : Prog T K V M ε α).Evaluates t a (.error e) a :=
  fun s hs => ⟨s, rfl, hs⟩

/-- One part after another. -/
theorem bind {r : Except ε β} (h : p.Evaluates t a (.ok x) a₁)
    (hg : (g x).Evaluates t a₁ r a') : (p >>= g).Evaluates t a r a' := by
  intro s hs
  obtain ⟨s₁, hrun, hs₁⟩ := h s hs
  rw [runAlone_bind hrun]
  exact hg s₁ hs₁

/-- An exception of the first part skips the second. -/
theorem bind_error (h : p.Evaluates t a (.error e) a') :
    (p >>= g).Evaluates t a (.error e) a' := by
  intro s hs
  obtain ⟨s', hrun, hs'⟩ := h s hs
  rw [runAlone_bind hrun]
  exact ⟨s', rfl, hs'⟩

/-- Without an exception the handler is not run. -/
theorem tryCatch {g : ε → Prog T K V M ε α} (h : p.Evaluates t a (.ok x) a') :
    (p.tryCatch g).Evaluates t a (.ok x) a' := by
  intro s hs
  obtain ⟨s', hrun, hs'⟩ := h s hs
  rw [runAlone_tryCatch hrun]
  exact ⟨s', rfl, hs'⟩

/-- With one it is. -/
theorem tryCatch_error {g : ε → Prog T K V M ε α} {r : Except ε α}
    (h : p.Evaluates t a (.error e) a₁) (hg : (g e).Evaluates t a₁ r a') :
    (p.tryCatch g).Evaluates t a r a' := by
  intro s hs
  obtain ⟨s₁, hrun, hs₁⟩ := h s hs
  rw [runAlone_tryCatch hrun]
  exact hg s₁ hs₁

/-- One statement. -/
theorem stmt {f : Stmt K V M} {b : f.Resp T}
    (h : ∀ s, s.Shows t a → ∃ s', exec t f s = some (b, s') ∧ s'.Shows t a') :
    (Prog.stmt f : Prog T K V M ε (f.Resp T)).Evaluates t a (.ok b) a' := by
  intro s hs
  obtain ⟨s', he, hs'⟩ := h s hs
  exact ⟨s', runAlone_op he, hs'⟩

/-- Reading a row. -/
theorem get : (Prog.stmt (.get k) : Prog T K V M ε (Option (V k))).Evaluates t a
    (.ok (a.seen k)) a :=
  stmt fun s hs => ⟨s, by rw [← hs.read]; rfl, hs⟩

/-- Changing a row that is there. -/
theorem update {p : V k → Bool} {f : V k → V k} {v : V k} (hrow : a.seen k = some v)
    (hp : p v = true) (hfree : a.Free k (f v)) :
    (Prog.stmt (.update k p f) : Prog T K V M ε (Outcome (V k))).Evaluates t a
      (.ok (.updated (f v))) (a.write k (some (f v))) := by
  refine stmt fun s hs => ⟨s.write t k (some (f v)), ?_, hs.write k _⟩
  have htry : s.tryUpdate t k p f = some (.updated (f v), s.write t k (some (f v))) := by
    simp [Db.tryUpdate, Db.waits, hs.not_locked, hs.read, hrow, hp, hs.uniqueness hfree]
  exact htry

/-- Inserting a row that is not there. -/
theorem insert {v : V k} (hrow : a.seen k = none) (hfree : a.Free k v) :
    (Prog.stmt (.insert k v) : Prog T K V M ε Bool).Evaluates t a (.ok true)
      (a.write k (some v)) := by
  refine stmt fun s hs => ⟨s.write t k (some v), ?_, hs.write k _⟩
  have htry : s.tryInsert t k v = some (true, s.write t k (some v)) := by
    simp [Db.tryInsert, hs.not_locked, hs.read, hrow, hs.uniqueness hfree]
  exact htry

/-- Drawing an identifier. -/
theorem draw : (Prog.stmt .draw : Prog T K V M ε (T × ℕ)).Evaluates t a (.ok (t, a.drawn))
    a.draw :=
  stmt fun s hs => ⟨s.draw t, by rw [← hs.drawn]; rfl, hs.draw⟩

/-- Asking for the time. -/
theorem now : (Prog.stmt .now : Prog T K V M ε ℕ).Evaluates t a (.ok a.clock) a :=
  stmt fun s hs => ⟨s, by rw [← hs.clock]; rfl, hs⟩

/-- Handing a message over. -/
theorem send (m : M) : (Prog.stmt (.send m) : Prog T K V M ε Unit).Evaluates t a (.ok ()) a :=
  stmt fun s hs => ⟨s.send m, rfl, hs.send m⟩

/-- A commit. -/
theorem commit : (Prog.stmt .commit : Prog T K V M ε Unit).Evaluates t a (.ok ()) a.commit :=
  stmt fun s hs => ⟨s.commit t, rfl, hs.commit⟩

/-- A rollback. -/
theorem rollback :
    (Prog.stmt .rollback : Prog T K V M ε Unit).Evaluates t a (.ok ()) a.rollback :=
  stmt fun s hs => ⟨s.rollback t, rfl, hs.rollback⟩

end Evaluates

/-- The program, started by `t` where it has the view `a`, ends with a value that satisfies `R` and
the view `a'`. -/
def Answers (t : T) (p : Prog T K V M ε α) (a : View V) (R : α → Prop) (a' : View V) : Prop :=
  ∀ s, s.Shows t a → ∃ x s', R x ∧ p.runAlone t s = some (.ok x, s') ∧ s'.Shows t a'

/-- A program that ends with a value answers with it. -/
theorem Evaluates.answers {t : T} {p : Prog T K V M ε α} {a a' : View V} {x : α} {R : α → Prop}
    (h : p.Evaluates t a (.ok x) a') (hR : R x) : p.Answers t a R a' := by
  intro s hs
  obtain ⟨s', hrun, hs'⟩ := h s hs
  exact ⟨x, s', hR, hrun, hs'⟩

namespace Answers

variable {t : T} {p : Prog T K V M ε α} {g : α → Prog T K V M ε β} {a a₁ a' : View V}
  {R : α → Prop} {R' : β → Prop}

/-- A search finds the rows in view that satisfy its condition, in some order. -/
theorem find {p : (k : K) → V k → Bool} :
    (Prog.stmt (.find p) : Prog T K V M ε (List (Sigma V))).Answers t a
      (fun rows : List (Sigma V) => ∀ k v, ⟨k, v⟩ ∈ rows ↔ a.seen k = some v ∧ p k v = true) a :=
  fun s hs => ⟨s.select t p, s, hs.mem_select, rfl, hs⟩

/-- One part after another, for every answer of the first. -/
theorem bind (h : p.Answers t a R a₁) (hg : ∀ x, R x → (g x).Answers t a₁ R' a') :
    (p >>= g).Answers t a R' a' := by
  intro s hs
  obtain ⟨x, s₁, hx, hrun, hs₁⟩ := h s hs
  rw [runAlone_bind hrun]
  exact hg x hx s₁ hs₁

/-- What comes of it may be the same for every value. -/
theorem evaluates {r : Except ε β} (h : p.Answers t a R a₁)
    (hg : ∀ x, R x → (g x).Evaluates t a₁ r a') : (p >>= g).Evaluates t a r a' := by
  intro s hs
  obtain ⟨x, s₁, hx, hrun, hs₁⟩ := h s hs
  rw [runAlone_bind hrun]
  exact hg x hx s₁ hs₁

/-- Without an exception the handler is not run. -/
theorem tryCatch {g : ε → Prog T K V M ε α} (h : p.Answers t a R a') :
    (p.tryCatch g).Answers t a R a' := by
  intro s hs
  obtain ⟨x, s', hx, hrun, hs'⟩ := h s hs
  rw [runAlone_tryCatch hrun]
  exact ⟨x, s', hx, rfl, hs'⟩

end Answers

end Prog

end Txn
