import SyncBack.Txn.Deletion

/-!
# Serial runs

A serial run lets one program after another run to its end with nobody in between. `Prog.Ensures`
is the weakest precondition of such a program: every way in which it can end satisfies the
postcondition. The rules follow the program; `Ensures.of_sends` is the rule for a part of which
only the statements matter.

`Stmt.Spares` says of one statement that it takes no protected row away and updates none out of the
condition on it; with it, protected rows stand through whole programs.
-/

set_option linter.unusedSectionVars false

namespace Txn

variable {T K : Type} {V : K → Type} {M ε α β : Type} [DecidableEq T] [DecidableEq K]
  [DecidableEq M] [UniqueIndex K V]

namespace Prog

/-- Every way in which the program can end, run alone by `t` from `s`, satisfies `Q`. -/
def Ensures (t : T) : Prog T K V M ε α → Db T K V M → (Except ε α → Db T K V M → Prop) → Prop
  | .pure a, s, Q => Q (.ok a) s
  | .throw e, s, Q => Q (.error e) s
  | .op f next, s, Q => ∀ b s', exec t f s = some (b, s') → (next b).Ensures t s' Q

namespace Ensures

variable {t : T} {s s' : Db T K V M} {Q Q' : Except ε α → Db T K V M → Prop}

/-- What is ensured holds at the end of a run. -/
theorem of_runAlone : ∀ {p : Prog T K V M ε α} {s s' : Db T K V M} {r : Except ε α},
    p.Ensures t s Q → p.runAlone t s = some (r, s') → Q r s'
  | .pure _, _, _, _, h, hrun | .throw _, _, _, _, h, hrun => by
      obtain ⟨rfl, rfl⟩ := Prod.mk.inj (Option.some.inj hrun)
      exact h
  | .op f next, s, s', r, h, hrun => by
      rcases he : exec t f s with _ | ⟨b, s₁⟩
      · simp [runAlone, he] at hrun
      · simp only [runAlone, he] at hrun
        exact of_runAlone (h b s₁ he) hrun

/-- A rule of consequence. -/
theorem mono (hQ : ∀ r s, Q r s → Q' r s) : ∀ {p : Prog T K V M ε α} {s : Db T K V M},
    p.Ensures t s Q → p.Ensures t s Q'
  | .pure _, _, h | .throw _, _, h => hQ _ _ h
  | .op _ _, _, h => fun b s' he => mono hQ (h b s' he)

/-- Two postconditions. -/
theorem and : ∀ {p : Prog T K V M ε α} {s : Db T K V M}, p.Ensures t s Q → p.Ensures t s Q' →
    p.Ensures t s fun r s => Q r s ∧ Q' r s
  | .pure _, _, h, h' | .throw _, _, h, h' => ⟨h, h'⟩
  | .op _ _, _, h, h' => fun b s' he => and (h b s' he) (h' b s' he)

/-- One part after another, by induction on the first. -/
theorem bind {Q : Except ε β → Db T K V M → Prop} {g : α → Prog T K V M ε β}
    {A : α → Db T K V M → Prop} {E : ε → Db T K V M → Prop} :
    ∀ {p : Prog T K V M ε α} {s : Db T K V M}, p.Ensures t s (ending A E) →
      (∀ a s, A a s → (g a).Ensures t s Q) → (∀ e s, E e s → Q (.error e) s) →
      (p >>= g).Ensures t s Q
  | .pure a, s, h, hg, _ => hg a s h
  | .throw e, s, h, _, he => he e s h
  | .op _ _, _, h, hg, he => fun b s' hex => bind (h b s' hex) hg he

/-- Sequence of two parts that keep an assertion. -/
theorem seq {J : Db T K V M → Prop} {p : Prog T K V M ε α} {g : α → Prog T K V M ε β}
    (h : p.Ensures t s fun _ s' => J s')
    (hg : ∀ a s, J s → (g a).Ensures t s fun _ s' => J s') :
    (p >>= g).Ensures t s fun _ s' => J s' := by
  refine bind (A := fun _ s' => J s') (E := fun _ s' => J s') (h.mono fun r s' hj => ?_) hg
    fun _ _ hj => hj
  cases r <;> exact hj

/-- The handler runs where the exceptions leave it. -/
theorem tryCatch {g : ε → Prog T K V M ε α} {E : ε → Db T K V M → Prop} :
    ∀ {p : Prog T K V M ε α} {s : Db T K V M},
      p.Ensures t s (ending (fun a => Q (.ok a)) E) →
      (∀ e s, E e s → (g e).Ensures t s Q) → (p.tryCatch g).Ensures t s Q
  | .pure _, _, h, _ => h
  | .throw e, s, h, hg => hg e s h
  | .op _ _, _, h, hg => fun b s' hex => tryCatch (h b s' hex) hg

/-- Sequence, when an exception of the first part ends both. -/
theorem andThen {A : α → Db T K V M → Prop} {B : β → Db T K V M → Prop}
    {E : ε → Db T K V M → Prop} {p : Prog T K V M ε α} {g : α → Prog T K V M ε β}
    (h : p.Ensures t s (ending A E)) (hg : ∀ a s, A a s → (g a).Ensures t s (ending B E)) :
    (p >>= g).Ensures t s (ending B E) :=
  bind h hg fun _ _ he => he

/-- **A part of which only the statements matter**: what each of them keeps is kept. -/
theorem of_sends {F : Stmt K V M → Prop} {J : Db T K V M → Prop}
    (hstep : ∀ f s s', F f → J s → Effect t s f s' → J s') :
    ∀ {p : Prog T K V M ε α} {s : Db T K V M}, p.Sends F → J s → p.Ensures t s fun _ s' => J s'
  | .pure _, _, _, hj | .throw _, _, _, hj => hj
  | .op f _, s, hp, hj => fun b s' he =>
      of_sends hstep (hp.2 b) (hstep f s s' hp.1 hj (exec_effect he))

/-- A part of which the statements, the values and the exceptions are known. -/
theorem of_parts {F : Stmt K V M → Prop} {J : Db T K V M → Prop} {R : α → Prop} {E : ε → Prop}
    (hstep : ∀ f s s', F f → J s → Effect t s f s' → J s') :
    ∀ {p : Prog T K V M ε α} {s : Db T K V M}, p.Sends F → p.Returns R → p.Raises E → J s →
      p.Ensures t s (ending (fun a s' => R a ∧ J s') fun e s' => E e ∧ J s')
  | .pure _, _, _, hr, _, hj => ⟨hr, hj⟩
  | .throw _, _, _, _, he, hj => ⟨he, hj⟩
  | .op f _, s, hp, hr, he, hj => fun b s' hex =>
      of_parts hstep (hp.2 b) (hr b) (he b) (hstep f s s' hp.1 hj (exec_effect hex))

/-- Reading one row. -/
theorem get {k : K} {g : Option (V k) → Prog T K V M ε α} (h : (g (s.read t k)).Ensures t s Q) :
    ((stmt (.get k) : Prog T K V M ε (Option (V k))) >>= g).Ensures t s Q := by
  intro b s' he
  obtain ⟨rfl, rfl⟩ := Prod.mk.inj (Option.some.inj he)
  exact h

/-- Reading the rows that satisfy a condition. -/
theorem find {p : (k : K) → V k → Bool} {g : List (Sigma V) → Prog T K V M ε α}
    (h : (g (s.select t p)).Ensures t s Q) :
    ((stmt (.find p) : Prog T K V M ε (List (Sigma V))) >>= g).Ensures t s Q := by
  intro b s' he
  obtain ⟨rfl, rfl⟩ := Prod.mk.inj (Option.some.inj he)
  exact h

/-- Changing one row that no index speaks about. -/
theorem update {k : K} {p : V k → Bool} {f : V k → V k} {g : Outcome (V k) → Prog T K V M ε α}
    (hclash : ∀ (v : V k) k' (v' : V k'), UniqueIndex.clash k v k' v' = false)
    (hmissed : (∀ r, s.read t k = some r → p r = false) → (g .missed).Ensures t s Q)
    (hupdated : ∀ r, s.read t k = some r → p r = true →
      (g (.updated (f r))).Ensures t (s.write t k (some (f r))) Q) :
    ((stmt (.update k p f) : Prog T K V M ε (Outcome (V k))) >>= g).Ensures t s Q := by
  intro b s' he
  rcases exec_update_cases he with ⟨rfl, rfl, hmiss⟩ | ⟨-, -, r, -, -, htaken⟩ |
    ⟨r, -, hread, hp, -, rfl, rfl⟩
  · exact hmissed hmiss
  · rw [Db.uniqueness_of_not_clash (hclash _)] at htaken
    cases htaken
  · exact hupdated r hread hp

/-- Reading the clock. -/
theorem now {g : ℕ → Prog T K V M ε α} (h : (g s.clock).Ensures t s Q) :
    ((stmt .now : Prog T K V M ε ℕ) >>= g).Ensures t s Q := by
  intro b s' he
  obtain ⟨rfl, rfl⟩ := Prod.mk.inj (Option.some.inj he)
  exact h

/-- A commit, then the rest. -/
theorem commit {g : Unit → Prog T K V M ε α} (h : (g ()).Ensures t (s.commit t) Q) :
    ((stmt .commit : Prog T K V M ε Unit) >>= g).Ensures t s Q := by
  intro b s' he
  obtain ⟨-, rfl⟩ := Prod.mk.inj (Option.some.inj he)
  exact h

/-- A rollback, then the rest. -/
theorem rollback {g : Unit → Prog T K V M ε α} (h : (g ()).Ensures t (s.rollback t) Q) :
    ((stmt .rollback : Prog T K V M ε Unit) >>= g).Ensures t s Q := by
  intro b s' he
  obtain ⟨-, rfl⟩ := Prod.mk.inj (Option.some.inj he)
  exact h

end Ensures

end Prog

/-! ## Programs that end -/

/-- The statement does not wait for a message. -/
def Stmt.Immediate (f : Stmt K V M) : Prop := ∀ m, f ≠ .await m

/-- Without other transactions nothing is locked. -/
theorem Db.not_lockedByOther {s : Db T K V M} {t : T} (hothers : ∀ t', t' ≠ t → s.Idle t') (k : K) :
    s.lockedByOther t k = false :=
  lockedByOther_eq_false.mpr fun t' ht => hothers t' ht k

/-- No rival has to be waited for. -/
theorem Db.uniqueness_ne_wait {s : Db T K V M} {t : T} (hothers : ∀ t', t' ≠ t → s.Idle t') (k : K)
    (v : V k) : s.uniqueness t k v ≠ .wait := by
  unfold uniqueness
  simp only [not_lockedByOther hothers, Bool.false_and]
  split
  · simp
  · simp

/-- Without other transactions no statement waits, except for a message. -/
theorem exec_alone {t : T} {s : Db T K V M} (hothers : ∀ t', t' ≠ t → s.Idle t') {f : Stmt K V M}
    (hf : f.Immediate) : ∃ b s', exec t f s = some (b, s') := by
  have hfree := Db.not_lockedByOther hothers
  cases f with
  | get k | find p | now | draw | send m | commit | rollback => exact ⟨_, _, rfl⟩
  | await m => exact absurd rfl (hf m)
  | update k p g =>
      change ∃ b s', s.tryUpdate t k p g = some (b, s')
      unfold Db.tryUpdate Db.waits
      simp only [hfree, Bool.false_and, Bool.false_eq_true, if_false]
      rcases s.read t k with _ | r
      · exact ⟨_, _, rfl⟩
      by_cases hp : p r = true
      · rcases hu : s.uniqueness t k (g r) with _ | _ | _
        · exact ⟨_, _, by simp only [hp, if_true, hu]; rfl⟩
        · exact ⟨_, _, by simp only [hp, if_true, hu]; rfl⟩
        · exact absurd hu (Db.uniqueness_ne_wait hothers k _)
      · exact ⟨_, _, by simp only [hp]; rfl⟩
  | insert k v =>
      change ∃ b s', s.tryInsert t k v = some (b, s')
      unfold Db.tryInsert
      simp only [hfree, Bool.false_eq_true, if_false]
      by_cases hr : (s.read t k).isSome = true
      · exact ⟨_, _, by rw [if_pos hr]⟩
      rcases hu : s.uniqueness t k v with _ | _ | _
      · exact ⟨_, _, by rw [if_neg hr]⟩
      · exact ⟨_, _, by rw [if_neg hr]⟩
      · exact absurd hu (Db.uniqueness_ne_wait hothers k v)
  | delete k p =>
      change ∃ b s', s.tryDelete t k p = some (b, s')
      unfold Db.tryDelete Db.waits
      simp only [hfree, Bool.false_and, Bool.false_eq_true, if_false]
      rcases s.read t k with _ | r
      · exact ⟨_, _, rfl⟩
      by_cases hp : p r = true
      · exact ⟨_, _, by simp only [hp, if_true]; rfl⟩
      · exact ⟨_, _, by simp only [hp]; rfl⟩

/-- **A program that runs alone and waits for no message ends.** -/
theorem Prog.Sends.ends_alone {t : T} : ∀ {p : Prog T K V M ε α} {s : Db T K V M},
    p.Sends Stmt.Immediate → (∀ t', t' ≠ t → s.Idle t') → ∃ r s', p.runAlone t s = some (r, s')
  | .pure a, s, _, _ => ⟨.ok a, s, rfl⟩
  | .throw e, s, _, _ => ⟨.error e, s, rfl⟩
  | .op f next, s, hp, hothers => by
      obtain ⟨b, s₁, he⟩ := exec_alone hothers hp.1
      have hothers₁ : ∀ t', t' ≠ t → s₁.Idle t' := fun t' ht k => by
        rw [(exec_effect he).frame.writes t' ht]
        exact hothers t' ht k
      obtain ⟨r, s', hrun⟩ := ends_alone (hp.2 b) hothers₁
      exact ⟨r, s', by simp only [runAlone, he, hrun]⟩

/-! ## Rows that a transaction rewrites -/

/-- Transaction `t`, which saw the rows of `s`, has rewritten some of them and sees `rows` now. -/
structure Db.Rewrites (s : Db T K V M) (t : T) (rows : (k : K) → Option (V k))
    (s' : Db T K V M) : Prop where
  committed : s'.committed = s.committed
  read : s'.read t = rows
  keys : s'.keys = s.keys
  clock : s'.clock = s.clock

namespace Db.Rewrites

variable {s s' : Db T K V M} {t : T} {rows : (k : K) → Option (V k)}

/-- An idle transaction has rewritten nothing. -/
theorem refl (h : s.Idle t) : s.Rewrites t s.committed s := ⟨rfl, funext h.read, rfl, rfl⟩

/-- Writing a row that is there. -/
theorem write (h : s.Rewrites t rows s') {k : K} {r : V k} (hread : s'.read t k = some r)
    (v : V k) : s.Rewrites t (Function.update rows k (some v)) (s'.write t k (some v)) where
  committed := h.committed
  read := by rw [read_write, h.read]
  keys := by
    rw [← h.keys]
    exact if_pos (mem_keys_of_read hread)
  clock := h.clock

/-- The rows that a condition selects are those of the rows that `t` sees. -/
theorem select (h : s.Rewrites t rows s') (p : (k : K) → V k → Bool) :
    s'.select t p = s.keys.filterMap fun k => ((rows k).filter (p k)).map (Sigma.mk k) := by
  rw [Db.select, h.read, h.keys]

end Db.Rewrites

/-! ## Protected rows -/

/-- The statement takes no row under `k` away that satisfies `P`, and updates none out of it. -/
def Stmt.Spares (f : Stmt K V M) (k : K) (P : V k → Prop) : Prop :=
  (∀ p g r, f = .update k p g → p r = true → P r → P (g r)) ∧
    ∀ p r, f = .delete k p → P r → p r = false

/-- A commit spares every row. -/
theorem Stmt.spares_commit {k : K} {P : V k → Prop} : (Stmt.commit : Stmt K V M).Spares k P :=
  ⟨fun _ _ _ h => (nomatch h), fun _ _ h => (nomatch h)⟩

/-- Deleting another row. -/
theorem Stmt.spares_delete {k k' : K} {p : V k' → Bool} {P : V k → Prop} (hne : k' ≠ k) :
    (Stmt.delete k' p : Stmt K V M).Spares k P := by
  refine ⟨fun _ _ _ h => (nomatch h), ?_⟩
  rintro q r ⟨⟩
  exact absurd rfl hne

/-- The rows under the protected keys are there and satisfy `P`, in every version. -/
def Db.Protected (s : Db T K V M) (protects : K → Prop) (P : (k : K) → V k → Prop) : Prop :=
  ∀ k, protects k → s.Stands k (P k)

/-- A statement that spares the protected rows leaves them. -/
theorem Db.Protected.effect {protects : K → Prop} {P : (k : K) → V k → Prop} {s s' : Db T K V M}
    {t : T} {f : Stmt K V M} (h : s.Protected protects P) (he : Effect t s f s')
    (hf : ∀ k, protects k → f.Spares k (P k)) : s'.Protected protects P :=
  fun k hk => (h k hk).effect he (hf k hk).1 (hf k hk).2

/-! ## What a run commits -/

/-- The rows after the versions `w` of a transaction are committed over `rows`. -/
def overwrite (rows : (k : K) → Option (V k)) (w : (k : K) → Option (Option (V k))) :
    (k : K) → Option (V k) :=
  fun k => (w k).getD (rows k)

/-- The transactions of a log, committed one after another over `rows`, end at `rows'`, and each of
them changes the rows along `R`. -/
def Replays (R : ((k : K) → Option (V k)) → ((k : K) → Option (V k)) → Prop) :
    ((k : K) → Option (V k)) → List (T × ((k : K) → Option (Option (V k)))) →
      ((k : K) → Option (V k)) → Prop
  | rows, [], rows' => rows' = rows
  | rows, (_, w) :: log, rows' => R rows (overwrite rows w) ∧ Replays R (overwrite rows w) log rows'

/-- From `s₀` to `s`, every transaction that committed changed the committed rows along `R`. -/
def Db.Commits (R : ((k : K) → Option (V k)) → ((k : K) → Option (V k)) → Prop)
    (s₀ s : Db T K V M) : Prop :=
  ∃ log, s.log = s₀.log ++ log ∧ Replays R s₀.committed log s.committed

section commits

variable {R : ((k : K) → Option (V k)) → ((k : K) → Option (V k)) → Prop}
  {w : (k : K) → Option (Option (V k))} {s₀ s s' : Db T K V M}

/-- One more commit replays, by induction on the log. -/
theorem Replays.concat (t : T) :
    ∀ {log : List (T × ((k : K) → Option (Option (V k))))} {rows rows' : (k : K) → Option (V k)},
      Replays R rows log rows' → R rows' (overwrite rows' w) →
        Replays R rows (log ++ [(t, w)]) (overwrite rows' w)
  | [], _, _, rfl, hR => ⟨hR, rfl⟩
  | _ :: _, _, _, ⟨hfirst, hrest⟩, hR => ⟨hfirst, hrest.concat t hR⟩

/-- Nothing was committed. -/
theorem Db.Commits.refl (s : Db T K V M) : Db.Commits R s s := ⟨[], (List.append_nil _).symm, rfl⟩

/-- Only the committed rows and the log count. -/
theorem Db.Commits.of_same (h : Db.Commits R s₀ s) (hcommitted : s'.committed = s.committed)
    (hlog : s'.log = s.log) : Db.Commits R s₀ s' := by
  obtain ⟨log, hs, hreplays⟩ := h
  exact ⟨log, hlog.trans hs, hcommitted ▸ hreplays⟩

/-- A related commit. -/
theorem Db.Commits.commit {t : T} (h : Db.Commits R s₀ s) (hR : R s.committed (s.read t)) :
    Db.Commits R s₀ (s.commit t) := by
  obtain ⟨log, hs, hreplays⟩ := h
  refine ⟨log ++ [(t, s.writes t)], ?_, hreplays.concat t hR⟩
  rw [Db.commit_log, hs, List.append_assoc]

end commits

/-! ## Runs -/

/-- No transaction is open. -/
def Db.Quiet (s : Db T K V M) : Prop := ∀ k, s.dirty k = none

/-- Without transactions the database is quiet. -/
theorem Db.quiet_of_idle {s : Db T K V M} (h : ∀ t, s.Idle t) : s.Quiet := by
  intro k
  rcases hd : s.dirty k with _ | ⟨t, v⟩
  · rfl
  · have hw := h t k
    rw [Db.writes_eq_some.mpr hd] at hw
    cases hw

/-- The transactions of others stay closed. -/
theorem Prog.Ensures.idle_others {t : T} {p : Prog T K V M ε α} {s : Db T K V M} (h : s.Quiet) :
    p.Ensures t s fun _ s' => ∀ t', t' ≠ t → s'.Idle t' := by
  refine Prog.Ensures.of_sends (F := fun _ => True) ?_ (Prog.Sends.any fun _ => trivial) ?_
  · intro f s s' _ hidle he t' ht k
    rw [he.frame.writes t' ht]
    exact hidle t' ht k
  · exact fun t' _ => Db.idle_of_quiet h t'

/-- A program that closes its transaction leaves none open. -/
theorem Prog.Ensures.quiet {t : T} {p : Prog T K V M ε α} {s : Db T K V M} (h : s.Quiet)
    (hidle : p.Ensures t s fun _ s' => s'.Idle t) : p.Ensures t s fun _ s' => s'.Quiet := by
  refine (hidle.and (Prog.Ensures.idle_others h)).mono fun r s' hs => Db.quiet_of_idle fun t' => ?_
  by_cases ht : t' = t
  · exact ht ▸ hs.1
  · exact hs.2 t' ht

/-- One step of a serial run: an operation in its place runs from its start to its end, or time
passes. -/
inductive SerialStep {O : Type} (program : O → Prog T K V M ε α) (C : O → Db T K V M → Prop) :
    Db T K V M → Db T K V M → Prop
  | run {op t s s' r} (hop : C op s) (h : (program op).runAlone t s = some (r, s')) :
      SerialStep program C s s'
  | tick (n : ℕ) (s) : SerialStep program C s (s.tick n)

end Txn
