import Mathlib.Logic.Function.Basic
import Mathlib.Logic.Relation
import SyncBack.Effects.Program

/-!
# Concurrent calls over a shared state

Any number of processes, each of which performs one call, take turns: every command is atomic, and
between two commands of one process anything can happen — commands of others, new calls, changes of
the state by the environment. A process can stop for good before any command.

A configuration keeps the moves that led to it. `Config.Along` says that each process has given the
commands that its program gives, in the form of `Prog.Always`; invariants of the shared state are
then proved from the moves, with `Reaches.along` for what a single process can have done.
-/

set_option linter.unusedSectionVars false

namespace Effects

/-- Calls with their programs, and what their commands and the environment do to the state. -/
structure System where
  Call : Type
  Cmd : Type
  Resp : Cmd → Type
  Env : Type
  Err : Type
  Res : Type
  State : Type
  program : Call → Prog Resp Err Res
  /-- The state when the call is made; `none` if it cannot be made. -/
  begin : Call → State → Option State
  /-- The state after a command; `none` if the command cannot be answered so. -/
  respond : (c : Cmd) → Resp c → State → Option State
  /-- What can happen by itself. -/
  env : Env → State → Option State

variable {S : System} {P : Type}

/-- A process with the rest of its program; a process that has stopped has none. -/
structure Proc (S : System) where
  call : S.Call
  rest : Option (Prog S.Resp S.Err S.Res)

/-- What the call has returned or raised. -/
def Proc.result (p : Proc S) : Option (Except S.Err S.Res) :=
  match p.rest with
  | some (.pure a) => some (.ok a)
  | some (.throw e) => some (.error e)
  | _ => none

/-- What can happen next. -/
inductive Move (S : System) (P : Type) where
  | start (p : P) (call : S.Call)
  | act (p : P) (e : Sigma S.Resp)
  | stop (p : P)
  | env (e : S.Env)

/-- The state, the processes, and the moves so far, the latest first. -/
structure Config (S : System) (P : Type) where
  state : S.State
  procs : P → Option (Proc S)
  trace : List (Move S P)

namespace Config

variable [DecidableEq P]

/-- No call has been made yet. -/
def init (S : System) (P : Type) (s : S.State) : Config S P := ⟨s, fun _ => none, []⟩

/-- The configuration after a move of one process. -/
def advance (c : Config S P) (m : Move S P) (p : P) (proc : Proc S) (s : S.State) : Config S P :=
  ⟨s, Function.update c.procs p (some proc), m :: c.trace⟩

/-- A process goes on with its call. -/
theorem callOf_advance {c : Config S P} {m : Move S P} {p : P} {proc : Proc S} {s : S.State}
    (hp : (c.procs p).map Proc.call = some proc.call) (q : P) :
    ((c.advance m p proc s).procs q).map Proc.call = (c.procs q).map Proc.call := by
  by_cases hqp : q = p
  · subst hqp
    simp only [advance, Function.update_self, hp, Option.map_some]
  · simp only [advance, Function.update_of_ne hqp]

/-- Perform a move, if it is possible. -/
def move [DecidableEq S.Cmd] (c : Config S P) : Move S P → Option (Config S P)
  | .start p call =>
      match c.procs p with
      | none => (S.begin call c.state).map
          (c.advance (.start p call) p ⟨call, some (S.program call)⟩)
      | some _ => none
  | .act p ⟨cmd, r⟩ =>
      match c.procs p with
      | some ⟨call, some (.op cmd' next)⟩ =>
          if h : cmd = cmd' then
            (S.respond cmd r c.state).map
              (c.advance (.act p ⟨cmd, r⟩) p ⟨call, some (next (h ▸ r))⟩)
          else none
      | _ => none
  | .stop p => (c.procs p).map fun proc => c.advance (.stop p) p ⟨proc.call, none⟩ c.state
  | .env e => (S.env e c.state).map fun s => ⟨s, c.procs, .env e :: c.trace⟩

/-- Perform moves one after another. -/
def play [DecidableEq S.Cmd] : List (Move S P) → Config S P → Option (Config S P)
  | [], c => some c
  | m :: ms, c => (c.move m).bind (play ms)

/-- The call of a process. -/
def callOf (c : Config S P) (p : P) : Option S.Call := (c.procs p).map Proc.call

/-- The process performs the call. -/
def performs [DecidableEq S.Call] (c : Config S P) (p : P) (call : S.Call) : Bool :=
  decide (c.callOf p = some call)

/-- The call of the process has returned the value. -/
def returned [DecidableEq S.Res] (c : Config S P) (p : P) (a : S.Res) : Bool :=
  match c.procs p with
  | some ⟨_, some (.pure a')⟩ => decide (a' = a)
  | _ => false

/-- What the commands show of themselves and their answers, the latest first. -/
def occurrences {β : Type} (f : Sigma S.Resp → Option β) (c : Config S P) : List (P × β) :=
  c.trace.filterMap fun
    | .act p e => (f e).map (Prod.mk p)
    | _ => none

/-- The commands of a process with their answers, the latest first. -/
def events (c : Config S P) (p : P) : List (Sigma S.Resp) :=
  c.trace.filterMap fun
    | .act q e => if q = p then some e else none
    | _ => none

/-- The check of a call is right. -/
theorem performs_iff [DecidableEq S.Call] {c : Config S P} {p : P} {call : S.Call} :
    c.performs p call = true ↔ c.callOf p = some call :=
  decide_eq_true_iff

/-- The check of a result is right. -/
theorem returned_iff [DecidableEq S.Res] {c : Config S P} {p : P} {a : S.Res} :
    c.returned p a = true ↔ ∃ call, c.procs p = some ⟨call, some (.pure a)⟩ := by
  unfold returned
  constructor
  · intro h
    split at h
    · rename_i call a' hp
      exact ⟨call, of_decide_eq_true h ▸ hp⟩
    · cases h
  · rintro ⟨call, hp⟩
    rw [hp]
    exact decide_eq_true rfl

/-- What the occurrences show was shown by a command of the process. -/
theorem mem_occurrences {β : Type} {f : Sigma S.Resp → Option β} {c : Config S P} {p : P} {b : β} :
    (p, b) ∈ c.occurrences f ↔ b ∈ (c.events p).filterMap f := by
  unfold occurrences events
  simp only [List.mem_filterMap]
  constructor
  · rintro ⟨m, hm, hb⟩
    cases m with
    | act q e =>
      obtain ⟨b', hb', heq⟩ := Option.map_eq_some_iff.mp hb
      cases heq
      exact ⟨e, ⟨.act p e, hm, if_pos rfl⟩, hb'⟩
    | start | stop | env => cases hb
  · rintro ⟨e, ⟨m, hm, he⟩, hb⟩
    cases m with
    | act q e' =>
      dsimp only at he
      split at he
      · rename_i hq
        cases he
        exact ⟨_, hm, Option.map_eq_some_iff.mpr ⟨b, hb, by rw [hq]⟩⟩
      · cases he
    | start | stop | env => cases he

variable [DecidableEq S.Cmd]

/-- One move. -/
def Step (c c' : Config S P) : Prop := ∃ m, c.move m = some c'

/-- Any number of moves. -/
def Reaches : Config S P → Config S P → Prop := Relation.ReflTransGen Step

/-- What was played is reached, by induction on the moves. -/
theorem reaches_of_play : ∀ {ms : List (Move S P)} {c c' : Config S P},
    play ms c = some c' → Reaches c c'
  | [], c, c', h => by
      cases h
      exact .refl
  | m :: ms, c, c', h => by
      obtain ⟨c₁, hm, hms⟩ := Option.bind_eq_some_iff.mp h
      exact .head ⟨m, hm⟩ (reaches_of_play hms)

/-- One move that is allowed where it is made. -/
def StepIf (allowed : Config S P → Move S P → Bool) (c c' : Config S P) : Prop :=
  ∃ m, allowed c m = true ∧ c.move m = some c'

/-- Any number of moves, each of which is allowed where it is made. -/
def ReachesIf (allowed : Config S P → Move S P → Bool) : Config S P → Config S P → Prop :=
  Relation.ReflTransGen (StepIf allowed)

/-- Perform allowed moves one after another. -/
def playIf (allowed : Config S P → Move S P → Bool) :
    List (Move S P) → Config S P → Option (Config S P)
  | [], c => some c
  | m :: ms, c => if allowed c m = true then (c.move m).bind (playIf allowed ms) else none

/-- What was played with allowed moves is reached with allowed moves. -/
theorem reachesIf_of_playIf {allowed : Config S P → Move S P → Bool} :
    ∀ {ms : List (Move S P)} {c c' : Config S P},
      playIf allowed ms c = some c' → ReachesIf allowed c c'
  | [], c, c', h => by
      cases h
      exact .refl
  | m :: ms, c, c', h => by
      obtain ⟨hallowed, hms⟩ := Option.ite_none_right_eq_some.mp h
      obtain ⟨c₁, hm, hms⟩ := Option.bind_eq_some_iff.mp hms
      exact .head ⟨m, hallowed, hm⟩ (reachesIf_of_playIf hms)

/-- Allowed moves are moves. -/
theorem ReachesIf.reaches {allowed : Config S P → Move S P → Bool} {c c' : Config S P}
    (h : ReachesIf allowed c c') : Reaches c c' :=
  Relation.ReflTransGen.mono (fun _ _ ⟨m, _, hm⟩ => ⟨m, hm⟩) _ _ h

/-! ## What a move does -/

variable {c c' : Config S P}

/-- A start makes a call of a free process. -/
theorem move_start {p : P} {call : S.Call} (h : c.move (.start p call) = some c') :
    c.procs p = none ∧ ∃ s, S.begin call c.state = some s ∧
      c' = c.advance (.start p call) p ⟨call, some (S.program call)⟩ s := by
  unfold move at h
  dsimp only at h
  split at h
  · rename_i hp
    obtain ⟨s, hs, rfl⟩ := Option.map_eq_some_iff.mp h
    exact ⟨hp, s, hs, rfl⟩
  · cases h

/-- An act performs the next command of a process, answered by the state. -/
theorem move_act {p : P} {e : Sigma S.Resp} (h : c.move (.act p e) = some c') :
    ∃ call next s, c.procs p = some ⟨call, some (.op e.1 next)⟩ ∧
      S.respond e.1 e.2 c.state = some s ∧
      c' = c.advance (.act p e) p ⟨call, some (next e.2)⟩ s := by
  obtain ⟨cmd, r⟩ := e
  unfold move at h
  dsimp only at h
  split at h
  · rename_i call cmd' next hp
    split at h
    · rename_i hcmd
      subst hcmd
      obtain ⟨s, hs, rfl⟩ := Option.map_eq_some_iff.mp h
      exact ⟨call, next, s, hp, hs, rfl⟩
    · cases h
  · cases h

/-- A stop leaves a process without program. -/
theorem move_stop {p : P} (h : c.move (.stop p) = some c') :
    ∃ proc, c.procs p = some proc ∧ c' = c.advance (.stop p) p ⟨proc.call, none⟩ c.state := by
  obtain ⟨proc, hp, rfl⟩ := Option.map_eq_some_iff.mp h
  exact ⟨proc, hp, rfl⟩

/-- The environment changes the state alone. -/
theorem move_env {e : S.Env} (h : c.move (.env e) = some c') :
    ∃ s, S.env e c.state = some s ∧ c' = ⟨s, c.procs, .env e :: c.trace⟩ := by
  obtain ⟨s, hs, rfl⟩ := Option.map_eq_some_iff.mp h
  exact ⟨s, hs, rfl⟩

/-- A move is added to the trace. -/
theorem trace_move {m : Move S P} (h : c.move m = some c') : c'.trace = m :: c.trace := by
  cases m with
  | start p call =>
    obtain ⟨-, s, -, rfl⟩ := move_start h
    rfl
  | act p e =>
    obtain ⟨call, next, s, -, -, rfl⟩ := move_act h
    rfl
  | stop p =>
    obtain ⟨proc, -, rfl⟩ := move_stop h
    rfl
  | env e =>
    obtain ⟨s, -, rfl⟩ := move_env h
    rfl

/-- The trace grows. -/
theorem Reaches.trace_suffix (h : Reaches c c') : c.trace <:+ c'.trace := by
  induction h with
  | refl => exact List.suffix_rfl
  | tail _ hs ih =>
    obtain ⟨m, hm⟩ := hs
    exact ih.trans (trace_move hm ▸ List.suffix_cons _ _)

/-- So do the occurrences. -/
theorem Reaches.occurrences_suffix (h : Reaches c c') {β : Type} (f : Sigma S.Resp → Option β) :
    c.occurrences f <:+ c'.occurrences f :=
  h.trace_suffix.filterMap _

/-- A process goes on with its call. -/
theorem Step.call_kept (h : Step c c') {p : P} {proc : Proc S} (hp : c.procs p = some proc) :
    ∃ proc', c'.procs p = some proc' ∧ proc'.call = proc.call := by
  obtain ⟨m, hm⟩ := h
  cases m with
  | start q call =>
    obtain ⟨hq, s, -, rfl⟩ := move_start hm
    have hne : p ≠ q := by
      rintro rfl
      cases hp.symm.trans hq
    exact ⟨proc, (Function.update_of_ne hne _ _).trans hp, rfl⟩
  | act q e =>
    obtain ⟨call, next, s, hq, -, rfl⟩ := move_act hm
    by_cases hpq : p = q
    · subst hpq
      cases hp.symm.trans hq
      exact ⟨_, Function.update_self .., rfl⟩
    · exact ⟨proc, (Function.update_of_ne hpq _ _).trans hp, rfl⟩
  | stop q =>
    obtain ⟨proc', hq, rfl⟩ := move_stop hm
    by_cases hpq : p = q
    · subst hpq
      cases hp.symm.trans hq
      exact ⟨_, Function.update_self .., rfl⟩
    · exact ⟨proc, (Function.update_of_ne hpq _ _).trans hp, rfl⟩
  | env e =>
    obtain ⟨s, -, rfl⟩ := move_env hm
    exact ⟨proc, hp, rfl⟩

/-- A call is never taken back. -/
theorem Reaches.callOf_kept (h : Reaches c c') {p : P} {call : S.Call}
    (hp : c.callOf p = some call) : c'.callOf p = some call := by
  induction h with
  | refl => exact hp
  | tail _ hs ih =>
    obtain ⟨proc, hproc, rfl⟩ := Option.map_eq_some_iff.mp ih
    obtain ⟨proc', hproc', hcall⟩ := hs.call_kept hproc
    exact Option.map_eq_some_iff.mpr ⟨proc', hproc', hcall⟩

/-! ## What a process has done -/

variable (F : S.Call → List (Sigma S.Resp) → Prop)
  (G : S.Call → Except S.Err S.Res → List (Sigma S.Resp) → Prop)

/-- Each process stands somewhere on the way that its program goes. -/
def Along (c : Config S P) : Prop :=
  ∀ p, match c.procs p with
    | none => c.events p = []
    | some ⟨call, none⟩ => F call (c.events p)
    | some ⟨call, some rest⟩ => rest.Always (F call) (G call) (c.events p)

variable {F G}

/-- A process that has not started has done nothing. -/
theorem Along.events_nil (hc : c.Along F G) {p : P} (hp : c.procs p = none) : c.events p = [] := by
  have := hc p
  rw [hp] at this
  exact this

/-- What remains of a program is on its way. -/
theorem Along.rest (hc : c.Along F G) {p : P} {call : S.Call} {rest : Prog S.Resp S.Err S.Res}
    (hp : c.procs p = some ⟨call, some rest⟩) : rest.Always (F call) (G call) (c.events p) := by
  have := hc p
  rw [hp] at this
  exact this

/-- **What holds along the program of a call** holds of what its process has done. -/
theorem Along.here (hc : c.Along F G) {p : P} {proc : Proc S} (hp : c.procs p = some proc) :
    F proc.call (c.events p) := by
  have h := hc p
  rw [hp] at h
  obtain ⟨call, _ | rest⟩ := proc
  · exact h
  · exact h.here

/-- A process that has given a command has its call. -/
theorem Along.of_occurrence (hc : c.Along F G) {p : P} {β : Type} {f : Sigma S.Resp → Option β}
    {b : β} (h : (p, b) ∈ c.occurrences f) :
    ∃ call, c.callOf p = some call ∧ F call (c.events p) := by
  rcases hp : c.procs p with _ | proc
  · rw [mem_occurrences, hc.events_nil hp] at h
    exact absurd h List.not_mem_nil
  · exact ⟨proc.call, congrArg (Option.map Proc.call) hp, hc.here hp⟩

/-- What holds where the program of a call ends holds of what its process has done. -/
theorem Along.ended (hc : c.Along F G) {p : P} {proc : Proc S} (hp : c.procs p = some proc)
    {r : Except S.Err S.Res} (hr : proc.result = some r) : G proc.call r (c.events p) := by
  obtain ⟨call, rest⟩ := proc
  unfold Proc.result at hr
  dsimp only at hr
  split at hr
  · cases hr
    exact (hc.rest hp).2
  · cases hr
    exact (hc.rest hp).2
  · cases hr

/-- At the beginning no process is anywhere. -/
theorem along_init (s : S.State) : (init S P s).Along F G := fun _ => rfl

/-- A move adds the event of its process, if it has one. -/
theorem events_advance {m : Move S P} {p q : P} {proc : Proc S} {s : S.State} :
    (c.advance m p proc s).events q =
      (match m with
        | .act p' e => if p' = q then [e] else []
        | _ => []) ++ c.events q := by
  unfold events advance
  rw [List.filterMap_cons]
  cases m with
  | act p' e =>
    by_cases hq : p' = q <;> simp [hq]
  | start | stop | env => rfl

/-- Another process is as before. -/
theorem advance_of_ne {m : Move S P} {p q : P} {proc : Proc S} {s : S.State} (hqp : q ≠ p)
    (hm : ∀ p' e, m = .act p' e → p' = p) :
    (c.advance m p proc s).procs q = c.procs q ∧ (c.advance m p proc s).events q = c.events q := by
  refine ⟨Function.update_of_ne hqp _ _, ?_⟩
  rw [events_advance]
  cases m with
  | act p' e =>
    obtain rfl := hm p' e rfl
    simp only [if_neg (Ne.symm hqp), List.nil_append]
  | start | stop | env => rfl

/-- An act adds its event. -/
theorem events_act {p : P} {e : Sigma S.Resp} {proc : Proc S} {s : S.State} :
    (c.advance (.act p e) p proc s).events p = e :: c.events p := by
  rw [events_advance]
  simp only [if_pos, List.singleton_append]

/-- An act adds what its command shows. -/
theorem occurrences_act {β : Type} (f : Sigma S.Resp → Option β) {p : P} {e : Sigma S.Resp}
    {proc : Proc S} {s : S.State} :
    (c.advance (.act p e) p proc s).occurrences f =
      ((f e).map (Prod.mk p)).toList ++ c.occurrences f := by
  unfold occurrences advance
  cases hf : f e with
  | none => simp [hf]
  | some b => simp [hf]

/-- **One move keeps every process on the way of its program.** -/
theorem Along.move (hprogram : ∀ call, (S.program call).Always (F call) (G call) [])
    (hc : c.Along F G) {m : Move S P} (hm : c.move m = some c') : c'.Along F G := by
  intro q
  cases m with
  | start p call =>
    obtain ⟨hp, s, -, rfl⟩ := move_start hm
    rw [events_advance]
    by_cases hqp : q = p
    · subst hqp
      simp only [advance, Function.update_self, List.nil_append, hc.events_nil hp]
      exact hprogram call
    · simp only [advance, Function.update_of_ne hqp, List.nil_append]
      exact hc q
  | act p e =>
    obtain ⟨call, next, s, hp, -, rfl⟩ := move_act hm
    rw [events_advance]
    by_cases hqp : q = p
    · subst hqp
      simp only [advance, Function.update_self, if_pos, List.singleton_append]
      exact (hc.rest hp).2 e.2
    · simp only [advance, Function.update_of_ne hqp, if_neg (Ne.symm hqp), List.nil_append]
      exact hc q
  | stop p =>
    obtain ⟨proc, hp, rfl⟩ := move_stop hm
    rw [events_advance]
    by_cases hqp : q = p
    · subst hqp
      simp only [advance, Function.update_self, List.nil_append]
      exact hc.here hp
    · simp only [advance, Function.update_of_ne hqp, List.nil_append]
      exact hc q
  | env e =>
    obtain ⟨s, -, rfl⟩ := move_env hm
    exact hc q

/-- **An invariant of a run**, for whose proof each move may use what the processes have done. -/
theorem Reaches.induct {I : Config S P → Prop} {s : S.State}
    (hprogram : ∀ call, (S.program call).Always (F call) (G call) []) (hinit : I (init S P s))
    (hstep : ∀ {c c' : Config S P} {m}, c.Along F G → c'.Along F G → I c →
      c.move m = some c' → I c') (h : Reaches (init S P s) c) : c.Along F G ∧ I c := by
  induction h with
  | refl => exact ⟨along_init s, hinit⟩
  | tail _ hs ih =>
    obtain ⟨m, hm⟩ := hs
    have halong := ih.1.move hprogram hm
    exact ⟨halong, hstep ih.1 halong ih.2 hm⟩

/-- **So does any number of moves**, by induction on them. -/
theorem Reaches.along {s : S.State}
    (hprogram : ∀ call, (S.program call).Always (F call) (G call) [])
    (h : Reaches (init S P s) c) : c.Along F G :=
  (h.induct (I := fun _ => True) hprogram trivial fun _ _ _ _ => trivial).1

end Config

end Effects
