import SyncBack.Infrastructure.RedisBroker
import SyncBack.Properties.EventFeeds
import SyncBack.Properties.EventsOnTheWire

/-!
# The brokers of several processes act as one

`cluster_refines`: in every order of steps, each process serves its clients like a broker in memory
that is given the events which the process hands over. With Redis these are events of the channel since
the process started, in their order and without repetition; over a channel that loses nothing they are
the first ones of the channel, and all of them have been handed over or wait while the reader goes on.

The invariant `Kept` is about one process; `kept_step` says that every step keeps it.
-/

namespace SyncBack.Wire

open Json (Value FloatText)
open UuidText (UUID)

variable {R : PubSub} {φ : Type} [FloatText φ] (ascii : Char → Char) (bits : Uuid → UUID)

/-- The event of a message that is handed over. -/
def Reading.event? : Reading φ → Option (SSEEvent φ)
  | .event e => some e
  | _ => none

/-- The events of a message, none or one. -/
def eventsOf (raw : List Char) : List (SSEEvent φ) := (readMessage ascii raw).event?.toList

/-- The events that an operation puts on the channel, as far as a reader hands them over. -/
def sentBy (c : Cluster R φ) : ClusterOp → List (SSEEvent φ)
  | .publish p event => if (c.process p).mode = .redis then [toSseEvent bits event] else []
  | .publishFromWorker event => [toSseEvent bits event]
  | .foreign raw => eventsOf ascii raw
  | _ => []

/-- What an operation does to the broker of one process. -/
def brokerOps (p : Process) (c : Cluster R φ) : ClusterOp → List (BrokerOp (SSEEvent φ))
  | .publish q event =>
      if q = p ∧ (c.process p).mode = .inMemory then
        [.publish (SSEEvent.delivered (toSseEvent bits event))]
      else []
  | .readNext q =>
      if q = p ∧ (c.process p).reading = true then
        match R.waiting c.channel p with
        | raw :: _ => (eventsOf ascii raw).map fun e => .publish e.delivered
        | [] => []
      else []
  | .subscribe q subId filter => if q = p then [.add subId filter] else []
  | .unsubscribe q subId => if q = p then [.remove subId] else []
  | .take q subId => if q = p then [.read subId] else []
  | _ => []

/-- The process is started again. -/
def ClusterOp.restarts (p : Process) : ClusterOp → Bool
  | .start q _ => q = p
  | _ => false

/-- A run, with what concerns one process since it started: the operations of its broker, and the
events that were put on the channel. -/
structure Observed (R : PubSub) (φ : Type) where
  cluster : Cluster R φ
  ops : List (BrokerOp (SSEEvent φ))
  sent : List (SSEEvent φ)

namespace Observed

def init : Observed R φ := ⟨.init, [], []⟩

def step (p : Process) (o : Observed R φ) (op : ClusterOp) : Observed R φ where
  cluster := o.cluster.step ascii bits op
  ops := (if op.restarts p then [] else o.ops) ++ brokerOps ascii bits p o.cluster op
  sent := (if op.restarts p then [] else o.sent) ++ sentBy ascii bits o.cluster op

def run (p : Process) (ops : List ClusterOp) : Observed R φ := ops.foldl (step ascii bits p) init

end Observed

/-- The event that an operation of a broker publishes. -/
def published : BrokerOp (SSEEvent φ) → Option (SyncBack.SSEEvent (SSEEvent φ))
  | .publish event => some event
  | _ => none

/-- The events that are handed over when the reader gets to these messages. -/
def waitingEvents (inbox : List (List Char)) : List (SyncBack.SSEEvent (SSEEvent φ)) :=
  (inbox.flatMap (eventsOf ascii)).map SSEEvent.delivered

/-- A process against its broker in memory and the events that have come to it. -/
structure Kept (a : ApiProcess φ) (inbox : List (List Char)) (ops : List (BrokerOp (SSEEvent φ)))
    (arrived : List (SSEEvent φ)) : Prop where
  refines : a.subscribers = (BrokerRun.run ops).subscribers
  complete : a.mode = .redis → a.reading = true →
    ops.filterMap published ++ waitingEvents ascii inbox = arrived.map SSEEvent.delivered
  inOrder : a.mode = .redis → ops.filterMap published <+: arrived.map SSEEvent.delivered

/-- The events that have come to a process were put on the channel, and over a channel that loses
nothing they are all of them. -/
structure Arrived (p : Process) (o : Observed R φ) (arrived : List (SSEEvent φ)) : Prop where
  sublist : arrived.Sublist o.sent
  lossless : R.Lossless → (o.cluster.process p).mode = .redis →
    R.listens o.cluster.channel p ∧ arrived = o.sent

/-! ## One step of a process -/

variable {ascii bits} {a : ApiProcess φ} {inbox : List (List Char)}
  {ops : List (BrokerOp (SSEEvent φ))} {arrived : List (SSEEvent φ)}

omit [FloatText φ] in
/-- One operation more. -/
theorem run_concat (ops : List (BrokerOp (SSEEvent φ))) (op : BrokerOp (SSEEvent φ)) :
    BrokerRun.run (ops ++ [op]) = (BrokerRun.run ops).step op := by
  rw [BrokerRun.run, List.foldl_append]
  rfl

/-- A process that has just started. -/
theorem kept_start (available : Bool) (hinbox : available = true → inbox = []) :
    Kept ascii (.start available : ApiProcess φ) inbox [] [] := by
  refine ⟨rfl, fun _ hreading => ?_, fun _ => List.prefix_rfl⟩
  rw [hinbox hreading]
  rfl

/-- The clients come and go. -/
theorem Kept.client (h : Kept ascii a inbox ops arrived) {op : BrokerOp (SSEEvent φ)}
    (hop : published op = none) {subscribers : Subscribers (SSEEvent φ)}
    (hstep : subscribers = ((BrokerRun.run ops).step op).subscribers) :
    Kept ascii { a with subscribers := subscribers } inbox (ops ++ [op]) arrived := by
  have hpublished : (ops ++ [op]).filterMap published = ops.filterMap published := by
    rw [List.filterMap_append, List.filterMap_cons_none hop, List.filterMap_nil, List.append_nil]
  refine ⟨?_, fun hmode hreading => ?_, fun hmode => ?_⟩
  · rw [run_concat]
    exact hstep
  · rw [hpublished]
    exact h.complete hmode hreading
  · rw [hpublished]
    exact h.inOrder hmode

/-- A message comes over the channel. -/
theorem Kept.receive (h : Kept ascii a inbox ops arrived) (raw : List Char) :
    Kept ascii a (inbox ++ [raw]) ops (arrived ++ eventsOf ascii raw) := by
  have hprefix : arrived.map SSEEvent.delivered <+:
      (arrived ++ eventsOf ascii raw).map SSEEvent.delivered := by
    rw [List.map_append]
    exact List.prefix_append _ _
  refine ⟨h.refines, fun hmode hreading => ?_, fun hmode => (h.inOrder hmode).trans hprefix⟩
  rw [List.map_append, ← h.complete hmode hreading, List.append_assoc]
  simp only [waitingEvents, List.flatMap_append, List.flatMap_cons, List.flatMap_nil,
    List.append_nil, List.map_append]

/-- Without Redis a process hears itself. -/
theorem Kept.inMemory (h : Kept ascii a inbox ops arrived) (hmode : a.mode = .inMemory)
    (e : SSEEvent φ) : Kept ascii (a.fanOut e) inbox (ops ++ [.publish e.delivered]) arrived := by
  refine ⟨?_, fun hredis => ?_, fun hredis => ?_⟩
  · rw [run_concat, ApiProcess.fanOut, h.refines]
    rfl
  · exact absurd (hmode.symm.trans hredis) (by decide)
  · exact absurd (hmode.symm.trans hredis) (by decide)

/-- The operations of a broker to which the reader has given what it made of a message. -/
theorem Kept.handle {raw : List Char} (h : Kept ascii a (raw :: inbox) ops arrived)
    (hreading : a.reading = true) :
    Kept ascii (a.handle ascii raw) inbox
      (ops ++ (eventsOf ascii raw).map fun e => .publish e.delivered) arrived := by
  have hcomplete : a.mode = .redis → ops.filterMap published ++
      ((eventsOf ascii raw).map SSEEvent.delivered ++ waitingEvents ascii inbox) =
        arrived.map SSEEvent.delivered := by
    intro hmode
    rw [← h.complete hmode hreading, waitingEvents, waitingEvents, List.flatMap_cons, List.map_append]
  unfold eventsOf at hcomplete ⊢
  rw [ApiProcess.handle]
  cases hread : readMessage (φ := φ) ascii raw with
  | event e =>
      rw [hread] at hcomplete
      have hpublished : (ops ++ [BrokerOp.publish e.delivered]).filterMap published =
          ops.filterMap published ++ [e.delivered] := by
        rw [List.filterMap_append]
        rfl
      have hkept : a.mode = .redis → (ops ++ [BrokerOp.publish e.delivered]).filterMap published ++
          waitingEvents ascii inbox = arrived.map SSEEvent.delivered := by
        intro hmode
        rw [hpublished, List.append_assoc]
        exact hcomplete hmode
      refine ⟨?_, fun hmode _ => hkept hmode, fun hmode => ⟨_, hkept hmode⟩⟩
      change a.subscribers.fanOut e.delivered =
        (BrokerRun.run (ops ++ [.publish e.delivered])).subscribers
      rw [run_concat, h.refines]
      rfl
  | skipped =>
      rw [hread] at hcomplete
      change Kept ascii a inbox (ops ++ []) arrived
      rw [List.append_nil]
      exact ⟨h.refines, fun hmode _ => hcomplete hmode, h.inOrder⟩
  | stopped =>
      change Kept ascii { a with reading := false } inbox (ops ++ []) arrived
      rw [List.append_nil]
      exact ⟨h.refines, fun _ hreading => (by cases hreading), h.inOrder⟩

/-- The reader gives up. -/
theorem Kept.connectionLost (h : Kept ascii a inbox ops arrived) :
    Kept ascii { a with reading := false } inbox ops arrived :=
  ⟨h.refines, fun _ hreading => (by cases hreading), h.inOrder⟩

/-- The events of the program are read as they were sent. -/
theorem readMessage_toJson (event : Publishing.DocumentStatusChanged) :
    readMessage (φ := φ) ascii (SSEEvent.toJson (φ := φ) (toSseEvent bits event)) =
      .event (toSseEvent bits event) := by
  rw [readMessage, (fromJson_toJson_eq_iff (φ := φ) ascii).mpr (wf_toSseEvent bits event)]

/-- The text of an event is read as that event. -/
theorem eventsOf_toJson (event : Publishing.DocumentStatusChanged) :
    eventsOf (φ := φ) ascii (SSEEvent.toJson (φ := φ) (toSseEvent bits event)) =
      [toSseEvent bits event] := by
  rw [eventsOf, readMessage_toJson]
  rfl

/-! ## One step of the cluster -/

variable (ascii) in
/-- What is kept of one process. -/
def Held (p : Process) (o : Observed R φ) : Prop :=
  ∃ arrived, Kept ascii (o.cluster.process p) (R.waiting o.cluster.channel p) o.ops arrived ∧
    Arrived p o arrived

omit [FloatText φ] in
/-- The process is updated. -/
@[simp] theorem process_update_self (c : Cluster R φ) (p : Process)
    (f : ApiProcess φ → ApiProcess φ) : (c.update p f).process p = f (c.process p) :=
  Function.update_self _ _ _

omit [FloatText φ] in
/-- The others are not. -/
theorem process_update_of_ne (c : Cluster R φ) {p q : Process} (h : q ≠ p)
    (f : ApiProcess φ → ApiProcess φ) : (c.update q f).process p = c.process p :=
  Function.update_of_ne (Ne.symm h) _ _

variable {p : Process} {o : Observed R φ}

omit [FloatText φ] in
/-- What has come to a process stays so when nothing is sent and it neither starts nor stops. -/
theorem Arrived.keep (h : Arrived p o arrived) {o' : Observed R φ} (hsent : o'.sent = o.sent)
    (hmode : (o'.cluster.process p).mode = (o.cluster.process p).mode)
    (hlistens : R.Lossless → R.listens o.cluster.channel p → R.listens o'.cluster.channel p) :
    Arrived p o' arrived := by
  refine ⟨?_, fun hlossless hredis => ?_⟩
  · rw [hsent]
    exact h.sublist
  · rw [hmode] at hredis
    obtain ⟨hlistening, hall⟩ := h.lossless hlossless hredis
    exact ⟨hlistens hlossless hlistening, hall.trans hsent.symm⟩

/-- An operation on the clients of some process. -/
theorem Held.update (h : Held ascii p o) {q : Process} {f : ApiProcess φ → ApiProcess φ}
    {more : List (BrokerOp (SSEEvent φ))}
    (hself : q = p → (∀ a, (f a).mode = a.mode) ∧ ∀ inbox arrived,
      Kept ascii (o.cluster.process p) inbox o.ops arrived →
        Kept ascii (f (o.cluster.process p)) inbox (o.ops ++ more) arrived)
    (hother : q ≠ p → more = []) :
    Held ascii p ⟨o.cluster.update q f, o.ops ++ more, o.sent ++ []⟩ := by
  obtain ⟨arrived, hkept, harrived⟩ := h
  rw [List.append_nil]
  by_cases hq : q = p
  · subst hq
    refine ⟨arrived, ?_, harrived.keep rfl ?_ fun _ hlistens => hlistens⟩
    · dsimp only
      rw [process_update_self]
      exact (hself rfl).2 _ _ hkept
    · dsimp only
      rw [process_update_self, (hself rfl).1]
  · refine ⟨arrived, ?_, harrived.keep rfl ?_ fun _ hlistens => hlistens⟩
    · dsimp only
      rw [process_update_of_ne _ hq, hother hq, List.append_nil]
      exact hkept
    · dsimp only
      rw [process_update_of_ne _ hq]

/-- A message is published: it comes to the process, or is lost on the way. -/
theorem Held.broadcast (hR : R.AtMostOnce) (h : Held ascii p o) (raw : List Char) :
    Held ascii p ⟨o.cluster.broadcast raw, o.ops ++ [], o.sent ++ eventsOf ascii raw⟩ := by
  obtain ⟨arrived, hkept, harrived⟩ := h
  rw [List.append_nil]
  by_cases hcomes : R.waiting (R.publish o.cluster.channel raw) p =
      R.waiting o.cluster.channel p ++ [raw]
  · refine ⟨arrived ++ eventsOf ascii raw, ?_, harrived.sublist.append_right _,
      fun hlossless hmode => ?_⟩
    · change Kept ascii _ (R.waiting (R.publish o.cluster.channel raw) p) _ _
      rw [hcomes]
      exact hkept.receive raw
    · obtain ⟨hlistens, hall⟩ := harrived.lossless hlossless hmode
      exact ⟨hlossless.publish_listens _ raw p hlistens, by rw [hall]⟩
  · have hlost := (hR.publish o.cluster.channel raw p).resolve_right hcomes
    refine ⟨arrived, ?_, harrived.sublist.trans (List.sublist_append_left _ _),
      fun hlossless hmode => ?_⟩
    · change Kept ascii _ (R.waiting (R.publish o.cluster.channel raw) p) _ _
      rw [hlost]
      exact hkept
    · obtain ⟨hlistens, -⟩ := harrived.lossless hlossless hmode
      exact absurd (hlossless.publish _ raw p hlistens) hcomes

/-- A process starts, and subscribes if Redis can be reached. -/
theorem Held.start (hR : R.AtMostOnce) (h : Held ascii p o) (q : Process) (available : Bool) :
    Held ascii p (o.step ascii bits p (.start q available)) := by
  obtain ⟨arrived, hkept, harrived⟩ := h
  by_cases hq : q = p
  · subst hq
    refine ⟨[], ?_, List.nil_sublist _, fun hlossless hmode => ⟨?_, ?_⟩⟩
    · simp only [Observed.step, Cluster.step, ClusterOp.restarts, decide_true, if_true, brokerOps,
        List.append_nil, process_update_self]
      refine kept_start available fun hredis => ?_
      rw [if_pos hredis]
      exact hR.subscribe_self _ _
    · cases available with
      | true => exact hlossless.subscribe _ q q (.inl rfl)
      | false =>
          simp only [Observed.step, Cluster.step, process_update_self, ApiProcess.start] at hmode
          cases hmode
    · simp [Observed.step, ClusterOp.restarts, sentBy]
  · refine ⟨arrived, ?_, ?_, fun hlossless hmode => ?_⟩
    · simp only [Observed.step, Cluster.step, ClusterOp.restarts, hq, decide_false,
        Bool.false_eq_true, if_false, brokerOps, List.append_nil, process_update_of_ne _ hq]
      split_ifs
      · rw [hR.subscribe_other _ _ _ (Ne.symm hq)]
        exact hkept
      · exact hkept
    · simpa [Observed.step, ClusterOp.restarts, hq, sentBy] using harrived.sublist
    · simp only [Observed.step, Cluster.step, process_update_of_ne _ hq] at hmode
      obtain ⟨hlistens, hall⟩ := harrived.lossless hlossless hmode
      refine ⟨?_, by simpa [Observed.step, ClusterOp.restarts, hq, sentBy] using hall⟩
      simp only [Observed.step, Cluster.step]
      split_ifs
      · exact hlossless.subscribe _ q p (.inr hlistens)
      · exact hlistens

/-- Handling a message starts and stops nothing. -/
theorem mode_handle (raw : List Char) : (a.handle ascii raw).mode = a.mode := by
  rw [ApiProcess.handle]
  cases readMessage (φ := φ) ascii raw <;> rfl

variable (ascii) in
/-- The reader of a process stands still, or it handles the next message. -/
theorem readNext_cases (c : Cluster R φ) (q : Process) :
    c.readNext ascii q = c ∧ ((c.process q).reading = true → R.waiting c.channel q = []) ∨
      ∃ raw rest, (c.process q).reading = true ∧ R.waiting c.channel q = raw :: rest ∧
        c.readNext ascii q =
          { c.update q (ApiProcess.handle ascii · raw) with channel := R.yielded c.channel q } := by
  rw [Cluster.readNext]
  cases (c.process q).reading with
  | false => exact .inl ⟨rfl, fun hreading => (by cases hreading)⟩
  | true =>
      cases R.waiting c.channel q with
      | nil => exact .inl ⟨rfl, fun _ => rfl⟩
      | cons raw rest => exact .inr ⟨raw, rest, rfl, rfl, rfl⟩

/-- The reader of a process gets to a message, if there is one. -/
theorem Held.readNext (hR : R.AtMostOnce) (h : Held ascii p o) (q : Process) :
    Held ascii p (o.step ascii bits p (.readNext q)) := by
  obtain ⟨arrived, hkept, harrived⟩ := h
  have hsent : (o.step ascii bits p (.readNext q)).sent = o.sent := List.append_nil _
  have hops : (o.step ascii bits p (.readNext q)).ops =
      o.ops ++ brokerOps ascii bits p o.cluster (.readNext q) := rfl
  have hcluster : (o.step ascii bits p (.readNext q)).cluster = o.cluster.readNext ascii q := rfl
  rcases readNext_cases ascii o.cluster q with ⟨hstill, hempty⟩ | ⟨raw, rest, hreading, hinbox, hread⟩
  · have hnone : brokerOps ascii bits p o.cluster (.readNext q) = [] := by
      rw [brokerOps]
      split_ifs with hq
      · obtain ⟨rfl, hreading⟩ := hq
        rw [hempty hreading]
      · rfl
    rw [hnone, List.append_nil] at hops
    rw [hstill] at hcluster
    refine ⟨arrived, ?_, harrived.keep hsent (by rw [hcluster]) fun _ hlistens => ?_⟩
    · rw [hcluster, hops]
      exact hkept
    · rw [hcluster]
      exact hlistens
  rw [hread] at hcluster
  by_cases hq : q = p
  · subst hq
    refine ⟨arrived, ?_, harrived.keep hsent ?_ fun hlossless hlistens => ?_⟩
    · rw [hcluster, hops, brokerOps, if_pos ⟨rfl, hreading⟩, hinbox, process_update_self,
        hR.yielded_self, hinbox]
      rw [hinbox] at hkept
      exact hkept.handle hreading
    · rw [hcluster, process_update_self, mode_handle]
    · rw [hcluster]
      exact hlossless.yielded _ q q hlistens
  · refine ⟨arrived, ?_, harrived.keep hsent ?_ fun hlossless hlistens => ?_⟩
    · rw [hcluster, hops, brokerOps, if_neg fun hand => hq hand.1, List.append_nil,
        process_update_of_ne _ hq, hR.yielded_other _ _ _ (Ne.symm hq)]
      exact hkept
    · rw [hcluster, process_update_of_ne _ hq]
    · rw [hcluster]
      exact hlossless.yielded _ q p hlistens

/-- **Every step keeps a process in line with its broker and the channel.** -/
theorem kept_step (hR : R.AtMostOnce) (h : Held ascii p o) (op : ClusterOp) :
    Held ascii p (o.step ascii bits p op) := by
  -- a message of the program
  have hprogram : ∀ event, Held ascii p
      ⟨o.cluster.broadcast (SSEEvent.toJson (φ := φ) (toSseEvent bits event)), o.ops ++ [],
        o.sent ++ [toSseEvent bits event]⟩ := by
    intro event
    have hsent := h.broadcast hR (SSEEvent.toJson (φ := φ) (toSseEvent bits event))
    rwa [eventsOf_toJson] at hsent
  cases op with
  | start q available => exact h.start hR q available
  | publish q event =>
      simp only [Observed.step, Cluster.step, ClusterOp.restarts, Bool.false_eq_true, if_false,
        brokerOps, sentBy]
      cases hmode : (o.cluster.process q).mode with
      | redis =>
          have hnot : ¬ (q = p ∧ (o.cluster.process p).mode = .inMemory) := by
            rintro ⟨rfl, hmemory⟩
            exact absurd (hmode.symm.trans hmemory) (by decide)
          rw [if_neg hnot, if_pos rfl]
          exact hprogram event
      | inMemory =>
          have hmemory : ¬ BrokerMode.inMemory = .redis := by decide
          rw [if_neg hmemory]
          refine h.update (fun hq => ⟨fun _ => rfl, fun inbox arrived hkept => ?_⟩)
            fun hq => if_neg fun hand => hq hand.1
          subst hq
          rw [if_pos ⟨rfl, hmode⟩]
          exact hkept.inMemory hmode _
  | publishFromWorker event => exact hprogram event
  | foreign raw => exact h.broadcast hR raw
  | readNext q => exact h.readNext hR q
  | connectionLost q =>
      simp only [Observed.step, Cluster.step, ClusterOp.restarts, Bool.false_eq_true, if_false,
        brokerOps, sentBy]
      refine h.update (fun _ => ⟨fun _ => rfl, fun inbox arrived hkept => ?_⟩) fun _ => rfl
      rw [List.append_nil]
      exact hkept.connectionLost
  | subscribe q subId filter =>
      simp only [Observed.step, Cluster.step, ClusterOp.restarts, Bool.false_eq_true, if_false,
        brokerOps, sentBy]
      refine h.update (fun hq => ⟨fun _ => rfl, fun inbox arrived hkept => ?_⟩) fun hq => if_neg hq
      rw [if_pos hq]
      exact hkept.client rfl (by rw [hkept.refines]; rfl)
  | unsubscribe q subId =>
      simp only [Observed.step, Cluster.step, ClusterOp.restarts, Bool.false_eq_true, if_false,
        brokerOps, sentBy]
      refine h.update (fun hq => ⟨fun _ => rfl, fun inbox arrived hkept => ?_⟩) fun hq => if_neg hq
      rw [if_pos hq]
      exact hkept.client rfl (by rw [hkept.refines]; rfl)
  | take q subId =>
      simp only [Observed.step, Cluster.step, ClusterOp.restarts, Bool.false_eq_true, if_false,
        brokerOps, sentBy]
      refine h.update (fun hq => ⟨fun _ => rfl, fun inbox arrived hkept => ?_⟩) fun hq => if_neg hq
      rw [if_pos hq]
      refine hkept.client rfl ?_
      rw [hkept.refines, BrokerRun.step, Subscribers.getNowait]
      cases (BrokerRun.run o.ops).subscribers.queue subId <;> rfl

variable (ascii bits) in
/-- So it is after every run. -/
theorem held_run (hR : R.AtMostOnce) (p : Process) (ops : List ClusterOp) :
    Held ascii p (Observed.run (R := R) (φ := φ) ascii bits p ops) := by
  have hrun : ∀ (ops : List ClusterOp) (o : Observed R φ), Held ascii p o →
      Held ascii p (ops.foldl (Observed.step ascii bits p) o) := by
    intro ops
    induction ops with
    | nil => exact fun _ h => h
    | cons op ops ih => exact fun o h => ih _ (kept_step hR h op)
  refine hrun ops .init ⟨[], kept_start false fun h => (by cases h), .slnil, ?_⟩
  exact fun _ hmode => by cases hmode

/-! ## The reader goes on -/

/-- The operation can stop the reader of a process: its connection is lost, or somebody else sends a
message at which it gives up. -/
def ClusterOp.Disturbs (ascii : Char → Char) (φ : Type) [FloatText φ] (p : Process) : ClusterOp → Prop
  | .connectionLost q => q = p
  | .foreign raw => readMessage (φ := φ) ascii raw = .stopped
  | _ => False

/-- With Redis the reader goes on, and no message that waits stops it. -/
def Undisturbed (ascii : Char → Char) (c : Cluster R φ) (p : Process) : Prop :=
  (c.process p).mode = .redis → (c.process p).reading = true ∧
    ∀ raw ∈ R.waiting c.channel p, readMessage (φ := φ) ascii raw ≠ .stopped

variable {c : Cluster R φ}

/-- An operation on the clients of some process. -/
theorem Undisturbed.update (h : Undisturbed ascii c p) {q : Process}
    {f : ApiProcess φ → ApiProcess φ}
    (hf : q = p → ∀ a, (f a).mode = a.mode ∧ (f a).reading = a.reading) :
    Undisturbed ascii (c.update q f) p := by
  intro hmode
  by_cases hq : q = p
  · subst hq
    rw [process_update_self] at hmode ⊢
    rw [(hf rfl _).1] at hmode
    rw [(hf rfl _).2]
    exact h hmode
  · rw [process_update_of_ne _ hq] at hmode ⊢
    exact h hmode

/-- A message that stops nobody. -/
theorem Undisturbed.broadcast (hR : R.AtMostOnce) (h : Undisturbed ascii c p) {raw : List Char}
    (hraw : readMessage (φ := φ) ascii raw ≠ .stopped) :
    Undisturbed ascii (c.broadcast raw) p := by
  intro hmode
  obtain ⟨hreading, hwaiting⟩ := h hmode
  refine ⟨hreading, fun message hmessage => ?_⟩
  change message ∈ R.waiting (R.publish c.channel raw) p at hmessage
  rcases hR.publish c.channel raw p with hlost | hcomes
  · rw [hlost] at hmessage
    exact hwaiting message hmessage
  · rw [hcomes] at hmessage
    rcases List.mem_append.mp hmessage with hmessage | hmessage
    · exact hwaiting message hmessage
    · rw [List.mem_singleton.mp hmessage]
      exact hraw

/-- Reading on does not stop a reader. -/
theorem Undisturbed.readNext (hR : R.AtMostOnce) (h : Undisturbed ascii c p) (q : Process) :
    Undisturbed ascii (c.readNext ascii q) p := by
  rcases readNext_cases ascii c q with ⟨hstill, -⟩ | ⟨raw, rest, hreading, hinbox, hread⟩
  · rw [hstill]
    exact h
  rw [hread]
  intro hmode
  by_cases hq : q = p
  · subst hq
    dsimp only at hmode ⊢
    rw [process_update_self] at hmode ⊢
    rw [mode_handle] at hmode
    obtain ⟨-, hwaiting⟩ := h hmode
    rw [hinbox, List.forall_mem_cons] at hwaiting
    rw [hR.yielded_self, hinbox]
    refine ⟨?_, hwaiting.2⟩
    rw [ApiProcess.handle]
    cases hmessage : readMessage (φ := φ) ascii raw with
    | event e => exact hreading
    | skipped => exact hreading
    | stopped => exact absurd hmessage hwaiting.1
  · dsimp only at hmode ⊢
    rw [process_update_of_ne _ hq] at hmode ⊢
    rw [hR.yielded_other _ _ _ (Ne.symm hq)]
    exact h hmode

variable (bits) in
/-- A process that starts has nothing waiting, and its reader runs. -/
theorem Undisturbed.start (hR : R.AtMostOnce) (h : Undisturbed ascii c p) (q : Process)
    (available : Bool) : Undisturbed ascii (c.step ascii bits (.start q available)) p := by
  intro hmode
  by_cases hq : q = p
  · subst hq
    cases available with
    | false =>
        simp only [Cluster.step, process_update_self, ApiProcess.start] at hmode
        cases hmode
    | true =>
        simp only [Cluster.step, process_update_self, ApiProcess.start, if_true,
          hR.subscribe_self]
        exact ⟨trivial, fun _ hraw => absurd hraw List.not_mem_nil⟩
  · simp only [Cluster.step, process_update_of_ne _ hq] at hmode ⊢
    obtain ⟨hreading, hwaiting⟩ := h hmode
    refine ⟨hreading, ?_⟩
    split_ifs
    · rw [hR.subscribe_other _ _ _ (Ne.symm hq)]
      exact hwaiting
    · exact hwaiting

/-- An operation that does not disturb. -/
theorem undisturbed_step (hR : R.AtMostOnce) (h : Undisturbed ascii c p) {op : ClusterOp}
    (hop : ¬ op.Disturbs ascii φ p) : Undisturbed ascii (c.step ascii bits op) p := by
  have hprogram : ∀ event, Undisturbed ascii
      (c.broadcast (SSEEvent.toJson (φ := φ) (toSseEvent bits event))) p := by
    intro event
    refine h.broadcast hR ?_
    rw [readMessage_toJson]
    exact fun hstop => by cases hstop
  cases op with
  | start q available => exact h.start bits hR q available
  | publish q event =>
      rw [Cluster.step]
      cases (c.process q).mode with
      | inMemory => exact h.update fun _ _ => ⟨rfl, rfl⟩
      | redis => exact hprogram event
  | publishFromWorker event => exact hprogram event
  | foreign raw => exact h.broadcast hR hop
  | readNext q => exact h.readNext hR q
  | connectionLost q =>
      rw [Cluster.step]
      exact h.update fun hq => absurd hq hop
  | subscribe q subId filter =>
      rw [Cluster.step]
      exact h.update fun _ _ => ⟨rfl, rfl⟩
  | unsubscribe q subId =>
      rw [Cluster.step]
      exact h.update fun _ _ => ⟨rfl, rfl⟩
  | take q subId =>
      rw [Cluster.step]
      exact h.update fun _ _ => ⟨rfl, rfl⟩

variable (ascii bits) in
/-- What is observed does not disturb the run. -/
theorem cluster_run (p : Process) (ops : List ClusterOp) :
    (Observed.run (R := R) (φ := φ) ascii bits p ops).cluster =
      ops.foldl (Cluster.step ascii bits) .init := by
  have hrun : ∀ (ops : List ClusterOp) (o : Observed R φ),
      (ops.foldl (Observed.step ascii bits p) o).cluster =
        ops.foldl (Cluster.step ascii bits) o.cluster := by
    intro ops
    induction ops with
    | nil => exact fun _ => rfl
    | cons op ops ih => exact fun o => ih _
  exact hrun ops .init

/-- The reader goes on in every run that does not disturb it. -/
theorem undisturbed_run (hR : R.AtMostOnce) (p : Process) {ops : List ClusterOp}
    (hops : ∀ op ∈ ops, ¬ op.Disturbs ascii φ p) :
    Undisturbed ascii (ops.foldl (Cluster.step ascii bits) (.init : Cluster R φ)) p := by
  have hrun : ∀ (ops : List ClusterOp) (c : Cluster R φ), Undisturbed ascii c p →
      (∀ op ∈ ops, ¬ op.Disturbs ascii φ p) →
      Undisturbed ascii (ops.foldl (Cluster.step ascii bits) c) p := by
    intro ops
    induction ops with
    | nil => exact fun _ h _ => h
    | cons op ops ih =>
        intro c h hall
        rw [List.forall_mem_cons] at hall
        exact ih _ (undisturbed_step hR h hall.1) hall.2
  exact hrun ops .init (fun hmode => by cases hmode) hops

variable (ascii bits)

/-- **The brokers of several processes act as one.** In every order of steps the subscribers of a
process are those of a broker in memory with the operations of this process. With Redis the events
that it hands over are the first ones of those that have come to it since it started; they and those
that wait are all of them while its reader goes on. What has come to it are events of the channel in
their order, and all of them where the channel loses nothing. The reader goes on in every run in which
its connection is not lost and nobody else sends a message that stops it, which no message of the
program does. -/
theorem cluster_refines (hR : R.AtMostOnce) (p : Process) (ops : List ClusterOp) :
    let o : Observed R φ := Observed.run ascii bits p ops
    o.cluster = ops.foldl (Cluster.step ascii bits) .init ∧
      (o.cluster.process p).subscribers = (BrokerRun.run o.ops).subscribers ∧
      ((o.cluster.process p).mode = .redis → ∃ arrived : List (SSEEvent φ),
        arrived.Sublist o.sent ∧ (R.Lossless → arrived = o.sent) ∧
        o.ops.filterMap published <+: arrived.map SSEEvent.delivered ∧
        ((o.cluster.process p).reading = true → o.ops.filterMap published ++
          waitingEvents ascii (R.waiting o.cluster.channel p) = arrived.map SSEEvent.delivered) ∧
        ((∀ op ∈ ops, ¬ op.Disturbs ascii φ p) → (o.cluster.process p).reading = true)) := by
  obtain ⟨arrived, hkept, harrived⟩ := held_run (φ := φ) ascii bits hR p ops
  have hcluster := cluster_run (R := R) (φ := φ) ascii bits p ops
  refine ⟨hcluster, hkept.refines, fun hmode => ⟨arrived, harrived.sublist,
    fun hlossless => (harrived.lossless hlossless hmode).2, hkept.inOrder hmode,
    hkept.complete hmode, fun hops => ?_⟩⟩
  rw [hcluster] at hmode ⊢
  exact (undisturbed_run hR p hops hmode).1

/-- A document goes on. -/
def sampleEvent : Publishing.DocumentStatusChanged where
  documentId := (0, 0)
  projectId := (0, 1)
  ownerId := (0, 2)
  status := .ready
  currentAnalysisJobId := none

/-- Of two processes over a channel that loses nothing, the first one hears what the second one
publishes. -/
theorem fifo_cluster_hears :
    let o : Observed .fifo Json.FloatLiteral := Observed.run id (fun _ => 0) 0
      [.start 0 true, .start 1 true, .publish 1 sampleEvent]
    o.ops.filterMap published ++ waitingEvents id (PubSub.fifo.waiting o.cluster.channel 0) =
      [SSEEvent.delivered (toSseEvent (fun _ => 0) sampleEvent)] := by
  intro o
  obtain ⟨-, -, hredis⟩ := cluster_refines (φ := Json.FloatLiteral) id (fun _ => 0)
    PubSub.fifo_atMostOnce 0 [.start 0 true, .start 1 true, .publish 1 sampleEvent]
  obtain ⟨arrived, -, hall, -, hcomplete, hreading⟩ := hredis rfl
  rw [hall PubSub.fifo_lossless] at hcomplete
  exact hcomplete (hreading (by simp [ClusterOp.Disturbs]))

end SyncBack.Wire
