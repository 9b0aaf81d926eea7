import SyncBack.Infrastructure.SseMessages

/-!
# Brokers of several processes

Every process of the API has a broker. With Redis it listens to one channel: what a process or the
worker publishes there comes to the others as text, and each hands it to its own subscribers when its
reader gets to it. Without Redis a process hears only itself. Shutting a broker down is left out.

Redis and redis-py are a parameter (`PubSub`). What is relied on of them is what Redis says of Pub/Sub,
that a message comes at most once and in order (`AtMostOnce`); that it comes at all holds of a channel
that loses nothing (`Lossless`).

Source: `app/infrastructure/events/sse_broker.py`, `app/infrastructure/events/publishers.py`.
-/

namespace SyncBack.Wire

open Json (Value FloatText)
open UuidText (UUID)

variable {φ : Type}

/-- The identifier with these bits. It was not drawn by a modelled process. -/
def ident (bits : UUID) : Uuid := (0, bits.toNat)

/-- An event as the subscribers get it: `fan_out` looks at its two identifiers alone. -/
def SSEEvent.delivered (e : SSEEvent φ) : SyncBack.SSEEvent (SSEEvent φ) where
  event := ""
  data := e
  documentId := e.documentId.map ident
  userId := e.userId.map ident

/-- `InMemorySSEBroker` or `RedisPubSubBroker`. -/
inductive BrokerMode where
  | inMemory
  | redis
  deriving DecidableEq

/-! ## The channel -/

/-- A channel of Redis, as the processes that have subscribed to it see it through redis-py. -/
structure PubSub where
  State : Type
  init : State
  /-- The process has subscribed. -/
  listens : State → Process → Prop
  /-- What `listen` is going to yield to a process, the next message first. -/
  waiting : State → Process → List (List Char)
  subscribe : State → Process → State
  publish : State → List Char → State
  /-- `listen` has yielded a message. -/
  yielded : State → Process → State

/-- A message comes at most once, and messages come in the order in which they were published. -/
structure PubSub.AtMostOnce (R : PubSub) : Prop where
  subscribe_self : ∀ s p, R.waiting (R.subscribe s p) p = []
  subscribe_other : ∀ s p q, q ≠ p → R.waiting (R.subscribe s p) q = R.waiting s q
  publish : ∀ s raw p, R.waiting (R.publish s raw) p = R.waiting s p ∨
    R.waiting (R.publish s raw) p = R.waiting s p ++ [raw]
  yielded_self : ∀ s p, R.waiting (R.yielded s p) p = (R.waiting s p).tail
  yielded_other : ∀ s p q, q ≠ p → R.waiting (R.yielded s p) q = R.waiting s q

/-- Every message comes to every process that has subscribed. -/
structure PubSub.Lossless (R : PubSub) : Prop where
  subscribe : ∀ s p q, q = p ∨ R.listens s q → R.listens (R.subscribe s p) q
  publish_listens : ∀ s raw p, R.listens s p → R.listens (R.publish s raw) p
  publish : ∀ s raw p, R.listens s p → R.waiting (R.publish s raw) p = R.waiting s p ++ [raw]
  yielded : ∀ s p q, R.listens s q → R.listens (R.yielded s p) q

/-- The queues of a channel; a process that has not subscribed has none. -/
abbrev Queues := Process → Option (List (List Char))

/-- A channel with a queue for every process that has subscribed. -/
def PubSub.fifo : PubSub where
  State := Queues
  init _ := none
  listens (s : Queues) p := s p ≠ none
  waiting (s : Queues) p := (s p).getD []
  subscribe (s : Queues) p := Function.update s p (some [])
  publish (s : Queues) raw p := (s p).map (· ++ [raw])
  yielded (s : Queues) p := Function.update s p ((s p).map List.tail)

/-- A connection is not lost by an update of a queue. -/
theorem Queues.update_ne_none {s : Queues} {p q : Process} {queue : Option (List (List Char))}
    (hself : q = p → queue ≠ none) (hother : q ≠ p → s q ≠ none) :
    Function.update s p queue q ≠ none := by
  by_cases hq : q = p
  · subst hq
    rw [Function.update_self]
    exact hself rfl
  · rw [Function.update_of_ne hq]
    exact hother hq

/-- The queue of the process is the new one. -/
theorem Queues.getD_update_self (s : Queues) (p : Process) (queue : Option (List (List Char))) :
    (Function.update s p queue p).getD [] = queue.getD [] := by
  rw [Function.update_self]

/-- The other queues stay. -/
theorem Queues.getD_update_of_ne (s : Queues) {p q : Process} (h : q ≠ p)
    (queue : Option (List (List Char))) : (Function.update s p queue q).getD [] = (s q).getD [] := by
  rw [Function.update_of_ne h]

/-- A message comes behind those that wait. -/
theorem Queues.getD_publish {queue : Option (List (List Char))} (h : queue ≠ none)
    (raw : List Char) : (queue.map (· ++ [raw])).getD [] = queue.getD [] ++ [raw] := by
  cases queue with
  | none => exact absurd rfl h
  | some queue => rfl

/-- It delivers in order. -/
theorem PubSub.fifo_atMostOnce : PubSub.fifo.AtMostOnce where
  subscribe_self (s : Queues) p := s.getD_update_self p (some [])
  subscribe_other (s : Queues) p q h := s.getD_update_of_ne h (some [])
  publish (s : Queues) raw p := by
    by_cases h : s p = none
    · refine .inl ?_
      change ((s p).map (· ++ [raw])).getD [] = (s p).getD []
      rw [h, Option.map_none]
    · exact .inr (Queues.getD_publish h raw)
  yielded_self (s : Queues) p := by
    refine (s.getD_update_self p ((s p).map List.tail)).trans ?_
    change ((s p).map List.tail).getD [] = ((s p).getD []).tail
    cases s p <;> rfl
  yielded_other (s : Queues) p q h := s.getD_update_of_ne h ((s p).map List.tail)

/-- And it loses nothing. -/
theorem PubSub.fifo_lossless : PubSub.fifo.Lossless where
  subscribe (s : Queues) p q h :=
    Queues.update_ne_none (fun _ => Option.some_ne_none _) fun hq => h.resolve_left hq
  publish_listens (s : Queues) raw p h := fun hnone => h (Option.map_eq_none_iff.mp hnone)
  publish (s : Queues) raw p h := Queues.getD_publish h raw
  yielded (s : Queues) p q h := by
    refine Queues.update_ne_none (fun hq hnone => h ?_) fun _ => h
    rw [hq]
    exact Option.map_eq_none_iff.mp hnone

/-! ## Processes -/

/-- One process of the API and its broker. -/
structure ApiProcess (φ : Type) where
  mode : BrokerMode
  /-- `_reader_task` goes on. -/
  reading : Bool
  subscribers : Subscribers (SSEEvent φ)

namespace ApiProcess

/-- `init_sse_broker`, which falls back to memory where Redis cannot be reached. -/
def start (available : Bool) : ApiProcess φ where
  mode := if available then .redis else .inMemory
  reading := available
  subscribers := .init

/-- Source: `InMemorySSEBroker.publish`. -/
def fanOut (a : ApiProcess φ) (e : SSEEvent φ) : ApiProcess φ :=
  { a with subscribers := a.subscribers.fanOut e.delivered }

/-- Source: the body of the loop of `RedisPubSubBroker._reader_loop`, for a message of the type
`message`. -/
def handle [FloatText φ] (ascii : Char → Char) (a : ApiProcess φ) (raw : List Char) : ApiProcess φ :=
  match readMessage ascii raw with
  | .event e => a.fanOut e
  | .skipped => a
  | .stopped => { a with reading := false }

end ApiProcess

/-- What happens to the processes, to the channel and to the clients. -/
inductive ClusterOp where
  | start (p : Process) (available : Bool)
  /-- Source: `SSEEventPublisher.publish`. -/
  | publish (p : Process) (event : Publishing.DocumentStatusChanged)
  /-- Source: `RedisEventPublisher.publish`. -/
  | publishFromWorker (event : Publishing.DocumentStatusChanged)
  /-- Somebody else writes to the channel. -/
  | foreign (raw : List Char)
  | readNext (p : Process)
  /-- `listen` raises. -/
  | connectionLost (p : Process)
  | subscribe (p : Process) (subId : Uuid) (filter : SubscriberFilter)
  | unsubscribe (p : Process) (subId : Uuid)
  /-- A client takes the next event out of its queue. -/
  | take (p : Process) (subId : Uuid)

/-- The channel and the processes. -/
structure Cluster (R : PubSub) (φ : Type) where
  channel : R.State
  process : Process → ApiProcess φ

namespace Cluster

variable {R : PubSub}

/-- Before any process has started. -/
def init : Cluster R φ := ⟨R.init, fun _ => .start false⟩

/-- A message is published. -/
def broadcast (c : Cluster R φ) (raw : List Char) : Cluster R φ :=
  { c with channel := R.publish c.channel raw }

def update (c : Cluster R φ) (p : Process) (f : ApiProcess φ → ApiProcess φ) : Cluster R φ :=
  { c with process := Function.update c.process p (f (c.process p)) }

variable [FloatText φ]

/-- The reader of a process gets to the next message. -/
def readNext (ascii : Char → Char) (c : Cluster R φ) (p : Process) : Cluster R φ :=
  match (c.process p).reading, R.waiting c.channel p with
  | true, raw :: _ =>
      { c.update p (ApiProcess.handle ascii · raw) with channel := R.yielded c.channel p }
  | _, _ => c

def step (ascii : Char → Char) (bits : Uuid → UUID) (c : Cluster R φ) : ClusterOp → Cluster R φ
  | .start p available =>
      { c.update p fun _ => .start available with
        channel := if available then R.subscribe c.channel p else c.channel }
  | .publish p event =>
      match (c.process p).mode with
      | .inMemory => c.update p fun a => a.fanOut (toSseEvent bits event)
      | .redis => c.broadcast (SSEEvent.toJson (φ := φ) (toSseEvent bits event))
  | .publishFromWorker event => c.broadcast (SSEEvent.toJson (φ := φ) (toSseEvent bits event))
  | .foreign raw => c.broadcast raw
  | .readNext p => c.readNext ascii p
  | .connectionLost p => c.update p fun a => { a with reading := false }
  | .subscribe p subId filter =>
      c.update p fun a => { a with subscribers := a.subscribers.add subId filter }
  | .unsubscribe p subId => c.update p fun a => { a with subscribers := a.subscribers.remove subId }
  | .take p subId =>
      c.update p fun a => { a with subscribers := (a.subscribers.getNowait subId).2 }

end Cluster

end SyncBack.Wire
