import Mathlib.Data.Finset.Basic
import Mathlib.Logic.Function.Basic
import SyncBack.Domain.Entities

/-!
# Delivery of server-sent events

`_Subscribers` keeps a queue and a filter for every connected client. `fan_out` puts an event into
the queues of the clients that it is addressed to; a full queue drops it. A client keeps its queue
after it was removed and reads on what is left in it.

The two dictionaries of the source are always written together and stand here as one; the queues
are named by the identifiers of their subscriptions, which are never drawn twice.

Source: `app/infrastructure/events/sse_broker.py`.
-/

namespace SyncBack

/-- Source: `SUBSCRIBER_QUEUE_SIZE`. -/
def subscriberQueueSize : ℕ := 256

/-- Source: `SSEEvent`, with data of any kind. -/
structure SSEEvent (δ : Type) where
  event : String
  data : δ
  documentId : Option Uuid := none
  userId : Option Uuid := none

/-- `asyncio.Queue.put_nowait`; `none` is `QueueFull`. -/
def putNowait {α : Type} (maxsize : ℕ) (queue : List α) (item : α) : Option (List α) :=
  if maxsize ≤ queue.length then none else some (queue ++ [item])

/-- The filter of a client: its user and the documents that it wants to hear of. -/
structure SubscriberFilter where
  userId : Uuid
  documentIds : Finset Uuid
  deriving DecidableEq

/-- The two conditions under which `fan_out` passes a client over: the event is for another user,
or about a document that the client has not asked for. -/
def SubscriberFilter.skips {δ : Type} (filter : SubscriberFilter) (event : SSEEvent δ) : Bool :=
  event.userId.any (fun userId => userId ≠ filter.userId) ||
    (filter.documentIds ≠ ∅ &&
      event.documentId.any fun documentId => documentId ∉ filter.documentIds)

/-- Source: `_Subscribers`. -/
structure Subscribers (δ : Type) where
  /-- `_queues` and `_filters`. -/
  filters : List (Uuid × SubscriberFilter)
  /-- What the queue of a subscription holds. -/
  queue : Uuid → List (SSEEvent δ)

namespace Subscribers

variable {δ : Type}

/-- Source: `_Subscribers.__init__`. -/
def init : Subscribers δ := ⟨[], fun _ => []⟩

/-- Source: `_Subscribers.add`, with the identifier that `uuid4` draws. -/
def add (s : Subscribers δ) (subId : Uuid) (filter : SubscriberFilter) : Subscribers δ where
  filters := (s.filters.filter fun entry => entry.1 ≠ subId) ++ [(subId, filter)]
  queue := Function.update s.queue subId []

/-- Source: `_Subscribers.remove`. -/
def remove (s : Subscribers δ) (subId : Uuid) : Subscribers δ :=
  { s with filters := s.filters.filter fun entry => entry.1 ≠ subId }

/-- The body of the loop of `fan_out`. -/
def offer (event : SSEEvent δ) (queue : Uuid → List (SSEEvent δ))
    (entry : Uuid × SubscriberFilter) : Uuid → List (SSEEvent δ) :=
  if entry.2.skips event then queue
  else
    match putNowait subscriberQueueSize (queue entry.1) event with
    | some items => Function.update queue entry.1 items
    | none => queue

/-- Source: `_Subscribers.fan_out`. -/
def fanOut (s : Subscribers δ) (event : SSEEvent δ) : Subscribers δ :=
  { s with queue := s.filters.foldl (offer event) s.queue }

/-- `get_nowait` on the queue of a subscription, with the event that it gives. -/
def getNowait (s : Subscribers δ) (subId : Uuid) : Option (SSEEvent δ) × Subscribers δ :=
  match s.queue subId with
  | [] => (none, s)
  | event :: rest => (some event, { s with queue := Function.update s.queue subId rest })

end Subscribers

end SyncBack
