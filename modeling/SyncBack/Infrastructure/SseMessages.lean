import SyncBack.Domain.TextNormalization
import SyncBack.Formats.EventStream
import SyncBack.Formats.Json
import SyncBack.Formats.UuidText
import SyncBack.Infrastructure.SseBroker
import SyncBack.Services.DocumentEvents

/-!
# Events on the wire

An event travels through Redis as JSON and to the client as a frame of an event stream. Here it has
what a message can put into it: any value for the name and the data, and the 128 bits of identifiers.

What Python does with floats, with `str` of a value that is no string and with digits outside ASCII are
parameters.

Source: `app/infrastructure/events/sse_broker.py`, `app/infrastructure/events/publishers.py`,
`app/api/v1/routers/sse.py`.
-/

namespace SyncBack.Wire

open Json (Value Str FloatText)
open UuidText (UUID)

variable {φ : Type} [FloatText φ]

/-- Source: `SSEEvent`. -/
structure SSEEvent (φ : Type) where
  event : Value φ
  data : Value φ := .dict []
  documentId : Option UUID := none
  userId : Option UUID := none

/-- What Python raises here. `UnicodeEncodeError` and `JSONDecodeError` are `ValueError`s. -/
inductive Raised where
  | valueError
  | keyError
  | typeError
  | attributeError
  deriving DecidableEq

/-- A string literal of the source. -/
def text (literal : String) : Str := Str.ofText literal.toList

/-- `str(value) if value else None`; every UUID counts as true. -/
def strOrNone (id : Option UUID) : Value φ :=
  id.elim .null fun id => .str (Str.ofText (UuidText.str id))

/-- Source: `SSEEvent.to_json`. -/
def SSEEvent.toJson (e : SSEEvent φ) : List Char :=
  Json.dumps (.dict
    [(text "event", e.event), (text "data", e.data), (text "document_id", strOrNone e.documentId),
      (text "user_id", strOrNone e.userId)])

/-! ## Reading a message -/

/-- `d.get(key)`, if the key is there. -/
def get? (members : List (Str × Value φ)) (key : Str) : Option (Value φ) :=
  (members.find? (·.1 = key)).map Prod.snd

/-- `bool(value)` -/
def truthy : Value φ → Bool
  | .null => false
  | .bool b => b
  | .int n => n.val ≠ 0
  | .float x => !FloatText.isZero x
  | .str s => !s.isEmpty
  | .list items => !items.isEmpty
  | .dict members => !members.isEmpty

/-- `uuid.UUID(value)`, which asks its argument for `replace`. -/
def uuidOf (ascii : Char → Char) : Value φ → Except Raised UUID
  | .str s => (s.text?.bind (UuidText.parse ascii)).elim (.error .valueError) .ok
  | _ => .error .attributeError

/-- `uuid.UUID(d[key]) if d.get(key) else None` -/
def uuidOrNone (ascii : Char → Char) (members : List (Str × Value φ)) (key : Str) :
    Except Raised (Option UUID) :=
  match get? members key with
  | some v => if truthy v then (uuidOf ascii v).map some else .ok none
  | none => .ok none

/-- Source: `SSEEvent.from_json`. -/
def fromJson (ascii : Char → Char) (raw : List Char) : Except Raised (SSEEvent φ) :=
  match Json.loads raw with
  | none => .error .valueError
  | some (.dict members) => do
      let event ← (get? members (text "event")).elim (.error .keyError) .ok
      let documentId ← uuidOrNone ascii members (text "document_id")
      let userId ← uuidOrNone ascii members (text "user_id")
      pure
        { event := event
          data := (get? members (text "data")).getD (.dict [])
          documentId := documentId
          userId := userId }
  -- `d["event"]` where `d` is no dict
  | some _ => .error .typeError

/-- What `_reader_loop` makes of a message. -/
inductive Reading (φ : Type) where
  | event (e : SSEEvent φ)
  /-- A `ValueError`, `KeyError` or `TypeError` is logged. -/
  | skipped
  /-- Any other exception ends the loop. -/
  | stopped

/-- The body of the loop of `_reader_loop`, up to `fan_out`. -/
def readMessage (ascii : Char → Char) (raw : List Char) : Reading φ :=
  match fromJson ascii raw with
  | .ok e => .event e
  | .error .attributeError => .stopped
  | .error _ => .skipped

/-! ## Streaming to a client -/

/-- `{"event": self.event, **self.data}` -/
def payload (event : Value φ) (members : List (Str × Value φ)) : Value φ :=
  .dict (members.foldl (fun d member => Json.setItem d member.1 member.2) [(text "event", event)])

/-- `str(value)` -/
def format (pyStr : Value φ → Str) : Value φ → Str
  | .str s => s
  | v => pyStr v

/-- Source: `SSEEvent.to_sse_bytes`. -/
def SSEEvent.toSseBytes (pyStr : Value φ → Str) (e : SSEEvent φ) : Except Raised (List UInt8) :=
  match e.data with
  | .dict members =>
      let frame := text "event: " ++ format pyStr e.event ++ text "\ndata: " ++
        Str.ofText (Json.dumps (payload e.event members)) ++ text "\n\n"
      frame.text?.elim (.error .valueError) fun frame => .ok (Percent.utf8 frame)
  | _ => .error .typeError

/-- What one turn of the loop of `event_stream` waits for. -/
inductive Waited (φ : Type) where
  /-- An event, and whether the client turns out to be gone after it. -/
  | event (e : SSEEvent φ) (disconnected : Bool)
  /-- `None`: the broker has been stopped. -/
  | closed
  /-- `PING_INTERVAL` has passed. -/
  | timeout

/-- How the generator stands. -/
inductive Generator where
  | running
  /-- The loop was left, or an exception was raised; the client is unsubscribed. -/
  | finished (raised : Option Raised)
  deriving DecidableEq

/-- The ping of `event_stream`. -/
def ping : List UInt8 := Percent.utf8 "event: ping\ndata: {}\n\n".toList

/-- Source: `event_stream`: what it yields for what it waits for, and how it stands then. -/
def eventStream (pyStr : Value φ → Str) : List (Waited φ) → List (List UInt8) × Generator
  | [] => ([], .running)
  | .closed :: _ => ([], .finished none)
  | .timeout :: rest => (ping :: (eventStream pyStr rest).1, (eventStream pyStr rest).2)
  | .event e disconnected :: rest =>
      match e.toSseBytes pyStr with
      | .error raised => ([], .finished (some raised))
      | .ok bytes =>
          if disconnected then ([bytes], .finished none)
          else (bytes :: (eventStream pyStr rest).1, (eventStream pyStr rest).2)

/-! ## Events of documents -/

/-- Source: `DOCUMENT_STATUS_CHANGED`. -/
def documentStatusChanged : String := "document_status_changed"

/-- Source: `to_sse_event`. The bits of an identifier are those that were drawn for it. -/
def toSseEvent (bits : Uuid → UUID) (event : Publishing.DocumentStatusChanged) : SSEEvent φ where
  event := .str (text documentStatusChanged)
  data := .dict
    [(text "document_id", .str (Str.ofText (UuidText.str (bits event.documentId)))),
      (text "project_id", .str (Str.ofText (UuidText.str (bits event.projectId)))),
      (text "status", .str (text event.status.value)),
      (text "current_analysis_job_id", strOrNone (event.currentAnalysisJobId.map bits))]
  documentId := some (bits event.documentId)
  userId := some (bits event.ownerId)

end SyncBack.Wire
