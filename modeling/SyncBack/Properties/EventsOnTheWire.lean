import SyncBack.Formats.JsonReading
import SyncBack.Infrastructure.SseMessages

/-!
# Events survive the wire

* `events_survive_redis`: an event comes out of Redis as it was put in exactly when its values are
  well-formed, which every event about a document is.
* `stream_heard`: a client that reads the event stream hears the pings and events of the generator, in
  order, each with the payload of the event, however the stream is cut off; an event that cannot be
  put into bytes ends the stream.
-/

namespace SyncBack.Wire

open Json (Value Str FloatText Wf)
open UuidText (UUID)

variable {φ : Type}

/-- An identifier or nothing is well formed. -/
theorem wf_strOrNone (id : Option UUID) : Wf (strOrNone id : Value φ) := by
  cases id with
  | none => trivial
  | some id => exact Json.unpaired_ofText _

/-! ## The stream of a client -/

/-- An event with a name on one line and a dict for its data. -/
structure StreamEvent (φ : Type) where
  name : List Char
  oneLine : EventStream.OneLine name
  ne_nil : name ≠ []
  members : List (Str × Value φ)
  wf : Wf (.dict members)
  documentId : Option UUID
  userId : Option UUID

def StreamEvent.sent (e : StreamEvent φ) : SSEEvent φ where
  event := .str (Str.ofText e.name)
  data := .dict e.members
  documentId := e.documentId
  userId := e.userId

/-- One turn of the generator, with an event of this kind. -/
inductive Turn (φ : Type) where
  | event (e : StreamEvent φ) (disconnected : Bool)
  | closed
  | timeout

def Turn.waited : Turn φ → Waited φ
  | .event e disconnected => .event e.sent disconnected
  | .closed => .closed
  | .timeout => .timeout

/-- What the client should hear: the name of each event with its payload, and the pings. -/
def heard : List (Turn φ) → List (List Char × Value φ)
  | [] => []
  | .closed :: _ => []
  | .timeout :: rest => ("ping".toList, .dict []) :: heard rest
  | .event e disconnected :: rest =>
      (e.name, payload (.str (Str.ofText e.name)) e.members) ::
        if disconnected then [] else heard rest

/-- A payload is well formed. -/
theorem wf_payload (e : StreamEvent φ) : Wf (payload (.str (Str.ofText e.name)) e.members) := by
  obtain ⟨hnodup, hmembers⟩ := Json.wf_dict_iff.mp e.wf
  obtain ⟨hkeys, hmem⟩ := Json.foldl_setItem_spec e.members
    (l := [(text "event", .str (Str.ofText e.name))]) (List.pairwise_singleton _ _)
  refine Json.wf_dict_iff.mpr ⟨hkeys, fun member h => ?_⟩
  rcases hmem member h with h | h
  · rw [List.mem_singleton.mp h]
    exact ⟨Json.unpaired_ofText _, Json.unpaired_ofText _⟩
  · exact hmembers member h

/-! ## Through Redis -/

/-- The event of a change of status is well formed. -/
theorem wf_toSseEvent (bits : Uuid → UUID) (event : Publishing.DocumentStatusChanged) :
    Wf (toSseEvent (φ := φ) bits event).event ∧ Wf (toSseEvent (φ := φ) bits event).data := by
  have htext : ∀ literal, Json.Unpaired (text literal) := fun _ => Json.unpaired_ofText _
  refine ⟨htext _, Json.wf_dict_iff.mpr ⟨?_, ?_⟩⟩
  · have hnodup : [text "document_id", text "project_id", text "status",
      text "current_analysis_job_id"].Nodup := by decide
    exact hnodup
  · rw [List.forall_mem_cons, List.forall_mem_cons, List.forall_mem_cons, List.forall_mem_singleton]
    exact ⟨⟨htext _, Json.unpaired_ofText _⟩, ⟨htext _, Json.unpaired_ofText _⟩,
      ⟨htext _, htext _⟩, ⟨htext _, wf_strOrNone _⟩⟩

/-- Every event about a document can be streamed. -/
def streamEvent (bits : Uuid → UUID) (event : Publishing.DocumentStatusChanged) :
    StreamEvent φ where
  name := documentStatusChanged.toList
  oneLine := ⟨by decide, by decide⟩
  ne_nil := by decide
  members := _
  wf := (wf_toSseEvent bits event).2
  documentId := some (bits event.documentId)
  userId := some (bits event.ownerId)

/-- It is what is sent about a document. -/
theorem streamEvent_sent (bits : Uuid → UUID) (event : Publishing.DocumentStatusChanged) :
    (streamEvent bits event).sent = toSseEvent (φ := φ) bits event := rfl

/-- The members of a message, which are four different ones. -/
theorem reread_message (event data : Value φ) (documentId userId : Option UUID) :
    Json.reread (.dict
      [(text "event", event), (text "data", data), (text "document_id", strOrNone documentId),
        (text "user_id", strOrNone userId)]) =
      .dict [(text "event", Json.reread event), (text "data", Json.reread data),
        (text "document_id", strOrNone documentId), (text "user_id", strOrNone userId)] := by
  have hkey : ∀ literal, Json.rereadStr (text literal) = text literal :=
    fun literal => Json.rereadStr_eq_iff.mpr (Json.unpaired_ofText _)
  rw [Json.reread, Json.rereadMembers_eq_map]
  simp only [List.map_cons, List.map_nil, hkey, Json.reread_of_wf (wf_strOrNone _)]
  have hnodup : [text "event", text "data", text "document_id", text "user_id"].Nodup := by decide
  exact congrArg Value.dict (Json.dictOf_of_nodup hnodup)

variable [FloatText φ]

/-- A value is read again as it is exactly when it is well formed. -/
theorem reread_eq_iff {v : Value φ} : Json.reread v = v ↔ Wf v := by
  constructor
  · intro h
    rw [← h]
    exact Json.wf_of_loads (Json.loads_dumps v)
  · exact Json.reread_of_wf

/-- An identifier or nothing is read again. -/
theorem uuidOrNone_strOrNone (ascii : Char → Char) (id : Option UUID)
    {members : List (Str × Value φ)} {key : Str} (h : get? members key = some (strOrNone id)) :
    uuidOrNone ascii members key = .ok id := by
  cases id with
  | none =>
      rw [uuidOrNone, h]
      rfl
  | some id =>
      have hne : (UuidText.str id).isEmpty = false := by
        rw [List.isEmpty_eq_false_iff]
        exact UuidText.str_ne_nil id
      have htruthy : truthy (strOrNone (some id) : Value φ) = true := by
        rw [strOrNone, Option.elim_some, truthy, Str.ofText, List.isEmpty_map, hne]
        rfl
      rw [uuidOrNone, h]
      simp only [htruthy, if_true]
      rw [strOrNone, Option.elim_some, uuidOf, Json.text?_ofText, Option.bind_some,
        UuidText.parse_str]
      rfl

/-- What arrives in place of an event. -/
theorem fromJson_toJson (ascii : Char → Char) (e : SSEEvent φ) : fromJson ascii e.toJson =
    .ok { e with event := Json.reread e.event, data := Json.reread e.data } := by
  rw [fromJson, SSEEvent.toJson, Json.loads_dumps, reread_message]
  have hevent : get? [(text "event", Json.reread e.event), (text "data", Json.reread e.data),
      (text "document_id", strOrNone e.documentId), (text "user_id", strOrNone e.userId)]
      (text "event") = some (Json.reread e.event) := rfl
  have hdata : get? [(text "event", Json.reread e.event), (text "data", Json.reread e.data),
      (text "document_id", strOrNone e.documentId), (text "user_id", strOrNone e.userId)]
      (text "data") = some (Json.reread e.data) := rfl
  have hdocument : uuidOrNone ascii
      [(text "event", Json.reread e.event), (text "data", Json.reread e.data),
        (text "document_id", strOrNone e.documentId), (text "user_id", strOrNone e.userId)]
      (text "document_id") = .ok e.documentId := uuidOrNone_strOrNone ascii _ rfl
  have huser : uuidOrNone ascii
      [(text "event", Json.reread e.event), (text "data", Json.reread e.data),
        (text "document_id", strOrNone e.documentId), (text "user_id", strOrNone e.userId)]
      (text "user_id") = .ok e.userId := uuidOrNone_strOrNone ascii _ rfl
  simp only [hevent, hdata, hdocument, huser]
  rfl

/-- An event is read again exactly when it is well formed. -/
theorem fromJson_toJson_eq_iff (ascii : Char → Char) {e : SSEEvent φ} :
    fromJson ascii e.toJson = .ok e ↔ Wf e.event ∧ Wf e.data := by
  obtain ⟨event, data, documentId, userId⟩ := e
  rw [fromJson_toJson, Except.ok.injEq, SSEEvent.mk.injEq, reread_eq_iff, reread_eq_iff]
  simp only [and_true]

/-- **An event comes out of Redis as it was put in**, up to pairs of surrogates and repeated keys in
its values; an event about a document has none. -/
theorem events_survive_redis (ascii : Char → Char) :
    (∀ e : SSEEvent φ, fromJson ascii e.toJson = .ok e ↔ Wf e.event ∧ Wf e.data) ∧
      ∀ (bits : Uuid → UUID) (event : Publishing.DocumentStatusChanged),
        fromJson (φ := φ) ascii (SSEEvent.toJson (toSseEvent (φ := φ) bits event)) =
          .ok (toSseEvent bits event) := by
  refine ⟨fun _ => fromJson_toJson_eq_iff ascii, fun bits event => ?_⟩
  rw [fromJson_toJson_eq_iff]
  exact wf_toSseEvent bits event

/-! ## To the client -/

/-- The frame of an event. -/
def StreamEvent.message (e : StreamEvent φ) : EventStream.Message :=
  ⟨e.name, Json.dumps (payload (.str (Str.ofText e.name)) e.members)⟩

/-- A JSON text has one line. -/
theorem oneLine_dumps (v : Value φ) : EventStream.OneLine (Json.dumps v) := by
  refine ⟨fun h => ?_, fun h => ?_⟩
  · exact absurd (Json.printable_dumps v _ h).1 (by decide)
  · exact absurd (Json.printable_dumps v _ h).1 (by decide)

/-- What is sent for an event is its frame. -/
theorem toSseBytes_sent (pyStr : Value φ → Str) (e : StreamEvent φ) : e.sent.toSseBytes pyStr =
    .ok (Percent.utf8 (EventStream.frame e.message.type e.message.data)) := by
  have hevent : "event: ".toList = "event".toList ++ [':', ' '] := by decide
  have hdata : "\ndata: ".toList = '\n' :: "data".toList ++ [':', ' '] := by decide
  have hend : "\n\n".toList = ['\n', '\n'] := by decide
  have hframe : text "event: " ++ Str.ofText e.message.type ++ text "\ndata: " ++
      Str.ofText e.message.data ++ text "\n\n" =
      Str.ofText (EventStream.frame e.message.type e.message.data) := by
    rw [text, text, text, hevent, hdata, hend]
    simp only [← Str.ofText_append, EventStream.frame, EventStream.fieldLine, List.append_assoc,
      List.cons_append, List.nil_append]
  have htext := Json.text?_ofText (EventStream.frame e.message.type e.message.data)
  rw [← hframe] at htext
  rw [SSEEvent.toSseBytes]
  change (text "event: " ++ Str.ofText e.message.type ++ text "\ndata: " ++
    Str.ofText e.message.data ++ text "\n\n").text?.elim _ _ = _
  rw [htext]
  rfl

/-- Texts are encoded one after another. -/
theorem utf8_append (a b : List Char) : Percent.utf8 (a ++ b) = Percent.utf8 a ++ Percent.utf8 b :=
  List.flatMap_append

/-- A ping is a frame. -/
theorem ping_eq : ping = Percent.utf8 (EventStream.frame "ping".toList "{}".toList) := by
  have htext : "event: ping\ndata: {}\n\n".toList =
      EventStream.frame "ping".toList "{}".toList := by decide
  rw [ping, htext]

/-- The frames of the stream. -/
def frames : List (Turn φ) → List EventStream.Message
  | [] => []
  | .closed :: _ => []
  | .timeout :: rest => ⟨"ping".toList, "{}".toList⟩ :: frames rest
  | .event e disconnected :: rest => e.message :: if disconnected then [] else frames rest

/-- **What the generator sends** is the frames of its turns, and no turn makes it raise. -/
theorem eventStream_eq (pyStr : Value φ → Str) (turns : List (Turn φ)) :
    (eventStream pyStr (turns.map Turn.waited)).1.flatten = Percent.utf8
      ((frames turns).flatMap fun message => EventStream.frame message.type message.data) ∧
    ∀ raised, (eventStream pyStr (turns.map Turn.waited)).2 ≠ .finished (some raised) := by
  induction turns with
  | nil => exact ⟨rfl, fun _ h => by cases h⟩
  | cons turn rest ih =>
      obtain ⟨ihframes, ihraised⟩ := ih
      cases turn with
      | closed => exact ⟨rfl, fun _ h => by cases h⟩
      | timeout =>
          refine ⟨?_, ihraised⟩
          rw [List.map_cons, Turn.waited, eventStream, List.flatten_cons, ihframes, ping_eq, frames,
            List.flatMap_cons, utf8_append]
      | event e disconnected =>
          rw [List.map_cons, Turn.waited, eventStream, toSseBytes_sent, frames]
          cases disconnected with
          | true =>
              refine ⟨?_, fun _ h => by cases h⟩
              simp only [if_true, List.flatten_cons, List.flatten_nil, List.flatMap_cons,
                List.flatMap_nil, List.append_nil]
          | false =>
              refine ⟨?_, ihraised⟩
              simp only [Bool.false_eq_true, if_false, List.flatten_cons, ihframes,
                List.flatMap_cons, utf8_append]

/-- Every frame has a name and one line of data. -/
theorem frames_sound (turns : List (Turn φ)) : ∀ message ∈ frames turns,
    EventStream.OneLine message.type ∧ message.type ≠ [] ∧ EventStream.OneLine message.data := by
  induction turns with
  | nil => exact fun _ h => absurd h List.not_mem_nil
  | cons turn rest ih =>
      cases turn with
      | closed => exact fun _ h => absurd h List.not_mem_nil
      | timeout =>
          rw [frames, List.forall_mem_cons]
          exact ⟨⟨⟨by decide, by decide⟩, by decide, by decide, by decide⟩, ih⟩
      | event e disconnected =>
          rw [frames, List.forall_mem_cons]
          refine ⟨⟨e.oneLine, e.ne_nil, oneLine_dumps _⟩, ?_⟩
          cases disconnected
          · exact ih
          · exact fun _ h => absurd h List.not_mem_nil

/-- Its data is the payload of the event. -/
theorem frames_parsed (turns : List (Turn φ)) :
    (frames turns).map (fun message => (message.type, Json.loads message.data)) =
      (heard turns).map fun entry => (entry.1, some entry.2) := by
  induction turns with
  | nil => rfl
  | cons turn rest ih =>
      cases turn with
      | closed => rfl
      | timeout =>
          have hempty : Json.loads (φ := φ) "{}".toList = some (.dict []) :=
            Json.loads_dumps (.dict [])
          rw [frames, heard, List.map_cons, List.map_cons, ih, hempty]
      | event e disconnected =>
          have hpayload : Json.loads e.message.data =
              some (payload (.str (Str.ofText e.name)) e.members) :=
            Json.loads_dumps_eq_iff.mpr (wf_payload e)
          rw [frames, heard, List.map_cons, List.map_cons, hpayload]
          cases disconnected
          · exact congrArg (_ :: ·) ih
          · rfl

/-! ## Events that end the stream -/

/-- What a generator that goes on makes of the turns after it. -/
theorem eventStream_append (pyStr : Value φ → Str) {turns : List (Waited φ)} (more : List (Waited φ)) :
    (eventStream pyStr turns).2 = .running → eventStream pyStr (turns ++ more) =
      ((eventStream pyStr turns).1 ++ (eventStream pyStr more).1, (eventStream pyStr more).2) := by
  induction turns with
  | nil => exact fun _ => rfl
  | cons turn rest ih =>
      intro h
      cases turn with
      | closed => cases h
      | timeout =>
          have hrest := ih h
          rw [List.cons_append, eventStream, hrest]
          rfl
      | event e disconnected =>
          rw [eventStream] at h
          rw [List.cons_append, eventStream, eventStream]
          cases hbytes : e.toSseBytes pyStr with
          | error raised =>
              rw [hbytes] at h
              cases h
          | ok bytes =>
              rw [hbytes] at h
              cases disconnected with
              | true => cases h
              | false =>
                  have hrest := ih h
                  simp only [Bool.false_eq_true, if_false, hrest, List.cons_append]

/-- The frame of an event cannot be written if its data is no dict, or if a surrogate stands in its
name. -/
theorem toSseBytes_eq_error_iff (pyStr : Value φ → Str) (e : SSEEvent φ) (raised : Raised) :
    e.toSseBytes pyStr = .error raised ↔
      raised = .typeError ∧ (∀ members, e.data ≠ .dict members) ∨
        raised = .valueError ∧ (∃ members, e.data = .dict members) ∧
          ∃ c ∈ format pyStr e.event, c.IsHigh ∨ c.IsLow := by
  have hnone : ∀ literal : List Char, ¬ ∃ c ∈ Str.ofText literal, c.IsHigh ∨ c.IsLow := by
    intro literal h
    rw [← Json.text?_eq_none_iff, Json.text?_ofText] at h
    cases h
  cases hdata : e.data with
  | dict members =>
      have hframe : (text "event: " ++ format pyStr e.event ++ text "\ndata: " ++
          Str.ofText (Json.dumps (payload e.event members)) ++ text "\n\n").text? = none ↔
          ∃ c ∈ format pyStr e.event, c.IsHigh ∨ c.IsLow := by
        rw [Json.text?_eq_none_iff]
        simp only [List.mem_append, or_and_right, exists_or, text, hnone, false_or, or_false]
      have hbytes : e.toSseBytes pyStr = ((text "event: " ++ format pyStr e.event ++ text "\ndata: " ++
          Str.ofText (Json.dumps (payload e.event members)) ++ text "\n\n").text?).elim
            (.error .valueError) fun frame => .ok (Percent.utf8 frame) := by
        rw [SSEEvent.toSseBytes, hdata]
      rw [hbytes, ← hframe]
      cases Str.text? (text "event: " ++ format pyStr e.event ++ text "\ndata: " ++
          Str.ofText (Json.dumps (payload e.event members)) ++ text "\n\n") with
      | none =>
          simp only [Option.elim_none, Except.error.injEq, ne_eq, Value.dict.injEq, forall_eq',
            and_false, exists_eq', and_true, false_or]
          exact eq_comm
      | some frame => simp
  | null | bool | int | float | str | list =>
      have hbytes : e.toSseBytes pyStr = .error .typeError := by
        rw [SSEEvent.toSseBytes, hdata]
      rw [hbytes]
      simp [eq_comm]

/-- **The client hears the stream.** Of events with a name on one line and well-formed data, and every
event about a document is one of them, the bytes of the generator are a text that is read as the pings
and events in order, each with the payload of the event; of a stream that is cut off anywhere the client
hears the first ones. None of these events makes the generator raise. Any other event can come from
Redis as well; one whose data is no dict or whose name holds a surrogate ends the stream where it
comes. -/
theorem stream_heard (pyStr : Value φ → Str) (turns : List (Turn φ)) :
    (∃ text, Percent.ofUtf8 (eventStream pyStr (turns.map Turn.waited)).1.flatten = some text ∧
      (EventStream.read text).map (fun message => (message.type, Json.loads message.data)) =
        (heard turns).map (fun entry => (entry.1, some entry.2)) ∧
      ∀ front, front <+: text → EventStream.read front <+: EventStream.read text) ∧
    (∀ raised, (eventStream pyStr (turns.map Turn.waited)).2 ≠ .finished (some raised)) ∧
    (∀ (bits : Uuid → UUID) (event : Publishing.DocumentStatusChanged),
      ∃ e : StreamEvent φ, e.sent = toSseEvent bits event) ∧
    (∀ (e : SSEEvent φ) (raised : Raised), e.toSseBytes pyStr = .error raised ↔
      raised = .typeError ∧ (∀ members, e.data ≠ .dict members) ∨
        raised = .valueError ∧ (∃ members, e.data = .dict members) ∧
          ∃ c ∈ format pyStr e.event, c.IsHigh ∨ c.IsLow) ∧
    ∀ (e : SSEEvent φ) (raised : Raised) (disconnected : Bool) (more : List (Waited φ)),
      (eventStream pyStr (turns.map Turn.waited)).2 = .running → e.toSseBytes pyStr = .error raised →
      eventStream pyStr (turns.map Turn.waited ++ .event e disconnected :: more) =
        ((eventStream pyStr (turns.map Turn.waited)).1, .finished (some raised)) := by
  obtain ⟨hbytes, hraised⟩ := eventStream_eq pyStr turns
  refine ⟨⟨(frames turns).flatMap fun message => EventStream.frame message.type message.data, ?_, ?_,
    fun front => EventStream.read_prefix⟩, hraised, fun bits event =>
    ⟨streamEvent bits event, streamEvent_sent bits event⟩, toSseBytes_eq_error_iff pyStr, ?_⟩
  · rw [hbytes]
    exact Percent.ofUtf8_utf8 _
  · rw [EventStream.read_frames (frames_sound turns)]
    exact frames_parsed turns
  · intro e raised disconnected more hrunning herror
    rw [eventStream_append pyStr _ hrunning, eventStream, herror, List.append_nil]

/-! ## Floats as literals -/

/-- An event with a float that is no number. -/
def nanEvent : SSEEvent Json.FloatLiteral where
  event := .str (text "score")
  data := .dict [(text "value", .float .nan)]

/-- It comes out of Redis as it was put in. -/
theorem nan_survives_redis : fromJson id nanEvent.toJson = .ok nanEvent := by
  refine ((events_survive_redis id).1 nanEvent).mpr ⟨Json.unpaired_ofText _, ?_⟩
  refine Json.wf_dict_iff.mpr ⟨List.nodup_singleton _, ?_⟩
  rw [List.forall_mem_singleton]
  exact ⟨Json.unpaired_ofText _, trivial⟩

/-- An event without members. -/
def bareEvent : StreamEvent Json.FloatLiteral where
  name := "score".toList
  oneLine := ⟨by decide, by decide⟩
  ne_nil := by decide
  members := []
  wf := Json.wf_dict_iff.mpr ⟨List.nodup_nil, fun _ h => absurd h List.not_mem_nil⟩
  documentId := none
  userId := none

/-- A ping and an event are heard, and a list for the data of the next one ends the stream. -/
theorem ping_and_event_heard :
    (∃ heardText, Percent.ofUtf8
        (eventStream (fun _ => []) [.timeout, .event bareEvent.sent false]).1.flatten =
          some heardText ∧
      (EventStream.read heardText).map EventStream.Message.type = ["ping".toList, "score".toList]) ∧
    (eventStream (fun _ => []) [.timeout, .event bareEvent.sent false,
      .event ⟨.str (text "score"), .list [], none, none⟩ false]).2 = .finished (some .typeError) := by
  obtain ⟨⟨heardText, hbytes, hread, -⟩, -, -, herror, hends⟩ :=
    stream_heard (fun _ => []) [.timeout, .event bareEvent false]
  refine ⟨⟨heardText, hbytes, ?_⟩, ?_⟩
  · have htypes := congrArg (List.map Prod.fst) hread
    rw [List.map_map, List.map_map] at htypes
    exact htypes
  · have hlast := hends ⟨.str (text "score"), .list [], none, none⟩ .typeError false [] rfl
      ((herror _ _).mpr (.inl ⟨rfl, fun _ h => nomatch h⟩))
    exact congrArg Prod.snd hlast

end SyncBack.Wire
