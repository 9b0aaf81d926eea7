import Mathlib.Data.List.Infix
import Mathlib.Tactic.Common

/-!
# Event streams

How a client reads `text/event-stream`: line by line, a line feed, a carriage return or both ending a
line; `event` and `data` fill two buffers, and an empty line sends off what they hold. The fields `id`
and `retry`, which change no event, are skipped like unknown ones.

`read_frames`: frames of two lines are read as the events that they were written for, and a stream
that breaks off gives the first of them (`read_prefix`).
-/

namespace EventStream

/-- An event that the client hears. -/
structure Message where
  type : List Char
  data : List Char
  deriving DecidableEq

structure Reader where
  line : List Char := []
  afterReturn : Bool := false
  typeBuffer : List Char := []
  dataBuffer : List Char := []
  messages : List Message := []

namespace Reader

/-- Send off the event, if it has data. -/
def dispatch (r : Reader) : Reader :=
  if r.dataBuffer = [] then { r with typeBuffer := [] }
  else
    { r with
      typeBuffer := []
      dataBuffer := []
      messages := r.messages ++
        [⟨if r.typeBuffer = [] then "message".toList else r.typeBuffer, r.dataBuffer.dropLast⟩] }

/-- One space after the colon does not belong to the value. -/
def dropSpace : List Char → List Char
  | ' ' :: rest => rest
  | text => text

def field (r : Reader) (name value : List Char) : Reader :=
  if name = "event".toList then { r with typeBuffer := value }
  else if name = "data".toList then { r with dataBuffer := r.dataBuffer ++ value ++ ['\n'] }
  else r

/-- The line is complete. -/
def endLine (r : Reader) : Reader :=
  if r.line = [] then { r with line := [] }.dispatch
  else
    { r with line := [] }.field (r.line.takeWhile (· ≠ ':'))
      (dropSpace ((r.line.dropWhile (· ≠ ':')).drop 1))

def step (r : Reader) (c : Char) : Reader :=
  if c = '\r' then { r.endLine with afterReturn := true }
  else if c = '\n' then
    if r.afterReturn then { r with afterReturn := false } else r.endLine
  else { r with line := r.line ++ [c], afterReturn := false }

end Reader

/-- The events of a stream. -/
def read (text : List Char) : List Message := (text.foldl Reader.step {}).messages

/-! ## Streams that break off -/

/-- Dispatching adds a message at most. -/
theorem dispatch_messages (r : Reader) : r.messages <+: r.dispatch.messages := by
  rw [Reader.dispatch]
  by_cases h : r.dataBuffer = []
  · rw [if_pos h]
  · rw [if_neg h]
    exact List.prefix_append _ _

/-- A field adds none. -/
theorem field_messages (r : Reader) (name value : List Char) :
    (r.field name value).messages = r.messages := by
  rw [Reader.field]
  split_ifs <;> rfl

/-- The end of a line adds one at most. -/
theorem endLine_messages (r : Reader) : r.messages <+: r.endLine.messages := by
  rw [Reader.endLine]
  split_ifs
  · exact dispatch_messages { r with line := [] }
  · rw [field_messages]

/-- What was heard stays heard. -/
theorem step_messages (r : Reader) (c : Char) : r.messages <+: (r.step c).messages := by
  rw [Reader.step]
  split_ifs
  · exact endLine_messages r
  · exact List.prefix_rfl
  · exact endLine_messages r
  · exact List.prefix_rfl

/-- Reading on adds to the messages, by induction on the text. -/
theorem foldl_messages (text : List Char) (r : Reader) :
    r.messages <+: (text.foldl Reader.step r).messages := by
  induction text generalizing r with
  | nil => exact List.prefix_rfl
  | cons c text ih => exact (step_messages r c).trans (ih _)

/-- The beginning of a stream gives the first of its events. -/
theorem read_prefix {front text : List Char} (h : front <+: text) : read front <+: read text := by
  obtain ⟨back, rfl⟩ := h
  rw [read, read, List.foldl_append]
  exact foldl_messages back _

/-! ## Frames -/

/-- A text on one line. -/
def OneLine (text : List Char) : Prop := '\n' ∉ text ∧ '\r' ∉ text

/-- Between two events. -/
def fresh (messages : List Message) : Reader := { messages := messages }

/-- A line is read to its end. -/
theorem foldl_line {text : List Char} (h : OneLine text) (r : Reader)
    (hreturn : r.afterReturn = false) :
    (text ++ ['\n']).foldl Reader.step r = { r with line := r.line ++ text }.endLine := by
  induction text generalizing r with
  | nil =>
      rw [List.nil_append, List.append_nil, List.foldl_cons, List.foldl_nil, Reader.step,
        if_neg (by decide), if_pos rfl, hreturn, if_neg (by decide)]
      obtain ⟨line, afterReturn, typeBuffer, dataBuffer, messages⟩ := r
      obtain rfl : afterReturn = false := hreturn
      rfl
  | cons c text ih =>
      obtain ⟨hn, hr⟩ := h
      rw [List.mem_cons, not_or] at hn hr
      rw [List.cons_append, List.foldl_cons, Reader.step, if_neg (Ne.symm hr.1),
        if_neg (Ne.symm hn.1), ih ⟨hn.2, hr.2⟩ _ rfl, List.append_assoc, List.singleton_append]
      obtain ⟨line, afterReturn, typeBuffer, dataBuffer, messages⟩ := r
      obtain rfl : afterReturn = false := hreturn
      rfl

/-- The line of a field, with a space after the colon. -/
def fieldLine (name value : List Char) : List Char := name ++ ':' :: ' ' :: value

/-- A field's line is read as the field. -/
theorem endLine_fieldLine {r : Reader} (name value : List Char) (h : r.line = fieldLine name value)
    (hname : ':' ∉ name) : r.endLine = { r with line := [] }.field name value := by
  have hpos : ∀ c ∈ name, decide (c ≠ ':') = true := by
    intro c hc
    rw [decide_eq_true_eq]
    rintro rfl
    exact hname hc
  have hne : r.line ≠ [] := by
    rw [h, fieldLine]
    exact List.append_ne_nil_of_right_ne_nil _ (List.cons_ne_nil _ _)
  rw [Reader.endLine, if_neg hne, h, fieldLine, List.takeWhile_append_of_pos hpos,
    List.dropWhile_append_of_pos hpos, List.takeWhile_cons_of_neg (by decide),
    List.dropWhile_cons_of_neg (by decide), List.append_nil]
  rfl

/-- It is one line. -/
theorem oneLine_fieldLine {name value : List Char} (hname : OneLine name) (hvalue : OneLine value) :
    OneLine (fieldLine name value) := by
  simp only [OneLine, fieldLine, List.mem_append, List.mem_cons, not_or]
  exact ⟨⟨hname.1, by decide, by decide, hvalue.1⟩, hname.2, by decide, by decide, hvalue.2⟩

/-- A field is read into its buffer. -/
theorem foldl_field {name value : List Char} (hname : OneLine name) (hcolon : ':' ∉ name)
    (hvalue : OneLine value) {r : Reader} (hreturn : r.afterReturn = false) (hline : r.line = []) :
    (fieldLine name value ++ ['\n']).foldl Reader.step r = r.field name value := by
  have hstart : r.line ++ fieldLine name value = fieldLine name value := by
    rw [hline, List.nil_append]
  rw [foldl_line (oneLine_fieldLine hname hvalue) r hreturn, hstart,
    endLine_fieldLine name value rfl hcolon]
  obtain ⟨line, afterReturn, typeBuffer, dataBuffer, messages⟩ := r
  obtain rfl : line = [] := hline
  rfl

/-- `event: …\ndata: …\n\n` -/
def frame (type data : List Char) : List Char :=
  fieldLine "event".toList type ++ ['\n'] ++ (fieldLine "data".toList data ++ ['\n']) ++ ['\n']

/-- **A frame is read as one message.** -/
theorem foldl_frame {type data : List Char} (htype : OneLine type) (hne : type ≠ [])
    (hdata : OneLine data) (messages : List Message) :
    (frame type data).foldl Reader.step (fresh messages) = fresh (messages ++ [⟨type, data⟩]) := by
  have hfirst : (fieldLine "event".toList type ++ ['\n']).foldl Reader.step (fresh messages) =
      { fresh messages with typeBuffer := type } := by
    rw [foldl_field ⟨by decide, by decide⟩ (by decide) htype rfl rfl, Reader.field, if_pos rfl]
  have hsecond : (fieldLine "data".toList data ++ ['\n']).foldl Reader.step
      { fresh messages with typeBuffer := type } =
      { fresh messages with typeBuffer := type, dataBuffer := data ++ ['\n'] } := by
    rw [foldl_field ⟨by decide, by decide⟩ (by decide) hdata rfl rfl, Reader.field,
      if_neg (by decide), if_pos rfl]
    rfl
  have hthird : (['\n'] : List Char).foldl Reader.step
      { fresh messages with typeBuffer := type, dataBuffer := data ++ ['\n'] } =
      { fresh messages with typeBuffer := type, dataBuffer := data ++ ['\n'] }.dispatch := rfl
  rw [frame, List.foldl_append, List.foldl_append, hfirst, hsecond, hthird, Reader.dispatch,
    if_neg (List.append_ne_nil_of_right_ne_nil _ (List.cons_ne_nil _ _)), List.dropLast_concat,
    if_neg hne]
  rfl

/-- Frames are read as the events that they were written for. -/
theorem read_frames {frames : List Message}
    (h : ∀ message ∈ frames, OneLine message.type ∧ message.type ≠ [] ∧ OneLine message.data) :
    read (frames.flatMap fun message => frame message.type message.data) = frames := by
  have hall : ∀ messages, (frames.flatMap fun message => frame message.type message.data).foldl
      Reader.step (fresh messages) = fresh (messages ++ frames) := by
    induction frames with
    | nil =>
        intro messages
        rw [List.append_nil]
        rfl
    | cons message frames ih =>
        intro messages
        rw [List.forall_mem_cons] at h
        obtain ⟨⟨htype, hne, hdata⟩, hrest⟩ := h
        rw [List.flatMap_cons, List.foldl_append, foldl_frame htype hne hdata, ih hrest,
          List.append_assoc, List.singleton_append]
  have hread := congrArg Reader.messages (hall [])
  exact hread

end EventStream
