import SyncBack.Effects.Filtered
import SyncBack.Formats.Json

/-!
# The limit for request bodies

`BodySizeLimitMiddleware` calls the application with a `receive` that counts the bytes of the body and
a `send` that remembers whether the response has started. An application is a program that gives these
two commands and gets messages or exceptions for answers; what it does with the other fields of the
scope is its own affair, so the scope has only the two that are read here.

The bytes of the JSON text of an answer are a parameter.

Source: `app/core/body_size_limit_middleware.py`.
-/

namespace SyncBack.BodySizeLimit

open Effects

abbrev Bytes := List UInt8

/-! ## ASGI -/

/-- The messages of an HTTP connection; `ω` are those with no part here. -/
inductive Message (ω : Type) where
  | request (body : Option Bytes) (moreBody : Bool)
  | responseStart (status : ℕ) (headers : List (Bytes × Bytes))
  | responseBody (body : Bytes) (moreBody : Bool)
  | other (message : ω)
  deriving DecidableEq

inductive ScopeType where
  | http
  | websocket
  | lifespan
  deriving DecidableEq

structure Scope where
  type : ScopeType
  headers : Option (List (Bytes × Bytes))

inductive Command (ω : Type) where
  | receive
  | send (message : Message ω)
  deriving DecidableEq

/-- A message or nothing, or an exception of `ε`. -/
abbrev Resp (ω ε : Type) : Command ω → Type
  | .receive => Except ε (Message ω)
  | .send _ => Except ε Unit

/-- What the application can see raised: `_BodyTooLarge`, or what the server raises. -/
inductive Raised (ε : Type) where
  | bodyTooLarge (detail : String)
  | other (e : ε)
  deriving DecidableEq

variable {ω ε : Type}

/-- Code that is called with `receive` and `send`, which raise exceptions of `ε`. -/
abbrev Asgi (ω ε : Type) := Prog (Resp ω ε) (Raised ε) Unit

/-- An application: its `receive` and `send` can raise `_BodyTooLarge`. A program is a well-founded
tree: every run of it ends, however long the messages that come make it. -/
abbrev App (ω ε : Type) := Scope → Prog (Resp ω (Raised ε)) (Raised ε) Unit

/-- `await send(message)` -/
def send (message : Message ω) : Asgi ω ε :=
  .op (.send message) fun
    | .ok () => .pure ()
    | .error e => .throw (.other e)

/-- `await JSONResponse(status_code=…, content={"detail": …})(scope, receive, send)` -/
def jsonResponse (json : String → Bytes) (status : ℕ) (detail : String) : Asgi ω ε :=
  let body := json detail
  (send (.responseStart status
      [("content-length".toUTF8.toList, (toString body.length).toUTF8.toList),
        ("content-type".toUTF8.toList, "application/json".toUTF8.toList)])).bind fun _ =>
    send (.responseBody body false)

/-! ## The declared length -/

def isSpace (b : UInt8) : Bool := b = 32 ∨ (9 ≤ b ∧ b ≤ 13)

def digit? (b : UInt8) : Option ℕ := if 48 ≤ b ∧ b ≤ 57 then some (b.toNat - 48) else none

/-- Further digits, with single underscores before some of them; `count` digits have given `n`. -/
def numeral (count n : ℕ) : Bytes → ℕ × ℕ × Bytes
  | 95 :: b :: rest =>
      match digit? b with
      | some d => numeral (count + 1) (10 * n + d) rest
      | none => (count, n, 95 :: b :: rest)
  | b :: rest =>
      match digit? b with
      | some d => numeral (count + 1) (10 * n + d) rest
      | none => (count, n, b :: rest)
  | [] => (count, n, [])

/-- Without a sign; a minus gives `true`. -/
def sign : Bytes → Bool × Bytes
  | 45 :: rest => (true, rest)
  | 43 :: rest => (false, rest)
  | text => (false, text)

/-- `int(text)` for bytes; `none` is a `ValueError`. -/
def int (text : Bytes) : Option ℤ :=
  let signed := sign (text.dropWhile isSpace)
  match signed.2 with
  | [] => none
  | b :: rest =>
      match digit? b with
      | none => none
      | some d =>
          let parsed := numeral 1 d rest
          if parsed.2.2.all isSpace ∧ parsed.1 ≤ Json.maxStrDigits then
            some (if signed.1 then -parsed.2.1 else parsed.2.1)
          else none

/-- Source: `_declared_length`. -/
def declaredLength (scope : Scope) : ℤ :=
  match (scope.headers.getD []).find? (fun header => header.1 = "content-length".toUTF8.toList) with
  | some header => (int header.2).getD 0
  | none => 0

/-! ## The middleware -/

/-- Source: `Settings`, the fields that the limit comes from. -/
structure Settings where
  maxUploadSizeMb : ℤ

/-- Source: `Settings.max_upload_size_bytes`. -/
def Settings.maxUploadSizeBytes (settings : Settings) : ℤ := settings.maxUploadSizeMb * 1024 * 1024

/-- Source: `_MULTIPART_OVERHEAD_BYTES`. -/
def multipartOverheadBytes : ℤ := 1 * 1024 * 1024

def limit (settings : Settings) : ℤ := settings.maxUploadSizeBytes + multipartOverheadBytes

def detail (settings : Settings) : String :=
  s!"Тело запроса превышает допустимый размер ({settings.maxUploadSizeMb} МБ)"

/-- The variables `received` and `response_started`. -/
structure Progress where
  received : ℕ
  responseStarted : Bool

/-- An exception of the server, as the application sees it. -/
def raised {α : Type} : Except ε α → Except (Raised ε) α
  | .ok a => .ok a
  | .error e => .error (.other e)

/-- `received` after `await receive()`. -/
def countReceived (received : ℕ) : Except ε (Message ω) → ℕ
  | .ok (.request body _) => received + (body.getD []).length
  | _ => received

/-- Source: `limited_receive`. -/
def limitedReceive (limit : ℤ) (detail : String) (received : ℕ) (answer : Except ε (Message ω)) :
    Except (Raised ε) (Message ω) :=
  match answer with
  | .ok (.request _ _) =>
      if limit < countReceived received answer then .error (.bodyTooLarge detail) else raised answer
  | _ => raised answer

/-- `response_started` after `tracking_send`. -/
def trackStart (responseStarted : Bool) : Message ω → Bool
  | .responseStart _ _ => true
  | _ => responseStarted

/-- `limited_receive` and `tracking_send` between the application and the server. -/
def limits (limit : ℤ) (detail : String) : Filter (Resp ω ε) (Resp ω (Raised ε)) Progress where
  next s
    | .receive, answer => { s with received := countReceived s.received answer }
    | .send message, _ => { s with responseStarted := trackStart s.responseStarted message }
  shown s
    | .receive, answer => limitedReceive limit detail s.received answer
    | .send _, answer => raised answer

/-- The `receive` and `send` of the server themselves. -/
def plain : Filter (Resp ω ε) (Resp ω (Raised ε)) Unit where
  next _ _ _ := ()
  shown _
    | .receive, answer => raised answer
    | .send _, answer => raised answer

/-- `await self.app(scope, receive, send)` -/
def direct (app : App ω ε) (scope : Scope) : Asgi ω ε :=
  ((app scope).filtered plain ()).bind fun ended => .ofResult ended.1

/-- What is made of the end of the application: the branch for `_BodyTooLarge`. -/
def conclude (json : String → Bytes) (settings : Settings) (responseStarted : Bool) :
    Except (Raised ε) Unit → Asgi ω ε
  | .error (.bodyTooLarge text) =>
      if responseStarted then .throw (.bodyTooLarge text)
      else jsonResponse json 413 (detail settings)
  | ended => .ofResult ended

/-- Source: `BodySizeLimitMiddleware.__call__`. -/
def call (json : String → Bytes) (settings : Settings) (app : App ω ε) (scope : Scope) : Asgi ω ε :=
  if scope.type ≠ .http then direct app scope
  else if limit settings < declaredLength scope then jsonResponse json 413 (detail settings)
  else
    ((app scope).filtered (limits (limit settings) (detail settings)) ⟨0, false⟩).bind fun ended =>
      conclude json settings ended.2.responseStarted ended.1

end SyncBack.BodySizeLimit
