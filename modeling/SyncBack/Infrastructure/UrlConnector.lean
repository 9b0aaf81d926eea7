import SyncBack.Domain.SourceUrl
import SyncBack.Domain.StorageKeys
import SyncBack.Effects.Program

/-!
# The connector of sources given by an address

`UrlConnector.fetch` as a program of commands: resolve a host, send a request for `robots.txt`, send a
request for a page. The resolver and the servers are the ones who answer, with whatever they like.
What the connector takes from libraries for the contents of the responses is a parameter.

Source: `app/infrastructure/source_connectors/url_connector.py`.
-/

namespace SyncBack

open Net Effects

/-- Source: `_PinnedRequest`. -/
structure PinnedRequest where
  url : Text
  headers : List (String × Text)
  extensions : List (String × Text)
  deriving DecidableEq

/-- What can be raised while a source is fetched. -/
inductive FetchError where
  | valueError (message : String)
  | keyError (key : String)
  | invalidSourceUrl (e : InvalidSourceUrlError)
  /-- `SourceFetchError` -/
  | sourceFetch (message : String)
  /-- `TimeoutError` -/
  | timeout
  /-- `httpx.HTTPError` -/
  | httpError
  /-- Anything else that a collaborator raises. -/
  | other
  deriving DecidableEq, Repr

/-- A response, as far as the connector reads it. -/
structure Response where
  statusCode : ℕ
  location : Option Text := none
  contentLength : Option Text := none
  contentType : Option Text := none
  /-- `response.text` -/
  text : Text := []
  /-- What `aiter_bytes` yields, and what it then raises. -/
  chunks : List (List UInt8) := []
  broken : Option FetchError := none

namespace Response

def isRedirect (response : Response) : Bool :=
  300 ≤ response.statusCode && response.statusCode ≤ 399

def isSuccess (response : Response) : Bool :=
  200 ≤ response.statusCode && response.statusCode ≤ 299

end Response

/-- The commands. -/
inductive FetchCmd where
  /-- `self._resolver(host, port)` -/
  | resolve (host : Text) (port : ℕ)
  /-- `client.get`, for `robots.txt` -/
  | get (request : PinnedRequest)
  /-- `client.stream("GET", …)`, for a page -/
  | stream (request : PinnedRequest)
  deriving DecidableEq

/-- The answer to a command: what it returns, or what it raises. -/
def FetchCmd.Reply : FetchCmd → Type
  | .resolve _ _ => Except FetchError (List IpAddress)
  | .get _ => Except FetchError Response
  | .stream _ => Except FetchError Response

/-- What the connector takes from libraries. -/
structure FetchLibrary where
  unicode : Unicode
  /-- `int(text)` if `text.isdigit()`. -/
  digits : Text → Except FetchError (Option ℕ)
  /-- `RobotFileParser.can_fetch(agent, url)` after `parse` of the lines of the text. -/
  canFetch : Text → Text → Text → Except FetchError Bool
  /-- `raw.decode("utf-8", errors="replace")` -/
  decode : List UInt8 → Text
  /-- `_strip_html` -/
  stripHtml : List UInt8 → Text

/-- Source: `SourceRef`, the address alone. -/
structure SourceRef where
  id : Uuid
  url : Option Text

/-- Source: `UrlConnector.__init__`. -/
structure UrlConnector where
  maxBytes : ℤ := 5 * 1024 * 1024
  maxRedirects : ℤ := 5

/-- What a program of the connector does. -/
abbrev Fetch (α : Type) : Type := Prog FetchCmd.Reply FetchError α

namespace UrlConnector

/-- Source: `_USER_AGENT`. -/
def userAgent : Text := "SyncScribeBot/1.0 (+https://syncscribe.app/bot)".toList

/-- Source: `_ROBOTS_MAX_BYTES`. -/
def robotsMaxBytes : ℕ := 512 * 1024

/-- Source: `UrlConnector._pick_address`. -/
def pickAddress (url : SourceUrl) : Fetch IpAddress :=
  match url.ipLiteral with
  | some literal => pure literal
  | none =>
      Prog.call (.resolve url.host url.port) >>= fun reply : Except FetchError (List IpAddress) =>
        match reply with
        | .error e => throw e
        | .ok [] =>
            throw (.sourceFetch ("Имя хоста " ++ String.ofList url.host ++
              " не разрешилось ни в один адрес"))
        | .ok (address :: others) =>
            if (address :: others).all isPublicAddress then pure address
            else
              throw (.invalidSourceUrl ⟨"Хост " ++ String.ofList url.host ++
                " указывает на локальный или приватный адрес"⟩)

/-- The authority of a request: the address, with the port where it is not the usual one. -/
def netlocOf (url : SourceUrl) (address : IpAddress) : Text :=
  if url.usesDefaultPort then address.toHost
  else address.toHost ++ ':' :: Nat.toDigits 10 url.port

/-- Source: `UrlConnector._pinned_request`; `none` for a `ValueError` of `urlsplit`. -/
def pinnedRequest (u : Unicode) (url : SourceUrl) (address : IpAddress) : Option PinnedRequest :=
  (urlsplit u url.value).map fun parts =>
    { url := urlunsplit {
        scheme := url.scheme.toText
        netloc := netlocOf url address
        path := if parts.path = [] then ['/'] else parts.path
        query := parts.query
        fragment := [] }
      headers := [("Host", url.hostHeader)]
      extensions := [("sni_hostname", url.host)] }

/-- The request for an address, or the exception that is raised instead. -/
def request (u : Unicode) (url : SourceUrl) (address : IpAddress) : Fetch PinnedRequest :=
  match pinnedRequest u url address with
  | some request => pure request
  | none => throw (.valueError "urlsplit")

variable (lib : FetchLibrary) (connector : UrlConnector)

/-- The message about a content that is too large. -/
def tooLarge : FetchError :=
  .sourceFetch ("Содержимое по ссылке больше лимита " ++ toString connector.maxBytes ++ " байт")

/-- The loop of `_read_limited`. -/
def readChunks (broken : Option FetchError) : ℕ → List (List UInt8) → Except FetchError (List UInt8)
  | _, [] =>
      match broken with
      | some e => .error e
      | none => .ok []
  | total, chunk :: rest =>
      if connector.maxBytes < total + chunk.length then .error connector.tooLarge
      else (readChunks broken (total + chunk.length) rest).map (chunk ++ ·)

/-- Source: `UrlConnector._read_limited`. -/
def readLimited (response : Response) : Except FetchError (List UInt8) :=
  match response.contentLength with
  | none => connector.readChunks response.broken 0 response.chunks
  | some declared =>
      match lib.digits declared with
      | .error e => .error e
      | .ok none => connector.readChunks response.broken 0 response.chunks
      | .ok (some length) =>
          if connector.maxBytes < length then .error connector.tooLarge
          else connector.readChunks response.broken 0 response.chunks

/-- Source: `UrlConnector._to_text`. -/
def toText (raw : List UInt8) (contentType : Text) : Text :=
  if "html".toList <:+: contentType then lib.stripHtml raw else lib.decode raw

/-- The address that a redirect leads to. -/
def redirected (url : SourceUrl) (location : Option Text) : Except FetchError SourceUrl :=
  match location with
  | none => .error (.keyError "location")
  | some location =>
      match urljoin lib.unicode url.value location with
      | none => .error (.valueError "urljoin")
      | some raw =>
          match SourceUrl.parse lib.unicode raw with
          | .error e => .error (.invalidSourceUrl e)
          | .ok url => .ok url

/-- The loop of `UrlConnector._download`, with the number of rounds that are left. -/
def downloadRounds : ℕ → SourceUrl → Fetch Text
  | 0, _ =>
      throw (.sourceFetch
        ("Слишком много редиректов (больше " ++ toString connector.maxRedirects ++ ")"))
  | rounds + 1, url =>
      pickAddress url >>= fun address =>
      request lib.unicode url address >>= fun request =>
      Prog.call (.stream request) >>= fun reply : Except FetchError Response =>
        match reply with
        | .error e => throw e
        | .ok response =>
            if response.isRedirect then
              match redirected lib url response.location with
              | .error e => throw e
              | .ok next => downloadRounds rounds next
            else if !response.isSuccess then throw .httpError
            else
              match connector.readLimited lib response with
              | .error e => throw e
              | .ok raw => pure (toText lib raw (response.contentType.getD []))

/-- Source: `UrlConnector._download`. -/
def download (url : SourceUrl) : Fetch Text :=
  connector.downloadRounds lib (connector.maxRedirects + 1).toNat url

/-- The text of the address of `robots.txt`. -/
def robotsText (url : SourceUrl) : Text :=
  url.scheme.toText ++ "://".toList ++ url.hostHeader ++ "/robots.txt".toList

/-- The request for `robots.txt`; a server that cannot be reached has none. -/
def readRobots (robots : SourceUrl) : Fetch (Option Response) :=
  (pickAddress robots >>= fun address =>
    request lib.unicode robots address >>= fun request =>
    Prog.call (.get request) >>= fun reply : Except FetchError Response =>
      match reply with
      | .error e => throw e
      | .ok response => pure (some response)).tryCatch fun e =>
    match e with
    | .timeout | .httpError | .sourceFetch _ => pure none
    | e => throw e

/-- Source: `UrlConnector._check_robots`; a ban is only logged. -/
def checkRobots (url : SourceUrl) : Fetch Unit :=
  match SourceUrl.parse lib.unicode (robotsText url) with
  | .error e => throw (.invalidSourceUrl e)
  | .ok robots =>
      readRobots lib robots >>= fun response =>
        match response with
        | none => pure ()
        | some response =>
            if response.statusCode ≠ 200 then pure ()
            else
              match lib.canFetch (response.text.take robotsMaxBytes) userAgent url.value with
              | .error e => throw e
              | .ok _ => pure ()

/-- Source: `UrlConnector.fetch`. -/
def fetch (source : SourceRef) : Fetch Text :=
  match source.url with
  | none | some [] => throw (.valueError ("url отсутствует для источника " ++ uuidText source.id))
  | some raw =>
      match SourceUrl.parse lib.unicode raw with
      | .error e => throw (.invalidSourceUrl e)
      | .ok url => checkRobots lib url >>= fun _ => connector.download lib url

end UrlConnector

end SyncBack
