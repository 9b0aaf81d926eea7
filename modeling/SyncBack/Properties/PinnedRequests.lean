import Mathlib.Data.List.Infix
import SyncBack.Infrastructure.UrlConnector

/-!
# Requests go to checked addresses

Whoever answers for the resolver and for the servers, and whatever they answer, each request of
`UrlConnector.fetch` goes to a public address of the host that was checked for it, under the names of
that host; an answer of the resolver with another address is the last thing that happens; and there
are at most `max_redirects + 1` requests for pages (`fetch_pinned`). The text of a request leads to
that address unless the address has a zone with the delimiters of a URL, which no one escapes
(`request_leads_to_loopback`).

`Allowed` says of one command what may precede it, `Guarded` says it of every command of a history,
and each part of the program is shown to keep it.
-/

namespace SyncBack

open Net Effects

/-- A command with its answer. -/
abbrev FetchEvent : Type := Sigma FetchCmd.Reply

namespace FetchCmd

/-- The request that a command sends. -/
def request : FetchCmd → Option PinnedRequest
  | .resolve _ _ => none
  | .get request | .stream request => some request

/-- The command asks for a page. -/
def isPage : FetchCmd → Bool
  | .stream _ => true
  | _ => false

end FetchCmd

namespace UrlConnector

variable (lib : FetchLibrary) (source : SourceRef)

/-- The address of the page that comes next: at first that of the source, then the one that the
redirect just received leads to. -/
def pageHop : List FetchEvent → Option SourceUrl
  | [] => source.url.bind fun raw => (SourceUrl.parse lib.unicode raw).toOption
  | ⟨.stream _, reply⟩ :: es =>
      match (reply : Except FetchError Response) with
      | .error _ => none
      | .ok response =>
          if response.isRedirect then
            (pageHop es).bind fun url => (redirected lib url response.location).toOption
          else none
  | _ :: es => pageHop es

/-- The address of `robots.txt`. -/
def robotsHop : Option SourceUrl :=
  (pageHop lib source []).bind fun url =>
    (SourceUrl.parse lib.unicode (robotsText url)).toOption

/-- The address that was checked for a request. -/
def hop (es : List FetchEvent) : FetchCmd → Option SourceUrl
  | .resolve _ _ => none
  | .get _ => robotsHop lib source
  | .stream _ => pageHop lib source es

/-- The resolver has answered with addresses. -/
def answered (host : Text) (port : ℕ) (answer : List IpAddress) : FetchEvent :=
  ⟨.resolve host port, Except.ok answer⟩

/-- The requests for pages. -/
def pages (es : List FetchEvent) : ℕ := es.countP fun e => e.1.isPage

/-- The request goes to the address, under the names of `url`. Its text leads there whenever the zone
of the address, if it has one, can stand in an authority: the names of interfaces can, and an address
that comes from the text of a source has no other zone. -/
structure SentTo (url : SourceUrl) (address : IpAddress) (request : PinnedRequest) : Prop where
  text : ∃ tail, request.url =
    url.scheme.toText ++ "://".toList ++ netlocOf url address ++ '/' :: tail
  leads : address.Plain → destination request.url = some (url.scheme.toText, address)
  headers : request.headers = [("Host", url.hostHeader)]
  extensions : request.extensions = [("sni_hostname", url.host)]

/-- The address is the host itself, or the first one of the answer just received, in which all are
public. -/
def Chosen (url : SourceUrl) (address : IpAddress) (es : List FetchEvent) : Prop :=
  url.ipLiteral = some address ∧ address.Plain ∨
    ∃ others before, es = answered url.host url.port (address :: others) :: before ∧
      ∀ a ∈ address :: others, isPublicAddress a = true

/-- All addresses that the resolver has answered with are public. -/
def Unblocked (es : List FetchEvent) : Prop :=
  ∀ host port answer, answered host port answer ∈ es → ∀ a ∈ answer, isPublicAddress a = true

/-- What precedes a command. -/
structure Allowed (cmd : FetchCmd) (es : List FetchEvent) : Prop where
  unblocked : Unblocked es
  sent : ∀ request, cmd.request = some request → ∃ url address,
    hop lib source es cmd = some url ∧ isPublicAddress address = true ∧ Chosen url address es ∧
      SentTo url address request

/-- Every command of the history was allowed when it was given. -/
def Guarded (es : List FetchEvent) : Prop :=
  ∀ e before, e :: before <:+ es → Allowed lib source e.1 before

variable {lib source}

/-- Nothing was done yet. -/
theorem Guarded.nil : Guarded lib source [] := fun _ _ h =>
  absurd (List.suffix_nil.mp h) (List.cons_ne_nil _ _)

/-- One allowed event more. -/
theorem Guarded.cons {es : List FetchEvent} (h : Guarded lib source es) {e : FetchEvent}
    (he : Allowed lib source e.1 es) : Guarded lib source (e :: es) := by
  intro e' before hsuffix
  rcases List.suffix_cons_iff.mp hsuffix with heq | hsuffix
  · obtain ⟨rfl, rfl⟩ := List.cons_eq_cons.mp heq
    exact he
  · exact h e' before hsuffix

/-- A network location is the host of the address, and perhaps a port of digits. -/
theorem netlocOf_eq (url : SourceUrl) (address : IpAddress) :
    ∃ suffix, netlocOf url address = address.toHost ++ suffix ∧
      (suffix = [] ∨ ∃ port, suffix = ':' :: port) ∧
      ∀ c ∈ suffix, c = ':' ∨ isHexDigit c = true := by
  rw [netlocOf]
  split_ifs
  · exact ⟨[], by simp, .inl rfl, by simp⟩
  · refine ⟨_, rfl, .inr ⟨_, rfl⟩, fun c hc => ?_⟩
    rcases List.mem_cons.mp hc with rfl | hc
    · exact .inl rfl
    · exact .inr (isHexDigit_of_mem_toDigits (by decide) (by decide) hc)

/-- The address is found in the text of a request. -/
theorem destination_netlocOf {url : SourceUrl} {address : IpAddress} (hplain : address.Plain)
    {path query : Text} (hpath : path ≠ []) :
    destination (urlunsplit ⟨url.scheme.toText, netlocOf url address, path, query, []⟩) =
      some (url.scheme.toText, address) := by
  have hscheme : url.scheme.toText.head?.any Char.isAlpha = true ∧
      url.scheme.toText.all isSchemeChar = true := by
    cases url.scheme <;> decide
  obtain ⟨suffix, hnetloc, hshape, hchars⟩ := netlocOf_eq url address
  have hsuffix : ∀ c : Char, c ≠ ':' → isHexDigit c = false → c ∉ suffix := by
    intro c hcolon hhex hc
    rcases hchars c hc with h | h
    · exact hcolon h
    · rw [h] at hhex
      cases hhex
  have hdelim : ∀ c ∈ netlocOf url address, c ≠ '/' ∧ c ≠ '?' ∧ c ≠ '#' := by
    rw [hnetloc]
    intro c hc
    rcases List.mem_append.mp hc with hc | hc
    · exact ⟨fun h => hplain.not_mem_toHost (by simp) (h ▸ hc),
        fun h => hplain.not_mem_toHost (by simp) (h ▸ hc),
        fun h => hplain.not_mem_toHost (by simp) (h ▸ hc)⟩
    · exact ⟨fun h => hsuffix '/' (by decide) (by decide) (h ▸ hc),
        fun h => hsuffix '?' (by decide) (by decide) (h ▸ hc),
        fun h => hsuffix '#' (by decide) (by decide) (h ▸ hc)⟩
  have hne : netlocOf url address ≠ [] := by
    rw [hnetloc]
    exact List.append_ne_nil_of_left_ne_nil address.toHost_ne_nil _
  have hhost : (hostinfo (netlocOf url address)).1 = address.toText := by
    rw [hnetloc]
    exact IpAddress.hostinfo_toHost hplain hshape (hsuffix '@' (by decide) (by decide))
      (hsuffix '[' (by decide) (by decide))
  rw [destination_urlunsplit hscheme.1 hscheme.2 hne hdelim hpath, hhost,
    IpAddress.ipAddress_toText hplain.wellFormed, Option.map_some]

/-- A request of the connector is what it is pinned to. -/
theorem sentTo_of_pinnedRequest {u : Unicode} {url : SourceUrl} {address : IpAddress}
    {request : PinnedRequest} (h : pinnedRequest u url address = some request) :
    SentTo url address request := by
  obtain ⟨parts, -, rfl⟩ := Option.map_eq_some_iff.mp h
  have hscheme : url.scheme.toText ≠ [] := by
    cases url.scheme <;> decide
  have hnetloc : netlocOf url address ≠ [] := by
    obtain ⟨suffix, hnetloc, -, -⟩ := netlocOf_eq url address
    rw [hnetloc]
    exact List.append_ne_nil_of_left_ne_nil address.toHost_ne_nil _
  have hpath : (if parts.path = [] then ['/'] else parts.path) ≠ [] := by
    split_ifs with hnil
    · exact List.cons_ne_nil _ _
    · exact hnil
  refine ⟨?_, fun hplain => destination_netlocOf hplain hpath, rfl, rfl⟩
  obtain ⟨tail, htail⟩ := @urlunsplit_eq ⟨url.scheme.toText, netlocOf url address,
    if parts.path = [] then ['/'] else parts.path, parts.query, []⟩ hscheme hnetloc hpath
  exact ⟨tail, by rw [htail]; simp⟩

/-! ## One step -/

/-- An answer with public addresses alone blocks nothing. -/
theorem Unblocked.cons {es : List FetchEvent} (h : Unblocked es) {e : FetchEvent}
    (he : ∀ host port answer, e = answered host port answer →
      ∀ a ∈ answer, isPublicAddress a = true) : Unblocked (e :: es) := by
  intro host port answer hmem
  rcases List.mem_cons.mp hmem with heq | hmem
  · exact he host port answer heq.symm
  · exact h host port answer hmem

/-- The history is the same but for an answer of the resolver. -/
def Resolved (es es' : List FetchEvent) : Prop :=
  es' = es ∨ ∃ host port reply, es' = ⟨.resolve host port, reply⟩ :: es

/-- Resolving changes nothing about the hops. -/
theorem Resolved.pageHop_eq {es es' : List FetchEvent} (h : Resolved es es') :
    pageHop lib source es' = pageHop lib source es := by
  rcases h with rfl | ⟨host, port, reply, rfl⟩ <;> rfl

/-- Nor about the pages. -/
theorem Resolved.pages_eq {es es' : List FetchEvent} (h : Resolved es es') :
    pages es' = pages es := by
  rcases h with rfl | ⟨host, port, reply, rfl⟩ <;> rfl

/-- What holds of the address that was picked. -/
structure Picked (url : SourceUrl) (es : List FetchEvent) (address : IpAddress)
    (es' : List FetchEvent) : Prop where
  isPublic : isPublicAddress address = true
  chosen : Chosen url address es'
  unblocked : Unblocked es'
  resolved : Resolved es es'

/-- The address that is picked is one of the last answer, or the reason why there is none. -/
theorem always_pickAddress {F : List FetchEvent → Prop} {url : SourceUrl} {es : List FetchEvent}
    (h : F es) (hstep : ∀ reply, F (⟨.resolve url.host url.port, reply⟩ :: es))
    (hplain : ∀ a, url.ipLiteral = some a → a.Plain) (hopen : Unblocked es) :
    (pickAddress url).Always F (fun r es' => match r with
      | .ok address => Picked url es address es'
      | .error e => Resolved es es' ∧ ((∃ e', e = .invalidSourceUrl e') ∨ Unblocked es')) es := by
  unfold pickAddress
  cases hliteral : url.ipLiteral with
  | some literal =>
      exact ⟨h, url.literal_public literal hliteral, .inl ⟨hliteral, hplain literal hliteral⟩,
        hopen, .inl rfl⟩
  | none =>
      refine Prog.Always.call h fun reply => ?_
      have hresolved : Resolved es (⟨.resolve url.host url.port, reply⟩ :: es) :=
        .inr ⟨url.host, url.port, reply, rfl⟩
      rcases reply with e | answer
      · refine ⟨hstep _, hresolved, .inr (hopen.cons ?_)⟩
        intro host port answer heq
        cases heq
      · cases answer with
        | nil =>
            refine ⟨hstep _, hresolved, .inr (hopen.cons ?_)⟩
            intro host port answer heq
            cases heq
            exact fun a ha => absurd ha List.not_mem_nil
        | cons address others =>
            show Prog.Always F _ (if _ then _ else _) _
            split_ifs with hall
            · have hpublic : ∀ a ∈ address :: others, isPublicAddress a = true :=
                List.all_eq_true.mp hall
              refine ⟨hstep _, hpublic _ List.mem_cons_self, .inr ⟨others, es, rfl, hpublic⟩,
                hopen.cons ?_, hresolved⟩
              intro host port answer heq
              cases heq
              exact hpublic
            · exact ⟨hstep _, hresolved, .inl ⟨_, rfl⟩⟩

/-- A request goes to the picked address, with the host of the page. -/
theorem always_request {F : List FetchEvent → Prop} {u : Unicode} {url : SourceUrl}
    {address : IpAddress} {es : List FetchEvent} (h : F es) :
    (request u url address).Always F (fun r es' => match r with
      | .ok request => es' = es ∧ SentTo url address request
      | .error e => es' = es ∧ e = .valueError "urlsplit") es := by
  unfold request
  cases hrequest : pinnedRequest u url address with
  | some request => exact ⟨h, rfl, sentTo_of_pinnedRequest hrequest⟩
  | none => exact ⟨h, rfl, rfl⟩

/-! ## The history of a run -/

variable (lib source) in
/-- What holds of the history wherever the program stands. -/
structure Bounded (n : ℕ) (es : List FetchEvent) : Prop where
  guarded : Guarded lib source es
  pages_le : pages es ≤ n

/-- A host is resolved. -/
theorem Bounded.resolve {n : ℕ} {es : List FetchEvent} (h : Bounded lib source n es)
    (hopen : Unblocked es) {host : Text} {port : ℕ} (reply : FetchCmd.Reply (.resolve host port)) :
    Bounded lib source n (⟨.resolve host port, reply⟩ :: es) :=
  ⟨h.guarded.cons ⟨hopen, fun _ hrequest => nomatch hrequest⟩, h.pages_le⟩

/-- A request that is pinned to the address of its hop. -/
theorem Picked.allowed {cmd : FetchCmd} {url : SourceUrl} {address : IpAddress}
    {es es' : List FetchEvent} (h : Picked url es address es') {request : PinnedRequest}
    (hcmd : cmd.request = some request) (hhop : hop lib source es' cmd = some url)
    (hsent : SentTo url address request) : Allowed lib source cmd es' := by
  refine ⟨h.unblocked, fun request' hrequest => ?_⟩
  obtain rfl := Option.some.inj (hcmd.symm.trans hrequest)
  exact ⟨url, address, hhop, h.isPublic, h.chosen, hsent⟩

/-- The page that comes next has been checked. -/
structure At (lib : FetchLibrary) (source : SourceRef) (url : SourceUrl) (es : List FetchEvent) :
    Prop where
  hop : pageHop lib source es = some url
  unblocked : Unblocked es
  parsed : ∃ raw, SourceUrl.parse lib.unicode raw = .ok url

/-- A redirection leads to a page that was read from a text. -/
theorem parse_of_redirected {url next : SourceUrl} {location : Option Text}
    (h : redirected lib url location = .ok next) :
    ∃ raw, SourceUrl.parse lib.unicode raw = .ok next := by
  cases location with
  | none => cases h
  | some location =>
      rw [redirected] at h
      split at h
      · cases h
      rename_i raw _
      split at h
      · cases h
      · rename_i url' hparse
        cases h
        exact ⟨raw, hparse⟩

variable (hlower : lib.unicode.KeepsDelimiters)
include hlower

/-- Downloads stay within the rounds that are left, by induction on them. -/
theorem always_downloadRounds (connector : UrlConnector) {n : ℕ} :
    ∀ (rounds : ℕ) (url : SourceUrl) (es : List FetchEvent), At lib source url es →
      Bounded lib source n es → pages es + rounds ≤ n →
      (connector.downloadRounds lib rounds url).Always (Bounded lib source n) (fun _ _ => True) es
  | 0, _, _, _, h, _ => ⟨h, trivial⟩
  | rounds + 1, url, es, hat, h, hle => by
      obtain ⟨raw, hraw⟩ := hat.parsed
      rw [downloadRounds]
      refine Prog.Always.bind (A := fun address es' => Picked url es address es')
        (E := fun _ _ => True) (fun address es' h' hpicked => ?_) (fun _ _ _ => trivial)
        (Prog.Always.mono (fun _ hes => hes) (fun r _ hr => by cases r <;> trivial)
          (always_pickAddress h (h.resolve hat.unblocked)
            (fun a => SourceUrl.plain_of_parse hlower hraw) hat.unblocked))
      refine Prog.Always.bind (A := fun request es'' => es'' = es' ∧ SentTo url address request)
        (E := fun _ _ => True) (fun request es'' _ hsent => ?_) (fun _ _ _ => trivial)
        (Prog.Always.mono (fun _ hes => hes) (fun r _ hr => by cases r <;> trivial)
          (always_request h'))
      obtain ⟨rfl, hsent⟩ := hsent
      refine Prog.Always.call h' fun reply => ?_
      have hhop : pageHop lib source es'' = some url := hpicked.resolved.pageHop_eq.trans hat.hop
      have hpages : pages es'' = pages es := hpicked.resolved.pages_eq
      have hbounded : Bounded lib source n (⟨.stream request, reply⟩ :: es'') := by
        refine ⟨h'.guarded.cons (hpicked.allowed rfl hhop hsent), ?_⟩
        rw [pages, List.countP_cons_of_pos rfl, ← pages]
        omega
      rcases reply with e | response
      · exact ⟨hbounded, trivial⟩
      show Prog.Always _ _ (if _ then _ else _) _
      split_ifs with hredirect
      · cases hnext : redirected lib url response.location with
        | error e => exact ⟨hbounded, trivial⟩
        | ok next =>
            refine always_downloadRounds connector rounds next _ ⟨?_, ?_, ?_⟩ hbounded ?_
            · show (if _ then (pageHop lib source es'').bind _ else none) = _
              rw [if_pos hredirect, hhop, Option.bind_some, hnext]
              rfl
            · exact hpicked.unblocked.cons fun _ _ _ heq => by cases heq
            · exact parse_of_redirected hnext
            · rw [pages, List.countP_cons_of_pos rfl, ← pages]
              omega
      · exact ⟨hbounded, trivial⟩
      · cases connector.readLimited lib response <;> exact ⟨hbounded, trivial⟩

/-- Reading `robots.txt` requests no page. -/
theorem always_readRobots {n : ℕ} {url robots : SourceUrl} {raw : Text}
    (hhop : robotsHop lib source = some robots) (hraw : SourceUrl.parse lib.unicode raw = .ok robots)
    {es : List FetchEvent} (hat : At lib source url es) (h : Bounded lib source n es) :
    (readRobots lib robots).Always (Bounded lib source n) (fun r es' => match r with
      | .ok _ => At lib source url es' ∧ pages es' = pages es
      | .error _ => True) es := by
  have hkept : ∀ {es'}, Resolved es es' → Unblocked es' →
      At lib source url es' ∧ pages es' = pages es := fun hresolved hopen =>
    ⟨⟨hresolved.pageHop_eq.trans hat.hop, hopen, hat.parsed⟩, hresolved.pages_eq⟩
  unfold readRobots
  refine Prog.Always.tryCatch (E := fun e es' => (∃ e', e = .invalidSourceUrl e') ∨
    At lib source url es' ∧ pages es' = pages es) (fun e es' h' he => ?_) ?_
  · rcases he with ⟨e', rfl⟩ | hat'
    · exact ⟨h', trivial⟩
    · cases e <;> first | exact ⟨h', hat'⟩ | exact ⟨h', trivial⟩
  refine Prog.Always.bind (A := fun address es' => Picked robots es address es')
    (E := fun e es' => (∃ e', e = .invalidSourceUrl e') ∨
      At lib source url es' ∧ pages es' = pages es)
    (fun address es' h' hpicked => ?_) (fun _ _ he => he)
    (Prog.Always.mono (fun _ hes => hes) (fun r es' hr => ?_)
      (always_pickAddress h (h.resolve hat.unblocked)
        (fun a => SourceUrl.plain_of_parse hlower hraw) hat.unblocked))
  · refine Prog.Always.bind (A := fun request es'' => es'' = es' ∧ SentTo robots address request)
      (E := fun _ es'' => es'' = es') (fun request es'' _ hsent => ?_)
      (fun e es'' he => .inr (he ▸ hkept hpicked.resolved hpicked.unblocked))
      (Prog.Always.mono (fun _ hes => hes) (fun r es'' hr => ?_) (always_request h'))
    · obtain ⟨rfl, hsent⟩ := hsent
      refine Prog.Always.call h' fun reply => ?_
      have hbounded : Bounded lib source n (⟨.get request, reply⟩ :: es'') :=
        ⟨h'.guarded.cons (hpicked.allowed rfl hhop hsent), h'.pages_le⟩
      have hat' : At lib source url (⟨.get request, reply⟩ :: es'') ∧
          pages (⟨.get request, reply⟩ :: es'') = pages es := by
        obtain ⟨hat', hpages⟩ := hkept hpicked.resolved hpicked.unblocked
        have hopen := hat'.unblocked.cons (e := ⟨.get request, reply⟩) fun _ _ _ heq => by cases heq
        exact ⟨⟨hat'.hop, hopen, hat'.parsed⟩, hpages⟩
      rcases reply with e | response
      · exact ⟨hbounded, .inr hat'⟩
      · exact ⟨hbounded, hat'⟩
    · cases r with
      | ok request => exact hr
      | error e => exact hr.1
  · cases r with
    | ok address => exact hr
    | error e => exact hr.2.imp id fun hopen => hkept hr.1 hopen

/-- Neither does the check of it. -/
theorem always_checkRobots {n : ℕ} {url : SourceUrl} (hat : At lib source url []) :
    (checkRobots lib url).Always (Bounded lib source n) (fun r es => match r with
      | .ok _ => At lib source url es ∧ pages es = 0
      | .error _ => True) [] := by
  have h : Bounded lib source n [] := ⟨.nil, Nat.zero_le n⟩
  unfold checkRobots
  cases hrobots : SourceUrl.parse lib.unicode (robotsText url) with
  | error e => exact ⟨h, trivial⟩
  | ok robots =>
      have hhop : robotsHop lib source = some robots := by
        rw [robotsHop, hat.hop, Option.bind_some, hrobots]
        rfl
      refine Prog.Always.bind (A := fun _ es => At lib source url es ∧ pages es = pages [])
        (E := fun _ _ => True) (fun response es h' hat' => ?_) (fun _ _ _ => trivial)
        (Prog.Always.mono (fun _ hes => hes) (fun r _ hr => by cases r <;> exact hr)
          (always_readRobots hlower hhop hrobots hat h))
      cases response with
      | none => exact ⟨h', hat'⟩
      | some response =>
          dsimp only
          split_ifs
          · exact ⟨h', hat'⟩
          · cases lib.canFetch (response.text.take robotsMaxBytes) userAgent url.value with
            | error e => exact ⟨h', trivial⟩
            | ok _ => exact ⟨h', hat'⟩

/-- **A fetch requests no more pages than redirections allow.** -/
theorem always_fetch (connector : UrlConnector) :
    (connector.fetch lib source).Always
      (Bounded lib source (connector.maxRedirects + 1).toNat) (fun _ _ => True) [] := by
  have h : Bounded lib source (connector.maxRedirects + 1).toNat [] := ⟨.nil, Nat.zero_le _⟩
  unfold fetch
  split
  · exact ⟨h, trivial⟩
  · exact ⟨h, trivial⟩
  · rename_i raw _ hurl
    cases hraw : SourceUrl.parse lib.unicode raw with
    | error e => exact ⟨h, trivial⟩
    | ok url =>
        have hat : At lib source url [] := by
          refine ⟨?_, fun _ _ _ hmem => absurd hmem List.not_mem_nil, raw, hraw⟩
          rw [pageHop, hurl, Option.bind_some, hraw]
          rfl
        refine Prog.Always.bind (A := fun _ es => At lib source url es ∧ pages es = 0)
          (E := fun _ _ => True) (fun _ es h' hat' => ?_) (fun _ _ _ => trivial)
          (Prog.Always.mono (fun _ hes => hes) (fun r _ hr => by cases r <;> exact hr)
            (always_checkRobots hlower hat))
        exact always_downloadRounds hlower connector _ url es hat'.1 h' (by rw [hat'.2]; omega)

omit hlower in
/-- Nothing follows an answer with an address that is not public. -/
theorem Guarded.blocked {es : List FetchEvent} (h : Guarded lib source es) {host : Text} {port : ℕ}
    {answer : List IpAddress} {before : List FetchEvent}
    (hsuffix : answered host port answer :: before <:+ es)
    (hlocal : ∃ a ∈ answer, isPublicAddress a = false) : answered host port answer :: before = es := by
  obtain ⟨front, hfront⟩ := hsuffix
  rcases List.eq_nil_or_concat front with rfl | ⟨front', e, rfl⟩
  · exact hfront
  · obtain ⟨a, ha, hpublic⟩ := hlocal
    have hnext : e :: answered host port answer :: before <:+ es :=
      ⟨front', by rw [← hfront]; simp⟩
    have := (h e _ hnext).unblocked host port answer List.mem_cons_self a ha
    rw [hpublic] at this
    cases this

/-- **Whatever the resolver and the servers answer**: a request goes to a public address of the host
that was checked for it, with the scheme and under the names of that host; an answer of the resolver
with an address that is not public is the last thing that happens; and there are at most
`max_redirects + 1` requests for pages. -/
theorem fetch_pinned (connector : UrlConnector) :
    (connector.fetch lib source).Always (fun es =>
      (∀ cmd reply before, ⟨cmd, reply⟩ :: before <:+ es → ∀ request, cmd.request = some request →
        ∃ url address, hop lib source before cmd = some url ∧ isPublicAddress address = true ∧
          Chosen url address before ∧ SentTo url address request) ∧
      (∀ host port answer before, answered host port answer :: before <:+ es →
        (∃ a ∈ answer, isPublicAddress a = false) → answered host port answer :: before = es) ∧
      pages es ≤ (connector.maxRedirects + 1).toNat) (fun _ _ => True) [] := by
  refine Prog.Always.mono (fun es hes => ⟨?_, ?_, hes.pages_le⟩) (fun _ _ h => h)
    (always_fetch hlower connector)
  · intro cmd reply before hsuffix request hrequest
    exact (hes.guarded _ before hsuffix).sent request hrequest
  · intro host port answer before hsuffix hlocal
    exact hes.guarded.blocked hsuffix hlocal

omit hlower in
/-- Lower case keeps the delimiters. -/
theorem keepsDelimiters_map_toLower (nfkc : Text → Text) :
    (⟨List.map Char.toLower, nfkc⟩ : Unicode).KeepsDelimiters := by
  intro text c hc hmem
  obtain ⟨d, hd, rfl⟩ := List.mem_map.mp hmem
  delta Char.toLower at hc ⊢
  split_ifs at hc ⊢ with hupper
  · -- an upper-case letter becomes a letter
    exfalso
    have hcode : (d.val + ('a'.val - 'A'.val)).toNat = d.val.toNat + 32 := by
      have h := UInt32.le_iff_toNat_le.mp hupper.2
      rw [UInt32.toNat_add]
      simp at h ⊢
      omega
    have hle : 65 ≤ d.val.toNat := UInt32.le_iff_toNat_le.mp hupper.1
    have hsmall : ∀ c ∈ ['/', '?', '#', '@', ']'], c.val.toNat < 97 := by simp
    have hlt : (d.val + ('a'.val - 'A'.val)).toNat < 97 := hsmall _ hc
    rw [hcode] at hlt
    omega
  · exact hd

/-- The library on texts of ASCII characters, with contents that are no HTML. -/
def asciiLibrary : FetchLibrary where
  unicode := ⟨List.map Char.toLower, id⟩
  digits text :=
    .ok (if text ≠ [] ∧ text.all Char.isDigit then some (ofDigits 10 text) else none)
  canFetch _ _ _ := .ok true
  decode raw := raw.map fun b => Char.ofNat b.toNat
  stripHtml raw := raw.map fun b => Char.ofNat b.toNat

omit hlower in
/-- The pages behind `http://example.com/`: six requests at most, each to a public address. -/
theorem example_pages_pinned :
    (({} : UrlConnector).fetch asciiLibrary ⟨(0, 0), some "http://example.com/".toList⟩).Always
      (fun es => pages es ≤ 6 ∧ ∀ request reply before, ⟨.stream request, reply⟩ :: before <:+ es →
        ∃ address, isPublicAddress address = true ∧
          (address.Plain → (destination request.url).map Prod.snd = some address))
      (fun _ _ => True) [] := by
  refine Prog.Always.mono (fun es hes => ⟨hes.2.2, fun request reply before hsuffix => ?_⟩)
    (fun _ _ h => h)
    (fetch_pinned (keepsDelimiters_map_toLower id) {})
  obtain ⟨url, address, -, hpublic, -, hsent⟩ := hes.1 _ reply before hsuffix request rfl
  exact ⟨address, hpublic, fun hplain => by rw [hsent.leads hplain]; rfl⟩

/-- A public address with a zone that ends the brackets of an authority. -/
def strangeZone : IpAddress :=
  .v6 ⟨0x26064700000000000000000000000001, some "]@127.0.0.1#".toList⟩

example : ipAddress "2606:4700::1%]@127.0.0.1#".toList = some strangeZone ∧
    isPublicAddress strangeZone = true := by decide +kernel

omit hlower in
/-- The request for `robots.txt` of a host with that address. -/
theorem get_strangeZone :
    ∃ next, ({} : UrlConnector).fetch asciiLibrary ⟨(0, 0), some "http://a.com/".toList⟩ =
        .op (.resolve "a.com".toList 80) next ∧
      ∃ request next', next (Except.ok [strangeZone]) = .op (.get request) next' ∧
        destination request.url = some ("http".toList, .v4 ⟨0x7f000001⟩) :=
  ⟨_, rfl, _, _, rfl, by decide +kernel⟩

omit hlower in
/-- A zone with the delimiters of an authority leads a request to the own host: the resolver answers
with a public address, and the text of the request names another one. -/
theorem request_leads_to_loopback :
    ¬ ∀ (lib : FetchLibrary) (connector : UrlConnector) (source : SourceRef),
      lib.unicode.KeepsDelimiters →
      (connector.fetch lib source).Always (fun es =>
        ∀ cmd reply before, ⟨cmd, reply⟩ :: before <:+ es → ∀ request, cmd.request = some request →
          ∃ scheme address, destination request.url = some (scheme, address) ∧
            isPublicAddress address = true) (fun _ _ => True) [] := by
  intro h
  have hfetch := h asciiLibrary {} ⟨(0, 0), some "http://a.com/".toList⟩
    (keepsDelimiters_map_toLower id)
  obtain ⟨next, hresolve, request, next', hget, hdestination⟩ := get_strangeZone
  rw [hresolve] at hfetch
  have hrobots := hfetch.2 (Except.ok [strangeZone])
  rw [hget] at hrobots
  obtain ⟨scheme, address, hleads, hpublic⟩ :=
    (hrobots.2 (Except.error .timeout)).here _ _ _ (List.suffix_refl _) request rfl
  rw [hdestination] at hleads
  obtain ⟨rfl, rfl⟩ := Prod.mk.inj (Option.some.inj hleads)
  revert hpublic
  decide +kernel

end UrlConnector

end SyncBack
