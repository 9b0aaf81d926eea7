import SyncBack.Net.IpAddress

/-!
# Addresses of resources

`urlsplit`, `urlunsplit` and `urljoin` of Python's `urllib.parse`, over the texts. What depends on the
tables of Unicode is a parameter.

* `destination` — where a client that is given the text connects: its scheme and the address that
  stands for the host;
* `destination_urlunsplit` — a text put together from a scheme, an authority and the rest leads to the
  authority.
-/

namespace Net

/-- What Python takes from the tables of Unicode. -/
structure Unicode where
  /-- `str.lower`. -/
  lower : List Char → List Char
  /-- `unicodedata.normalize("NFKC", text)`. -/
  nfkc : List Char → List Char

/-- Lowering a text brings no delimiter into it. -/
def Unicode.KeepsDelimiters (u : Unicode) : Prop :=
  ∀ text : List Char, ∀ c ∈ ['/', '?', '#', '@', ']'], c ∈ u.lower text → c ∈ text

/-! ## The parts of a text -/

/-- What stands before the first occurrence of a character; all of it if there is none. -/
def before (c : Char) (text : List Char) : List Char := text.takeWhile (· ≠ c)

/-- What stands after the first occurrence of a character; nothing if there is none. -/
def after (c : Char) (text : List Char) : List Char := (text.dropWhile (· ≠ c)).tail

/-- What stands after the last occurrence of a character; all of it if there is none. -/
def afterLast (c : Char) (text : List Char) : List Char := (text.reverse.takeWhile (· ≠ c)).reverse

/-- `scheme_chars`. -/
def isSchemeChar (c : Char) : Bool := c.isAlphanum || c = '+' || c = '-' || c = '.'

/-- The scheme of a text as it is written, and what follows it. -/
def splitScheme (url : List Char) : Option (List Char × List Char) :=
  let scheme := before ':' url
  if ':' ∈ url ∧ (scheme.head?.any Char.isAlpha) = true ∧ scheme.all isSchemeChar then
    some (scheme, after ':' url)
  else none

/-- `_splitnetloc` behind two slashes. -/
def splitNetloc (rest : List Char) : List Char × List Char :=
  (rest.takeWhile fun c => c ≠ '/' ∧ c ≠ '?' ∧ c ≠ '#',
    rest.dropWhile fun c => c ≠ '/' ∧ c ≠ '?' ∧ c ≠ '#')

/-- `_hostinfo`: the host and the port as they are written. -/
def hostinfo (netloc : List Char) : List Char × Option (List Char) :=
  let hostinfo := afterLast '@' netloc
  let (hostname, port) :=
    if '[' ∈ hostinfo then
      (before ']' (after '[' hostinfo), after ':' (after ']' (after '[' hostinfo)))
    else (before ':' hostinfo, after ':' hostinfo)
  (hostname, if port = [] then none else some port)

/-- `_check_bracketed_host`. -/
def checkBracketedHost (hostname : List Char) : Bool :=
  match hostname with
  | 'v' :: rest => before '.' rest ≠ [] && (before '.' rest).all isHexDigit && after '.' rest ≠ []
  | _ =>
      match ipAddress hostname with
      | some (.v6 _) => true
      | _ => false

/-- `_check_bracketed_netloc`. -/
def checkBracketedNetloc (netloc : List Char) : Bool :=
  let hostnameAndPort := afterLast '@' netloc
  if '[' ∈ hostnameAndPort then
    let bracketed := after '[' hostnameAndPort
    let port := after ']' bracketed
    before '[' hostnameAndPort = [] && (port = [] || port.head? = some ':') &&
      checkBracketedHost (before ']' bracketed)
  else checkBracketedHost (before ':' hostnameAndPort)

/-- `_checknetloc`: no delimiter comes up under NFKC. -/
def checkNetloc (u : Unicode) (netloc : List Char) : Bool :=
  let n := netloc.filter fun c => c ∉ ['@', ':', '#', '?']
  netloc = [] || netloc.all (fun c => c.toNat < 128) || n = u.nfkc n ||
    ['/', '?', '#', '@', ':'].all fun c => c ∉ u.nfkc n

/-! ## Splitting -/

structure SplitResult where
  scheme : List Char
  netloc : List Char
  path : List Char
  query : List Char
  fragment : List Char
  deriving DecidableEq

/-- The scheme, or the default one if there is none, and what follows it. -/
def schemeAndRest (u : Unicode) (url scheme : List Char) : List Char × List Char :=
  match splitScheme url with
  | some (written, rest) => (u.lower written, rest)
  | none => (scheme, url)

/-- The authority, if there are two slashes before it, and what follows it. -/
def netlocAndRest (url : List Char) : List Char × List Char :=
  if ['/', '/'] <+: url then splitNetloc (url.drop 2) else ([], url)

/-- `urlsplit(url, scheme)`; `none` for a `ValueError`. -/
def urlsplit (u : Unicode) (url : List Char) (scheme : List Char := []) : Option SplitResult :=
  let url := (url.dropWhile fun c => c.toNat ≤ 0x20).filter fun c => c ∉ ['\t', '\r', '\n']
  let rest := schemeAndRest u url scheme
  let scheme := rest.1
  let netloc := (netlocAndRest rest.2).1
  let url := (netlocAndRest rest.2).2
  if '[' ∈ netloc ∧ ']' ∉ netloc ∨ ']' ∈ netloc ∧ '[' ∉ netloc then none
  else if '[' ∈ netloc ∧ checkBracketedNetloc netloc = false then none
  else if checkNetloc u netloc = false then none
  else
    let fragment := after '#' url
    let url := before '#' url
    some ⟨scheme, netloc, before '?' url, after '?' url, fragment⟩

namespace SplitResult

variable (parts : SplitResult)

/-- The part of the authority before the host, if there is one. -/
def userinfo : Option (List Char) :=
  if '@' ∈ parts.netloc then
    some (parts.netloc.take (parts.netloc.length - (afterLast '@' parts.netloc).length - 1))
  else none

/-- `parts.username`. -/
def username : Option (List Char) := parts.userinfo.map (before ':')

/-- `parts.password`. -/
def password : Option (List Char) :=
  parts.userinfo.bind fun userinfo => if ':' ∈ userinfo then some (after ':' userinfo) else none

/-- `parts.hostname`: the zone of an address stays as it is. -/
def hostname (u : Unicode) : Option (List Char) :=
  let written := (hostinfo parts.netloc).1
  if written = [] then none
  else some (u.lower (before '%' written) ++ written.dropWhile (· ≠ '%'))

/-- `parts.port`; the outer `none` for a `ValueError`. -/
def port : Option (Option ℕ) :=
  match (hostinfo parts.netloc).2 with
  | none => some none
  | some port =>
      if !port.all Char.isDigit then none
      else if 65535 < ofDigits 10 port then none
      else some (some (ofDigits 10 port))

end SplitResult

/-! ## Putting together -/

def usesRelative : List String :=
  ["", "ftp", "http", "gopher", "nntp", "imap", "wais", "file", "https", "shttp", "mms", "prospero",
    "rtsp", "rtsps", "rtspu", "sftp", "svn", "svn+ssh", "ws", "wss"]

def usesNetloc : List String :=
  ["", "ftp", "http", "gopher", "nntp", "telnet", "imap", "wais", "file", "mms", "https", "shttp",
    "snews", "prospero", "rtsp", "rtsps", "rtspu", "rsync", "svn", "svn+ssh", "sftp", "nfs", "git",
    "git+ssh", "ws", "wss", "itms-services"]

def usesParams : List String :=
  ["", "ftp", "hdl", "prospero", "http", "imap", "https", "shttp", "rtsp", "rtsps", "rtspu", "sip",
    "sips", "mms", "sftp", "tel"]

/-- The scheme is one of the list. -/
def oneOf (schemes : List String) (scheme : List Char) : Bool := schemes.any (·.toList = scheme)

/-- `urlunsplit`. -/
def urlunsplit (parts : SplitResult) : List Char :=
  let url :=
    if parts.netloc ≠ [] then
      let path :=
        if parts.path ≠ [] ∧ parts.path.head? ≠ some '/' then '/' :: parts.path else parts.path
      ['/', '/'] ++ parts.netloc ++ path
    else if ['/', '/'] <+: parts.path then ['/', '/'] ++ parts.path
    else if parts.scheme ≠ [] ∧ oneOf usesNetloc parts.scheme ∧
        (parts.path = [] ∨ parts.path.head? = some '/') then ['/', '/'] ++ parts.path
    else parts.path
  let url := if parts.scheme ≠ [] then parts.scheme ++ ':' :: url else url
  let url := if parts.query ≠ [] then url ++ '?' :: parts.query else url
  if parts.fragment ≠ [] then url ++ '#' :: parts.fragment else url

/-! ## Joining -/

/-- `_splitparams`: the parameters of the last segment. -/
def splitParams (path : List Char) : List Char × List Char :=
  let last := afterLast '/' path
  if ';' ∈ last then
    (path.take (path.length - last.length) ++ before ';' last, after ';' last)
  else (path, [])

/-- `urlparse(url, scheme)`: the parts, with the path and its parameters. -/
def urlparse (u : Unicode) (url scheme : List Char) :
    Option (SplitResult × List Char × List Char) :=
  (urlsplit u url scheme).map fun parts =>
    let (path, params) :=
      if oneOf usesParams parts.scheme ∧ ';' ∈ parts.path then splitParams parts.path
      else (parts.path, [])
    (parts, path, params)

/-- `urlunparse`. -/
def urlunparse (scheme netloc path params query fragment : List Char) : List Char :=
  urlunsplit ⟨scheme, netloc, if params ≠ [] then path ++ ';' :: params else path, query, fragment⟩

/-- `segments[1:-1] = filter(None, segments[1:-1])`. -/
def withoutInnerEmpty (segments : List (List Char)) : List (List Char) :=
  match segments with
  | first :: second :: rest =>
      first :: ((second :: rest).dropLast.filter (· ≠ []) ++ [(second :: rest).getLast (by simp)])
  | _ => segments

/-- The dots of a path are followed. -/
def resolveDots (segments : List (List Char)) : List (List Char) :=
  let resolved := segments.foldl (fun resolved seg =>
    if seg = ['.', '.'] then resolved.dropLast
    else if seg = ['.'] then resolved
    else resolved ++ [seg]) []
  if segments.getLast? = some ['.'] ∨ segments.getLast? = some ['.', '.'] then resolved ++ [[]]
  else resolved

/-- `urljoin(base, url)`; `none` for a `ValueError`. -/
def urljoin (u : Unicode) (base url : List Char) : Option (List Char) :=
  if base = [] then some url
  else if url = [] then some base
  else do
    let (bparts, bpath, bparams) ← urlparse u base []
    let (parts, path, params) ← urlparse u url bparts.scheme
    if parts.scheme ≠ bparts.scheme ∨ oneOf usesRelative parts.scheme = false then pure url
    else if oneOf usesNetloc parts.scheme ∧ parts.netloc ≠ [] then
      pure (urlunparse parts.scheme parts.netloc path params parts.query parts.fragment)
    else
      let netloc := if oneOf usesNetloc parts.scheme then bparts.netloc else parts.netloc
      if path = [] ∧ params = [] then
        let query := if parts.query = [] then bparts.query else parts.query
        pure (urlunparse parts.scheme netloc bpath bparams query parts.fragment)
      else
        let baseParts := bpath.splitOn '/'
        let baseParts := if baseParts.getLast? ≠ some [] then baseParts.dropLast else baseParts
        let segments :=
          if path.head? = some '/' then path.splitOn '/'
          else withoutInnerEmpty (baseParts ++ path.splitOn '/')
        let joined := ['/'].intercalate (resolveDots segments)
        pure (urlunparse parts.scheme netloc (if joined = [] then ['/'] else joined) params
          parts.query parts.fragment)

/-! ## Where a text leads -/

/-- The scheme of a text and the address that stands for its host. -/
def destination (url : List Char) : Option (List Char × IpAddress) :=
  match splitScheme url with
  | some (scheme, '/' :: '/' :: rest) =>
      (ipAddress (hostinfo (splitNetloc rest).1).1).map (Prod.mk scheme)
  | _ => none

/-- What comes before the first such character. -/
theorem before_append_cons {c : Char} {front back : List Char} (h : c ∉ front) :
    before c (front ++ c :: back) = front := by
  have hfront : ∀ d ∈ front, decide (d ≠ c) = true := fun d hd =>
    decide_eq_true (ne_of_mem_of_not_mem hd h)
  rw [before, List.takeWhile_append_of_pos hfront, List.takeWhile_cons_of_neg (by simp),
    List.append_nil]

/-- Everything does, if there is none. -/
theorem before_of_not_mem {c : Char} {text : List Char} (h : c ∉ text) : before c text = text :=
  List.takeWhile_eq_self_iff.mpr fun _ hd => decide_eq_true (ne_of_mem_of_not_mem hd h)

/-- What comes after it. -/
theorem after_append_cons {c : Char} {front back : List Char} (h : c ∉ front) :
    after c (front ++ c :: back) = back := by
  have hfront : ∀ d ∈ front, decide (d ≠ c) = true := fun d hd =>
    decide_eq_true (ne_of_mem_of_not_mem hd h)
  rw [after, List.dropWhile_append_of_pos hfront, List.dropWhile_cons_of_neg (by simp),
    List.tail_cons]

/-- Everything comes after the last one, if there is none. -/
theorem afterLast_of_not_mem {c : Char} {text : List Char} (h : c ∉ text) :
    afterLast c text = text := by
  rw [afterLast, List.takeWhile_eq_self_iff.mpr, List.reverse_reverse]
  exact fun d hd => decide_eq_true (ne_of_mem_of_not_mem (List.mem_reverse.mp hd) h)

/-- A scheme is split off at the colon. -/
theorem splitScheme_append {scheme rest : List Char} (hne : scheme.head?.any Char.isAlpha = true)
    (hall : scheme.all isSchemeChar = true) :
    splitScheme (scheme ++ ':' :: rest) = some (scheme, rest) := by
  have hcolon : ':' ∉ scheme := fun h => absurd (List.all_eq_true.mp hall _ h) (by decide)
  have hmem : ':' ∈ scheme ++ ':' :: rest := List.mem_append_right _ List.mem_cons_self
  rw [splitScheme]
  simp only [before_append_cons hcolon, after_append_cons hcolon]
  exact if_pos ⟨hmem, hne, hall⟩

/-- The authority of a text ends at the path. -/
theorem splitNetloc_append {netloc tail : List Char}
    (h : ∀ c ∈ netloc, c ≠ '/' ∧ c ≠ '?' ∧ c ≠ '#') :
    (splitNetloc (netloc ++ '/' :: tail)).1 = netloc := by
  rw [splitNetloc]
  dsimp only
  rw [List.takeWhile_append_of_pos fun c hc => decide_eq_true (h c hc),
    List.takeWhile_cons_of_neg (by simp), List.append_nil]

/-- A text that is put together with an authority and a path has them one after the other. -/
theorem urlunsplit_eq {parts : SplitResult} (hscheme : parts.scheme ≠ [])
    (hnetloc : parts.netloc ≠ []) (hpath : parts.path ≠ []) :
    ∃ tail, urlunsplit parts =
      parts.scheme ++ ':' :: '/' :: '/' :: (parts.netloc ++ '/' :: tail) := by
  have hslash : ∃ tail, (if parts.path ≠ [] ∧ parts.path.head? ≠ some '/' then '/' :: parts.path
      else parts.path) = '/' :: tail := by
    obtain ⟨c, tail, hcons⟩ := List.exists_cons_of_ne_nil hpath
    by_cases hc : c = '/'
    · exact ⟨tail, by rw [if_neg (by simp [hcons, hc]), hcons, hc]⟩
    · exact ⟨parts.path, by rw [if_pos ⟨hpath, by simp [hcons, hc]⟩]⟩
  obtain ⟨tail, htail⟩ := hslash
  simp only [urlunsplit, if_pos hnetloc, if_pos hscheme, htail]
  split_ifs
  · exact ⟨tail ++ '?' :: parts.query ++ '#' :: parts.fragment, by simp⟩
  · exact ⟨tail ++ '#' :: parts.fragment, by simp⟩
  · exact ⟨tail ++ '?' :: parts.query, by simp⟩
  · exact ⟨tail, by simp⟩

/-- **A text leads to the authority that it was put together with.** -/
theorem destination_urlunsplit {parts : SplitResult}
    (hhead : parts.scheme.head?.any Char.isAlpha = true)
    (hall : parts.scheme.all isSchemeChar = true) (hnetloc : parts.netloc ≠ [])
    (hdelim : ∀ c ∈ parts.netloc, c ≠ '/' ∧ c ≠ '?' ∧ c ≠ '#') (hpath : parts.path ≠ []) :
    destination (urlunsplit parts) =
      (ipAddress (hostinfo parts.netloc).1).map (Prod.mk parts.scheme) := by
  have hscheme : parts.scheme ≠ [] := by
    rintro h
    rw [h] at hhead
    cases hhead
  obtain ⟨tail, htail⟩ := urlunsplit_eq hscheme hnetloc hpath
  rw [htail, destination, splitScheme_append hhead hall]
  show (ipAddress (hostinfo (splitNetloc _).1).1).map _ = _
  rw [splitNetloc_append hdelim]

/-! ### Hosts of the parts -/

/-- What comes before was there. -/
theorem mem_of_mem_before {c d : Char} {text : List Char} (h : d ∈ before c text) : d ∈ text :=
  (List.takeWhile_sublist _).subset h

/-- It does not have the character. -/
theorem not_mem_before (c : Char) (text : List Char) : c ∉ before c text := fun h => by
  simpa using List.mem_takeWhile_imp h

/-- What comes after was there. -/
theorem mem_of_mem_after {c d : Char} {text : List Char} (h : d ∈ after c text) : d ∈ text :=
  (List.dropWhile_sublist _).subset (List.mem_of_mem_tail h)

/-- Host and port were part of the network location. -/
theorem mem_of_mem_hostinfo {netloc : List Char} (hat : '@' ∉ netloc) {c : Char}
    (h : c ∈ (hostinfo netloc).1) : c ∈ netloc := by
  rw [hostinfo] at h
  simp only [afterLast_of_not_mem hat] at h
  split_ifs at h
  · exact mem_of_mem_after (mem_of_mem_before h)
  · exact mem_of_mem_before h

/-- The brackets are not part of the host. -/
theorem not_mem_hostinfo {netloc : List Char} (hat : '@' ∉ netloc)
    (hbrackets : ']' ∈ netloc → '[' ∈ netloc) : ']' ∉ (hostinfo netloc).1 := by
  intro h
  rw [hostinfo] at h
  simp only [afterLast_of_not_mem hat] at h
  split_ifs at h with hopen
  · exact not_mem_before _ _ h
  · exact hopen (hbrackets (mem_of_mem_before h))

/-- A network location ends before a delimiter. -/
theorem splitNetloc_delim {rest : List Char} {c : Char} (h : c ∈ (splitNetloc rest).1) :
    c ≠ '/' ∧ c ≠ '?' ∧ c ≠ '#' := by
  have hmem : c ∈ rest.takeWhile fun c => decide (c ≠ '/' ∧ c ≠ '?' ∧ c ≠ '#') := h
  simpa using List.mem_takeWhile_imp hmem

/-- The authority of a text that was split has no delimiter, and its brackets are paired. -/
theorem netloc_of_urlsplit {u : Unicode} {url scheme : List Char} {parts : SplitResult}
    (h : urlsplit u url scheme = some parts) :
    (∀ c ∈ parts.netloc, c ≠ '/' ∧ c ≠ '?' ∧ c ≠ '#') ∧
      (']' ∈ parts.netloc → '[' ∈ parts.netloc) := by
  rw [urlsplit] at h
  split_ifs at h with hbrackets
  cases h
  refine ⟨fun c hc => ?_, fun hclose => by_contra fun hopen => hbrackets (.inr ⟨hclose, hopen⟩)⟩
  dsimp only [netlocAndRest] at hc
  split_ifs at hc
  · exact splitNetloc_delim hc
  · exact absurd hc List.not_mem_nil

/-! ### Addresses as hosts -/

namespace IpAddress

/-- The address as the host of a text: one of version 6 stands in brackets. -/
def toHost : IpAddress → List Char
  | .v4 a => a.toText
  | .v6 a => '[' :: a.toText ++ [']']

/-- A zone that can stand in an authority. -/
def Plain (a : IpAddress) : Prop :=
  ∀ scope, a.scopeId = some scope →
    scope ≠ [] ∧ ∀ c ∈ scope, c ∉ ['%', '/', '?', '#', '@', ']']

/-- An address that is written without delimiters. -/
theorem plain_of_ipAddress {text : List Char} {a : IpAddress} (h : ipAddress text = some a)
    (htext : ∀ c ∈ ['/', '?', '#', '@', ']'], c ∉ text) : a.Plain := by
  intro scope hscope
  rw [ipAddress] at h
  split at h
  · cases h
    cases hscope
  · obtain ⟨a, ha, rfl⟩ := Option.map_eq_some_iff.mp h
    obtain ⟨hne, hpercent, hsub⟩ := IPv6Address.scopeId_of_ofText ha hscope
    refine ⟨hne, fun c hc hmem => ?_⟩
    rcases List.mem_cons.mp hmem with rfl | hmem
    · exact hpercent hc
    · exact htext c hmem (hsub c hc)

/-- A plain address is well formed. -/
theorem Plain.wellFormed {a : IpAddress} (h : a.Plain) : a.WellFormed := fun scope hscope =>
  ⟨(h scope hscope).1, fun hc => (h scope hscope).2 _ hc (by decide),
    fun hc => (h scope hscope).2 _ hc (by decide)⟩

/-- The characters of an address that stands in an authority. -/
theorem Plain.not_mem_toText {a : IpAddress} (h : a.Plain) {c : Char}
    (hc : c ∈ ['/', '?', '#', '@', ']']) : c ∉ a.toText := by
  have hcases : isHexDigit c = false ∧ c ≠ '.' ∧ c ≠ ':' ∧ c ≠ '%' := by
    simp only [List.mem_cons, List.not_mem_nil, or_false] at hc
    rcases hc with rfl | rfl | rfl | rfl | rfl <;> decide
  obtain ⟨hhex, hdot, hcolon, hpercent⟩ := hcases
  cases a with
  | v4 a => exact IPv4Address.not_mem_toText hhex hdot
  | v6 a =>
      have hgroups : c ∉ a.groupsText := IPv6Address.not_mem_groupsText hcolon hhex
      rw [toText, IPv6Address.toText]
      cases hscope : a.scopeId with
      | none => exact hgroups
      | some scope =>
          obtain ⟨hne, hall⟩ := h scope hscope
          dsimp only
          rw [if_neg hne, List.mem_append, List.mem_cons]
          rintro (hmem | heq | hmem)
          · exact hgroups hmem
          · exact hpercent heq
          · exact hall c hmem (List.mem_cons_of_mem _ hc)

/-- A host is not empty. -/
theorem toHost_ne_nil (a : IpAddress) : a.toHost ≠ [] := by
  cases a with
  | v4 a =>
      show ['.'].intercalate (a.octets.map (Nat.toDigits 10)) ≠ []
      simp only [IPv4Address.octets, List.map_cons, List.intercalate_cons_cons]
      exact fun h => Nat.toDigits_ne_nil (List.append_eq_nil_iff.mp (List.append_eq_nil_iff.mp h).1).1
  | v6 a => exact List.cons_ne_nil _ _

/-- The host of a plain address has no delimiter. -/
theorem Plain.not_mem_toHost {a : IpAddress} (h : a.Plain) {c : Char} (hc : c ∈ ['/', '?', '#']) :
    c ∉ a.toHost := by
  have htext : c ∉ a.toText := h.not_mem_toText (by
    simp only [List.mem_cons, List.not_mem_nil, or_false] at hc ⊢
    tauto)
  have hbracket : c ≠ '[' ∧ c ≠ ']' := by
    simp only [List.mem_cons, List.not_mem_nil, or_false] at hc
    rcases hc with rfl | rfl | rfl <;> decide
  cases a with
  | v4 a => exact htext
  | v6 a =>
      simp only [toHost, List.mem_append, List.mem_cons, List.not_mem_nil, or_false, not_or]
      exact ⟨⟨hbracket.1, htext⟩, hbracket.2⟩

/-- An address that stands as a host, with a port or without, is found there. -/
theorem hostinfo_toHost {a : IpAddress} (h : a.Plain) {suffix : List Char}
    (hsuffix : suffix = [] ∨ ∃ port, suffix = ':' :: port) (hat : '@' ∉ suffix)
    (hbracket : '[' ∉ suffix) : (hostinfo (a.toHost ++ suffix)).1 = a.toText := by
  have hatText : '@' ∉ a.toText := h.not_mem_toText (by decide)
  cases a with
  | v6 a =>
      have hlast : '@' ∉ toHost (.v6 a) ++ suffix := by
        simp only [toHost, List.mem_append, List.mem_cons, List.not_mem_nil, not_or]
        exact ⟨⟨⟨by decide, hatText⟩, by decide, not_false⟩, hat⟩
      have hshape : toHost (.v6 a) ++ suffix = [] ++ '[' :: (a.toText ++ ']' :: suffix) := by
        simp [toHost]
      have hclose : ']' ∉ a.toText := h.not_mem_toText (by decide)
      rw [hostinfo]
      simp only [afterLast_of_not_mem hlast]
      rw [hshape, if_pos (by simp), after_append_cons (by simp), before_append_cons hclose]
      rfl
  | v4 a =>
      have hlast : '@' ∉ toHost (.v4 a) ++ suffix := by
        simp only [toHost, List.mem_append, not_or]
        exact ⟨hatText, hat⟩
      have hopen : '[' ∉ toHost (.v4 a) ++ suffix := by
        simp only [toHost, List.mem_append, not_or]
        exact ⟨IPv4Address.not_mem_toText (by decide) (by decide), hbracket⟩
      have hcolon : ':' ∉ a.toText := IPv4Address.not_mem_toText (by decide) (by decide)
      rw [hostinfo]
      simp only [afterLast_of_not_mem hlast, if_neg hopen]
      rcases hsuffix with rfl | ⟨port, rfl⟩
      · rw [List.append_nil, toHost, before_of_not_mem hcolon]
        rfl
      · rw [toHost, before_append_cons hcolon]
        rfl

end IpAddress

end Net
