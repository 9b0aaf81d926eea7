import SyncBack.Domain.TextNormalization
import SyncBack.Net.IpNetworks
import SyncBack.Net.Url

/-!
# Addresses of external sources

Which addresses a source may have: `http` or `https`, no credentials, no local host, and a host that
is a number only if the number is a public address. A `SourceUrl` carries the last rule as a field.

Source: `app/domain/source_url.py`.
-/

namespace SyncBack

open Net

/-- Source: `InvalidSourceUrlError`. -/
structure InvalidSourceUrlError where
  message : String
  deriving DecidableEq, Repr

/-- Source: `is_public_address`. -/
def isPublicAddress : IpAddress → Bool
  | .v4 a => !(a.isMulticast || a.isReserved || a.isUnspecified) && a.isGlobal
  | .v6 a =>
      match a.ipv4Mapped with
      | some mapped =>
          !(mapped.isMulticast || mapped.isReserved || mapped.isUnspecified) && mapped.isGlobal
      | none => !(a.isMulticast || a.isReserved || a.isUnspecified) && a.isGlobal

/-- Source: `ALLOWED_SCHEMES`. -/
inductive UrlScheme where
  | http
  | https
  deriving DecidableEq, Repr

namespace UrlScheme

def toText : UrlScheme → Text
  | .http => "http".toList
  | .https => "https".toList

def ofText (text : Text) : Option UrlScheme :=
  if text = "http".toList then some .http
  else if text = "https".toList then some .https
  else none

/-- Source: `_DEFAULT_PORTS`. -/
def defaultPort : UrlScheme → ℕ
  | .http => 80
  | .https => 443

end UrlScheme

/-- Source: `SourceUrl`. -/
structure SourceUrl where
  value : Text
  scheme : UrlScheme
  host : Text
  port : ℕ
  /-- A host that is an address is a public one. -/
  literal_public : ∀ address, ipAddress host = some address → isPublicAddress address = true

namespace SourceUrl

/-- Source: `_LOCAL_HOST_SUFFIXES`. -/
def localHostSuffixes : List Text :=
  [".localhost".toList, ".local".toList, ".internal".toList, ".home.arpa".toList]

/-- Source: `_LOCAL_HOSTS`. -/
def localHosts : List Text :=
  ["localhost".toList, "ip6-localhost".toList, "ip6-loopback".toList]

/-- Source: `_MAX_URL_LENGTH`. -/
def maxUrlLength : ℕ := 2048

/-- A host that the rules let through. -/
structure CheckedHost where
  host : Text
  literal_public : ∀ address, ipAddress host = some address → isPublicAddress address = true

variable (u : Unicode)

/-- The host of the parts, as `_checked_host` reads it. -/
def hostOf (parts : SplitResult) : Text :=
  u.lower (((parts.hostname u).getD []).rdropWhile (· = '.'))

/-- Source: `SourceUrl._checked_host`. -/
def checkedHost (parts : SplitResult) : Except InvalidSourceUrlError CheckedHost :=
  let host := hostOf u parts
  if host = [] then .error ⟨"В ссылке не указан хост"⟩
  else
    match hliteral : ipAddress host with
    | some literal =>
        if hpublic : isPublicAddress literal = true then
          .ok ⟨host, fun _ h => Option.some.inj (hliteral.symm.trans h) ▸ hpublic⟩
        else .error ⟨"Ссылки на локальные и приватные адреса запрещены"⟩
    | none =>
        if host ∈ localHosts ∨ localHostSuffixes.any (·.isSuffixOf host) then
          .error ⟨"Ссылки на локальные и приватные адреса запрещены"⟩
        else .ok ⟨host, fun _ h => nomatch hliteral.symm.trans h⟩

/-- Source: `SourceUrl.parse`. -/
def parse (raw : Text) : Except InvalidSourceUrlError SourceUrl :=
  let value := strip raw
  if value = [] ∨ maxUrlLength < value.length then .error ⟨"Ссылка пустая или слишком длинная"⟩
  else
    match urlsplit u value with
    | none => .error ⟨"Ссылка имеет некорректный формат"⟩
    | some parts =>
        match parts.port with
        | none => .error ⟨"Ссылка имеет некорректный формат"⟩
        | some port =>
            match UrlScheme.ofText (u.lower parts.scheme) with
            | none => .error ⟨"Поддерживаются только ссылки http и https"⟩
            | some scheme =>
                if parts.username ≠ none ∨ parts.password ≠ none then
                  .error ⟨"Ссылка не должна содержать учётные данные"⟩
                else
                  match checkedHost u parts with
                  | .error e => .error e
                  | .ok checked =>
                      .ok {
                        value, scheme
                        host := checked.host
                        -- port 0 is falsy
                        port := if port.getD 0 = 0 then scheme.defaultPort else port.getD 0
                        literal_public := checked.literal_public }

/-- The checked host is that of the URL. -/
theorem host_of_checkedHost {parts : SplitResult} {checked : CheckedHost}
    (h : checkedHost u parts = .ok checked) : checked.host = hostOf u parts := by
  rw [checkedHost] at h
  split at h
  · cases h
  · split at h
    · split_ifs at h
      cases h
      rfl
    · split_ifs at h
      cases h
      rfl

/-- What an address that was let through is made of. -/
theorem parse_spec {raw : Text} {url : SourceUrl} (h : parse u raw = .ok url) :
    ∃ parts, urlsplit u url.value = some parts ∧ '@' ∉ parts.netloc ∧ url.host = hostOf u parts := by
  rw [parse] at h
  split at h
  · cases h
  split at h
  · cases h
  rename_i parts hparts
  split at h
  · cases h
  split at h
  · cases h
  split at h
  · cases h
  rename_i huser
  split at h
  · cases h
  rename_i checked hchecked
  cases h
  refine ⟨parts, hparts, fun hat => huser (.inl ?_), host_of_checkedHost u hchecked⟩
  rw [SplitResult.username, SplitResult.userinfo, if_pos hat]
  exact Option.some_ne_none _

variable (url : SourceUrl)

/-- Source: `SourceUrl.ip_literal`. -/
def ipLiteral : Option IpAddress := ipAddress url.host

variable {u}

/-- An address that stands in the text of a source is written without delimiters. -/
theorem plain_of_parse (hlower : u.KeepsDelimiters) {raw : Text} {url : SourceUrl}
    (h : parse u raw = .ok url) {a : IpAddress} (ha : url.ipLiteral = some a) : a.Plain := by
  obtain ⟨parts, hparts, hat, hhost⟩ := parse_spec u h
  obtain ⟨hdelim, hbrackets⟩ := netloc_of_urlsplit hparts
  refine IpAddress.plain_of_ipAddress ha fun c hc hmem => ?_
  have hwritten : c ∈ (hostinfo parts.netloc).1 := by
    rw [hhost, hostOf] at hmem
    have hname := (List.rdropWhile_prefix _ _).subset (hlower _ _ hc hmem)
    rw [SplitResult.hostname] at hname
    split_ifs at hname
    · exact absurd hname List.not_mem_nil
    · rcases List.mem_append.mp hname with hname | hname
      · exact mem_of_mem_before (hlower _ _ hc hname)
      · exact (List.dropWhile_sublist _).subset hname
  have hnetloc : c ∈ parts.netloc := mem_of_mem_hostinfo hat hwritten
  simp only [List.mem_cons, List.not_mem_nil, or_false] at hc
  rcases hc with rfl | rfl | rfl | rfl | rfl
  · exact (hdelim _ hnetloc).1 rfl
  · exact (hdelim _ hnetloc).2.1 rfl
  · exact (hdelim _ hnetloc).2.2 rfl
  · exact hat hnetloc
  · exact not_mem_hostinfo hat hbrackets hwritten

/-- Source: `SourceUrl.uses_default_port`. -/
def usesDefaultPort : Bool := url.port = url.scheme.defaultPort

/-- Source: `SourceUrl.host_header`. -/
def hostHeader : Text :=
  let host := if ':' ∈ url.host then '[' :: url.host ++ [']'] else url.host
  if url.usesDefaultPort then host else host ++ ':' :: Nat.toDigits 10 url.port

end SourceUrl

end SyncBack
