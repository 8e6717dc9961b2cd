import Ddns.H3.Cache
import Ddns.Library.FormUrlencoded

/-! The addresses of a DNS server: which origins are taken, and what is asked of them. -/
namespace Ddns

/-- A parsed URL. The port is left out where it is the one of the scheme. -/
structure Url where
  scheme : Name
  username : Name
  password : Option Name
  host : Option Name
  port : Option UInt16
  path : Name
  query : Option Name
  fragment : Option Name
  deriving DecidableEq

namespace Url

/-- `Url::join` with the path of a resource. -/
def join (base : Url) (path : Name) : Url :=
  { base with path := path, query := none, fragment := none }

/-- `query_pairs_mut().append_pair` -/
def appendPair (url : Url) (name value : Name) : Url :=
  { url with query := some (FormUrlencoded.appendPair (url.query.getD []) name value) }

def credentials (url : Url) : Name :=
  let password := (url.password.filter fun password => !password.isEmpty).elim [] (':' :: ·)
  if url.username.isEmpty && password.isEmpty then [] else url.username ++ password ++ ['@']

def portText (url : Url) : Name := url.port.elim [] fun port => ':' :: Text.decimal port.toNat

/-- `as_str` -/
def asStr (url : Url) : Name :=
  url.scheme ++ ':' ::
    (url.host.elim [] fun host => '/' :: '/' :: (url.credentials ++ host ++ url.portText)) ++
    url.path ++ url.query.elim [] ('?' :: ·) ++ url.fragment.elim [] ('#' :: ·)

/-- `origin().ascii_serialization()` -/
def asciiSerialization (url : Url) : Name :=
  url.scheme ++ ':' :: '/' :: '/' :: (url.host.getD [] ++ url.portText)

end Url

/-- `https` -/
def httpsText : Name := ['h', 't', 't', 'p', 's']

/-- `dhttp.net` -/
def dhttpNetText : Name := ['d', 'h', 't', 't', 'p', '.', 'n', 'e', 't']

/-- The host is `dhttp.net` or lies below it, whatever its case and with dots at its end or not. -/
def isDhttpHost (host : Name) : Bool :=
  let host := Text.toAsciiLowercase (trimDots host)
  host = dhttpNetText || dhttpSuffixText.isSuffixOf host

inductive InvalidServerOrigin where
  | notHttps
  | missingHost
  | hasCredentials
  | hasPathQueryOrFragment
  | dhttpOrigin
  deriving DecidableEq

/-- The origin of an H3 resolver is outside of what it resolves. -/
def validateServerOrigin (url : Url) (rejectDhttp : Bool) : Except InvalidServerOrigin Unit :=
  if url.scheme ≠ httpsText then .error .notHttps
  else
    match url.host with
    | none => .error .missingHost
    | some host =>
      if url.username ≠ [] ∨ url.password.isSome then .error .hasCredentials
      else if url.path ≠ ['/'] ∨ url.query.isSome ∨ url.fragment.isSome then
        .error .hasPathQueryOrFragment
      else if rejectDhttp && isDhttpHost host then .error .dhttpOrigin
      else .ok ()

/-- `/api/v2/lookup` -/
def lookupApiPath : Name :=
  ['/', 'a', 'p', 'i', '/', 'v', '2', '/', 'l', 'o', 'o', 'k', 'u', 'p']

/-- `/api/v2/publish` -/
def publishApiPath : Name :=
  ['/', 'a', 'p', 'i', '/', 'v', '2', '/', 'p', 'u', 'b', 'l', 'i', 's', 'h']

/-- `host` -/
def hostText : Name := ['h', 'o', 's', 't']

/-- `sequence` -/
def sequenceText : Name := ['s', 'e', 'q', 'u', 'e', 'n', 'c', 'e']

/-- `sequence_limit` -/
def sequenceLimitText : Name := sequenceText ++ ['_', 'l', 'i', 'm', 'i', 't']

/-- `record_limit` -/
def recordLimitText : Name := ['r', 'e', 'c', 'o', 'r', 'd', '_', 'l', 'i', 'm', 'i', 't']

/-- `all` -/
def allText : Name := ['a', 'l', 'l']

def publishUrl (serverOrigin : Url) (name : Name) : Url :=
  (serverOrigin.join publishApiPath).appendPair hostText name

section Lookups

variable [DhttpHome]

def appendEndpointLookupQuery (url : Url) (lookup : EndpointLookup) : Url :=
  let url := match lookup.sequences with
    | .default => url
    | .exact sequence => url.appendPair sequenceText (Text.decimal sequence.get.toNat)
    | .limit limit => url.appendPair sequenceLimitText (Text.decimal limit)
    | .all => url.appendPair sequenceLimitText allText
  match lookup.recordLimit with
  | none => url
  | some limit => url.appendPair recordLimitText (Text.decimal limit)

def lookupUrl (serverOrigin : Url) (name : Name) (lookup : EndpointLookup) : Url :=
  appendEndpointLookupQuery ((serverOrigin.join lookupApiPath).appendPair hostText name) lookup

def sequencePairs : SequenceQuery → List (Name × Name)
  | .default => []
  | .exact sequence => [(sequenceText, Text.decimal sequence.get.toNat)]
  | .limit limit => [(sequenceLimitText, Text.decimal limit)]
  | .all => [(sequenceLimitText, allText)]

omit [DhttpHome] in
def recordLimitPairs : Option ℕ+ → List (Name × Name)
  | none => []
  | some limit => [(recordLimitText, Text.decimal limit)]

/-- What a lookup asks for beside the name. The family is left to the client. -/
def lookupPairs (lookup : EndpointLookup) : List (Name × Name) :=
  sequencePairs lookup.sequences ++ recordLimitPairs lookup.recordLimit

end Lookups

/-- An origin that was taken is a scheme, a host and a port and nothing else. -/
theorem validateServerOrigin_ok_iff {url : Url} {rejectDhttp : Bool} :
    validateServerOrigin url rejectDhttp = .ok () ↔
      ∃ host port, url = ⟨httpsText, [], none, some host, port, ['/'], none, none⟩ ∧
        (rejectDhttp && isDhttpHost host) = false := by
  obtain ⟨scheme, username, password, host, port, path, query, fragment⟩ := url
  constructor
  · intro h
    rw [validateServerOrigin] at h
    split at h
    · cases h
    rename_i hscheme
    cases host with
    | none => cases h
    | some host =>
      simp only at h
      split at h
      · cases h
      rename_i hcredentials
      split at h
      · cases h
      rename_i hrest
      split at h
      · cases h
      rename_i hdhttp
      push Not at hscheme hcredentials hrest
      obtain ⟨rfl, hpassword⟩ := hcredentials
      obtain ⟨rfl, hquery, hfragment⟩ := hrest
      simp only [ne_eq, Bool.not_eq_true, Option.isSome_eq_false_iff, Option.isNone_iff_eq_none]
        at hscheme hpassword hquery hfragment hdhttp
      subst hscheme hpassword hquery hfragment
      exact ⟨host, port, rfl, hdhttp⟩
  · rintro ⟨host, port, heq, hdhttp⟩
    cases heq
    simp [validateServerOrigin, hdhttp]

/-- An origin that was taken. -/
structure ServerOrigin (rejectDhttp : Bool) where
  url : Url
  valid : validateServerOrigin url rejectDhttp = .ok ()

/-- The text of a resource with a query, at an origin that was taken. -/
theorem asStr_resource {rejectDhttp : Bool} (origin : ServerOrigin rejectDhttp) (path query : Name) :
    Url.asStr { origin.url.join path with query := some query } =
      origin.url.asciiSerialization ++ path ++ '?' :: query := by
  obtain ⟨url, valid⟩ := origin
  obtain ⟨host, port, rfl, _⟩ := validateServerOrigin_ok_iff.mp valid
  simp [Url.asStr, Url.join, Url.asciiSerialization, Url.credentials, Url.portText]

section Queries

variable [DhttpHome]

/-- The query of a lookup is the name and what else it asks for. -/
theorem lookupUrl_eq (origin : Url) (name : Name) (lookup : EndpointLookup) :
    lookupUrl origin name lookup =
      { origin.join lookupApiPath with
        query := some (FormUrlencoded.serialize ((hostText, name) :: lookupPairs lookup)) } := by
  obtain ⟨sequences, recordLimit, family⟩ := lookup
  cases sequences <;> cases recordLimit <;> rfl

omit [DhttpHome] in
theorem decimal_ne_allText (n : ℕ) : Text.decimal n ≠ allText := by
  intro h
  have hdigit := @Text.isDigit_of_mem_decimal n 'a' (by rw [h]; decide)
  exact absurd hdigit (by decide)

theorem sequence_eq_of_decimal {s t : CertificateSequence}
    (h : Text.decimal s.get.toNat = Text.decimal t.get.toNat) : s = t :=
  CertificateSequence.ext (UInt32.toNat_inj.mp (Text.decimal_injective h))

theorem sequencePairs_injective : Function.Injective sequencePairs := by
  intro q q' h
  cases q with
  | default => cases q' <;> simp_all [sequencePairs]
  | exact s =>
    cases q' with
    | exact s' =>
      have hdecimal : Text.decimal s.get.toNat = Text.decimal s'.get.toNat := by
        simpa [sequencePairs] using h
      rw [sequence_eq_of_decimal hdecimal]
    | _ => simp [sequencePairs, sequenceText, sequenceLimitText] at h
  | limit n =>
    cases q' with
    | limit n' =>
      have hdecimal : Text.decimal n = Text.decimal n' := by
        simpa [sequencePairs] using h
      rw [PNat.eq (Text.decimal_injective hdecimal)]
    | all => simp [sequencePairs, decimal_ne_allText] at h
    | _ => simp [sequencePairs, sequenceText, sequenceLimitText] at h
  | all =>
    cases q' with
    | limit n' => simp [sequencePairs, (decimal_ne_allText _).symm] at h
    | all => rfl
    | _ => simp [sequencePairs, sequenceText, sequenceLimitText] at h

omit [DhttpHome] in
theorem recordLimitPairs_injective : Function.Injective recordLimitPairs := by
  intro l l' h
  cases l with
  | none => cases l' <;> simp_all [recordLimitPairs]
  | some n =>
    cases l' with
    | none => simp [recordLimitPairs] at h
    | some n' =>
      have hdecimal : Text.decimal n = Text.decimal n' := by
        simpa [recordLimitPairs] using h
      rw [PNat.eq (Text.decimal_injective hdecimal)]

/-- The names of the pairs tell the two parts of a query apart. -/
theorem filter_lookupPairs (lookup : EndpointLookup) :
    (lookupPairs lookup).filter (fun pair => pair.1 = recordLimitText) =
        recordLimitPairs lookup.recordLimit ∧
      (lookupPairs lookup).filter (fun pair => pair.1 ≠ recordLimitText) =
        sequencePairs lookup.sequences := by
  obtain ⟨sequences, limit, family⟩ := lookup
  cases sequences <;> cases limit <;>
    simp [lookupPairs, sequencePairs, recordLimitPairs, recordLimitText, sequenceText,
      sequenceLimitText]

/-- The pairs tell any two lookups apart that differ in more than the family. -/
theorem lookupPairs_inj {lookup lookup' : EndpointLookup} :
    lookupPairs lookup = lookupPairs lookup' ↔
      lookup.sequences = lookup'.sequences ∧ lookup.recordLimit = lookup'.recordLimit := by
  constructor
  · intro h
    obtain ⟨hlimit, hsequences⟩ := filter_lookupPairs lookup
    obtain ⟨hlimit', hsequences'⟩ := filter_lookupPairs lookup'
    rw [h] at hlimit hsequences
    exact ⟨sequencePairs_injective (hsequences.symm.trans hsequences'),
      recordLimitPairs_injective (hlimit.symm.trans hlimit')⟩
  · rintro ⟨hsequences, hlimit⟩
    rw [lookupPairs, lookupPairs, hsequences, hlimit]

variable {rejectDhttp : Bool}

/-- The URL of a lookup is on the origin, and its query reads as the name and what was asked for. -/
theorem asStr_lookupUrl (origin : ServerOrigin rejectDhttp) (name : Name)
    (lookup : EndpointLookup) :
    ∃ query, (lookupUrl origin.url name lookup).asStr =
        origin.url.asciiSerialization ++ lookupApiPath ++ '?' :: query ∧
      FormUrlencoded.parse query = (hostText, name) :: lookupPairs lookup := by
  refine ⟨_, ?_, FormUrlencoded.parse_serialize _⟩
  rw [lookupUrl_eq, asStr_resource]

/-- At one origin two lookups have one URL exactly when they ask for the same name with the same
sequences and limits, whatever characters the names are made of. -/
theorem lookupUrl_eq_iff (origin : ServerOrigin rejectDhttp) (name name' : Name)
    (lookup lookup' : EndpointLookup) :
    (lookupUrl origin.url name lookup).asStr = (lookupUrl origin.url name' lookup').asStr ↔
      name = name' ∧ lookup.sequences = lookup'.sequences ∧
        lookup.recordLimit = lookup'.recordLimit := by
  constructor
  · intro h
    obtain ⟨query, hurl, hparse⟩ := asStr_lookupUrl origin name lookup
    obtain ⟨query', hurl', hparse'⟩ := asStr_lookupUrl origin name' lookup'
    rw [hurl, hurl'] at h
    obtain ⟨_, hquery⟩ := List.cons.inj (List.append_cancel_left h)
    rw [hquery, hparse'] at hparse
    obtain ⟨hhost, hpairs⟩ := List.cons.inj hparse
    exact ⟨(Prod.mk.inj hhost).2.symm, lookupPairs_inj.mp hpairs.symm⟩
  · rintro ⟨rfl, hsequences, hlimit⟩
    rw [lookupUrl_eq, lookupUrl_eq, lookupPairs_inj.mpr ⟨hsequences, hlimit⟩]

end Queries

end Ddns
