import Ddns.Core.Packet
import Ddns.Core.Wire
import Ddns.Resolvers.EndpointCandidates

/-! Decoding the answer of a lookup server. -/
namespace Ddns

open Nom BigEndian

def maxResponseRecords : ℕ := 256

/-- The headers that are told apart. -/
inductive HeaderName where
  | cacheControl
  | age
  | other (name : Name)
  deriving DecidableEq

/-- The fields of a message in the order in which they were added. -/
abbrev HeaderMap := List (HeaderName × List UInt8)

namespace HeaderMap

def getAll (headers : HeaderMap) (name : HeaderName) : List (List UInt8) :=
  (headers.filter fun field => field.1 = name).map Prod.snd

def get (headers : HeaderMap) (name : HeaderName) : Option (List UInt8) :=
  (getAll headers name).head?

end HeaderMap

/-- `HeaderValue::to_str`: visible ASCII, blanks and tabs only. -/
def headerStr (value : List UInt8) : Option Name :=
  if value.all fun b => b = 9 ∨ (32 ≤ b ∧ b < 127) then
    some (value.map fun b => Char.ofNat b.toNat)
  else none

/-- `no-store` -/
def noStoreText : Name := ['n', 'o', '-', 's', 't', 'o', 'r', 'e']

/-- `no-cache` -/
def noCacheText : Name := ['n', 'o', '-', 'c', 'a', 'c', 'h', 'e']

/-- `max-age` -/
def maxAgeText : Name := ['m', 'a', 'x', '-', 'a', 'g', 'e']

/-- The directive forbids any use of the answer without asking again. -/
def forbidsCaching (directive : Name) : Bool :=
  let name := Text.trim (((Text.trim directive).splitOn '=').headD [])
  Text.eqIgnoreAsciiCase name noStoreText || Text.eqIgnoreAsciiCase name noCacheText

def maxAgeOf (directive : Name) : Option ℕ :=
  (Text.splitOnce '=' (Text.trim directive)).bind fun parts =>
    if Text.eqIgnoreAsciiCase parts.1 maxAgeText then
      Text.parseU64 (Text.trimMatches (· = '"') parts.2)
    else none

/-- How many seconds an answer may be kept. -/
def freshness (dnsTtl : ℕ) (headers : HeaderMap) : ℕ :=
  if (((HeaderMap.getAll headers .cacheControl).filterMap headerStr).flatMap (·.splitOn ',')).any
      forbidsCaching then 0
  else
    let maxAge := ((HeaderMap.get headers .cacheControl).bind headerStr).bind fun value =>
      (value.splitOn ',').findSome? maxAgeOf
    let age := (((HeaderMap.get headers .age).bind headerStr).bind Text.parseU64).getD 0
    maxAge.elim dnsTtl (min dnsTtl) - age

/-- An owned error keeps the bytes of its slice, and not where they stood. -/
def ownedErr : Err → Err
  | .error input kind => .error (wholeSlice input.bytes) kind
  | .failure input kind => .failure (wholeSlice input.bytes) kind
  | .incomplete needed => .incomplete needed

inductive LookupDecodeError where
  | tooManyRecords (limit : ℕ)
  | multiResponse
  | parseRecords (source : Err)
  deriving DecidableEq

inductive LookupSemanticError where
  | decode (source : LookupDecodeError)
  | noRecordFound
  | noUsableRecord
  deriving DecidableEq

variable [DhttpHome]

/-- `ttl` is in seconds. -/
structure LookupAnswer (Source : Type) where
  candidates : EndpointCandidates Source
  ttl : ℕ
  deriving DecidableEq

/-- A sequence in the looked up name replaces the one that was asked for. -/
def exactOverride (lookup : EndpointLookup) (sequence : Option CertificateSequence) :
    EndpointLookup :=
  match sequence with
  | none => lookup
  | some sequence =>
    let exact := (EndpointLookup.exact sequence).withFamily lookup.family
    match lookup.recordLimit with
    | none => exact
    | some limit => exact.withRecordLimit limit

/-- The endpoint records among the answers for `name`. -/
def answerCandidates (name : Name) (fallbackChainKey : Option CertificateChainKey)
    (answers : List ResourceRecord) : List (TaggedEndpointCandidate UInt32) :=
  answers.filterMap fun answer =>
    match answer.data with
    | .e record => if answer.name = name then some ⟨answer.ttl, record, fallbackChainKey⟩ else none
    | _ => none

/-- The endpoints that are seen for the first time. -/
def unseen {T : Type} (seen : List DquicEndpointAddr) :
    List (T × DquicEndpointAddr) → List (T × DquicEndpointAddr)
  | [] => []
  | item :: items =>
    if item.2 ∈ seen then unseen seen items else item :: unseen (item.2 :: seen) items

/-- Without a limit everything is taken: no list is longer than `usize::MAX`. -/
def takeLimit {T : Type} (limit : Option ℕ+) (items : List T) : List T :=
  limit.elim items fun limit => items.take limit

/-- The smallest of the times to live so far and that of a record. -/
def minTtl (ttl : Option UInt32) (recordTtl : UInt32) : Option UInt32 :=
  some (ttl.elim recordTtl fun current => min current recordTtl)

/-- The loop over the selected groups, with the smallest time to live of what is kept. -/
def collectGroups {Source : Type} (source : Source) (limit : Option ℕ+) :
    EndpointCandidateGroups UInt32 → Option UInt32 →
      Option UInt32 × List (EndpointCandidateGroup Source)
  | [], ttl => (ttl, [])
  | (chain, records) :: groups, ttl =>
    let kept := takeLimit limit (unseen [] records)
    let rest := collectGroups source limit groups ((kept.map Prod.fst).foldl minTtl ttl)
    let endpoints := kept.map Prod.snd
    if endpoints = [] then rest else (rest.1, ⟨chain, endpoints, [source]⟩ :: rest.2)

variable [SubjectKey] [Crypto]

/-- The loop over the records of a response: the candidates, and how many records were refused
for their signature. -/
def decodeRecords (name : Name) :
    List ResponseRecord →
      Except LookupDecodeError (List (TaggedEndpointCandidate UInt32) × ℕ)
  | [] => .ok ([], 0)
  | response :: rest =>
    if ¬ response.signatureFields.isEmpty ∧
        response.signatureFields.verify response.dns response.cert ≠ .ok true then
      (decodeRecords name rest).map fun out => (out.1, out.2 + 1)
    else
      match bePacket (wholeSlice response.dns) with
      | .err source => .error (.parseRecords (ownedErr source))
      | .ok remain packet =>
        if remain.bytes ≠ [] then .error .multiResponse
        else
          (decodeRecords name rest).map fun out =>
            (answerCandidates name response.publisherCertificateChainKey packet.answers ++ out.1,
              out.2)

def decodeCandidateGroups (name : Name) (body : List UInt8) :
    Except LookupDecodeError (EndpointCandidateGroups UInt32 × ℕ) :=
  if body.length < 4 then .error .multiResponse
  else if maxResponseRecords < ofBE (body.take 4) then .error (.tooManyRecords maxResponseRecords)
  else
    match beMultiResponse (wholeSlice body) with
    | .err _ => .error .multiResponse
    | .ok remain multi =>
      if remain.bytes ≠ [] then .error .multiResponse
      else
        (decodeRecords name multi.records).map fun out => (groupedEndpointCandidates out.1, out.2)

def decodeLookupResponse {Source : Type} (name : Name) (lookup : EndpointLookup) (source : Source)
    (headers : HeaderMap) (body : List UInt8) :
    Except LookupSemanticError (LookupAnswer Source) :=
  match decodeCandidateGroups name body with
  | .error source => .error (.decode source)
  | .ok (groups, rejected) =>
    let groups := selectGroupPairs (filterEndpointCandidateGroups groups lookup.family)
      lookup.sequences
    let out := collectGroups source lookup.recordLimit groups none
    if out.2 = [] then .error (if rejected = 0 then .noRecordFound else .noUsableRecord)
    else .ok ⟨⟨out.2⟩, freshness (out.1.getD 0).toNat headers⟩

end Ddns
