import Mathlib.Logic.Function.Basic
import Ddns.Api
import Ddns.H3.Cache
import Ddns.Publishers.Packet
import Ddns.Resolvers.LookupName

/-! The H3 resolver as concurrent lookups and publications over one cache and one server. -/
namespace Ddns

def nanosPerSecond : ℕ := 1000000000

section Phases

variable [DhttpHome] [SubjectKey]

/-- `transport` stands for every failure of the request itself. -/
inductive H3LookupError where
  | invalidName
  | noRecordFound
  | noUsableRecord
  | decode (source : LookupDecodeError)
  | transport
  deriving DecidableEq

omit [DhttpHome] [SubjectKey] in
def mapSemanticError : LookupSemanticError → H3LookupError
  | .decode source => .decode source
  | .noRecordFound => .noRecordFound
  | .noUsableRecord => .noUsableRecord

inductive H3PublishError where
  | invalidName
  | identityRequired
  | identityNameMismatch
  | encodePacket (source : EncodeAuthorityDnsPacketError)
  | packetTooLarge (limit : ℕ)

/-- How far a lookup is. A reply is kept with the version of the server that sent it. -/
inductive LookupPhase (Source : Type) where
  | idle
  | asking (host : Name) (lookup : EndpointLookup)
  | replied (host : Name) (lookup : EndpointLookup) (version : ℕ) (headers : HeaderMap)
    (body : List UInt8)
  | done (host : Name) (lookup : EndpointLookup) (candidates : EndpointCandidates Source)
  | failed (error : H3LookupError)
  deriving DecidableEq

/-- How far a publication is, with the version of the server that it made. -/
inductive PublishPhase where
  | idle
  | updated (name : Name) (version : ℕ)
  | invalidated (name : Name) (version : ℕ)
  | returned (name : Name) (version : ℕ)
  | failed
  deriving DecidableEq

end Phases

/-- The name and the version of a publication that the server has taken. -/
def PublishPhase.made : PublishPhase → Option (Name × ℕ)
  | .updated name version => some (name, version)
  | .invalidated name version => some (name, version)
  | .returned name version => some (name, version)
  | _ => none

/-- The same, once the cache has been invalidated. -/
def PublishPhase.cleared : PublishPhase → Option (Name × ℕ)
  | .invalidated name version => some (name, version)
  | .returned name version => some (name, version)
  | _ => none

/-- `contents` are all contents that the server has had, the current one last. -/
structure H3State [DhttpHome] (Content Source : Type) where
  now : ℕ
  contents : List Content
  cache : LookupCache Source
  lookups : ℕ → LookupPhase Source
  publishes : ℕ → PublishPhase

inductive H3Event [DhttpHome] (Content : Type) where
  | tick (duration : ℕ)
  | serverChange (next : Content)
  | lookupStart (id : ℕ) (name : Name) (requested : EndpointLookup)
  | serverReply (id : ℕ)
  | lookupFail (id : ℕ)
  | cacheInsert (id : ℕ)
  | publishUpdate (id : ℕ) (name : Name) (endpoints : List DquicEndpointAddr) (next : Content)
  | publishFail (id : ℕ)
  | cacheInvalidate (id : ℕ)
  | publishReturn (id : ℕ)
  | clearCache

namespace H3State

variable [DhttpHome] {Content Source : Type}

def initial (content : Content) : H3State Content Source :=
  ⟨0, [content], ∅, fun _ => .idle, fun _ => .idle⟩

def setLookup (s : H3State Content Source) (id : ℕ) (phase : LookupPhase Source) :
    H3State Content Source :=
  { s with lookups := Function.update s.lookups id phase }

def setPublish (s : H3State Content Source) (id : ℕ) (phase : PublishPhase) :
    H3State Content Source :=
  { s with publishes := Function.update s.publishes id phase }

theorem setLookup_lookups (s : H3State Content Source) (id other : ℕ)
    (phase : LookupPhase Source) :
    (s.setLookup id phase).lookups other = if other = id then phase else s.lookups other :=
  Function.update_apply ..

theorem setPublish_publishes (s : H3State Content Source) (id other : ℕ) (phase : PublishPhase) :
    (s.setPublish id phase).publishes other = if other = id then phase else s.publishes other :=
  Function.update_apply ..

/-- The index of the current content. -/
def version (s : H3State Content Source) : ℕ := s.contents.length - 1

end H3State

/-- The fixed part of a resolver, and how its server answers with a given content. -/
structure H3Resolver [Crypto] [DhttpHome] (Content Source : Type) where
  originHost : Option Name
  identity : Option LocalAuthority
  source : Source
  serve : Content → Name → EndpointLookup → HeaderMap × List UInt8

namespace H3Resolver

variable [DhttpHome] [SubjectKey] [Crypto] {Content Source : Type}

/-- What a publication checks before it asks the server. Signing and sending come after it and can
only fail. -/
def publishPacket (r : H3Resolver Content Source) (name : Name)
    (endpoints : List DquicEndpointAddr) : Except H3PublishError (List UInt8) :=
  if ¬ DhttpHome.validateName name then .error .invalidName
  else
    match r.identity with
    | none => .error .identityRequired
    | some identity =>
      if identity.name ≠ name then .error .identityNameMismatch
      else
        match dnsPacketForAuthority identity name endpoints with
        | .error source => .error (.encodePacket source)
        | .ok packet =>
          if dnsPacketLimit < packet.length then .error (.packetTooLarge dnsPacketLimit)
          else .ok packet

/-- What a lookup makes of the answer to it. -/
def answer (r : H3Resolver Content Source) (content : Content) (host : Name)
    (lookup : EndpointLookup) : Except LookupSemanticError (LookupAnswer Source) :=
  let response := r.serve content host lookup
  decodeLookupResponse host lookup r.source response.1 response.2

omit [SubjectKey] in
/-- A lookup up to its request: the name of the origin itself is left to other resolvers. -/
def beginLookup [PkiTypes] (r : H3Resolver Content Source) (s : H3State Content Source)
    (name : Name) (requested : EndpointLookup) : LookupPhase Source × LookupCache Source :=
  match endpointLookupNameAndSequence name with
  | none => (.failed .invalidName, s.cache)
  | some (host, sequence) =>
    if r.originHost.any fun origin => Text.eqIgnoreAsciiCase (trimDots origin) (trimDots host) then
      (.failed .noRecordFound, s.cache)
    else
      let lookup := exactOverride requested sequence
      match s.cache.get s.now (LookupKey.new host lookup) with
      | (some candidates, cache) => (.done host lookup candidates, cache)
      | (none, cache) => (.asking host lookup, cache)

/-- A lookup from its response on. -/
def endLookup (r : H3Resolver Content Source) (s : H3State Content Source) (host : Name)
    (lookup : EndpointLookup) (headers : HeaderMap) (body : List UInt8) :
    LookupPhase Source × LookupCache Source :=
  match decodeLookupResponse host lookup r.source headers body with
  | .error error => (.failed (mapSemanticError error), s.cache)
  | .ok answer =>
    (.done host lookup answer.candidates,
      s.cache.insert s.now (LookupKey.new host lookup) answer.candidates
        (nanosPerSecond * answer.ttl))

/-- One step, if it is possible in this state. -/
def step [PkiTypes] (r : H3Resolver Content Source) (s : H3State Content Source) :
    H3Event Content → Option (H3State Content Source)
  | .tick duration => some { s with now := s.now + duration }
  | .serverChange next => some { s with contents := s.contents ++ [next] }
  | .clearCache => some { s with cache := s.cache.clear }
  | .lookupStart id name requested =>
    match s.lookups id with
    | .idle =>
      let out := r.beginLookup s name requested
      some ({ s with cache := out.2 }.setLookup id out.1)
    | _ => none
  | .serverReply id =>
    match s.lookups id, s.contents[s.version]? with
    | .asking host lookup, some content =>
      let response := r.serve content host lookup
      some (s.setLookup id (.replied host lookup s.version response.1 response.2))
    | _, _ => none
  | .lookupFail id =>
    match s.lookups id with
    | .asking _ _ => some (s.setLookup id (.failed .transport))
    | _ => none
  | .cacheInsert id =>
    match s.lookups id with
    | .replied host lookup _ headers body =>
      let out := r.endLookup s host lookup headers body
      some ({ s with cache := out.2 }.setLookup id out.1)
    | _ => none
  | .publishUpdate id name endpoints next =>
    match s.publishes id, r.publishPacket name endpoints with
    | .idle, .ok _ =>
      some ({ s with contents := s.contents ++ [next] }.setPublish id
        (.updated name s.contents.length))
    | _, _ => none
  | .publishFail id =>
    match s.publishes id with
    | .idle => some (s.setPublish id .failed)
    | .updated _ _ => some (s.setPublish id .failed)
    | _ => none
  | .cacheInvalidate id =>
    match s.publishes id with
    | .updated name version =>
      some ({ s with cache := s.cache.invalidateName name }.setPublish id
        (.invalidated name version))
    | _ => none
  | .publishReturn id =>
    match s.publishes id with
    | .invalidated name version => some (s.setPublish id (.returned name version))
    | _ => none

/-- All steps in a row, if each is possible where it stands. -/
def run [PkiTypes] (r : H3Resolver Content Source) :
    H3State Content Source → List (H3Event Content) → Option (H3State Content Source)
  | s, [] => some s
  | s, event :: events => (r.step s event).bind fun t => r.run t events

omit [SubjectKey] in
/-- A lookup begins with a failure, with a request, or with what the cache holds for its key. -/
theorem beginLookup_spec [PkiTypes] (r : H3Resolver Content Source) (s : H3State Content Source)
    (name : Name) (requested : EndpointLookup) :
    (r.beginLookup s name requested).2.entries ⊆ s.cache.entries ∧
      ((∃ error, (r.beginLookup s name requested).1 = .failed error) ∨
        (∃ host lookup, (r.beginLookup s name requested).1 = .asking host lookup) ∨
        ∃ host lookup answer, (r.beginLookup s name requested).1 =
            .done host lookup answer.candidates ∧
          ⟨LookupKey.new host lookup, answer⟩ ∈ s.cache.entries) := by
  unfold beginLookup
  split
  · exact ⟨List.Subset.refl _, Or.inl ⟨_, rfl⟩⟩
  rename_i host sequence _
  split
  · exact ⟨List.Subset.refl _, Or.inl ⟨_, rfl⟩⟩
  have hsub := s.cache.get_subset s.now (LookupKey.new host (exactOverride requested sequence))
  dsimp only
  split
  · rename_i candidates cache hget
    rw [hget] at hsub
    obtain ⟨answer, hmem, rfl⟩ := LookupCache.mem_of_get (congrArg Prod.fst hget)
    exact ⟨hsub, Or.inr (Or.inr ⟨_, _, answer, rfl, hmem⟩)⟩
  · rename_i cache hget
    rw [hget] at hsub
    exact ⟨hsub, Or.inr (Or.inl ⟨_, _, rfl⟩)⟩

/-- A lookup ends with a failure, or with an answer that it also offers to the cache. -/
theorem endLookup_spec (r : H3Resolver Content Source) (s : H3State Content Source) (host : Name)
    (lookup : EndpointLookup) (headers : HeaderMap) (body : List UInt8) :
    (∃ error, r.endLookup s host lookup headers body = (.failed error, s.cache)) ∨
      ∃ answer, decodeLookupResponse host lookup r.source headers body = .ok answer ∧
        r.endLookup s host lookup headers body = (.done host lookup answer.candidates,
          s.cache.insert s.now (LookupKey.new host lookup) answer.candidates
            (nanosPerSecond * answer.ttl)) := by
  unfold endLookup
  split
  · exact Or.inl ⟨_, rfl⟩
  · rename_i answer hanswer
    exact Or.inr ⟨answer, hanswer, rfl⟩

/-- Everything that a step can do. -/
inductive Stepped [PkiTypes] (r : H3Resolver Content Source) (s : H3State Content Source) :
    H3Event Content → H3State Content Source → Prop
  | tick {duration : ℕ} : Stepped r s (.tick duration) { s with now := s.now + duration }
  | serverChange {next : Content} :
    Stepped r s (.serverChange next) { s with contents := s.contents ++ [next] }
  | clearCache : Stepped r s .clearCache { s with cache := s.cache.clear }
  | lookupStart {id : ℕ} {name : Name} {requested : EndpointLookup} (h : s.lookups id = .idle) :
    Stepped r s (.lookupStart id name requested)
      ({ s with cache := (r.beginLookup s name requested).2 }.setLookup id
        (r.beginLookup s name requested).1)
  | serverReply {id : ℕ} {host : Name} {lookup : EndpointLookup} {content : Content}
    (h : s.lookups id = .asking host lookup) (hc : s.contents[s.version]? = some content) :
    Stepped r s (.serverReply id) (s.setLookup id (.replied host lookup s.version
      (r.serve content host lookup).1 (r.serve content host lookup).2))
  | lookupFail {id : ℕ} : Stepped r s (.lookupFail id) (s.setLookup id (.failed .transport))
  | cacheInsert {id : ℕ} {host : Name} {lookup : EndpointLookup} {version : ℕ}
    {headers : HeaderMap} {body : List UInt8}
    (h : s.lookups id = .replied host lookup version headers body) :
    Stepped r s (.cacheInsert id)
      ({ s with cache := (r.endLookup s host lookup headers body).2 }.setLookup id
        (r.endLookup s host lookup headers body).1)
  | publishUpdate {id : ℕ} {name : Name} {endpoints : List DquicEndpointAddr} {next : Content}
    (h : s.publishes id = .idle) :
    Stepped r s (.publishUpdate id name endpoints next)
      ({ s with contents := s.contents ++ [next] }.setPublish id
        (.updated name s.contents.length))
  | publishFail {id : ℕ} (h : (s.publishes id).cleared = none) :
    Stepped r s (.publishFail id) (s.setPublish id .failed)
  | cacheInvalidate {id : ℕ} {name : Name} {version : ℕ}
    (h : s.publishes id = .updated name version) :
    Stepped r s (.cacheInvalidate id)
      ({ s with cache := s.cache.invalidateName name }.setPublish id (.invalidated name version))
  | publishReturn {id : ℕ} {name : Name} {version : ℕ}
    (h : s.publishes id = .invalidated name version) :
    Stepped r s (.publishReturn id) (s.setPublish id (.returned name version))

theorem stepped_of_step [PkiTypes] {r : H3Resolver Content Source}
    {s t : H3State Content Source} {event : H3Event Content} (h : r.step s event = some t) :
    Stepped r s event t := by
  cases event with
  | tick duration =>
    obtain rfl := Option.some.inj h
    exact .tick
  | serverChange next =>
    obtain rfl := Option.some.inj h
    exact .serverChange
  | clearCache =>
    obtain rfl := Option.some.inj h
    exact .clearCache
  | lookupStart id name requested =>
    simp only [step] at h
    split at h
    · obtain rfl := Option.some.inj h
      exact .lookupStart (by assumption)
    · cases h
  | serverReply id =>
    simp only [step] at h
    split at h
    · obtain rfl := Option.some.inj h
      exact .serverReply (by assumption) (by assumption)
    · cases h
  | lookupFail id =>
    simp only [step] at h
    split at h
    · obtain rfl := Option.some.inj h
      exact .lookupFail
    · cases h
  | cacheInsert id =>
    simp only [step] at h
    split at h
    · obtain rfl := Option.some.inj h
      exact .cacheInsert (by assumption)
    · cases h
  | publishUpdate id name endpoints next =>
    simp only [step] at h
    split at h
    · obtain rfl := Option.some.inj h
      exact .publishUpdate (by assumption)
    · cases h
  | publishFail id =>
    simp only [step] at h
    split at h
    · rename_i hid
      obtain rfl := Option.some.inj h
      exact .publishFail (by rw [hid]; rfl)
    · rename_i hid
      obtain rfl := Option.some.inj h
      exact .publishFail (by rw [hid]; rfl)
    · cases h
  | cacheInvalidate id =>
    simp only [step] at h
    split at h
    · obtain rfl := Option.some.inj h
      exact .cacheInvalidate (by assumption)
    · cases h
  | publishReturn id =>
    simp only [step] at h
    split at h
    · obtain rfl := Option.some.inj h
      exact .publishReturn (by assumption)
    · cases h

end H3Resolver

end Ddns
