import Mathlib.Logic.Function.Basic
import Ddns.H3.Cache
import Ddns.H3.Resolver
import Ddns.H3.Response
import Ddns.Library.Trace

/-! The HTTP resolver: how it fetches, and its lookups side by side over one cache. -/
namespace Ddns

/-- In milliseconds. -/
def requestTimeout : ℕ := 9000

section Fetch

variable {E : Type}

inductive HttpLookupError (E : Type) where
  | request (source : E)
  | timeout (timeout : ℕ)
  | responseTooLarge (limit : ℕ)
  | status (status : ℕ)
  | decode (source : LookupDecodeError)
  | noRecordFound
  | noUsableRecord
  deriving DecidableEq

/-- What `chunk` yields of a body: frames without data are passed over. -/
def ResponseBody.chunks (body : ResponseBody E) : List (Except E (List UInt8)) :=
  dataPieces body.frames

/-- The loop of `fetch` over the chunks. It gives nothing while it still waits for one. -/
def fetchChunks (ended : Bool) :
    List (Except E (List UInt8)) → List UInt8 → Option (Except (HttpLookupError E) (List UInt8))
  | [], body => if ended then some (.ok body) else none
  | .error source :: _, _ => some (.error (.request source))
  | .ok chunk :: chunks, body =>
    if maxLookupResponseBytes - body.length < chunk.length then
      some (.error (.responseTooLarge maxLookupResponseBytes))
    else fetchChunks ended chunks (body ++ chunk)

def fetch : Reply E → Option (Except (HttpLookupError E) (HeaderMap × List UInt8))
  | .silent => none
  | .failed source => some (.error (.request source))
  | .response status headers body =>
    if status = 200 then
      (fetchChunks body.ended body.chunks []).map fun out => out.map fun bytes => (headers, bytes)
    else if status = 404 then some (.error .noRecordFound)
    else some (.error (.status status))

/-- The fetch with the timeout around it. -/
def fetchWithTimeout (reply : Reply E) : Except (HttpLookupError E) (HeaderMap × List UInt8) :=
  (fetch reply).getD (.error (.timeout requestTimeout))

/-- The error that `fetch` has for what went wrong over H3. -/
def H3RequestError.toHttp : H3RequestError E → HttpLookupError E
  | .request source => .request source
  | .body source => .request source
  | .timeout duration _ => .timeout duration
  | .responseTooLarge limit => .responseTooLarge limit
  | .status code => .status code
  | .noRecordFound => .noRecordFound

theorem fetchChunks_eq_readFrames (ended : Bool) (frames : List (Except E BodyFrame))
    (bytes : List UInt8) :
    fetchChunks ended (dataPieces frames) bytes =
      (readFrames maxLookupResponseBytes ended frames bytes).map fun out =>
        match out with
        | .error (.body source) => .error (.request source)
        | .error .tooLarge => .error (.responseTooLarge maxLookupResponseBytes)
        | .ok bytes => .ok bytes := by
  induction frames generalizing bytes with
  | nil =>
    rw [dataPieces, fetchChunks, readFrames]
    split <;> rfl
  | cons frame frames ih =>
    cases frame with
    | error source => rfl
    | ok frame =>
      cases frame with
      | trailers => exact ih bytes
      | data data =>
        rw [dataPieces, fetchChunks, readFrames]
        split
        · rfl
        · exact ih (bytes ++ data)

/-- On every reply, whole or cut short at any point, the HTTP resolver and one attempt of the H3
resolver read the same and fail alike. -/
theorem fetch_agrees_with_lookupResponse (reply : Reply E) :
    fetch reply = (lookupResponse reply).map fun out => out.mapError H3RequestError.toHttp := by
  cases reply with
  | silent => rfl
  | failed source => rfl
  | response status headers body =>
    rw [fetch, lookupResponse]
    by_cases hok : status = 200
    · rw [if_pos hok, if_pos hok, ResponseBody.chunks, fetchChunks_eq_readFrames, readBodyLimited,
        Option.map_map, Option.map_map]
      congr 1
      funext out
      rcases out with (source | _) | bytes
      · rfl
      · rfl
      · rfl
    · rw [if_neg hok, if_neg hok]
      split <;> rfl

end Fetch

section Lookups

variable [DhttpHome] {E Source : Type}

/-- How far a lookup is. One that has found an expired answer still has to remove it. -/
inductive HttpPhase (E Source : Type) where
  | idle
  | expired (host : Name) (lookup : EndpointLookup)
  | asking (host : Name) (lookup : EndpointLookup)
  | replied (host : Name) (lookup : EndpointLookup) (headers : HeaderMap) (body : List UInt8)
  | done (host : Name) (lookup : EndpointLookup) (candidates : EndpointCandidates Source)
  | failed (error : HttpLookupError E)
  | dropped
  deriving DecidableEq

structure HttpState (E Source : Type) where
  now : ℕ
  cache : LookupCache Source
  lookups : ℕ → HttpPhase E Source

inductive HttpEvent (E : Type) where
  | tick (duration : ℕ)
  | lookupStart (id : ℕ) (name : Name) (requested : EndpointLookup)
  | cacheRemove (id : ℕ)
  | fetched (id : ℕ) (reply : Reply E)
  | lookupDrop (id : ℕ)
  | cacheInsert (id : ℕ)
  | clearCache

/-- The fixed part of a resolver. -/
structure HttpResolver (Source : Type) where
  source : Source

def HttpState.initial : HttpState E Source := ⟨0, ∅, fun _ => .idle⟩

def HttpState.setLookup (s : HttpState E Source) (id : ℕ) (phase : HttpPhase E Source) :
    HttpState E Source :=
  { s with lookups := Function.update s.lookups id phase }

theorem HttpState.setLookup_lookups (s : HttpState E Source) (id other : ℕ)
    (phase : HttpPhase E Source) :
    (s.setLookup id phase).lookups other = if other = id then phase else s.lookups other :=
  Function.update_apply ..

namespace HttpResolver

/-- A lookup up to its request. -/
def beginLookup [PkiTypes] (s : HttpState E Source) (name : Name) (requested : EndpointLookup) :
    HttpPhase E Source :=
  match endpointLookupNameAndSequence name with
  | none => .failed .noRecordFound
  | some (host, sequence) =>
    let lookup := exactOverride requested sequence
    match s.cache.lookup (LookupKey.new host lookup) with
    | none => .asking host lookup
    | some answer =>
      if s.now < answer.expiresAt then .done host lookup answer.candidates
      else .expired host lookup

def mapSemanticError : LookupSemanticError → HttpLookupError E
  | .decode source => .decode source
  | .noRecordFound => .noRecordFound
  | .noUsableRecord => .noUsableRecord

variable [SubjectKey] [Crypto]

/-- A lookup from its response on. -/
def endLookup (r : HttpResolver Source) (s : HttpState E Source) (host : Name)
    (lookup : EndpointLookup) (headers : HeaderMap) (body : List UInt8) :
    HttpPhase E Source × LookupCache Source :=
  match decodeLookupResponse host lookup r.source headers body with
  | .error error => (.failed (mapSemanticError error), s.cache)
  | .ok answer =>
    (.done host lookup answer.candidates,
      s.cache.insert s.now (LookupKey.new host lookup) answer.candidates
        (nanosPerSecond * answer.ttl))

/-- One step, if it is possible in this state. -/
def step [PkiTypes] (r : HttpResolver Source) (s : HttpState E Source) :
    HttpEvent E → Option (HttpState E Source)
  | .tick duration => some { s with now := s.now + duration }
  | .clearCache => some { s with cache := s.cache.clear }
  | .lookupStart id name requested =>
    match s.lookups id with
    | .idle => some (s.setLookup id (beginLookup s name requested))
    | _ => none
  | .cacheRemove id =>
    match s.lookups id with
    | .expired host lookup =>
      some ({ s with cache := s.cache.erase (LookupKey.new host lookup) }.setLookup id
        (.asking host lookup))
    | _ => none
  | .fetched id reply =>
    match s.lookups id with
    | .asking host lookup =>
      match fetchWithTimeout reply with
      | .ok (headers, body) => some (s.setLookup id (.replied host lookup headers body))
      | .error error => some (s.setLookup id (.failed error))
    | _ => none
  | .lookupDrop id =>
    match s.lookups id with
    | .asking _ _ => some (s.setLookup id .dropped)
    | _ => none
  | .cacheInsert id =>
    match s.lookups id with
    | .replied host lookup headers body =>
      let out := r.endLookup s host lookup headers body
      some ({ s with cache := out.2 }.setLookup id out.1)
    | _ => none

/-- All events in a row, from a resolver that has just been built. -/
def run [PkiTypes] (r : HttpResolver Source) (events : List (HttpEvent E)) :
    Option (HttpState E Source) := Trace.run r.step .initial events

/-- Everything that a step can do. -/
inductive Stepped [PkiTypes] (r : HttpResolver Source) (s : HttpState E Source) :
    HttpEvent E → HttpState E Source → Prop
  | tick {duration : ℕ} : Stepped r s (.tick duration) { s with now := s.now + duration }
  | clearCache : Stepped r s .clearCache { s with cache := s.cache.clear }
  | lookupStart {id : ℕ} {name : Name} {requested : EndpointLookup} (h : s.lookups id = .idle) :
    Stepped r s (.lookupStart id name requested) (s.setLookup id (beginLookup s name requested))
  | cacheRemove {id : ℕ} {host : Name} {lookup : EndpointLookup}
    (h : s.lookups id = .expired host lookup) :
    Stepped r s (.cacheRemove id)
      ({ s with cache := s.cache.erase (LookupKey.new host lookup) }.setLookup id
        (.asking host lookup))
  | fetched {id : ℕ} {reply : Reply E} {host : Name} {lookup : EndpointLookup}
    {headers : HeaderMap} {body : List UInt8} (h : s.lookups id = .asking host lookup)
    (hreply : fetchWithTimeout reply = .ok (headers, body)) :
    Stepped r s (.fetched id reply) (s.setLookup id (.replied host lookup headers body))
  | fetchFailed {id : ℕ} {reply : Reply E} {error : HttpLookupError E} :
    Stepped r s (.fetched id reply) (s.setLookup id (.failed error))
  | lookupDrop {id : ℕ} : Stepped r s (.lookupDrop id) (s.setLookup id .dropped)
  | cacheInsert {id : ℕ} {host : Name} {lookup : EndpointLookup} {headers : HeaderMap}
    {body : List UInt8} {answer : LookupAnswer Source}
    (h : s.lookups id = .replied host lookup headers body)
    (hanswer : decodeLookupResponse host lookup r.source headers body = .ok answer) :
    Stepped r s (.cacheInsert id)
      ({ s with
          cache := s.cache.insert s.now (LookupKey.new host lookup) answer.candidates
            (nanosPerSecond * answer.ttl) }.setLookup id (.done host lookup answer.candidates))
  | decodeFailed {id : ℕ} {error : HttpLookupError E} :
    Stepped r s (.cacheInsert id) (s.setLookup id (.failed error))

theorem stepped_of_step [PkiTypes] {r : HttpResolver Source} {s t : HttpState E Source}
    {event : HttpEvent E} (h : r.step s event = some t) : Stepped r s event t := by
  cases event with
  | tick duration =>
    obtain rfl := Option.some.inj h
    exact .tick
  | clearCache =>
    obtain rfl := Option.some.inj h
    exact .clearCache
  | lookupStart id name requested =>
    simp only [step] at h
    split at h
    · obtain rfl := Option.some.inj h
      exact .lookupStart (by assumption)
    · cases h
  | cacheRemove id =>
    simp only [step] at h
    split at h
    · obtain rfl := Option.some.inj h
      exact .cacheRemove (by assumption)
    · cases h
  | fetched id reply =>
    simp only [step] at h
    split at h
    · split at h
      · obtain rfl := Option.some.inj h
        exact .fetched (by assumption) (by assumption)
      · obtain rfl := Option.some.inj h
        exact .fetchFailed
    · cases h
  | lookupDrop id =>
    simp only [step] at h
    split at h
    · obtain rfl := Option.some.inj h
      exact .lookupDrop
    · cases h
  | cacheInsert id =>
    simp only [step] at h
    split at h
    · rename_i host lookup headers body hid
      obtain rfl := Option.some.inj h
      unfold endLookup
      cases hanswer : decodeLookupResponse host lookup r.source headers body with
      | error error => exact .decodeFailed
      | ok answer => exact .cacheInsert hid hanswer
    · cases h

end HttpResolver

end Lookups

end Ddns
