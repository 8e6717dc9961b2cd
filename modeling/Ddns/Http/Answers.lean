import Ddns.H3.CacheHistory
import Ddns.H3.Invalidation
import Ddns.Http.Resolver

/-! Where the answers of the HTTP resolver come from, whatever its lookups do to each other. -/
namespace Ddns.HttpResolver

open Trace

section Answers

variable [DhttpHome] [SubjectKey] [Crypto] [PkiTypes] {E Source : Type}
  {r : HttpResolver Source} {s t : HttpState E Source} {event : HttpEvent E}
  {events : List (HttpEvent E)} {id : ℕ} {host : Name} {lookup : EndpointLookup}
  {candidates : EndpointCandidates Source} {headers : HeaderMap} {body : List UInt8}

/-- The event ends a lookup with an answer that is decoded from its reply. -/
def Decodes (r : HttpResolver Source) (id : ℕ) (host : Name) (lookup : EndpointLookup)
    (answer : LookupAnswer Source) (s : HttpState E Source) (event : HttpEvent E) : Prop :=
  event = .cacheInsert id ∧ ∃ headers body, s.lookups id = .replied host lookup headers body ∧
    decodeLookupResponse host lookup r.source headers body = .ok answer

/-- The event puts the answer under the key. -/
def Stores (r : HttpResolver Source) (key : LookupKey) (cached : CachedAnswer Source)
    (s : HttpState E Source) (event : HttpEvent E) : Prop :=
  ∃ id host answer, Decodes r id host key.lookup answer s event ∧
    LookupKey.new host key.lookup = key ∧
    cached = ⟨answer.candidates, s.now + nanosPerSecond * answer.ttl⟩

/-- The event finds the answer of a lookup in the cache. -/
def Finds (id : ℕ) (host : Name) (lookup : EndpointLookup) (candidates : EndpointCandidates Source)
    (s : HttpState E Source) (event : HttpEvent E) : Prop :=
  ∃ name requested cached, event = .lookupStart id name requested ∧
    s.cache.lookup (LookupKey.new host lookup) = some cached ∧ s.now < cached.expiresAt ∧
    candidates = cached.candidates

omit [SubjectKey] [Crypto] in
theorem beginLookup_done {name : Name} {requested : EndpointLookup}
    (h : beginLookup s name requested = .done host lookup candidates) :
    ∃ cached, s.cache.lookup (LookupKey.new host lookup) = some cached ∧
      s.now < cached.expiresAt ∧ candidates = cached.candidates := by
  unfold beginLookup at h
  split at h
  · cases h
  · dsimp only at h
    split at h
    · cases h
    · rename_i cached hcached
      split at h
      · rename_i hfresh
        cases h
        exact ⟨cached, hcached, hfresh, rfl⟩
      · cases h

omit [SubjectKey] [Crypto] in
theorem beginLookup_not_replied {name : Name} {requested : EndpointLookup} :
    beginLookup s name requested ≠ .replied host lookup headers body := by
  intro h
  unfold beginLookup at h
  split at h
  · cases h
  · dsimp only at h
    split at h
    · cases h
    · split at h <;> cases h

/-- A lookup is done because it was, because it found its answer, or because it decoded it. -/
theorem done_of_stepped (h : Stepped r s event t)
    (hdone : t.lookups id = .done host lookup candidates) :
    s.lookups id = .done host lookup candidates ∨ Finds id host lookup candidates s event ∨
      ∃ answer, Decodes r id host lookup answer s event ∧ candidates = answer.candidates := by
  cases h with
  | tick => exact Or.inl hdone
  | clearCache => exact Or.inl hdone
  | lookupStart hid =>
    rw [HttpState.setLookup_lookups] at hdone
    split at hdone
    · rename_i heq
      subst heq
      obtain ⟨cached, hcached, hfresh, hsame⟩ := beginLookup_done hdone
      exact Or.inr (Or.inl ⟨_, _, cached, rfl, hcached, hfresh, hsame⟩)
    · exact Or.inl hdone
  | cacheInsert hid hanswer =>
    rw [HttpState.setLookup_lookups] at hdone
    split at hdone
    · rename_i heq
      subst heq
      cases hdone
      exact Or.inr (Or.inr ⟨_, ⟨rfl, _, _, hid, hanswer⟩, rfl⟩)
    · exact Or.inl hdone
  | _ =>
    rw [HttpState.setLookup_lookups] at hdone
    split at hdone
    · cases hdone
    · exact Or.inl hdone

/-- A reply is there because it was, or because it has just been fetched. -/
theorem replied_of_stepped (h : Stepped r s event t)
    (hreplied : t.lookups id = .replied host lookup headers body) :
    s.lookups id = .replied host lookup headers body ∨
      ∃ reply, event = .fetched id reply ∧ fetchWithTimeout reply = .ok (headers, body) := by
  cases h with
  | tick => exact Or.inl hreplied
  | clearCache => exact Or.inl hreplied
  | lookupStart hid =>
    rw [HttpState.setLookup_lookups] at hreplied
    split at hreplied
    · exact absurd hreplied beginLookup_not_replied
    · exact Or.inl hreplied
  | fetched hid hreply =>
    rw [HttpState.setLookup_lookups] at hreplied
    split at hreplied
    · rename_i heq
      subst heq
      cases hreplied
      exact Or.inr ⟨_, rfl, hreply⟩
    · exact Or.inl hreplied
  | _ =>
    rw [HttpState.setLookup_lookups] at hreplied
    split at hreplied
    · cases hreplied
    · exact Or.inl hreplied

/-- An answer is in the cache because it was, or because it has just been stored. -/
theorem cached_of_stepped (h : Stepped r s event t) {key : LookupKey}
    {cached : CachedAnswer Source} (hcached : t.cache.lookup key = some cached) :
    event ≠ .clearCache ∧ (s.cache.lookup key = some cached ∨ Stores r key cached s event) := by
  cases h with
  | clearCache => cases hcached
  | @cacheRemove id host lookup hid =>
    refine ⟨nofun, Or.inl ?_⟩
    have hlookup : (s.cache.erase (LookupKey.new host lookup)).lookup key = some cached := hcached
    by_cases hkey : key = LookupKey.new host lookup
    · subst hkey
      rw [AList.lookup_erase] at hlookup
      cases hlookup
    · rw [AList.lookup_erase_ne hkey] at hlookup
      exact hlookup
  | @cacheInsert id host lookup headers body answer hid hanswer =>
    refine ⟨nofun, ?_⟩
    have hlookup : (s.cache.insert s.now (LookupKey.new host lookup) answer.candidates
      (nanosPerSecond * answer.ttl)).lookup key = some cached := hcached
    unfold LookupCache.insert at hlookup
    split at hlookup
    · exact Or.inl hlookup
    · by_cases hkey : key = LookupKey.new host lookup
      · subst hkey
        rw [AList.lookup_insert] at hlookup
        exact Or.inr ⟨id, host, answer, ⟨rfl, headers, body, hid, hanswer⟩, rfl,
          (Option.some.inj hlookup).symm⟩
      · rw [AList.lookup_insert_ne hkey] at hlookup
        exact Or.inl hlookup
  | _ => exact ⟨nofun, Or.inl hcached⟩

theorem cached_of_run (h : r.run events = some s) {key : LookupKey} {cached : CachedAnswer Source}
    (hcached : s.cache.lookup key = some cached) :
    Since r.step .initial events (Stores r key cached) fun after => .clearCache ∉ after := by
  refine run_induction (P := fun events s => s.cache.lookup key = some cached →
    Since r.step .initial events (Stores r key cached) fun after => .clearCache ∉ after) ?_ ?_ h
      hcached
  · intro hinitial
    cases hinitial
  · intro events s event t hrun hstep ih hcached
    obtain ⟨hevent, hold | hnew⟩ := cached_of_stepped (stepped_of_step hstep) hcached
    · refine (ih hold).snoc ?_
      intro after hafter hmem
      rcases List.mem_append.mp hmem with hmem | hmem
      · exact hafter hmem
      · exact hevent (List.mem_singleton.mp hmem).symm
    · exact since_last hrun hnew List.not_mem_nil

theorem replied_of_run (h : r.run events = some s)
    (hreplied : s.lookups id = .replied host lookup headers body) :
    ∃ reply, .fetched id reply ∈ events ∧ fetchWithTimeout reply = .ok (headers, body) := by
  refine run_induction (P := fun events s => s.lookups id = .replied host lookup headers body →
    ∃ reply, .fetched id reply ∈ events ∧ fetchWithTimeout reply = .ok (headers, body)) ?_ ?_ h
      hreplied
  · intro hinitial
    cases hinitial
  · intro events s event t _ hstep ih hreplied
    rcases replied_of_stepped (stepped_of_step hstep) hreplied with hold | ⟨reply, rfl, hreply⟩
    · obtain ⟨reply, hmem, hreply⟩ := ih hold
      exact ⟨reply, List.mem_append_left _ hmem, hreply⟩
    · exact ⟨reply, List.mem_append_right _ (List.mem_singleton.mpr rfl), hreply⟩

theorem done_of_run (h : r.run events = some s)
    (hdone : s.lookups id = .done host lookup candidates) :
    Since r.step .initial events (fun s event => Finds id host lookup candidates s event ∨
      ∃ answer, Decodes r id host lookup answer s event ∧ candidates = answer.candidates)
      fun _ => True := by
  refine run_induction (P := fun events s => s.lookups id = .done host lookup candidates →
    Since r.step .initial events (fun s event => Finds id host lookup candidates s event ∨
      ∃ answer, Decodes r id host lookup answer s event ∧ candidates = answer.candidates)
      fun _ => True) ?_ ?_ h hdone
  · intro hinitial
    cases hinitial
  · intro events s event t hrun hstep ih hdone
    rcases done_of_stepped (stepped_of_step hstep) hdone with hold | hnew
    · exact (ih hold).snoc fun _ _ => trivial
    · exact since_last hrun hnew trivial

/-- However lookups, removals, insertions and clears interleave: what a lookup returns was decoded
from the whole 200 reply to a lookup with the same key, either its own, or one that was stored
before it began, not cleared since, and not yet expired. -/
theorem answers_come_from_replies (hrun : r.run events = some s)
    (hdone : s.lookups id = .done host lookup candidates) :
    (∃ before after s₁ answer reply headers body,
      events = before ++ .cacheInsert id :: after ∧ r.run before = some s₁ ∧
      s₁.lookups id = .replied host lookup headers body ∧ .fetched id reply ∈ before ∧
      fetchWithTimeout reply = .ok (headers, body) ∧
      decodeLookupResponse host lookup r.source headers body = .ok answer ∧
      candidates = answer.candidates) ∨
    ∃ before id' between name requested after s₁ s₂ host' answer reply headers body,
      events = before ++ .cacheInsert id' :: (between ++ .lookupStart id name requested :: after) ∧
      r.run before = some s₁ ∧ r.run (before ++ .cacheInsert id' :: between) = some s₂ ∧
      s₁.lookups id' = .replied host' lookup headers body ∧
      .fetched id' reply ∈ before ∧ fetchWithTimeout reply = .ok (headers, body) ∧
      decodeLookupResponse host' lookup r.source headers body = .ok answer ∧
      SameName host' host ∧ candidates = answer.candidates ∧ .clearCache ∉ between ∧
      s₂.now < s₁.now + nanosPerSecond * answer.ttl := by
  obtain ⟨before, event, after, s₁, rfl, hbefore, hfound | ⟨answer, hdecodes, hsame⟩, _⟩ :=
    done_of_run hrun hdone
  · obtain ⟨name, requested, cached, rfl, hcached, hfresh, hsame⟩ := hfound
    obtain ⟨start, stored, between, s₀, rfl, hstart, hstores, hclear⟩ :=
      cached_of_run hbefore hcached
    obtain ⟨id', host', answer, ⟨rfl, headers, body, hreplied, hanswer⟩, hkey, rfl⟩ := hstores
    obtain ⟨reply, hfetched, hreply⟩ := replied_of_run hstart hreplied
    refine Or.inr ⟨start, id', between, name, requested, after, s₀, s₁, host', answer, reply,
      headers, body, ?_, hstart, hbefore, hreplied, hfetched, hreply, hanswer, ?_, hsame, hclear,
      hfresh⟩
    · rw [List.append_assoc, List.cons_append]
    · have hname := congrArg LookupKey.name hkey
      exact decide_eq_true hname
  · obtain ⟨rfl, headers, body, hreplied, hanswer⟩ := hdecodes
    obtain ⟨reply, hfetched, hreply⟩ := replied_of_run hbefore hreplied
    exact Or.inl ⟨before, after, s₁, answer, reply, headers, body, rfl, hbefore, hreplied, hfetched,
      hreply, hanswer, hsame⟩

end Answers

section Sample

attribute [local instance] plainHome plainCrypto plainSubjectKey plainPki

/-- A reply with one record, in two frames and with trailers. -/
def staleReply : Reply Unit :=
  .response 200 [] ⟨[.ok (.data ((MultiResponse.encode ⟨[staleResponse 1]⟩).take 9)),
    .ok (.data ((MultiResponse.encode ⟨[staleResponse 1]⟩).drop 9)), .ok .trailers], true⟩

/-- Two lookups of one name, the second one in another spelling and after the first. -/
def twoLookups : List (HttpEvent Unit) :=
  [.lookupStart 0 staleName .all, .fetched 0 staleReply, .tick 1, .cacheInsert 0, .tick 5,
    .lookupStart 1 ('D' :: dhttpSuffixText) .all]

theorem answers_come_from_replies_twoLookups :
    ∃ s headers body answer reply host', run ⟨()⟩ twoLookups = some s ∧
      s.lookups 1 = .done ('D' :: dhttpSuffixText) .all (staleCandidates 1) ∧
      .fetched 0 reply ∈ twoLookups ∧ fetchWithTimeout reply = .ok (headers, body) ∧
      decodeLookupResponse host' .all () headers body = .ok answer ∧
      answer.candidates = staleCandidates 1 := by
  obtain ⟨s, hrun⟩ : ∃ s, run (⟨()⟩ : HttpResolver Unit) twoLookups = some s :=
    Option.isSome_iff_exists.mp (by decide +kernel)
  have hdone : (run (⟨()⟩ : HttpResolver Unit) twoLookups).map (fun s => s.lookups 1) =
      some (.done ('D' :: dhttpSuffixText) .all (staleCandidates 1)) := by decide +kernel
  rw [hrun] at hdone
  have hdone := Option.some.inj hdone
  rcases answers_come_from_replies hrun hdone with
    ⟨before, after, _, _, _, _, _, hevents, _⟩ |
    ⟨before, id', between, _, _, after, _, _, host', answer, reply, headers, body, hevents, _, _,
      _, hfetched, hreply, hanswer, _, hsame, _⟩
  · have hmem : HttpEvent.cacheInsert 1 ∈ twoLookups := by
      rw [hevents]
      simp
    simp [twoLookups] at hmem
  · have hmem : HttpEvent.cacheInsert id' ∈ twoLookups := by
      rw [hevents]
      simp
    obtain rfl : id' = 0 := by simpa [twoLookups] using hmem
    have hfetched' : HttpEvent.fetched 0 reply ∈ twoLookups := by
      rw [hevents]
      exact List.mem_append_left _ hfetched
    exact ⟨s, headers, body, answer, reply, host', hrun, hdone, hfetched', hreply, hanswer,
      hsame.symm⟩

end Sample

end Ddns.HttpResolver
