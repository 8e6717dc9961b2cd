import Ddns.Http.Answers

/-! Exactly when the HTTP resolver answers from its cache. -/
namespace Ddns.HttpResolver

open Trace History

section Hits

variable [DhttpHome] [SubjectKey] [Crypto] [PkiTypes] {E Source : Type}
  {r : HttpResolver Source} {s t : HttpState E Source} {event : HttpEvent E}
  {events : List (HttpEvent E)} {key : LookupKey}

/-- What an event does to the answer under a key. A removal takes away whatever is there by then,
also an answer that is newer than the one that had expired. -/
def effect (r : HttpResolver Source) (happened : HttpState E Source × HttpEvent E)
    (key : LookupKey) : Option (Option (CachedAnswer Source)) :=
  match happened.2 with
  | .clearCache => some none
  | .cacheRemove id =>
    match happened.1.lookups id with
    | .expired host lookup => if LookupKey.new host lookup = key then some none else none
    | _ => none
  | .cacheInsert id =>
    match happened.1.lookups id with
    | .replied host lookup headers body =>
      match decodeLookupResponse host lookup r.source headers body with
      | .ok answer =>
        if LookupKey.new host lookup = key ∧ answer.ttl ≠ 0 then
          some (some ⟨answer.candidates, happened.1.now + nanosPerSecond * answer.ttl⟩)
        else none
      | .error _ => none
    | _ => none
  | _ => none

theorem effect_of_step (h : r.step s event = some t) :
    t.cache.lookup key = (effect r (s, event) key).getD (s.cache.lookup key) := by
  cases event with
  | clearCache =>
    obtain rfl := Option.some.inj h
    rfl
  | cacheRemove id =>
    simp only [step] at h
    split at h
    · rename_i host lookup hid
      obtain rfl := Option.some.inj h
      simp only [effect, hid]
      by_cases hkey : LookupKey.new host lookup = key
      · rw [if_pos hkey, ← hkey]
        exact AList.lookup_erase _ _
      · rw [if_neg hkey]
        exact AList.lookup_erase_ne (fun heq => hkey heq.symm)
    · cases h
  | cacheInsert id =>
    simp only [step] at h
    split at h
    · rename_i host lookup headers body hid
      obtain rfl := Option.some.inj h
      simp only [effect, hid, endLookup]
      cases decodeLookupResponse host lookup r.source headers body with
      | error error => rfl
      | ok answer =>
        show (s.cache.insert s.now (LookupKey.new host lookup) answer.candidates
          (nanosPerSecond * answer.ttl)).lookup key = _
        have hzero : nanosPerSecond * answer.ttl = 0 ↔ answer.ttl = 0 := by
          unfold nanosPerSecond
          omega
        by_cases hstored : LookupKey.new host lookup = key ∧ answer.ttl ≠ 0
        · obtain ⟨rfl, hlive⟩ := hstored
          rw [LookupCache.insert, if_neg (fun h => hlive (hzero.mp h)), AList.lookup_insert]
          simp [hlive]
        · dsimp only
          rw [if_neg hstored, LookupCache.insert]
          split
          · rfl
          · rename_i hlive
            refine AList.lookup_insert_ne ?_
            rintro rfl
            exact hstored ⟨rfl, fun h => hlive (hzero.mpr h)⟩
    · cases h
  | tick duration =>
    obtain rfl := Option.some.inj h
    rfl
  | lookupStart id name requested =>
    simp only [step] at h
    split at h
    · obtain rfl := Option.some.inj h
      rfl
    · cases h
  | fetched id reply =>
    simp only [step] at h
    split at h
    · split at h
      · obtain rfl := Option.some.inj h
        rfl
      · obtain rfl := Option.some.inj h
        rfl
    · cases h
  | lookupDrop id =>
    simp only [step] at h
    split at h
    · obtain rfl := Option.some.inj h
      rfl
    · cases h

/-- After every run, the answer under a key is what the events of the run left there. -/
theorem cache_eq_final (h : r.run events = some s) :
    s.cache.lookup key = final (effect r) (trail r.step .initial events) key :=
  @eq_foldl_trail _ _ r.step _ _ _ _ (fun s => s.cache.lookup key)
    (fun value happened => (effect r happened key).getD value)
    (fun _ _ _ hstep => effect_of_step hstep) h

omit [PkiTypes] in
/-- Only the end of a lookup with an answer that may be kept leaves one under its key. -/
theorem effect_eq_value_iff {happened : HttpState E Source × HttpEvent E}
    {cached : CachedAnswer Source} :
    effect r happened key = some (some cached) ↔
      ∃ id host headers body answer, happened.2 = .cacheInsert id ∧
        happened.1.lookups id = .replied host key.lookup headers body ∧
        LookupKey.new host key.lookup = key ∧
        decodeLookupResponse host key.lookup r.source headers body = .ok answer ∧
        answer.ttl ≠ 0 ∧
        cached = ⟨answer.candidates, happened.1.now + nanosPerSecond * answer.ttl⟩ := by
  obtain ⟨s, event⟩ := happened
  constructor
  · intro h
    cases event with
    | cacheInsert id =>
      simp only [effect] at h
      split at h
      · rename_i host lookup headers body hid
        split at h
        · rename_i answer hanswer
          rw [Option.ite_none_right_eq_some] at h
          obtain ⟨⟨rfl, hlive⟩, hcached⟩ := h
          exact ⟨id, host, headers, body, answer, rfl, hid, rfl, hanswer, hlive,
            (Option.some.inj (Option.some.inj hcached)).symm⟩
        · cases h
      · cases h
    | cacheRemove id =>
      simp only [effect] at h
      split at h
      · rw [Option.ite_none_right_eq_some] at h
        cases h.2
      · cases h
    | _ => cases h
  · rintro ⟨id, host, headers, body, answer, rfl, hid, hkey, hanswer, hlive, rfl⟩
    dsimp only at hid
    simp only [effect, hid, hanswer]
    rw [if_pos ⟨hkey, hlive⟩]

omit [SubjectKey] [Crypto] in
theorem beginLookup_done_iff {name host : Name} {sequence : Option CertificateSequence}
    {requested : EndpointLookup} {candidates : EndpointCandidates Source}
    (hname : endpointLookupNameAndSequence name = some (host, sequence)) :
    beginLookup s name requested = .done host (exactOverride requested sequence) candidates ↔
      ∃ cached, s.cache.lookup (LookupKey.new host (exactOverride requested sequence)) =
        some cached ∧ s.now < cached.expiresAt ∧ candidates = cached.candidates := by
  refine ⟨beginLookup_done, ?_⟩
  rintro ⟨cached, hcached, hfresh, rfl⟩
  simp only [beginLookup, hname, hcached]
  exact if_pos hfresh

/-- In every interleaving, a lookup is answered from the cache exactly when some lookup with its key
stored an answer that has not expired, and nothing that happened since touched the key: no other
answer, no clear, and no removal by a lookup that had found an expired answer there. -/
theorem answered_from_cache_iff {name host : Name} {sequence : Option CertificateSequence}
    {requested : EndpointLookup} {candidates : EndpointCandidates Source}
    (hrun : r.run events = some s)
    (hname : endpointLookupNameAndSequence name = some (host, sequence)) :
    beginLookup s name requested = .done host (exactOverride requested sequence) candidates ↔
      ∃ before s₁ id after host' headers body answer,
        trail r.step .initial events = before ++ (s₁, .cacheInsert id) :: after ∧
        s₁.lookups id = .replied host' (exactOverride requested sequence) headers body ∧
        SameName host' host ∧
        decodeLookupResponse host' (exactOverride requested sequence) r.source headers body =
          .ok answer ∧
        answer.ttl ≠ 0 ∧ candidates = answer.candidates ∧
        s.now < s₁.now + nanosPerSecond * answer.ttl ∧
        ∀ later ∈ after,
          effect r later (LookupKey.new host (exactOverride requested sequence)) = none := by
  rw [beginLookup_done_iff hname]
  generalize exactOverride requested sequence = lookup
  constructor
  · rintro ⟨cached, hcached, hfresh, rfl⟩
    rw [cache_eq_final hrun, final_eq_some_iff] at hcached
    obtain ⟨before, ⟨s₁, event⟩, after, htrail, heffect, hlater⟩ := hcached
    obtain ⟨id, host', headers, body, answer, rfl, hreplied, hkey, hanswer, hlive, rfl⟩ :=
      effect_eq_value_iff.mp heffect
    have hsame : SameName host' host := decide_eq_true (congrArg LookupKey.name hkey)
    exact ⟨before, s₁, id, after, host', headers, body, answer, htrail, hreplied, hsame, hanswer,
      hlive, rfl, hfresh, hlater⟩
  · rintro ⟨before, s₁, id, after, host', headers, body, answer, htrail, hreplied, hsame, hanswer,
      hlive, rfl, hfresh, hlater⟩
    refine ⟨⟨answer.candidates, s₁.now + nanosPerSecond * answer.ttl⟩, ?_, hfresh, rfl⟩
    rw [cache_eq_final hrun, final_eq_some_iff]
    refine ⟨before, _, after, htrail, effect_eq_value_iff.mpr ?_, hlater⟩
    have hname' : Text.toAsciiLowercase (trimDots host') = Text.toAsciiLowercase (trimDots host) :=
      of_decide_eq_true hsame
    have hkey : LookupKey.new host' lookup = LookupKey.new host lookup := by
      rw [LookupKey.new, LookupKey.new, hname']
    exact ⟨id, host', headers, body, answer, rfl, hreplied, hkey, hanswer, hlive, rfl⟩

end Hits

section Sample

attribute [local instance] plainHome plainCrypto plainSubjectKey plainPki

/-- A lookup has stored its answer. -/
def oneLookup : List (HttpEvent Unit) :=
  [.lookupStart 0 staleName .all, .fetched 0 staleReply, .tick 1, .cacheInsert 0, .tick 5]

theorem answered_from_cache_iff_oneLookup :
    ∃ s, run (⟨()⟩ : HttpResolver Unit) oneLookup = some s ∧
      ∃ before s₁ id after host' headers body answer,
        trail (step (⟨()⟩ : HttpResolver Unit)) .initial oneLookup =
          before ++ (s₁, .cacheInsert id) :: after ∧
        s₁.lookups id = .replied host' .all headers body ∧ SameName host' staleName ∧
        decodeLookupResponse host' .all () headers body = .ok answer ∧ answer.ttl ≠ 0 ∧
        staleCandidates 1 = answer.candidates ∧ s.now < s₁.now + nanosPerSecond * answer.ttl ∧
        ∀ later ∈ after, effect ⟨()⟩ later (LookupKey.new staleName .all) = none := by
  obtain ⟨s, hrun⟩ : ∃ s, run (⟨()⟩ : HttpResolver Unit) oneLookup = some s :=
    Option.isSome_iff_exists.mp (by decide +kernel)
  have hname : endpointLookupNameAndSequence staleName = some (staleName, none) := by decide +kernel
  have hhit : (run (⟨()⟩ : HttpResolver Unit) oneLookup).map
      (fun s => beginLookup s staleName .all) =
        some (.done staleName .all (staleCandidates 1)) := by decide +kernel
  rw [hrun] at hhit
  exact ⟨s, hrun, (answered_from_cache_iff hrun hname).mp (Option.some.inj hhit)⟩

/-- A second lookup finds an expired answer, a third one stores a new one before the second has
removed anything, and so a fourth one has to ask again. -/
example : (run (⟨()⟩ : HttpResolver Unit) [.lookupStart 0 staleName .all, .fetched 0 staleReply,
    .cacheInsert 0, .tick 300000000000, .lookupStart 1 staleName .all,
    .lookupStart 2 staleName .all, .cacheRemove 2, .fetched 2 staleReply, .cacheInsert 2,
    .cacheRemove 1]).map (fun s => beginLookup s staleName .all) =
      some (.asking staleName .all) := by
  decide +kernel

end Sample

end Ddns.HttpResolver
