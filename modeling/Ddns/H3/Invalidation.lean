import Ddns.H3.Resolver
import Ddns.Publishers.PublishedPacket

/-! When a publication rids the cache of everything that was fetched before it. -/
namespace Ddns

section Invariant

variable [DhttpHome] [SubjectKey] [Crypto] {Content Source : Type}

/-- The key is for a spelling of the name. -/
def LookupKey.Matches (key : LookupKey) (name : Name) : Prop :=
  Text.eqIgnoreAsciiCase key.name (trimDots name) = true

/-- The candidates are what the server had for the key at this version. -/
def Fetched (r : H3Resolver Content Source) (contents : List Content) (key : LookupKey)
    (candidates : EndpointCandidates Source) (version : ℕ) : Prop :=
  ∃ content host ttl, contents[version]? = some content ∧ LookupKey.new host key.lookup = key ∧
    r.answer content host key.lookup = .ok ⟨candidates, ttl⟩

/-- No publication of the name that has invalidated the cache is newer than this version. -/
def NotOutdated (s : H3State Content Source) (key : LookupKey) (version : ℕ) : Prop :=
  ∀ id name made, (s.publishes id).cleared = some (name, made) → key.Matches name → made ≤ version

/-- What holds in every state of a run without outdated inserts. -/
structure H3Resolver.Invariant (r : H3Resolver Content Source) (s : H3State Content Source) :
    Prop where
  made : ∀ id name version, (s.publishes id).made = some (name, version) →
    version < s.contents.length
  replied : ∀ id host lookup version headers body,
    s.lookups id = .replied host lookup version headers body →
    ∃ content, s.contents[version]? = some content ∧ r.serve content host lookup = (headers, body)
  cached : ∀ entry ∈ s.cache.entries, ∃ version,
    NotOutdated s entry.1 version ∧ Fetched r s.contents entry.1 entry.2.candidates version

omit [DhttpHome] [SubjectKey] [Crypto] in
theorem getElem?_of_prefix {contents contents' : List Content} (h : contents <+: contents')
    {version : ℕ} {content : Content} (hcontent : contents[version]? = some content) :
    contents'[version]? = some content := by
  obtain ⟨more, rfl⟩ := h
  obtain ⟨hlt, _⟩ := List.getElem?_eq_some_iff.mp hcontent
  exact (List.getElem?_append_left hlt).trans hcontent

theorem Fetched.mono {r : H3Resolver Content Source} {contents contents' : List Content}
    {key : LookupKey} {candidates : EndpointCandidates Source} {version : ℕ}
    (h : Fetched r contents key candidates version) (hcontents : contents <+: contents') :
    Fetched r contents' key candidates version := by
  obtain ⟨content, host, ttl, hcontent, hkey, hanswer⟩ := h
  exact ⟨content, host, ttl, getElem?_of_prefix hcontents hcontent, hkey, hanswer⟩

/-- A step keeps the invariant when it adds nothing that needs a new reason. -/
theorem H3Resolver.Invariant.frame {r : H3Resolver Content Source} {s t : H3State Content Source}
    (h : r.Invariant s) (hcontents : s.contents <+: t.contents)
    (hmade : ∀ id name version, (t.publishes id).made = some (name, version) →
      (s.publishes id).made = some (name, version) ∨ version < t.contents.length)
    (hreplied : ∀ id host lookup version headers body,
      t.lookups id = .replied host lookup version headers body →
      s.lookups id = .replied host lookup version headers body ∨
        ∃ content, t.contents[version]? = some content ∧
          r.serve content host lookup = (headers, body))
    (hcached : ∀ entry ∈ t.cache.entries,
      (entry ∈ s.cache.entries ∧ ∀ id name made, (t.publishes id).cleared = some (name, made) →
        entry.1.Matches name → (s.publishes id).cleared = some (name, made)) ∨
      ∃ version, NotOutdated t entry.1 version ∧
        Fetched r t.contents entry.1 entry.2.candidates version) : r.Invariant t := by
  refine ⟨?_, ?_, ?_⟩
  · intro id name version hid
    rcases hmade id name version hid with hold | hlt
    · exact (h.made id name version hold).trans_le hcontents.length_le
    · exact hlt
  · intro id host lookup version headers body hid
    rcases hreplied id host lookup version headers body hid with hold | hnew
    · obtain ⟨content, hcontent, hserve⟩ := h.replied id host lookup version headers body hold
      exact ⟨content, getElem?_of_prefix hcontents hcontent, hserve⟩
    · exact hnew
  · intro entry hentry
    rcases hcached entry hentry with ⟨hold, hcleared⟩ | hnew
    · obtain ⟨version, hout, hfetched⟩ := h.cached entry hold
      refine ⟨version, ?_, hfetched.mono hcontents⟩
      intro id name made hid hmatch
      exact hout id name made (hcleared id name made hid hmatch) hmatch
    · exact hnew

/-- A lookup goes on, and the cache keeps or gains what may be in it. -/
theorem H3Resolver.Invariant.setLookup {r : H3Resolver Content Source} {s : H3State Content Source}
    (h : r.Invariant s) (cache : LookupCache Source) (id : ℕ) (phase : LookupPhase Source)
    (hphase : ∀ host lookup version headers body,
      phase = .replied host lookup version headers body →
      ∃ content, s.contents[version]? = some content ∧ r.serve content host lookup = (headers, body))
    (hcached : ∀ entry ∈ cache.entries, entry ∈ s.cache.entries ∨
      ∃ version, NotOutdated s entry.1 version ∧
        Fetched r s.contents entry.1 entry.2.candidates version) :
    r.Invariant ({ s with cache := cache }.setLookup id phase) := by
  refine h.frame List.prefix_rfl (fun _ _ _ hid => Or.inl hid) ?_ ?_
  · intro other host lookup version headers body hother
    rw [H3State.setLookup_lookups] at hother
    split at hother
    · exact Or.inr (hphase host lookup version headers body hother)
    · exact Or.inl hother
  · intro entry hentry
    rcases hcached entry hentry with hold | hnew
    · exact Or.inl ⟨hold, fun _ _ _ hid _ => hid⟩
    · exact Or.inr hnew

/-- A publication goes on, and what it now says was made or cleared is so. -/
theorem H3Resolver.Invariant.setPublish {r : H3Resolver Content Source} {s t : H3State Content Source}
    (h : r.Invariant s) (id : ℕ) (phase : PublishPhase) (hcontents : s.contents <+: t.contents)
    (hcache : t.cache.entries ⊆ s.cache.entries) (hlookups : t.lookups = s.lookups)
    (hpublishes : t.publishes = s.publishes)
    (hmade : ∀ name version, phase.made = some (name, version) →
      (s.publishes id).made = some (name, version) ∨ version < t.contents.length)
    (hcleared : ∀ name made, phase.cleared = some (name, made) →
      (s.publishes id).cleared = some (name, made) ∨
        ∀ entry ∈ t.cache.entries, ¬ entry.1.Matches name) :
    r.Invariant (t.setPublish id phase) := by
  refine h.frame hcontents ?_ ?_ ?_
  · intro other name version hother
    rw [H3State.setPublish_publishes, hpublishes] at hother
    split at hother
    · rename_i hid
      rw [hid]
      exact hmade name version hother
    · exact Or.inl hother
  · intro other host lookup version headers body hother
    exact Or.inl (hlookups ▸ hother)
  · intro entry hentry
    refine Or.inl ⟨hcache hentry, fun other name made hother hmatch => ?_⟩
    rw [H3State.setPublish_publishes, hpublishes] at hother
    split at hother
    · rename_i hid
      rw [hid]
      rcases hcleared name made hother with hold | hgone
      · exact hold
      · exact absurd hmatch (hgone entry hentry)
    · exact hother

/-- The step puts no answer into the cache that is older than a publication of its name which has
invalidated the cache. -/
def FreshInsert (r : H3Resolver Content Source) (s : H3State Content Source) :
    H3Event Content → Prop
  | .cacheInsert id => ∀ host lookup version headers body answer,
      s.lookups id = .replied host lookup version headers body →
      decodeLookupResponse host lookup r.source headers body = .ok answer → answer.ttl ≠ 0 →
      NotOutdated s (LookupKey.new host lookup) version
  | _ => True

theorem Fetched.of_reply {r : H3Resolver Content Source} {contents : List Content} {version : ℕ}
    {content : Content} {host : Name} {lookup : EndpointLookup} {headers : HeaderMap}
    {body : List UInt8} {answer : LookupAnswer Source}
    (hcontent : contents[version]? = some content)
    (hserve : r.serve content host lookup = (headers, body))
    (hanswer : decodeLookupResponse host lookup r.source headers body = .ok answer) :
    Fetched r contents (LookupKey.new host lookup) answer.candidates version := by
  refine ⟨content, host, answer.ttl, hcontent, rfl, ?_⟩
  show decodeLookupResponse host lookup r.source (r.serve content host lookup).1
    (r.serve content host lookup).2 = _
  rw [hserve]
  exact hanswer

theorem H3Resolver.invariant_initial (r : H3Resolver Content Source) (content : Content) :
    r.Invariant (H3State.initial content) :=
  ⟨fun _ _ _ h => (by cases h), fun _ _ _ _ _ _ h => (by cases h),
    fun _ h => absurd h List.not_mem_nil⟩

variable [PkiTypes]

theorem H3Resolver.Invariant.step {r : H3Resolver Content Source} {s t : H3State Content Source}
    {event : H3Event Content} (h : r.Invariant s) (hstep : r.step s event = some t)
    (hfresh : FreshInsert r s event) : r.Invariant t := by
  cases H3Resolver.stepped_of_step hstep with
  | tick => exact ⟨h.made, h.replied, h.cached⟩
  | serverChange =>
    exact h.frame (List.prefix_append _ _) (fun _ _ _ hid => Or.inl hid)
      (fun _ _ _ _ _ _ hid => Or.inl hid) (fun _ he => Or.inl ⟨he, fun _ _ _ hid _ => hid⟩)
  | clearCache => exact ⟨h.made, h.replied, fun _ he => absurd he List.not_mem_nil⟩
  | @lookupStart id name requested hidle =>
    obtain ⟨hsub, hphase⟩ := r.beginLookup_spec s name requested
    refine h.setLookup _ id _ ?_ (fun _ he => Or.inl (hsub he))
    intro host lookup version headers body hreplied
    rcases hphase with ⟨_, hphase⟩ | ⟨_, _, hphase⟩ | ⟨_, _, _, hphase, _⟩
    · rw [hphase] at hreplied
      cases hreplied
    · rw [hphase] at hreplied
      cases hreplied
    · rw [hphase] at hreplied
      cases hreplied
  | @serverReply id host lookup content hasking hcontent =>
    refine h.setLookup s.cache id _ ?_ (fun _ he => Or.inl he)
    intro host' lookup' version headers body hreplied
    injection hreplied with hhost hlookup hversion hheaders hbody
    subst hhost hlookup hversion hheaders hbody
    exact ⟨content, hcontent, rfl⟩
  | @lookupFail id =>
    refine h.setLookup s.cache id _ ?_ (fun _ he => Or.inl he)
    intro host lookup version headers body hreplied
    cases hreplied
  | @cacheInsert id host lookup version headers body hreplied =>
    rcases r.endLookup_spec s host lookup headers body with ⟨_, hend⟩ | ⟨answer, hanswer, hend⟩
    · rw [hend]
      exact h.setLookup s.cache id _ (fun _ _ _ _ _ hphase => nomatch hphase)
        (fun _ he => Or.inl he)
    · rw [hend]
      refine h.setLookup _ id _ (fun _ _ _ _ _ hphase => nomatch hphase) ?_
      intro entry hentry
      rcases LookupCache.mem_insert hentry with hold | ⟨hpos, rfl⟩
      · exact Or.inl hold
      · obtain ⟨content, hcontent, hserve⟩ := h.replied _ _ _ _ _ _ hreplied
        have httl : answer.ttl ≠ 0 := fun hzero => hpos (by rw [hzero, Nat.mul_zero])
        exact Or.inr ⟨version, hfresh _ _ _ _ _ _ hreplied hanswer httl,
          Fetched.of_reply hcontent hserve hanswer⟩
  | @publishUpdate id name endpoints next hidle =>
    refine h.setPublish id _ (List.prefix_append _ _) (List.Subset.refl _) rfl rfl ?_ ?_
    · intro name' version hmade
      obtain ⟨_, rfl⟩ := Prod.mk.inj (Option.some.inj hmade)
      exact Or.inr (by simp)
    · intro name' made hcleared
      cases hcleared
  | @publishFail id hcleared =>
    refine h.setPublish id _ List.prefix_rfl (List.Subset.refl _) rfl rfl ?_ ?_
    · intro name version hmade
      cases hmade
    · intro name made hcleared
      cases hcleared
  | @cacheInvalidate id name version hupdated =>
    refine h.setPublish id _ List.prefix_rfl (fun _ he => (mem_retainKeys.mp he).1) rfl rfl ?_ ?_
    · intro name' version' hmade
      rw [hupdated]
      exact Or.inl hmade
    · -- the entries of the published name are gone
      intro name' made hcleared
      obtain ⟨rfl, _⟩ := Prod.mk.inj (Option.some.inj hcleared)
      refine Or.inr fun entry hentry hmatch => ?_
      have hkeep := (mem_retainKeys.mp hentry).2
      rw [show Text.eqIgnoreAsciiCase entry.1.name (trimDots name) = true from hmatch] at hkeep
      cases hkeep
  | @publishReturn id name version hinvalidated =>
    refine h.setPublish id _ List.prefix_rfl (List.Subset.refl _) rfl rfl ?_ ?_
    · intro name' version' hmade
      rw [hinvalidated]
      exact Or.inl hmade
    · intro name' made hcleared
      rw [hinvalidated]
      exact Or.inl hcleared

/-- The lookup has taken nothing from before this version, if it is for the published name. -/
def LookupPhase.NotBefore (r : H3Resolver Content Source) (contents : List Content)
    (published : Name) (version : ℕ) : LookupPhase Source → Prop
  | .replied _ _ fetched _ _ => version ≤ fetched
  | .done host lookup candidates => (LookupKey.new host lookup).Matches published →
      ∃ fetched, version ≤ fetched ∧
        Fetched r contents (LookupKey.new host lookup) candidates fetched
  | _ => True

omit [PkiTypes] in
theorem LookupPhase.NotBefore.mono {r : H3Resolver Content Source}
    {contents contents' : List Content} {published : Name} {version : ℕ}
    {phase : LookupPhase Source} (h : phase.NotBefore r contents published version)
    (hcontents : contents <+: contents') : phase.NotBefore r contents' published version := by
  cases phase with
  | done host lookup candidates =>
    intro hmatch
    obtain ⟨fetched, hle, hfetched⟩ := h hmatch
    exact ⟨fetched, hle, hfetched.mono hcontents⟩
  | _ => exact h

/-- A publication has returned, and this lookup has taken nothing from before it. -/
structure AfterReturn (r : H3Resolver Content Source) (publish : ℕ) (published : Name)
    (version lookup : ℕ) (s : H3State Content Source) : Prop where
  returned : s.publishes publish = .returned published version
  notBefore : (s.lookups lookup).NotBefore r s.contents published version

section AfterReturn

variable {r : H3Resolver Content Source} {publish version lookup : ℕ} {published : Name}
  {s t : H3State Content Source}

omit [PkiTypes] in
/-- The server, the clock and the cache do not matter. -/
theorem AfterReturn.frame (h : AfterReturn r publish published version lookup s)
    (hcontents : s.contents <+: t.contents) (hpublish : t.publishes = s.publishes)
    (hlookup : t.lookups = s.lookups) : AfterReturn r publish published version lookup t := by
  refine ⟨?_, ?_⟩
  · rw [hpublish]
    exact h.returned
  · rw [hlookup]
    exact h.notBefore.mono hcontents

omit [PkiTypes] in
/-- It matters only what this lookup takes. -/
theorem AfterReturn.setLookup (h : AfterReturn r publish published version lookup s)
    (cache : LookupCache Source) (id : ℕ) (phase : LookupPhase Source)
    (hphase : lookup = id → phase.NotBefore r s.contents published version) :
    AfterReturn r publish published version lookup ({ s with cache := cache }.setLookup id phase) := by
  refine ⟨h.returned, ?_⟩
  rw [H3State.setLookup_lookups]
  split
  · rename_i hid
    exact hphase hid
  · exact h.notBefore

omit [PkiTypes] in
/-- A publication that has returned does not go on. -/
theorem AfterReturn.setPublish (h : AfterReturn r publish published version lookup s) (id : ℕ)
    (phase : PublishPhase) (hcontents : s.contents <+: t.contents)
    (hpublishes : t.publishes = s.publishes) (hlookups : t.lookups = s.lookups)
    (hother : s.publishes id ≠ .returned published version) :
    AfterReturn r publish published version lookup (t.setPublish id phase) := by
  have hframe := h.frame hcontents hpublishes hlookups
  refine ⟨?_, hframe.notBefore⟩
  rw [H3State.setPublish_publishes, if_neg]
  · exact hframe.returned
  · rintro rfl
    exact hother h.returned

theorem AfterReturn.step {event : H3Event Content}
    (h : AfterReturn r publish published version lookup s) (hinv : r.Invariant s)
    (hstep : r.step s event = some t) : AfterReturn r publish published version lookup t := by
  cases H3Resolver.stepped_of_step hstep with
  | tick => exact h.frame List.prefix_rfl rfl rfl
  | serverChange => exact h.frame (List.prefix_append _ _) rfl rfl
  | clearCache => exact h.frame List.prefix_rfl rfl rfl
  | @lookupStart id name requested hidle =>
    refine h.setLookup _ id _ fun _ => ?_
    rcases (r.beginLookup_spec s name requested).2 with
      ⟨_, hphase⟩ | ⟨_, _, hphase⟩ | ⟨host, wanted, answer, hphase, hmem⟩
    · rw [hphase]
      trivial
    · rw [hphase]
      trivial
    · -- a hit: nothing in the cache is older than the publication
      obtain ⟨fetched, hout, hfetched⟩ := hinv.cached _ hmem
      rw [hphase]
      intro hmatch
      exact ⟨fetched, hout publish published version (by rw [h.returned]; rfl) hmatch, hfetched⟩
  | @serverReply id host wanted content hasking hcontent =>
    refine h.setLookup s.cache id _ fun _ => ?_
    have hlt := hinv.made publish published version (by rw [h.returned]; rfl)
    show version ≤ s.contents.length - 1
    omega
  | @lookupFail id => exact h.setLookup s.cache id _ fun _ => trivial
  | @cacheInsert id host wanted fetched headers body hreplied =>
    refine h.setLookup _ id _ fun hid => ?_
    have hle := h.notBefore
    rw [hid, hreplied] at hle
    rcases r.endLookup_spec s host wanted headers body with ⟨_, hend⟩ | ⟨answer, hanswer, hend⟩
    · rw [hend]
      trivial
    · obtain ⟨content, hcontent, hserve⟩ := hinv.replied _ _ _ _ _ _ hreplied
      rw [hend]
      intro _
      exact ⟨fetched, hle, Fetched.of_reply hcontent hserve hanswer⟩
  | @publishUpdate id name endpoints next hidle =>
    refine h.setPublish id _ (List.prefix_append _ _) rfl rfl fun hreturned => ?_
    rw [hreturned] at hidle
    cases hidle
  | @publishFail id hcleared =>
    refine h.setPublish id _ List.prefix_rfl rfl rfl fun hreturned => ?_
    rw [hreturned] at hcleared
    cases hcleared
  | @cacheInvalidate id name made hupdated =>
    refine h.setPublish id _ List.prefix_rfl rfl rfl fun hreturned => ?_
    rw [hreturned] at hupdated
    cases hupdated
  | @publishReturn id name made hinvalidated =>
    refine h.setPublish id _ List.prefix_rfl rfl rfl fun hreturned => ?_
    rw [hreturned] at hinvalidated
    cases hinvalidated

end AfterReturn

/-- Every step of the run puts only such answers into the cache that no publication has made
outdated. -/
def FreshRun (r : H3Resolver Content Source) : H3State Content Source → List (H3Event Content) → Prop
  | _, [] => True
  | s, event :: events => FreshInsert r s event ∧ ∀ t, r.step s event = some t → FreshRun r t events

theorem H3Resolver.run_cons {r : H3Resolver Content Source} {s t : H3State Content Source}
    {event : H3Event Content} {events : List (H3Event Content)}
    (h : r.run s (event :: events) = some t) :
    ∃ u, r.step s event = some u ∧ r.run u events = some t :=
  Option.bind_eq_some_iff.mp h

theorem H3Resolver.Invariant.run {r : H3Resolver Content Source} {s t : H3State Content Source}
    {events : List (H3Event Content)} (h : r.Invariant s) (hrun : r.run s events = some t)
    (hfresh : FreshRun r s events) : r.Invariant t := by
  induction events generalizing s with
  | nil =>
    obtain rfl := Option.some.inj hrun
    exact h
  | cons event events ih =>
    obtain ⟨u, hstep, hrest⟩ := H3Resolver.run_cons hrun
    exact ih (h.step hstep hfresh.1) hrest (hfresh.2 u hstep)

theorem AfterReturn.run {r : H3Resolver Content Source} {publish : ℕ} {published : Name}
    {version lookup : ℕ} {s t : H3State Content Source} {events : List (H3Event Content)}
    (h : AfterReturn r publish published version lookup s) (hinv : r.Invariant s)
    (hrun : r.run s events = some t) (hfresh : FreshRun r s events) :
    AfterReturn r publish published version lookup t := by
  induction events generalizing s with
  | nil =>
    obtain rfl := Option.some.inj hrun
    exact h
  | cons event events ih =>
    obtain ⟨u, hstep, hrest⟩ := H3Resolver.run_cons hrun
    exact ih (h.step hinv hstep) (hinv.step hstep hfresh.1) hrest (hfresh.2 u hstep)

theorem H3Resolver.run_append {r : H3Resolver Content Source} {s t : H3State Content Source}
    {before after : List (H3Event Content)} (h : r.run s before = some t) :
    r.run s (before ++ after) = r.run t after := by
  induction before generalizing s with
  | nil =>
    obtain rfl := Option.some.inj h
    rfl
  | cons event before ih =>
    obtain ⟨u, hstep, hrest⟩ := H3Resolver.run_cons h
    rw [List.cons_append, run, hstep]
    exact ih hrest

theorem FreshRun.append {r : H3Resolver Content Source} {s t : H3State Content Source}
    {before after : List (H3Event Content)} (h : FreshRun r s (before ++ after))
    (hrun : r.run s before = some t) : FreshRun r s before ∧ FreshRun r t after := by
  induction before generalizing s with
  | nil =>
    obtain rfl := Option.some.inj hrun
    exact ⟨trivial, h⟩
  | cons event before ih =>
    obtain ⟨u, hstep, hrest⟩ := H3Resolver.run_cons hrun
    obtain ⟨hbefore, hafter⟩ := ih (h.2 u hstep) hrest
    refine ⟨⟨h.1, fun v hv => ?_⟩, hafter⟩
    rw [hstep] at hv
    exact Option.some.inj hv ▸ hbefore

theorem FreshRun.concat {r : H3Resolver Content Source} {s : H3State Content Source}
    {before : List (H3Event Content)} {event : H3Event Content} (h : FreshRun r s before)
    (hlast : ∀ t, r.run s before = some t → FreshInsert r t event) :
    FreshRun r s (before ++ [event]) := by
  induction before generalizing s with
  | nil => exact ⟨hlast s rfl, fun _ _ => trivial⟩
  | cons first before ih =>
    refine ⟨h.1, fun u hu => ih (h.2 u hu) fun t ht => hlast t ?_⟩
    rw [H3Resolver.run, hu]
    exact ht

theorem freshRun_of_no_insert (r : H3Resolver Content Source) (s : H3State Content Source)
    {events : List (H3Event Content)} (h : ∀ event ∈ events, ∀ id, event ≠ .cacheInsert id) :
    FreshRun r s events := by
  induction events generalizing s with
  | nil => trivial
  | cons event events ih =>
    refine ⟨?_, fun t _ => ih t fun e he => h e (List.mem_cons_of_mem _ he)⟩
    cases event with
    | cacheInsert id => exact absurd rfl (h _ List.mem_cons_self id)
    | _ => trivial

omit [PkiTypes] in
/-- An insert is fresh when the server has not changed since the reply. -/
theorem freshInsert_of_current {r : H3Resolver Content Source} {s : H3State Content Source}
    (h : r.Invariant s) {id version : ℕ} {host : Name} {lookup : EndpointLookup}
    {headers : HeaderMap} {body : List UInt8}
    (hreplied : s.lookups id = .replied host lookup version headers body)
    (hcurrent : version = s.version) : FreshInsert r s (.cacheInsert id) := by
  intro host' lookup' version' headers' body' answer hreplied' _ _ other name made hcleared _
  rw [hreplied] at hreplied'
  injection hreplied' with _ _ hversion _ _
  have hmade : (s.publishes other).made = some (name, made) := by
    cases hphase : s.publishes other with
    | invalidated _ _ =>
      rw [hphase] at hcleared
      exact hcleared
    | returned _ _ =>
      rw [hphase] at hcleared
      exact hcleared
    | _ =>
      rw [hphase] at hcleared
      cases hcleared
  have hlt := h.made other name made hmade
  rw [← hversion, hcurrent, H3State.version]
  omega

/-- Once a publication has returned, a lookup of its name that begins afterwards returns what the
server had at or after that publication. -/
def NoStaleAnswer (r : H3Resolver Content Source) (content : Content)
    (events : List (H3Event Content)) : Prop :=
  ∀ before after s t publish published version lookup host wanted candidates,
    events = before ++ after → r.run (H3State.initial content) before = some s →
    s.publishes publish = .returned published version → s.lookups lookup = .idle →
    r.run s after = some t → t.lookups lookup = .done host wanted candidates →
    (LookupKey.new host wanted).Matches published →
    ∃ fetched, version ≤ fetched ∧
      Fetched r t.contents (LookupKey.new host wanted) candidates fetched

/-- A run without outdated inserts has no stale answers. -/
theorem no_stale_answer_of_fresh_inserts (r : H3Resolver Content Source) (content : Content)
    (events : List (H3Event Content)) (h : FreshRun r (H3State.initial content) events) :
    NoStaleAnswer r content events := by
  intro before after s t publish published version lookup host wanted candidates hevents hbefore
    hreturned hidle hafter hdone hmatch
  subst hevents
  obtain ⟨hfresh, hfresh'⟩ := h.append hbefore
  have hinv := (r.invariant_initial content).run hbefore hfresh
  have hstart : AfterReturn r publish published version lookup s :=
    ⟨hreturned, by rw [hidle]; trivial⟩
  have hend := (hstart.run hinv hafter hfresh').notBefore
  rw [hdone] at hend
  exact hend hmatch

end Invariant

section Sample

attribute [local instance] plainHome plainCrypto plainSubjectKey plainPki

/-- The name `d.dhttp.net` -/
def staleName : Name := 'd' :: dhttpSuffixText

/-- The record that the name has before the publication, and the one after it. -/
def staleRecord (ip : UInt32) : EndpointAddr :=
  ((EndpointAddr.directV4 ⟨ip, 443⟩).setMain true).setSequence (CertificateSequence.ofU8 7)

/-- A resolver for a server with one name, which it answers without a signature. -/
def staleResolver : H3Resolver UInt32 Unit where
  originHost := none
  identity := some (plainAuthority staleName)
  source := ()
  serve ip _ _ := ([], MultiResponse.encode ⟨[.unsigned
    (Packet.answer 0 [(staleName, [staleRecord ip])]).toBytes []]⟩)

/-- A lookup is answered, and then the name is published. -/
def staleBefore : List (H3Event UInt32) :=
  [.lookupStart 0 staleName .all, .serverReply 0,
    .publishUpdate 0 staleName [.direct (.v4 ⟨2, 443⟩)] 2, .cacheInvalidate 0, .publishReturn 0]

/-- The old answer goes into the cache, and a second lookup begins. -/
def staleAfter : List (H3Event UInt32) := [.cacheInsert 0, .lookupStart 1 staleName .all]

def staleCandidates (ip : UInt32) : EndpointCandidates Unit :=
  ⟨[⟨primaryChainKey (CertificateSequence.ofU8 7), [.direct (.v4 ⟨ip, 443⟩)], [()]⟩]⟩

/-- The body that is served with this content. -/
def staleResponse (ip : UInt32) : ResponseRecord :=
  .unsigned (Packet.answer 0 [(staleName, [staleRecord ip])]).toBytes []

theorem staleRecord_stamped (ip : UInt32) :
    Stamped (CertificateSequence.ofU8 7) (.direct (.v4 ⟨ip, 443⟩)) (staleRecord ip) :=
  stampEndpoint_spec rfl trivial

theorem staleResponse_read (ip : UInt32) : ∃ remain p,
    bePacket (wholeSlice (staleResponse ip).dns) = .ok remain p ∧ remain.bytes = [] ∧
      p.answers = [answerRecord staleName (staleRecord ip)] := by
  have honly := answersOnly_answer 0 [(staleName, [staleRecord ip])]
  have hname : WellFormedName staleName := by decide
  have hanswers : answerRecords [(staleName, [staleRecord ip])] =
      [answerRecord staleName (staleRecord ip)] := rfl
  have hall : ∀ r ∈ answerRecords [(staleName, [staleRecord ip])], r.IsAnswer := by
    intro r hr
    rw [hanswers] at hr
    rw [List.mem_singleton.mp hr]
    exact ⟨staleName, staleRecord ip, rfl, hname, (staleRecord_stamped ip).publishable⟩
  have hcount : (answerRecords [(staleName, [staleRecord ip])]).length ≤ 65535 := by
    rw [hanswers, List.length_singleton]
    decide
  have hread := honly.bePacket_toBytes hall hcount
  have hdns : (staleResponse ip).dns =
      (Packet.answer 0 [(staleName, [staleRecord ip])]).toBytes := by
    rw [staleResponse, ResponseRecord.unsigned]
  rw [hdns]
  refine ⟨_, _, hread, ?_, ?_⟩
  · rfl
  · exact honly.answers.trans hanswers

/-- With the new content, no spelling of the name gives the old endpoint. -/
theorem staleResolver_answer {host : Name} {ttl : ℕ} :
    staleResolver.answer 2 host .all ≠ .ok ⟨staleCandidates 1, ttl⟩ := by
  intro hanswer
  by_cases hhost : host = staleName
  · have hnew : staleResolver.answer 2 staleName .all = .ok ⟨staleCandidates 2, 300⟩ := by
      decide +kernel
    rw [hhost, hnew] at hanswer
    injection hanswer with hanswer
    injection hanswer with hcandidates _
    exact absurd hcandidates (by decide)
  · obtain ⟨remain, p, hread, hremain, hanswers⟩ := staleResponse_read 2
    have habsent := decodeLookupResponse_absent () [] .all host rfl hread hremain
      (by rw [hanswers]; exact fun answer hmem heq => hhost (by
        rw [List.mem_singleton.mp hmem] at heq; exact heq.symm)) (by decide)
    have habsent' : staleResolver.answer 2 host .all = .error .noRecordFound := habsent
    rw [habsent'] at hanswer
    cases hanswer

/-- The second lookup begins after the publication has returned, and still gets the old record. -/
theorem stale_answer_after_publication :
    ¬ NoStaleAnswer staleResolver 1 (staleBefore ++ staleAfter) := by
  intro h
  obtain ⟨s, hs⟩ : ∃ s, staleResolver.run (H3State.initial 1) staleBefore = some s :=
    Option.isSome_iff_exists.mp (by decide +kernel)
  obtain ⟨t, ht⟩ : ∃ t, staleResolver.run (H3State.initial 1) (staleBefore ++ staleAfter) =
      some t := Option.isSome_iff_exists.mp (by decide +kernel)
  have hmid : (staleResolver.run (H3State.initial 1) staleBefore).map
      (fun s => (s.publishes 0, s.lookups 1)) = some (.returned staleName 1, .idle) := by
    decide +kernel
  have hend : (staleResolver.run (H3State.initial 1) (staleBefore ++ staleAfter)).map
      (fun t => (t.contents, t.lookups 1)) =
        some ([1, 2], .done staleName .all (staleCandidates 1)) := by
    decide +kernel
  rw [hs] at hmid
  rw [ht] at hend
  obtain ⟨hreturned, hidle⟩ := Prod.mk.inj (Option.some.inj hmid)
  obtain ⟨hcontents, hdone⟩ := Prod.mk.inj (Option.some.inj hend)
  rw [H3Resolver.run_append hs] at ht
  obtain ⟨fetched, hle, content, host, ttl, hcontent, _, hanswer⟩ := h staleBefore staleAfter s t 0
    staleName 1 1 staleName .all (staleCandidates 1) rfl hs hreturned hidle ht hdone
    (show Text.eqIgnoreAsciiCase _ _ = true by decide)
  rw [hcontents] at hcontent
  obtain ⟨hlt, hget⟩ := List.getElem?_eq_some_iff.mp hcontent
  simp only [List.length_cons, List.length_nil] at hlt
  obtain rfl : fetched = 1 := by omega
  obtain rfl : content = 2 := hget.symm
  exact staleResolver_answer hanswer

/-- The name is published, and then a lookup begins and is answered. -/
def freshEvents : List (H3Event UInt32) :=
  [.publishUpdate 0 staleName [.direct (.v4 ⟨2, 443⟩)] 2, .cacheInvalidate 0, .publishReturn 0,
    .lookupStart 1 staleName .all, .serverReply 1]

theorem no_stale_answer_of_fresh_inserts_freshEvents :
    NoStaleAnswer staleResolver 1 (freshEvents ++ [.cacheInsert 1]) ∧
      (staleResolver.run (H3State.initial 1) (freshEvents ++ [.cacheInsert 1])).map
        (fun t => (t.publishes 0, t.lookups 1)) =
          some (.returned staleName 1, .done staleName .all (staleCandidates 2)) := by
  refine ⟨no_stale_answer_of_fresh_inserts staleResolver 1 _ ?_, by decide +kernel⟩
  have hbefore : FreshRun staleResolver (H3State.initial 1) freshEvents :=
    freshRun_of_no_insert _ _ (by simp [freshEvents])
  refine hbefore.concat fun s hs => ?_
  have hmid : (staleResolver.run (H3State.initial 1) freshEvents).map
      (fun s => (s.lookups 1, s.version)) = some (.replied staleName .all 1 []
        (MultiResponse.encode ⟨[staleResponse 2]⟩), 1) := by decide +kernel
  rw [hs] at hmid
  obtain ⟨hreplied, hversion⟩ := Prod.mk.inj (Option.some.inj hmid)
  exact freshInsert_of_current ((staleResolver.invariant_initial 1).run hs hbefore) hreplied
    hversion.symm

end Sample

end Ddns
