import Ddns.H3.CacheHistory
import Ddns.H3.Resolver
import Ddns.H3.Response
import Ddns.Url

/-! A lookup over H3 from the name to the answer, with the requests that it sends. -/
namespace Ddns

/-- The name without a port behind it. -/
def hostOfHostname (hostname : Name) : Name :=
  ((Text.rsplitOnce ':' hostname).filter fun parts =>
    ':' ∉ parts.1 ∧ parts.2 ≠ [] ∧ Text.allDigits parts.2).elim hostname Prod.fst

/-- A name in `dhttp.net` ends in a letter, up to dots. -/
theorem last_of_isDhttpHost {host : Name} (h : isDhttpHost host = true) :
    ∃ c, (trimDots host).getLast? = some c ∧ c.toLower = 't' := by
  have hlast : (Text.toAsciiLowercase (trimDots host)).getLast? = some 't' := by
    rw [isDhttpHost, Bool.or_eq_true, decide_eq_true_iff, List.isSuffixOf_iff_suffix] at h
    rcases h with heq | ⟨before, hbefore⟩
    · rw [heq]
      rfl
    · rw [← hbefore]
      simp [dhttpSuffixText]
  rw [Text.toAsciiLowercase, List.getLast?_map, Option.map_eq_some_iff] at hlast
  exact hlast

theorem trimDots_of_last {name : Name} {c : Char} (h : c ≠ '.') :
    trimDots (name ++ [c]) = name ++ [c] := by
  rw [trimDots, Text.trimEndMatches, List.rdropWhile_concat_neg]
  simpa using h

theorem toLower_of_isDigit {c : Char} (h : c.isDigit = true) : c.toLower = c := by
  have hnine : c.val ≤ '9'.val := of_decide_eq_true (Bool.and_eq_true_iff.mp h).2
  refine dif_neg ?_
  rintro ⟨hupper, _⟩
  exact absurd (UInt32.le_trans hupper hnine) (by decide)

/-- So it is not a name with a sequence or a port. -/
theorem splitDigits_of_isDhttpHost {host : Name} (h : isDhttpHost host = true) :
    splitDigits host = none := by
  rw [Option.eq_none_iff_forall_ne_some]
  rintro ⟨before, digits⟩ hsplit
  obtain ⟨rfl, hne, hdigits⟩ := splitDigits_eq_some.mp hsplit
  obtain ⟨digits, d, rfl⟩ := (List.eq_nil_or_concat' digits).resolve_left hne
  have hd : d.isDigit = true := by
    rw [Text.allDigits, List.all_eq_true] at hdigits
    exact hdigits d (by simp)
  have hdot : d ≠ '.' := by
    rintro rfl
    exact absurd hd (by decide)
  obtain ⟨c, hlast, hlower⟩ := last_of_isDhttpHost h
  have htrim : trimDots (before ++ ':' :: (digits ++ [d])) = before ++ ':' :: digits ++ [d] := by
    rw [show before ++ ':' :: (digits ++ [d]) = before ++ ':' :: digits ++ [d] by simp]
    exact trimDots_of_last hdot
  rw [htrim, List.getLast?_concat] at hlast
  obtain rfl := Option.some.inj hlast
  rw [toLower_of_isDigit hd] at hlower
  rw [hlower] at hd
  exact absurd hd (by decide)

section Hostnames

variable [DhttpHome] [PkiTypes] {hostname host : Name} {sequence : Option CertificateSequence}

/-- A name that passes the test of the domain is looked up as the host that was tested. -/
theorem host_of_isDhttpHost (h : isDhttpHost (hostOfHostname hostname) = true)
    (hname : endpointLookupNameAndSequence hostname = some (host, sequence)) :
    host = hostOfHostname hostname := by
  have hresolvable : ∀ {name out : Name}, splitDigits name = none →
      resolvableName name = some out → out = name := by
    intro name out hnone hout
    simp only [resolvableName, hnone, Option.elim_none] at hout
    split at hout
    · exact (Option.some.inj hout).symm
    · cases hout
  cases hport : (Text.rsplitOnce ':' hostname).filter fun parts =>
      ':' ∉ parts.1 ∧ parts.2 ≠ [] ∧ Text.allDigits parts.2 with
  | none =>
    rw [hostOfHostname, hport, Option.elim_none] at h ⊢
    rw [endpointLookupNameAndSequence, splitDigits_of_isDhttpHost h] at hname
    obtain ⟨out, hout, heq⟩ := Option.map_eq_some_iff.mp hname
    cases heq
    exact hresolvable (splitDigits_of_isDhttpHost h) hout
  | some parts =>
    obtain ⟨before, digits⟩ := parts
    obtain ⟨hsplit, htest⟩ := Option.filter_eq_some_iff.mp hport
    obtain ⟨hcolon, hne, hdigits⟩ := of_decide_eq_true htest
    have hsome : splitDigits hostname = some (before, digits) :=
      splitDigits_eq_some.mpr ⟨(Text.rsplitOnce_eq_some.mp hsplit).1, hne, hdigits⟩
    rw [hostOfHostname, hport, Option.elim_some]
    simp only [endpointLookupNameAndSequence, hsome] at hname
    obtain ⟨_, _, hname⟩ := Option.bind_eq_some_iff.mp hname
    obtain ⟨out, hout, heq⟩ := Option.map_eq_some_iff.mp hname
    cases heq
    exact hresolvable (splitDigits_of_not_colon hcolon) hout

end Hostnames

section Attempts

variable {E : Type}

theorem not_inconclusive {reply : Reply E} {response : HeaderMap × List UInt8}
    (h : reply.conclude = .ok response) : ¬ reply.Inconclusive := by
  intro hinconclusive
  rw [Reply.conclude] at h
  cases hresponse : lookupResponse reply with
  | none =>
    rw [hresponse] at h
    cases h
  | some out =>
    obtain ⟨error, rfl, _⟩ := hinconclusive out hresponse
    rw [hresponse] at h
    cases h

/-- The attempt that a lookup returns in is the first one that settles it. -/
theorem last_unique {replies : ℕ → Reply E} {last last' : ℕ}
    {response : HeaderMap × List UInt8} (hbefore : ∀ i, 1 ≤ i → i < last → (replies i).Inconclusive)
    (hsettled : last < 3 → ¬ (replies last).Inconclusive) (hfirst : 1 ≤ last)
    (hbefore' : ∀ i, 1 ≤ i → i < last' → (replies i).Inconclusive) (hlast' : last' ≤ 3)
    (hfirst' : 1 ≤ last') (h : (replies last').conclude = .ok response) : last' = last := by
  rcases Nat.lt_trichotomy last' last with hlt | heq | hlt
  · exact absurd (hbefore last' hfirst' hlt) (not_inconclusive h)
  · exact heq
  · exact absurd (hbefore' last hfirst hlt) (hsettled (by omega))

end Attempts

/-- A resolver with the origin that it was built for. -/
structure H3Client [Crypto] [DhttpHome] (Content Source : Type) extends
    H3Resolver Content Source where
  serverOrigin : ServerOrigin true
  originHost_eq : originHost = serverOrigin.url.host

inductive H3LookupFailure (E : Type) where
  | lookup (error : H3LookupError)
  | request (error : H3RequestError E)
  deriving DecidableEq

/-- Whether the server or the resolver knows of no record, the failure is one. -/
def H3LookupFailure.ofRequest {E : Type} : H3RequestError E → H3LookupFailure E
  | .noRecordFound => .lookup .noRecordFound
  | error => .request error

namespace H3Client

variable [DhttpHome] [SubjectKey] [Crypto] [PkiTypes] {Content Source E : Type}

/-- A lookup from the end of its last attempt on. -/
def conclude (client : H3Client Content Source) (host : Name) (lookup : EndpointLookup) :
    Except (H3RequestError E) (HeaderMap × List UInt8) →
      Except (H3LookupFailure E) (EndpointCandidates Source)
  | .error error => .error (.ofRequest error)
  | .ok (headers, body) =>
    match decodeLookupResponse host lookup client.source headers body with
    | .error error => .error (.lookup (mapSemanticError error))
    | .ok answer => .ok answer.candidates

/-- The requests of a lookup and what comes of it, when `replies` are the replies to the attempts at
a URL. It gives nothing where the code would panic. -/
def lookupCandidates (client : H3Client Content Source) (s : H3State Content Source) (name : Name)
    (requested : EndpointLookup) (replies : Name → ℕ → Reply E) :
    Option (List Name × Except (H3LookupFailure E) (EndpointCandidates Source)) :=
  match (client.beginLookup s name requested).1 with
  | .asking host lookup =>
    let url := (lookupUrl client.serverOrigin.url host lookup).asStr
    (lookupResponseWithRetry (replies url)).map fun out =>
      (List.replicate out.1 url, client.conclude host lookup out.2)
  | .done _ _ candidates => some ([], .ok candidates)
  | .failed error => some ([], .error (.lookup error))
  | _ => none

/-- The records of a lookup. Names outside of `dhttp.net` are left to other resolvers. -/
def lookup (client : H3Client Content Source) (s : H3State Content Source) (hostname : Name)
    (family : Option Family) (replies : Name → ℕ → Reply E) :
    Option (List Name × Except (H3LookupFailure E) (List (Source × DquicEndpointAddr))) :=
  if isDhttpHost (hostOfHostname hostname) then
    (client.lookupCandidates s hostname (EndpointLookup.default.withFamily family) replies).map
      fun out => (out.1, out.2.map fun candidates =>
        candidates.groups.flatMap fun group => group.endpoints.map fun endpoint =>
          (client.source, endpoint))
  else some ([], .error (.lookup .noRecordFound))

section Begin

variable {client : H3Client Content Source} {s : H3State Content Source} {name host : Name}
  {requested : EndpointLookup} {sequence : Option CertificateSequence}

/-- The name is not the one of the server itself. -/
def Foreign (client : H3Client Content Source) (host : Name) : Prop :=
  ∀ origin, client.serverOrigin.url.host = some origin → ¬ SameName origin host

omit [SubjectKey] [PkiTypes] in
theorem foreign_iff :
    client.Foreign host ↔ (client.originHost.any fun origin =>
      Text.eqIgnoreAsciiCase (trimDots origin) (trimDots host)) = false := by
  rw [Foreign, client.originHost_eq]
  cases client.serverOrigin.url.host with
  | none => simp
  | some origin => simp [SameName]

omit [SubjectKey] in
theorem beginLookup_of_accepted
    (hname : endpointLookupNameAndSequence name = some (host, sequence)) :
    (client.beginLookup s name requested).1 =
      if (client.originHost.any fun origin =>
          Text.eqIgnoreAsciiCase (trimDots origin) (trimDots host)) then .failed .noRecordFound
      else
        (s.cache.get s.now (LookupKey.new host (exactOverride requested sequence))).1.elim
          (.asking host (exactOverride requested sequence))
          (.done host (exactOverride requested sequence)) := by
  simp only [H3Resolver.beginLookup, hname]
  split
  · rfl
  · rcases s.cache.get s.now (LookupKey.new host (exactOverride requested sequence)) with
      ⟨_ | candidates, cache⟩
    · rfl
    · rfl

/-- What a lookup comes to: a failure without a request, an answer from the cache without one, or
the answer to at most three requests with one URL. -/
theorem lookupCandidates_cases (client : H3Client Content Source) (s : H3State Content Source)
    (name : Name) (requested : EndpointLookup) (replies : Name → ℕ → Reply E) :
    (∃ error, client.lookupCandidates s name requested replies = some ([], .error (.lookup error)) ∧
        ∀ host sequence, endpointLookupNameAndSequence name = some (host, sequence) →
          ¬ client.Foreign host) ∨
      ∃ host sequence lookup, endpointLookupNameAndSequence name = some (host, sequence) ∧
        client.Foreign host ∧ lookup = exactOverride requested sequence ∧
        ((∃ candidates, (s.cache.get s.now (LookupKey.new host lookup)).1 = some candidates ∧
            client.lookupCandidates s name requested replies = some ([], .ok candidates)) ∨
          ((s.cache.get s.now (LookupKey.new host lookup)).1 = none ∧
            ∃ url last, url = (lookupUrl client.serverOrigin.url host lookup).asStr ∧
              1 ≤ last ∧ last ≤ 3 ∧ (∀ i, 1 ≤ i → i < last → (replies url i).Inconclusive) ∧
              (last < 3 → ¬ (replies url last).Inconclusive) ∧
              client.lookupCandidates s name requested replies =
                some (List.replicate last url,
                  client.conclude host lookup (replies url last).conclude))) := by
  cases hname : endpointLookupNameAndSequence name with
  | none =>
    refine Or.inl ⟨.invalidName, ?_, ?_⟩
    · simp only [lookupCandidates, H3Resolver.beginLookup, hname]
    · intro host sequence hsome
      cases hsome
  | some parts =>
    obtain ⟨host, sequence⟩ := parts
    have hbegin : (client.beginLookup s name requested).1 = _ := beginLookup_of_accepted hname
    by_cases hforeign : client.Foreign host
    · rw [foreign_iff.mp hforeign, if_neg Bool.false_ne_true] at hbegin
      refine Or.inr ⟨host, sequence, _, rfl, hforeign, rfl, ?_⟩
      generalize exactOverride requested sequence = lookup at hbegin ⊢
      cases hcached : (s.cache.get s.now (LookupKey.new host lookup)).1 with
      | none =>
        rw [hcached, Option.elim_none] at hbegin
        obtain ⟨last, hfirst, hlast, hbefore, hsettled, hout⟩ :=
          @lookupAttempts_spec E (replies (lookupUrl client.serverOrigin.url host lookup).asStr)
            lookupRequestAttempts 1 rfl (by decide)
        refine Or.inr ⟨rfl, _, last, rfl, hfirst, hlast, hbefore, hsettled, ?_⟩
        rw [lookupCandidates, hbegin]
        simp only [lookupResponseWithRetry, hout, Option.map_some]
      | some candidates =>
        rw [hcached, Option.elim_some] at hbegin
        refine Or.inl ⟨candidates, rfl, ?_⟩
        rw [lookupCandidates, hbegin]
    · rw [if_pos (Bool.eq_true_of_not_eq_false fun h => hforeign (foreign_iff.mpr h))] at hbegin
      refine Or.inl ⟨.noRecordFound, ?_, ?_⟩
      · rw [lookupCandidates, hbegin]
      · intro host' sequence' hsome
        cases hsome
        exact hforeign

end Begin

section Lookups

variable (client : H3Client Content Source) (s : H3State Content Source)
  (replies : Name → ℕ → Reply E)

/-- Whatever a resolver is asked for, it sends at most three requests, all to the origin that it was
built for, and only for a name in `dhttp.net` that the cache has no fresh answer for. The name of
its own server is never asked for. The query reads as the host and, where the name has one, the
sequence. -/
theorem lookup_asks_for_dhttp_names_only (hostname : Name) (family : Option Family) :
    ∃ requests result, client.lookup s hostname family replies = some (requests, result) ∧
      requests.length ≤ 3 ∧
      ∀ text ∈ requests, ∃ host sequence query,
        endpointLookupNameAndSequence hostname = some (host, sequence) ∧
        isDhttpHost host = true ∧ client.Foreign host ∧
        (s.cache.get s.now (LookupKey.new host
          (exactOverride (EndpointLookup.default.withFamily family) sequence))).1 = none ∧
        text = client.serverOrigin.url.asciiSerialization ++ lookupApiPath ++ '?' :: query ∧
        FormUrlencoded.parse query =
          (hostText, host) :: sequencePairs (sequence.elim .default .exact) := by
  rw [lookup]
  by_cases hdhttp : isDhttpHost (hostOfHostname hostname) = true
  · rw [if_pos hdhttp]
    rcases client.lookupCandidates_cases s hostname (EndpointLookup.default.withFamily family)
      replies with ⟨error, hout, _⟩ | ⟨host, sequence, lookup, hname, hforeign, rfl, hcases⟩
    · rw [hout]
      exact ⟨[], _, rfl, by simp, by simp⟩
    · rcases hcases with ⟨candidates, _, hout⟩ | ⟨hmissing, url, last, rfl, _, hlast, _, _, hout⟩
      · rw [hout]
        exact ⟨[], _, rfl, by simp, by simp⟩
      · rw [hout]
        refine ⟨_, _, rfl, by simpa using hlast, ?_⟩
        intro text htext
        obtain rfl := List.eq_of_mem_replicate htext
        obtain ⟨query, hurl, hquery⟩ := asStr_lookupUrl client.serverOrigin host
          (exactOverride (EndpointLookup.default.withFamily family) sequence)
        refine ⟨host, sequence, query, hname, ?_, hforeign, hmissing, hurl, ?_⟩
        · rw [host_of_isDhttpHost hdhttp hname]
          exact hdhttp
        · rw [hquery]
          cases sequence with
          | none => rfl
          | some sequence => rfl
  · rw [if_neg hdhttp]
    exact ⟨[], _, rfl, by simp, by simp⟩

omit [PkiTypes] in
theorem answered_iff {client : H3Client Content Source} {host : Name} {lookup : EndpointLookup}
    {out : Except (H3RequestError E) (HeaderMap × List UInt8)}
    {candidates : EndpointCandidates Source} :
    client.conclude host lookup out = .ok candidates ↔
      ∃ headers body answer, out = .ok (headers, body) ∧
        decodeLookupResponse host lookup client.source headers body = .ok answer ∧
        candidates = answer.candidates := by
  constructor
  · intro h
    rcases out with error | ⟨headers, body⟩
    · cases h
    · rw [conclude] at h
      split at h
      · cases h
      · rename_i answer hanswer
        cases h
        exact ⟨headers, body, answer, rfl, hanswer, rfl⟩
  · rintro ⟨headers, body, answer, rfl, hanswer, rfl⟩
    simp only [conclude, hanswer]

/-- When a lookup gives candidates: exactly when its name is one that can be looked up here, and
they are in the cache or are decoded from the first reply that is conclusive, within three attempts,
and that delivers its body whole. -/
theorem lookupCandidates_ok_iff (name : Name) (requested : EndpointLookup)
    (candidates : EndpointCandidates Source) :
    (∃ requests, client.lookupCandidates s name requested replies = some (requests, .ok candidates)) ↔
      ∃ host sequence lookup, endpointLookupNameAndSequence name = some (host, sequence) ∧
        client.Foreign host ∧ lookup = exactOverride requested sequence ∧
        ((s.cache.get s.now (LookupKey.new host lookup)).1 = some candidates ∨
          (s.cache.get s.now (LookupKey.new host lookup)).1 = none ∧
            ∃ url last headers body answer,
              url = (lookupUrl client.serverOrigin.url host lookup).asStr ∧
              1 ≤ last ∧ last ≤ 3 ∧ (∀ i, 1 ≤ i → i < last → (replies url i).Inconclusive) ∧
              (replies url last).Delivers headers body ∧ body.ended = true ∧
              decodeLookupResponse host lookup client.source headers body.content = .ok answer ∧
              candidates = answer.candidates) := by
  constructor
  · rintro ⟨requests, hout⟩
    rcases client.lookupCandidates_cases s name requested replies with
      ⟨error, herror, _⟩ | ⟨host, sequence, lookup, hname, hforeign, hlookup, hcases⟩
    · rw [herror] at hout
      cases hout
    · refine ⟨host, sequence, lookup, hname, hforeign, hlookup, ?_⟩
      rcases hcases with ⟨cached, hcached, hok⟩ | ⟨hmissing, url, last, hurl, hfirst, hlast, hbefore,
        _, hasked⟩
      · rw [hok] at hout
        cases hout
        exact Or.inl hcached
      · rw [hasked] at hout
        obtain ⟨headers, bytes, answer, hconclude, hanswer, hsame⟩ :=
          answered_iff.mp (Prod.mk.inj (Option.some.inj hout)).2
        obtain ⟨body, hdelivers, hended, rfl⟩ := conclude_ok_iff.mp hconclude
        exact Or.inr ⟨hmissing, url, last, headers, body, answer, hurl, hfirst, hlast, hbefore,
          hdelivers, hended, hanswer, hsame⟩
  · rintro ⟨host, sequence, lookup, hname, hforeign, hlookup, hanswer⟩
    rcases client.lookupCandidates_cases s name requested replies with
      ⟨_, _, hown⟩ | ⟨host', sequence', lookup', hname', _, hlookup', hcases⟩
    · exact absurd hforeign (hown host sequence hname)
    · obtain ⟨rfl, rfl⟩ := Prod.mk.inj (Option.some.inj (hname.symm.trans hname'))
      obtain rfl : lookup = lookup' := hlookup.trans hlookup'.symm
      rcases hcases with ⟨cached, hcached, hok⟩ | ⟨hmissing, url', last', hurl', hfirst', hlast',
        hbefore', hsettled', hasked⟩
      · rcases hanswer with hsame | ⟨hmissing, _⟩
        · rw [hcached] at hsame
          cases hsame
          exact ⟨[], hok⟩
        · rw [hcached] at hmissing
          cases hmissing
      · rcases hanswer with hcached | ⟨_, url, last, headers, body, answer, hurl, hfirst, hlast,
          hbefore, hdelivers, hended, hdecode, hsame⟩
        · rw [hcached] at hmissing
          cases hmissing
        · obtain rfl : url = url' := hurl.trans hurl'.symm
          have hconclude := conclude_ok_iff.mpr ⟨body, hdelivers, hended, rfl⟩
          obtain rfl :=
            last_unique hbefore' hsettled' hfirst' hbefore hlast hfirst hconclude
          refine ⟨List.replicate last url, ?_⟩
          rw [hasked, answered_iff.mpr ⟨headers, body.content, answer, hconclude, hdecode, hsame⟩]

end Lookups

end H3Client

section Sample

attribute [local instance] plainHome plainCrypto plainSubjectKey plainPki

/-- A client of `https://n/`. -/
def requestClient : H3Client Unit Unit where
  originHost := some ['n']
  identity := none
  source := ()
  serve _ _ _ := ([], [])
  serverOrigin := ⟨⟨httpsText, [], none, some ['n'], none, ['/'], none, none⟩, rfl⟩
  originHost_eq := rfl

/-- The name `a.dhttp.net` -/
def requestHost : Name := 'a' :: dhttpSuffixText

/-- The first attempt gets no reply, and the second one gets a record with one endpoint. -/
def requestReplies (_ : Name) (attempt : ℕ) : Reply Unit :=
  if attempt = 1 then .silent
  else .response 200 [] ⟨[.ok (.data (MultiResponse.encode ⟨[.unsigned (Packet.answer 0
    [(requestHost, [((EndpointAddr.directV4 ⟨0x0A000001, 443⟩).setMain true
      ).setSequence (.ofU8 7)])]).toBytes []]⟩))], true⟩

example : (requestClient.lookup (.initial ()) requestHost none requestReplies).map
    (fun out => (out.1.length, out.2)) =
      some (2, .ok [((), .direct (.v4 ⟨0x0A000001, 443⟩))]) := by decide +kernel

end Sample

end Ddns
