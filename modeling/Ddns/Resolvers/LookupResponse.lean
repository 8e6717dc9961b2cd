import Ddns.Api
import Ddns.Library.Grouping

/-! The records of a response and how they are filtered, grouped and selected. -/
namespace Ddns

open Nom BigEndian

section Kept

/-- What is kept are the first occurrences, less what was seen before. -/
theorem unseen_map_snd {T : Type} (seen : List DquicEndpointAddr)
    (items : List (T × DquicEndpointAddr)) :
    (unseen seen items).map Prod.snd =
      ((items.map Prod.snd).filter fun e => decide (e ∉ seen)).eraseDups := by
  induction items generalizing seen with
  | nil => rfl
  | cons item items ih =>
    rw [unseen, List.map_cons, List.filter_cons]
    by_cases hs : item.2 ∈ seen
    · rw [if_pos hs, if_neg (by simpa using hs)]
      exact ih seen
    · rw [if_neg hs, if_pos (by simpa using hs), List.map_cons, ih, List.eraseDups_cons,
        List.filter_filter]
      congr 3
      funext e
      by_cases he : e = item.2
      · simp [he]
      · simp [he]

theorem unseen_sublist {T : Type} (seen : List DquicEndpointAddr)
    (items : List (T × DquicEndpointAddr)) : (unseen seen items).Sublist items := by
  induction items generalizing seen with
  | nil => exact List.Sublist.refl _
  | cons item items ih =>
    rw [unseen]
    split
    · exact (ih seen).cons item
    · exact (ih (item.2 :: seen)).cons_cons item

theorem min_ttl (a b : UInt32) : (min a b = a ∨ min a b = b) ∧ min a b ≤ a ∧ min a b ≤ b := by
  have hmin : min a b = if a ≤ b then a else b := rfl
  rw [hmin]
  by_cases h : a ≤ b
  · rw [if_pos h]
    exact ⟨.inl rfl, UInt32.le_refl a, h⟩
  · rw [if_neg h]
    exact ⟨.inr rfl, UInt32.le_of_lt (UInt32.not_le.mp h), UInt32.le_refl b⟩

/-- The smallest time to live is one of them, and none is smaller. -/
theorem foldl_minTtl_some (start : UInt32) (ttls : List UInt32) :
    ∃ ttl, ttls.foldl minTtl (some start) = some ttl ∧ ttl ∈ start :: ttls ∧
      ∀ t ∈ start :: ttls, ttl ≤ t := by
  induction ttls generalizing start with
  | nil => exact ⟨start, rfl, List.mem_cons_self, by simp⟩
  | cons t ttls ih =>
    obtain ⟨hchoice, hleft, hright⟩ := min_ttl start t
    obtain ⟨ttl, hfold, hmem, hle⟩ := ih (min start t)
    refine ⟨ttl, hfold, ?_, ?_⟩
    · rcases List.mem_cons.mp hmem with rfl | hmem
      · rcases hchoice with h | h <;> rw [h] <;> simp
      · exact List.mem_cons_of_mem _ (List.mem_cons_of_mem _ hmem)
    · have hmin := hle (min start t) List.mem_cons_self
      intro t' ht'
      rcases List.mem_cons.mp ht' with rfl | ht'
      · exact UInt32.le_trans hmin hleft
      rcases List.mem_cons.mp ht' with rfl | ht'
      · exact UInt32.le_trans hmin hright
      · exact hle t' (List.mem_cons_of_mem _ ht')

theorem foldl_minTtl {ttls : List UInt32} (h : ttls ≠ []) :
    ∃ ttl, ttls.foldl minTtl none = some ttl ∧ ttl ∈ ttls ∧ ∀ t ∈ ttls, ttl ≤ t := by
  obtain ⟨start, rest, rfl⟩ := List.exists_cons_of_ne_nil h
  exact foldl_minTtl_some start rest

/-- What is kept of a chain: the first record of each endpoint, up to the limit. -/
def keptRecords {T : Type} (limit : Option ℕ+) (items : List (T × DquicEndpointAddr)) :
    List (T × DquicEndpointAddr) :=
  takeLimit limit (unseen [] items)

/-- A record that is kept is the first one of its endpoint. -/
theorem find?_of_mem_unseen {T : Type} {seen : List DquicEndpointAddr}
    {items : List (T × DquicEndpointAddr)} {item : T × DquicEndpointAddr}
    (h : item ∈ unseen seen items) :
    item.2 ∉ seen ∧ items.find? (fun x => x.2 = item.2) = some item := by
  induction items generalizing seen with
  | nil => cases h
  | cons first items ih =>
    rw [unseen] at h
    by_cases hs : first.2 ∈ seen
    · rw [if_pos hs] at h
      obtain ⟨hnew, hfind⟩ := ih h
      have hne : first.2 ≠ item.2 := by
        intro heq
        rw [heq] at hs
        exact hnew hs
      refine ⟨hnew, ?_⟩
      rw [List.find?_cons_of_neg (by simpa using hne), hfind]
    · rw [if_neg hs] at h
      rcases List.mem_cons.mp h with rfl | h
      · exact ⟨hs, List.find?_cons_of_pos (by simp)⟩
      · obtain ⟨hnew, hfind⟩ := ih h
        rw [List.mem_cons, not_or] at hnew
        refine ⟨hnew.2, ?_⟩
        rw [List.find?_cons_of_neg (by simpa using Ne.symm hnew.1), hfind]

theorem takeLimit_sublist {T : Type} (limit : Option ℕ+) (items : List T) :
    (takeLimit limit items).Sublist items := by
  cases limit with
  | none => exact List.Sublist.refl items
  | some count => exact List.take_sublist count items

theorem unseen_nodup {T : Type} (seen : List DquicEndpointAddr)
    (items : List (T × DquicEndpointAddr)) : ((unseen seen items).map Prod.snd).Nodup := by
  induction items generalizing seen with
  | nil => exact List.nodup_nil
  | cons first items ih =>
    rw [unseen]
    split
    · exact ih seen
    · refine List.nodup_cons.mpr ⟨?_, ih _⟩
      intro hmem
      obtain ⟨item, hitem, heq⟩ := List.mem_map.mp hmem
      have hnew := (find?_of_mem_unseen hitem).1
      rw [heq] at hnew
      exact hnew List.mem_cons_self

/-- The endpoints that are kept: at most as many as allowed, none twice, all of them without a
limit. -/
theorem keptRecords_spec {T : Type} (limit : Option ℕ+) (items : List (T × DquicEndpointAddr)) :
    ((keptRecords limit items).map Prod.snd).Nodup ∧
      (∀ item ∈ keptRecords limit items, items.find? (fun x => x.2 = item.2) = some item) ∧
      (∀ count ∈ limit, (keptRecords limit items).length ≤ count) ∧
      (limit = none → ∀ item ∈ items, item.2 ∈ (keptRecords limit items).map Prod.snd) ∧
      (items ≠ [] → keptRecords limit items ≠ []) := by
  have hsub := takeLimit_sublist limit (unseen [] items)
  refine ⟨(hsub.map Prod.snd).nodup (unseen_nodup [] items), ?_, ?_, ?_, ?_⟩
  · intro item hitem
    exact (find?_of_mem_unseen (hsub.subset hitem)).2
  · rintro count hcount
    obtain rfl := Option.mem_def.mp hcount
    exact List.length_take_le count (unseen [] items)
  · rintro rfl item hitem
    show item.2 ∈ (unseen [] items).map Prod.snd
    rw [unseen_map_snd, List.mem_eraseDups]
    exact List.mem_filter.mpr ⟨List.mem_map_of_mem hitem, by simp⟩
  · intro hne
    obtain ⟨first, rest, rfl⟩ := List.exists_cons_of_ne_nil hne
    have hfirst : unseen [] (first :: rest) = first :: unseen [first.2] rest := by
      rw [unseen, if_neg List.not_mem_nil]
    rw [keptRecords, hfirst]
    cases limit with
    | none => exact List.cons_ne_nil _ _
    | some count =>
      intro hnil
      rcases List.take_eq_nil_iff.mp hnil with hzero | hcons
      · exact count.ne_zero hzero
      · cases hcons

end Kept

section Groups

variable [DhttpHome] {T : Type}

/-- A candidate with the chain and the endpoint it counts for, if it is usable. -/
def TaggedEndpointCandidate.usable (candidate : TaggedEndpointCandidate T) :
    Option (CertificateChainKey × (T × DquicEndpointAddr)) :=
  if isPrimaryChainKey (effectiveChainKey candidate.record candidate.fallbackChainKey) then
    (DquicEndpointAddr.tryFrom candidate.record).map fun endpoint =>
      (effectiveChainKey candidate.record candidate.fallbackChainKey, (candidate.tag, endpoint))
  else none

theorem usable_eq_some {candidate : TaggedEndpointCandidate T} {chain : CertificateChainKey}
    {tag : T} {endpoint : DquicEndpointAddr} :
    candidate.usable = some (chain, (tag, endpoint)) ↔
      candidate.Usable chain endpoint ∧ candidate.tag = tag := by
  unfold TaggedEndpointCandidate.usable
  constructor
  · intro h
    split at h
    · rename_i hprimary
      obtain ⟨found, hfound, heq⟩ := Option.map_eq_some_iff.mp h
      rw [Prod.mk.injEq, Prod.mk.injEq] at heq
      obtain ⟨rfl, rfl, rfl⟩ := heq
      exact ⟨⟨rfl, hprimary, hfound⟩, rfl⟩
    · cases h
  · rintro ⟨⟨rfl, hprimary, hconverts⟩, rfl⟩
    rw [if_pos hprimary, hconverts, Option.map_some]

theorem pushEndpoint_eq (chainKey : CertificateChainKey) (item : T × DquicEndpointAddr)
    (groups : EndpointCandidateGroups T) :
    pushEndpoint chainKey item groups = Grouping.push chainKey item groups := by
  induction groups with
  | nil => rfl
  | cons group groups ih => rw [pushEndpoint, Grouping.push, ih]

theorem addCandidate_eq (groups : EndpointCandidateGroups T)
    (candidate : TaggedEndpointCandidate T) :
    addCandidate groups candidate =
      candidate.usable.elim groups fun x => Grouping.push x.1 x.2 groups := by
  unfold addCandidate TaggedEndpointCandidate.usable
  dsimp only
  split
  · split
    · rename_i hnone
      rw [hnone]
      rfl
    · rename_i endpoint hsome
      rw [hsome, pushEndpoint_eq]
      rfl
  · rfl

/-- Only the usable candidates are grouped. -/
theorem groupedEndpointCandidates_eq (candidates : List (TaggedEndpointCandidate T)) :
    groupedEndpointCandidates candidates =
      Grouping.group (candidates.filterMap TaggedEndpointCandidate.usable) := by
  have hfold : ∀ groups, candidates.foldl addCandidate groups =
      (candidates.filterMap TaggedEndpointCandidate.usable).foldl
        (fun groups x => Grouping.push x.1 x.2 groups) groups := by
    induction candidates with
    | nil =>
      intro groups
      exact rfl
    | cons candidate candidates ih =>
      intro groups
      rw [List.foldl_cons, addCandidate_eq, ih, List.filterMap_cons]
      cases candidate.usable <;> rfl
  exact hfold []

/-- The groups are those of the usable candidates. -/
theorem grouped_groupsOf (candidates : List (TaggedEndpointCandidate T)) :
    Grouping.GroupsOf (candidates.filterMap TaggedEndpointCandidate.usable)
      (groupedEndpointCandidates candidates) := by
  rw [groupedEndpointCandidates_eq]
  exact Grouping.groupsOf_group _

variable {us : List (CertificateChainKey × (T × DquicEndpointAddr))}
  {groups : EndpointCandidateGroups T}

/-- What the selection keeps of the usable records `us`: for some of the chains the items of the
wanted family, in the order of the first records of any family. -/
structure SelectedFrom (us : List (CertificateChainKey × (T × DquicEndpointAddr)))
    (family : Option Family) (groups : EndpointCandidateGroups T) : Prop where
  items : ∀ g ∈ groups, g.2 =
    (us.filter fun u => u.1 = g.1 ∧ endpointMatchesFamily u.2.2 family).map Prod.snd
  nonempty : ∀ g ∈ groups, g.2 ≠ []
  order : groups.Pairwise fun g h =>
    (us.map Prod.fst).idxOf g.1 < (us.map Prod.fst).idxOf h.1

theorem SelectedFrom.sublist {family : Option Family} (h : SelectedFrom us family groups)
    {groups' : EndpointCandidateGroups T} (hsub : groups'.Sublist groups) :
    SelectedFrom us family groups' :=
  ⟨fun g hg => h.items g (hsub.subset hg), fun g hg => h.nonempty g (hsub.subset hg),
    h.order.sublist hsub⟩

theorem selectGroupPairs_sublist {A : Type} (groups : List (CertificateChainKey × A))
    (query : SequenceQuery) : (selectGroupPairs groups query).Sublist groups := by
  cases query with
  | default => exact List.take_sublist 3 groups
  | exact sequence => exact List.filter_sublist
  | limit count => exact List.take_sublist count groups
  | all => exact List.Sublist.refl groups

/-- The filter by family keeps the order of the chains, and every chain with a wanted record. -/
theorem filterGroups_selected (h : Grouping.GroupsOf us groups) (family : Option Family) :
    SelectedFrom us family (filterEndpointCandidateGroups groups family) ∧
      ∀ u ∈ us, endpointMatchesFamily u.2.2 family = true →
        ∃ g ∈ filterEndpointCandidateGroups groups family, g.1 = u.1 := by
  unfold filterEndpointCandidateGroups
  cases family with
  | none =>
    have hall : ∀ k, (us.filter fun u => decide (u.1 = k ∧ endpointMatchesFamily u.2.2 none)) =
        us.filter fun u => u.1 = k := by
      intro k
      simp [endpointMatchesFamily]
    rw [Option.isSome_none, if_neg Bool.false_ne_true]
    refine ⟨⟨?_, ?_, h.order⟩, ?_⟩
    · intro g hg
      rw [hall, ← h.items g hg]
    · intro g hg
      obtain ⟨u, hu, hk⟩ := List.mem_map.mp ((h.keys g.1).mp (List.mem_map_of_mem hg))
      rw [h.items g hg]
      refine List.ne_nil_of_mem (List.mem_map_of_mem (List.mem_filter.mpr ⟨hu, ?_⟩))
      exact decide_eq_true hk
    · intro u hu _
      obtain ⟨g, hg, hk⟩ := List.mem_map.mp ((h.keys u.1).mpr (List.mem_map_of_mem hu))
      exact ⟨g, hg, hk⟩
  | some family =>
    rw [Option.isSome_some, if_pos rfl]
    have hitems : ∀ g ∈ groups,
        g.2.filter (fun item => endpointMatchesFamily item.2 (some family)) =
          (us.filter fun u => u.1 = g.1 ∧ endpointMatchesFamily u.2.2 (some family)).map Prod.snd := by
      intro g hg
      rw [h.items g hg, List.filter_map, List.filter_filter]
      congr 2
      funext u
      simp [Bool.and_comm]
    refine ⟨⟨?_, ?_, ?_⟩, ?_⟩
    · intro g hg
      obtain ⟨hmem, _⟩ := List.mem_filter.mp hg
      obtain ⟨before, hbefore, rfl⟩ := List.mem_map.mp hmem
      exact hitems before hbefore
    · intro g hg hnil
      obtain ⟨_, hne⟩ := List.mem_filter.mp hg
      rw [hnil] at hne
      cases hne
    · refine List.Pairwise.filter _ ?_
      rw [List.pairwise_map]
      exact h.order
    · intro u hu hfamily
      obtain ⟨g, hg, hk⟩ := List.mem_map.mp ((h.keys u.1).mpr (List.mem_map_of_mem hu))
      refine ⟨_, List.mem_filter.mpr ⟨List.mem_map_of_mem hg, ?_⟩, hk⟩
      have hmem : u.2 ∈ g.2.filter fun item => endpointMatchesFamily item.2 (some family) := by
        rw [hitems g hg]
        refine List.mem_map_of_mem (List.mem_filter.mpr ⟨hu, ?_⟩)
        exact decide_eq_true ⟨hk.symm, hfamily⟩
      have hne := List.ne_nil_of_mem hmem
      simpa using hne

/-- The loop over groups that all have items keeps each of them. -/
theorem collectGroups_eq {Source : Type} (source : Source) (limit : Option ℕ+)
    {groups : EndpointCandidateGroups UInt32} (hne : ∀ g ∈ groups, g.2 ≠ []) (ttl : Option UInt32) :
    collectGroups source limit groups ttl =
      ((groups.flatMap fun g => (keptRecords limit g.2).map Prod.fst).foldl minTtl ttl,
        groups.map fun g => ⟨g.1, (keptRecords limit g.2).map Prod.snd, [source]⟩) := by
  induction groups generalizing ttl with
  | nil => rfl
  | cons g groups ih =>
    have hkept := (keptRecords_spec limit g.2).2.2.2.2 (hne g List.mem_cons_self)
    have hmap : (takeLimit limit (unseen [] g.2)).map Prod.snd ≠ [] :=
      fun hnil => hkept (List.map_eq_nil_iff.mp hnil)
    rw [collectGroups, if_neg hmap, ih fun g' hg' => hne g' (List.mem_cons_of_mem _ hg'),
      List.flatMap_cons, List.foldl_append, List.map_cons]
    rfl

end Groups

section Responses

variable [DhttpHome] [SubjectKey] [Crypto]

/-- Not refused for its signature: it has none, or it verifies against its own certificate. -/
def ResponseRecord.accepted (response : ResponseRecord) : Bool :=
  response.signatureFields.isEmpty ∨
    response.signatureFields.verify response.dns response.cert = .ok true

/-- The answers of the packet that a response carries. -/
def ResponseRecord.answers (response : ResponseRecord) : List ResourceRecord :=
  match bePacket (wholeSlice response.dns) with
  | .ok _ packet => packet.answers
  | .err _ => []

/-- An accepted response answers the name with this endpoint for the chain. -/
def Answered (name : Name) (records : List ResponseRecord) (chain : CertificateChainKey)
    (ttl : UInt32) (endpoint : DquicEndpointAddr) : Prop :=
  ∃ response ∈ records, response.accepted = true ∧ ∃ answer ∈ response.answers,
    answer.name = name ∧ answer.ttl = ttl ∧ ∃ record, answer.data = .e record ∧
      effectiveChainKey record response.publisherCertificateChainKey = chain ∧
      DquicEndpointAddr.tryFrom record = some endpoint

/-- The candidates of the accepted responses, in the order of the wire. -/
def acceptedCandidates (name : Name) (records : List ResponseRecord) :
    List (TaggedEndpointCandidate UInt32) :=
  (records.filter ResponseRecord.accepted).flatMap fun response =>
    answerCandidates name response.publisherCertificateChainKey response.answers

/-- The usable ones among them. -/
def usableRecords (name : Name) (records : List ResponseRecord) :
    List (CertificateChainKey × (UInt32 × DquicEndpointAddr)) :=
  (acceptedCandidates name records).filterMap TaggedEndpointCandidate.usable

omit [SubjectKey] [Crypto] in
theorem mem_answerCandidates {name : Name} {fallback : Option CertificateChainKey}
    {answers : List ResourceRecord} {candidate : TaggedEndpointCandidate UInt32} :
    candidate ∈ answerCandidates name fallback answers ↔
      ∃ answer ∈ answers, answer.name = name ∧
        ∃ record, answer.data = .e record ∧ candidate = ⟨answer.ttl, record, fallback⟩ := by
  rw [answerCandidates, List.mem_filterMap]
  constructor
  · rintro ⟨answer, hanswer, h⟩
    refine ⟨answer, hanswer, ?_⟩
    split at h
    · rename_i record hdata
      split at h
      · rename_i hname
        exact ⟨hname, record, hdata, (Option.some_inj.mp h).symm⟩
      · cases h
    · cases h
  · rintro ⟨answer, hanswer, hname, record, hdata, rfl⟩
    refine ⟨answer, hanswer, ?_⟩
    rw [hdata]
    exact if_pos hname

theorem mem_usableRecords {name : Name} {records : List ResponseRecord}
    {chain : CertificateChainKey} {ttl : UInt32} {endpoint : DquicEndpointAddr} :
    (chain, (ttl, endpoint)) ∈ usableRecords name records ↔
      Answered name records chain ttl endpoint ∧ isPrimaryChainKey chain = true := by
  rw [usableRecords, List.mem_filterMap]
  constructor
  · rintro ⟨candidate, hmem, husable⟩
    obtain ⟨response, hresponse, hcandidate⟩ := List.mem_flatMap.mp hmem
    obtain ⟨hin, haccepted⟩ := List.mem_filter.mp hresponse
    obtain ⟨answer, hanswer, hname, record, hdata, rfl⟩ := mem_answerCandidates.mp hcandidate
    obtain ⟨⟨hkey, hprimary, hconverts⟩, htag⟩ := usable_eq_some.mp husable
    exact ⟨⟨response, hin, haccepted, answer, hanswer, hname, htag, record, hdata, hkey, hconverts⟩,
      hprimary⟩
  · rintro ⟨⟨response, hin, haccepted, answer, hanswer, hname, htag, record, hdata, hkey,
      hconverts⟩, hprimary⟩
    refine ⟨⟨answer.ttl, record, response.publisherCertificateChainKey⟩, ?_, ?_⟩
    · refine List.mem_flatMap.mpr ⟨response, List.mem_filter.mpr ⟨hin, haccepted⟩, ?_⟩
      exact mem_answerCandidates.mpr ⟨answer, hanswer, hname, record, hdata, rfl⟩
    · exact usable_eq_some.mpr ⟨⟨hkey, hprimary, hconverts⟩, htag⟩

/-- A refused record is counted and skipped. -/
theorem decodeRecords_refused (name : Name) {response : ResponseRecord}
    (rest : List ResponseRecord) (h : response.accepted = false) :
    decodeRecords name (response :: rest) =
      (decodeRecords name rest).map fun out => (out.1, out.2 + 1) := by
  have hnot := of_decide_eq_false h
  rw [not_or] at hnot
  rw [decodeRecords, if_pos hnot]

/-- The candidates of one response that is not refused. -/
def responseCandidates (name : Name) (response : ResponseRecord) :
    Except LookupDecodeError (List (TaggedEndpointCandidate UInt32)) :=
  match bePacket (wholeSlice response.dns) with
  | .err source => .error (.parseRecords (ownedErr source))
  | .ok remain packet =>
    if remain.bytes ≠ [] then .error .multiResponse
    else .ok (answerCandidates name response.publisherCertificateChainKey packet.answers)

theorem decodeRecords_taken (name : Name) {response : ResponseRecord}
    (rest : List ResponseRecord) (h : response.accepted = true) :
    decodeRecords name (response :: rest) =
      (responseCandidates name response).bind fun candidates =>
        (decodeRecords name rest).map fun out => (candidates ++ out.1, out.2) := by
  have hor := of_decide_eq_true h
  rw [decodeRecords, if_neg (by rw [not_and_or, not_not, not_not]; exact hor), responseCandidates]
  cases bePacket (wholeSlice response.dns) with
  | err source => rfl
  | ok remain packet =>
    dsimp only
    split <;> rfl

omit [Crypto] in
theorem responseCandidates_ok {name : Name} {response : ResponseRecord}
    {candidates : List (TaggedEndpointCandidate UInt32)}
    (h : responseCandidates name response = .ok candidates) :
    candidates = answerCandidates name response.publisherCertificateChainKey response.answers := by
  unfold responseCandidates at h
  rw [ResponseRecord.answers]
  split at h
  · cases h
  · rename_i remain packet hread
    rw [hread]
    split at h
    · cases h
    · cases h
      rfl

/-- The loop only looks at the accepted responses, and counts the others. -/
theorem decodeRecords_filter (name : Name) (records : List ResponseRecord) :
    decodeRecords name records =
      (decodeRecords name (records.filter ResponseRecord.accepted)).map fun out =>
        (out.1, (records.filter fun response => !response.accepted).length) := by
  induction records with
  | nil => rfl
  | cons response rest ih =>
    cases haccepted : response.accepted with
    | false =>
      have htaken : (response :: rest).filter ResponseRecord.accepted =
          rest.filter ResponseRecord.accepted := List.filter_cons_of_neg (by simp [haccepted])
      rw [decodeRecords_refused name rest haccepted, ih, htaken,
        List.filter_cons_of_pos (by simp [haccepted])]
      cases decodeRecords name (rest.filter ResponseRecord.accepted) <;> rfl
    | true =>
      rw [decodeRecords_taken name rest haccepted, ih, List.filter_cons_of_pos haccepted,
        decodeRecords_taken name _ haccepted, List.filter_cons_of_neg (by simp [haccepted])]
      cases responseCandidates name response with
      | error error => rfl
      | ok candidates => cases decodeRecords name (rest.filter ResponseRecord.accepted) <;> rfl

/-- The loop fails at an accepted response. -/
theorem decodeRecords_error {name : Name} {records : List ResponseRecord}
    {error : LookupDecodeError} (h : decodeRecords name records = .error error) :
    ∃ response ∈ records, response.accepted = true ∧
      responseCandidates name response = .error error := by
  induction records with
  | nil => cases h
  | cons response rest ih =>
    -- an error of the rest is one of the whole
    have hrest : decodeRecords name rest = .error error → ∃ response' ∈ response :: rest,
        response'.accepted = true ∧ responseCandidates name response' = .error error := by
      intro herror
      obtain ⟨failing, hmem, hfails⟩ := ih herror
      exact ⟨failing, List.mem_cons_of_mem _ hmem, hfails⟩
    cases haccepted : response.accepted with
    | false =>
      rw [decodeRecords_refused name rest haccepted] at h
      exact hrest (except_map_error h)
    | true =>
      rw [decodeRecords_taken name rest haccepted] at h
      rcases except_bind_error h with hfails | ⟨candidates, _, h⟩
      · exact ⟨response, List.mem_cons_self, haccepted, hfails⟩
      · exact hrest (except_map_error h)

/-- The loop returns the candidates of the accepted responses, and counts the others. -/
theorem decodeRecords_ok {name : Name} {records : List ResponseRecord}
    {out : List (TaggedEndpointCandidate UInt32) × ℕ} (h : decodeRecords name records = .ok out) :
    out = (acceptedCandidates name records,
      (records.filter fun response => !response.accepted).length) := by
  induction records generalizing out with
  | nil =>
    cases h
    rfl
  | cons response rest ih =>
    rw [acceptedCandidates]
    cases haccepted : response.accepted with
    | false =>
      rw [decodeRecords_refused name rest haccepted] at h
      obtain ⟨found, hrest, rfl⟩ := except_map_ok h
      rw [ih hrest, List.filter_cons_of_neg (by simp [haccepted]),
        List.filter_cons_of_pos (by simp [haccepted])]
      rfl
    | true =>
      rw [decodeRecords_taken name rest haccepted] at h
      obtain ⟨candidates, hcandidates, h⟩ := except_bind_ok h
      obtain ⟨found, hrest, rfl⟩ := except_map_ok h
      rw [ih hrest, responseCandidates_ok hcandidates, List.filter_cons_of_pos haccepted,
        List.filter_cons_of_neg (by simp [haccepted]), List.flatMap_cons]
      rfl

end Responses

section Bodies

/-- The body is a response of these records, and not of too many. -/
structure EncodesRecords (body : List UInt8) (records : List ResponseRecord) : Prop where
  read : ∃ r, beMultiResponse (wholeSlice body) = .ok r ⟨records⟩ ∧ r.bytes = []
  count : records.length ≤ maxResponseRecords

/-- A response of not too many records encodes them. -/
theorem encodesRecords_encode {response : MultiResponse}
    (hn : response.records.length ≤ maxResponseRecords) (hsize : response.encodingSize < 2 ^ 32) :
    EncodesRecords response.encode response.records := by
  have hencodable : response.Encodable := by
    refine ⟨lt_of_le_of_lt hn (by decide), ?_⟩
    intro record hrecord field hfield
    exact (field_length_lt_encodingSize hrecord hfield).trans hsize
  have hread := format_multiResponse.reads response hencodable 0 []
  rw [List.append_nil] at hread
  exact ⟨⟨_, hread, rfl⟩, hn⟩

theorem count_length {α : Type} {parser : Slice → IResult α} {n : ℕ} {s r : Slice} {xs : List α}
    (h : count parser n s = .ok r xs) : xs.length = n := by
  induction n generalizing s xs with
  | zero =>
    cases h
    rfl
  | succ n ih =>
    obtain ⟨remain, x, _, h⟩ := andThen_eq_ok.mp h
    obtain ⟨rest, hrest, rfl⟩ := map_eq_ok.mp h
    rw [List.length_cons, ih hrest]

/-- The first four bytes of a body are the number of its records. -/
theorem beMultiResponse_count {body : List UInt8} {r : Slice} {multi : MultiResponse}
    (h : beMultiResponse (wholeSlice body) = .ok r multi) :
    ¬ body.length < 4 ∧ ofBE (body.take 4) = multi.records.length := by
  obtain ⟨remain, n, hn, h⟩ := andThen_eq_ok.mp h
  obtain ⟨records, hrecords, rfl⟩ := map_eq_ok.mp h
  obtain ⟨hbytes, _, hlen⟩ := beWord_ok hn
  have hbody : body = putWord n ++ remain.bytes := hbytes
  have hfour : 4 ≤ body.length := hlen
  have htake : body.take 4 = putWord n := by
    rw [hbody]
    exact List.take_left' (putWord_length n)
  rw [htake, putWord, ofBE_toBE_of_lt (Word.toNat_lt n), count_length hrecords]
  exact ⟨by omega, rfl⟩

variable [DhttpHome] [SubjectKey] [Crypto]

theorem decodeCandidateGroups_of_encodes (name : Name) {body : List UInt8}
    {records : List ResponseRecord} (h : EncodesRecords body records) :
    decodeCandidateGroups name body = (decodeRecords name records).map fun out =>
      (groupedEndpointCandidates out.1, out.2) := by
  obtain ⟨r, hread, hempty⟩ := h.read
  obtain ⟨hlong, hcount⟩ := beMultiResponse_count hread
  have hfew : ¬ maxResponseRecords < ofBE (body.take 4) := by
    have := h.count
    rw [hcount]
    dsimp only
    omega
  rw [decodeCandidateGroups, if_neg hlong, if_neg hfew, hread]
  dsimp only
  rw [if_neg (not_not_intro hempty)]

theorem decodeCandidateGroups_ok {name : Name} {body : List UInt8}
    {out : EndpointCandidateGroups UInt32 × ℕ} (h : decodeCandidateGroups name body = .ok out) :
    ∃ records, EncodesRecords body records ∧
      out.1 = groupedEndpointCandidates (acceptedCandidates name records) ∧
      out.2 = (records.filter fun response => !response.accepted).length := by
  obtain ⟨records, hencodes⟩ : ∃ records, EncodesRecords body records := by
    unfold decodeCandidateGroups at h
    split at h
    · cases h
    split at h
    · cases h
    rename_i hfew
    split at h
    · cases h
    · rename_i remain multi hread
      split at h
      · cases h
      · rename_i hempty
        obtain ⟨_, hcount⟩ := beMultiResponse_count hread
        exact ⟨multi.records, ⟨remain, hread, not_not.mp hempty⟩, by omega⟩
  rw [decodeCandidateGroups_of_encodes name hencodes] at h
  obtain ⟨found, hfound, rfl⟩ := except_map_ok h
  obtain rfl := decodeRecords_ok hfound
  exact ⟨records, hencodes, rfl, rfl⟩

end Bodies

end Ddns
