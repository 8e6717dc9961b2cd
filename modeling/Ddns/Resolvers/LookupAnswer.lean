import Ddns.Resolvers.LookupResponse

/-! What the answer of a lookup says about the response it was decoded from. -/
namespace Ddns

open Nom BigEndian

section Answer

variable [DhttpHome]

/-- The time to live of the record that is kept for an endpoint of a chain: its first one. -/
def keptTtl (us : List (CertificateChainKey × (UInt32 × DquicEndpointAddr)))
    (chain : CertificateChainKey) (endpoint : DquicEndpointAddr) : Option UInt32 :=
  (us.find? fun u => u.1 = chain ∧ u.2.2 = endpoint).map fun u => u.2.1

/-- How many chains, and which ones, a query asks for. -/
def SequenceQuery.Allows {Source : Type} (query : SequenceQuery)
    (groups : List (EndpointCandidateGroup Source)) : Prop :=
  match query with
  | .default => groups.length ≤ 3
  | .exact sequence => ∀ g ∈ groups, g.chain.sequence = sequence
  | .limit count => groups.length ≤ count
  | .all => True

/-- The lookup asks for the endpoint of the chain. -/
def EndpointLookup.Wants (lookup : EndpointLookup) (chain : CertificateChainKey)
    (endpoint : DquicEndpointAddr) : Prop :=
  endpointMatchesFamily endpoint lookup.family = true ∧
    ∀ sequence, lookup.sequences = .exact sequence → chain.sequence = sequence

section Selection

variable {us : List (CertificateChainKey × (UInt32 × DquicEndpointAddr))} {family : Option Family}
  {groups : EndpointCandidateGroups UInt32}

theorem SelectedFrom.mem_items (h : SelectedFrom us family groups)
    {g : CertificateChainKey × List (UInt32 × DquicEndpointAddr)} (hg : g ∈ groups)
    {item : UInt32 × DquicEndpointAddr} :
    item ∈ g.2 ↔ (g.1, item) ∈ us ∧ endpointMatchesFamily item.2 family = true := by
  rw [h.items g hg, List.mem_map]
  constructor
  · rintro ⟨u, hu, rfl⟩
    obtain ⟨hmem, hcond⟩ := List.mem_filter.mp hu
    obtain ⟨hkey, hfamily⟩ := of_decide_eq_true hcond
    rw [← hkey]
    exact ⟨hmem, hfamily⟩
  · rintro ⟨hmem, hfamily⟩
    exact ⟨(g.1, item), List.mem_filter.mpr ⟨hmem, decide_eq_true ⟨rfl, hfamily⟩⟩, rfl⟩

/-- The first record of an endpoint within its group is the first one of its chain. -/
theorem SelectedFrom.keptTtl_eq (h : SelectedFrom us family groups)
    {g : CertificateChainKey × List (UInt32 × DquicEndpointAddr)} (hg : g ∈ groups)
    {item : UInt32 × DquicEndpointAddr} (hmem : item ∈ g.2)
    (hfirst : g.2.find? (fun x => x.2 = item.2) = some item) :
    keptTtl us g.1 item.2 = some item.1 := by
  have hfamily := ((h.mem_items hg).mp hmem).2
  rw [h.items g hg, List.find?_map, List.find?_filter] at hfirst
  have hsame : (fun u : CertificateChainKey × (UInt32 × DquicEndpointAddr) =>
      decide (decide (u.1 = g.1 ∧ endpointMatchesFamily u.2.2 family) = true ∧
        ((fun x : UInt32 × DquicEndpointAddr => decide (x.2 = item.2)) ∘ Prod.snd) u = true)) =
      fun u => decide (u.1 = g.1 ∧ u.2.2 = item.2) := by
    funext u
    by_cases hu : u.2.2 = item.2
    · simp [hu, hfamily]
    · simp [hu]
  rw [hsame] at hfirst
  obtain ⟨u, hu, rfl⟩ := Option.map_eq_some_iff.mp hfirst
  rw [keptTtl, hu]
  rfl

/-- Nothing is selected only when nothing usable is wanted. -/
theorem selectGroupPairs_nil {lookup : EndpointLookup}
    (h : Grouping.GroupsOf us groups)
    (hnil : selectGroupPairs (filterEndpointCandidateGroups groups lookup.family)
      lookup.sequences = []) :
    ∀ u ∈ us, ¬ lookup.Wants u.1 u.2.2 := by
  rintro u hu ⟨hfamily, hexact⟩
  obtain ⟨g, hg, hkey⟩ := (filterGroups_selected h lookup.family).2 u hu hfamily
  have hne := List.ne_nil_of_mem hg
  unfold selectGroupPairs at hnil
  split at hnil
  · exact hne ((List.take_eq_nil_iff.mp hnil).resolve_left (by omega))
  · rename_i sequence hquery
    refine List.ne_nil_of_mem (List.mem_filter.mpr ⟨hg, ?_⟩) hnil
    rw [hkey]
    exact decide_eq_true (hexact sequence hquery)
  · rename_i count _
    exact hne ((List.take_eq_nil_iff.mp hnil).resolve_left count.ne_zero)
  · exact hne hnil

end Selection

variable [SubjectKey] [Crypto] {Source : Type}

/-- The answer says no more than the records of the response, and no less than was asked for. -/
structure LookupAnswer.FaithfulTo (answer : LookupAnswer Source) (name : Name)
    (lookup : EndpointLookup) (headers : HeaderMap) (records : List ResponseRecord) : Prop where
  distinct : (answer.candidates.groups.map EndpointCandidateGroup.chain).Nodup
  primary : ∀ g ∈ answer.candidates.groups, isPrimaryChainKey g.chain = true
  nonempty : ∀ g ∈ answer.candidates.groups, g.endpoints ≠ []
  nodup : ∀ g ∈ answer.candidates.groups, g.endpoints.Nodup
  family : ∀ g ∈ answer.candidates.groups, ∀ e ∈ g.endpoints,
    endpointMatchesFamily e lookup.family = true
  limit : ∀ count ∈ lookup.recordLimit, ∀ g ∈ answer.candidates.groups, g.endpoints.length ≤ count
  sequences : lookup.sequences.Allows answer.candidates.groups
  sound : ∀ g ∈ answer.candidates.groups, ∀ e ∈ g.endpoints,
    ∃ ttl, Answered name records g.chain ttl e
  order : answer.candidates.groups.Pairwise fun g h =>
    ((usableRecords name records).map Prod.fst).idxOf g.chain <
      ((usableRecords name records).map Prod.fst).idxOf h.chain
  complete : lookup.recordLimit = none → ∀ g ∈ answer.candidates.groups, ∀ ttl e,
    Answered name records g.chain ttl e → endpointMatchesFamily e lookup.family = true →
      e ∈ g.endpoints
  ttl : ∃ ttl : UInt32, answer.ttl = freshness ttl.toNat headers ∧
    (∃ g ∈ answer.candidates.groups, ∃ e ∈ g.endpoints,
      keptTtl (usableRecords name records) g.chain e = some ttl) ∧
    ∀ g ∈ answer.candidates.groups, ∀ e ∈ g.endpoints,
      ∃ t, keptTtl (usableRecords name records) g.chain e = some t ∧ ttl ≤ t

/-- The group of an answer that is made of a selected group. -/
def answerGroup (source : Source) (limit : Option ℕ+)
    (g : CertificateChainKey × List (UInt32 × DquicEndpointAddr)) : EndpointCandidateGroup Source :=
  ⟨g.1, (keptRecords limit g.2).map Prod.snd, [source]⟩

omit [SubjectKey] [Crypto] in
theorem selectGroupPairs_allows (source : Source) (limit : Option ℕ+)
    (groups : EndpointCandidateGroups UInt32) (query : SequenceQuery) :
    query.Allows ((selectGroupPairs groups query).map (answerGroup source limit)) := by
  cases query with
  | default => exact (List.length_map _).trans_le (List.length_take_le 3 groups)
  | exact sequence =>
    intro g hg
    obtain ⟨before, hbefore, rfl⟩ := List.mem_map.mp hg
    exact of_decide_eq_true (List.mem_filter.mp hbefore).2
  | limit count => exact (List.length_map _).trans_le (List.length_take_le count groups)
  | all => trivial

section Faithful

variable {name : Name} {records : List ResponseRecord} {lookup : EndpointLookup}
  {groups : EndpointCandidateGroups UInt32}

/-- A kept record was answered for its chain, and is of the family. -/
theorem SelectedFrom.answered (h : SelectedFrom (usableRecords name records) lookup.family groups)
    {g : CertificateChainKey × List (UInt32 × DquicEndpointAddr)} (hg : g ∈ groups)
    {item : UInt32 × DquicEndpointAddr} (hitem : item ∈ keptRecords lookup.recordLimit g.2) :
    Answered name records g.1 item.1 item.2 ∧ isPrimaryChainKey g.1 = true ∧
      endpointMatchesFamily item.2 lookup.family = true ∧
      keptTtl (usableRecords name records) g.1 item.2 = some item.1 := by
  have hfirst := (keptRecords_spec lookup.recordLimit g.2).2.1 item hitem
  have hmem := List.mem_of_find?_eq_some hfirst
  obtain ⟨husable, hfamily⟩ := (h.mem_items hg).mp hmem
  obtain ⟨hanswered, hprimary⟩ := mem_usableRecords.mp husable
  exact ⟨hanswered, hprimary, hfamily, h.keptTtl_eq hg hmem hfirst⟩

/-- The kept records of all groups determine the time to live. -/
theorem SelectedFrom.ttl (h : SelectedFrom (usableRecords name records) lookup.family groups)
    (hne : groups ≠ []) : ∃ ttl,
      (groups.flatMap fun g => (keptRecords lookup.recordLimit g.2).map Prod.fst).foldl minTtl none =
        some ttl ∧
      (∃ g ∈ groups, ∃ item ∈ keptRecords lookup.recordLimit g.2, item.1 = ttl) ∧
      ∀ g ∈ groups, ∀ item ∈ keptRecords lookup.recordLimit g.2, ttl ≤ item.1 := by
  obtain ⟨first, rest, hgroups⟩ := List.exists_cons_of_ne_nil hne
  have hfirst : first ∈ groups := by
    rw [hgroups]
    exact List.mem_cons_self
  have hkept := (keptRecords_spec lookup.recordLimit first.2).2.2.2.2 (h.nonempty first hfirst)
  obtain ⟨item, hitem⟩ := List.exists_mem_of_ne_nil _ hkept
  have hmem : ∀ g ∈ groups, ∀ item ∈ keptRecords lookup.recordLimit g.2, item.1 ∈
      groups.flatMap fun g => (keptRecords lookup.recordLimit g.2).map Prod.fst :=
    fun g hg item hitem => List.mem_flatMap.mpr ⟨g, hg, List.mem_map_of_mem hitem⟩
  obtain ⟨ttl, hfold, hin, hle⟩ := foldl_minTtl (List.ne_nil_of_mem (hmem first hfirst item hitem))
  refine ⟨ttl, hfold, ?_, fun g hg item hitem => hle _ (hmem g hg item hitem)⟩
  obtain ⟨g, hg, httl⟩ := List.mem_flatMap.mp hin
  obtain ⟨item, hitem, heq⟩ := List.mem_map.mp httl
  exact ⟨g, hg, item, hitem, heq⟩

theorem SelectedFrom.faithful
    (h : SelectedFrom (usableRecords name records) lookup.family groups) (hne : groups ≠ [])
    (source : Source) (headers : HeaderMap)
    (hallows : lookup.sequences.Allows (groups.map (answerGroup source lookup.recordLimit))) :
    LookupAnswer.FaithfulTo ⟨⟨groups.map (answerGroup source lookup.recordLimit)⟩,
      freshness (((groups.flatMap fun g =>
        (keptRecords lookup.recordLimit g.2).map Prod.fst).foldl minTtl none).getD 0).toNat headers⟩
      name lookup headers records := by
  -- every statement about the groups of the answer is one about the selected groups
  have hgroup : ∀ {P : EndpointCandidateGroup Source → Prop},
      (∀ g ∈ groups, P (answerGroup source lookup.recordLimit g)) →
        ∀ g ∈ groups.map (answerGroup source lookup.recordLimit), P g := by
    intro P hP g hg
    obtain ⟨before, hbefore, rfl⟩ := List.mem_map.mp hg
    exact hP before hbefore
  have hspec := fun g : CertificateChainKey × List (UInt32 × DquicEndpointAddr) =>
    keptRecords_spec lookup.recordLimit g.2
  have hkept : ∀ g ∈ groups, keptRecords lookup.recordLimit g.2 ≠ [] :=
    fun g hg => (hspec g).2.2.2.2 (h.nonempty g hg)
  obtain ⟨ttl, hfold, ⟨least, hleast, leastItem, hitem, heq⟩, hle⟩ := h.ttl hne
  refine ⟨?_, hgroup ?_, hgroup ?_, hgroup ?_, hgroup ?_, ?_, hallows, hgroup ?_, ?_, ?_, ?_⟩
  · rw [List.map_map, List.Nodup, List.pairwise_map]
    refine h.order.imp ?_
    intro g g' hlt hchain
    have hsame : g.1 = g'.1 := hchain
    rw [hsame] at hlt
    exact absurd hlt (Nat.lt_irrefl _)
  · intro g hg
    obtain ⟨item, hitem⟩ := List.exists_mem_of_ne_nil _ (hkept g hg)
    exact (h.answered hg hitem).2.1
  · intro g hg hnil
    exact hkept g hg (List.map_eq_nil_iff.mp hnil)
  · intro g _
    exact (hspec g).1
  · intro g hg e he
    obtain ⟨item, hitem, rfl⟩ := List.mem_map.mp he
    exact (h.answered hg hitem).2.2.1
  · intro count hcount
    refine hgroup ?_
    intro g _
    exact (List.length_map _).trans_le ((hspec g).2.2.1 count hcount)
  · intro g hg e he
    obtain ⟨item, hitem, rfl⟩ := List.mem_map.mp he
    exact ⟨item.1, (h.answered hg hitem).1⟩
  · rw [List.pairwise_map]
    exact h.order
  · intro hlimit
    refine hgroup ?_
    intro g hg ttl e hanswered hfamily
    obtain ⟨item, hitem⟩ := List.exists_mem_of_ne_nil _ (hkept g hg)
    have hprimary := (h.answered hg hitem).2.1
    have hmem : (ttl, e) ∈ g.2 :=
      (h.mem_items hg).mpr ⟨mem_usableRecords.mpr ⟨hanswered, hprimary⟩, hfamily⟩
    exact (hspec g).2.2.2.1 hlimit (ttl, e) hmem
  · refine ⟨ttl, by rw [hfold, Option.getD_some], ?_, hgroup ?_⟩
    · refine ⟨_, List.mem_map_of_mem hleast, leastItem.2, List.mem_map_of_mem hitem, ?_⟩
      rw [← heq]
      exact (h.answered hleast hitem).2.2.2
    · intro g hg e he
      obtain ⟨item, hitem, rfl⟩ := List.mem_map.mp he
      exact ⟨item.1, (h.answered hg hitem).2.2.2, hle g hg item hitem⟩

end Faithful

/-- What is answered when these groups were found and so many records refused. -/
def lookupOutcome (lookup : EndpointLookup) (source : Source) (headers : HeaderMap)
    (groups : EndpointCandidateGroups UInt32) (rejected : ℕ) :
    Except LookupSemanticError (LookupAnswer Source) :=
  let out := collectGroups source lookup.recordLimit (selectGroupPairs
    (filterEndpointCandidateGroups groups lookup.family) lookup.sequences) none
  if out.2 = [] then .error (if rejected = 0 then .noRecordFound else .noUsableRecord)
  else .ok ⟨⟨out.2⟩, freshness (out.1.getD 0).toNat headers⟩

/-- The records of a body enter the answer through the accepted ones and their number only. -/
theorem decodeLookupResponse_of_encodes (name : Name) (lookup : EndpointLookup) (source : Source)
    (headers : HeaderMap) {body : List UInt8} {records : List ResponseRecord}
    (h : EncodesRecords body records) :
    decodeLookupResponse name lookup source headers body =
      ((decodeRecords name (records.filter ResponseRecord.accepted)).mapError .decode).bind
        fun out => lookupOutcome lookup source headers (groupedEndpointCandidates out.1)
          (records.filter fun response => !response.accepted).length := by
  rw [decodeLookupResponse, decodeCandidateGroups_of_encodes name h, decodeRecords_filter]
  cases decodeRecords name (records.filter ResponseRecord.accepted) <;> rfl

omit [DhttpHome] [SubjectKey] in
theorem all_accepted_of_rejected {records : List ResponseRecord}
    (h : (records.filter fun response => !response.accepted).length = 0) :
    ∀ response ∈ records, response.accepted = true := by
  intro response hresponse
  have hnot := List.filter_eq_nil_iff.mp (List.length_eq_zero_iff.mp h) response hresponse
  simpa using hnot

omit [DhttpHome] [SubjectKey] in
theorem exists_refused_of_rejected {records : List ResponseRecord}
    (h : (records.filter fun response => !response.accepted).length ≠ 0) :
    ∃ response ∈ records, response.accepted = false := by
  have hne : (records.filter fun response => !response.accepted) ≠ [] :=
    fun hnil => h (List.length_eq_zero_iff.mpr hnil)
  obtain ⟨response, hresponse⟩ := List.exists_mem_of_ne_nil _ hne
  obtain ⟨hmem, hrefused⟩ := List.mem_filter.mp hresponse
  exact ⟨response, hmem, by simpa using hrefused⟩

/-- An answer that is made of the accepted records is faithful to them, and without one there
was nothing that was wanted. -/
theorem lookupOutcome_spec (name : Name) (lookup : EndpointLookup) (source : Source)
    (headers : HeaderMap) (records : List ResponseRecord) (rejected : ℕ) :
    (∃ answer, lookupOutcome lookup source headers
        (groupedEndpointCandidates (acceptedCandidates name records)) rejected = .ok answer ∧
      answer.FaithfulTo name lookup headers records) ∨
    (lookupOutcome lookup source headers
        (groupedEndpointCandidates (acceptedCandidates name records)) rejected =
          .error (if rejected = 0 then .noRecordFound else .noUsableRecord) ∧
      ∀ chain ttl e, Answered name records chain ttl e → isPrimaryChainKey chain = true →
        ¬ lookup.Wants chain e) := by
  have hof : Grouping.GroupsOf (usableRecords name records)
      (groupedEndpointCandidates (acceptedCandidates name records)) := grouped_groupsOf _
  have hselected := (filterGroups_selected hof lookup.family).1.sublist
    (selectGroupPairs_sublist _ lookup.sequences)
  have hcollect := collectGroups_eq source lookup.recordLimit hselected.nonempty none
  unfold lookupOutcome
  dsimp only
  rw [hcollect]
  by_cases hnil : selectGroupPairs (filterEndpointCandidateGroups
      (groupedEndpointCandidates (acceptedCandidates name records)) lookup.family)
      lookup.sequences = []
  · right
    rw [hnil]
    refine ⟨if_pos rfl, ?_⟩
    intro chain ttl e hanswered hprimary
    exact selectGroupPairs_nil hof hnil _ (mem_usableRecords.mpr ⟨hanswered, hprimary⟩)
  · left
    refine ⟨_, if_neg (fun h => hnil (List.map_eq_nil_iff.mp h)), ?_⟩
    exact hselected.faithful hnil source headers (selectGroupPairs_allows source _ _ _)

/-- When every response is refused there is nothing to select from. -/
theorem decodeLookupResponse_refused (name : Name) (lookup : EndpointLookup) (source : Source)
    (headers : HeaderMap) {body : List UInt8} {records : List ResponseRecord}
    (hencodes : EncodesRecords body records)
    (hrefused : ∀ response ∈ records, response.accepted = false) :
    decodeLookupResponse name lookup source headers body =
      .error (if records = [] then .noRecordFound else .noUsableRecord) := by
  have htaken : records.filter ResponseRecord.accepted = [] := by
    apply List.filter_eq_nil_iff.mpr
    intro response hresponse
    rw [hrefused response hresponse]
    exact Bool.false_ne_true
  have hcounted : (records.filter fun response => !response.accepted) = records := by
    apply List.filter_eq_self.mpr
    intro response hresponse
    rw [hrefused response hresponse]
    rfl
  have hnone : selectGroupPairs (filterEndpointCandidateGroups ([] : EndpointCandidateGroups UInt32)
      lookup.family) lookup.sequences = [] := by
    have hfilter : filterEndpointCandidateGroups ([] : EndpointCandidateGroups UInt32)
        lookup.family = [] := by
      cases lookup.family <;> rfl
    rw [hfilter]
    exact List.sublist_nil.mp (selectGroupPairs_sublist [] lookup.sequences)
  rw [decodeLookupResponse_of_encodes name lookup source headers hencodes, htaken, hcounted]
  show lookupOutcome lookup source headers [] records.length = _
  simp only [lookupOutcome, hnone, collectGroups, if_true, List.length_eq_zero_iff]

/-- Whatever the body: an answer is faithful to its accepted records, and when there is none
nothing usable was asked for. Refused records turn the second error into the third, and an
undecodable packet counts only in an accepted record. -/
theorem decodeLookupResponse_faithful (name : Name) (lookup : EndpointLookup) (source : Source)
    (headers : HeaderMap) (body : List UInt8) :
    (match decodeLookupResponse name lookup source headers body with
    | .ok answer => ∃ records, EncodesRecords body records ∧
        answer.FaithfulTo name lookup headers records
    | .error .noRecordFound => ∃ records, EncodesRecords body records ∧
        (∀ response ∈ records, response.accepted = true) ∧
        ∀ chain ttl e, Answered name records chain ttl e → isPrimaryChainKey chain = true →
          ¬ lookup.Wants chain e
    | .error .noUsableRecord => ∃ records, EncodesRecords body records ∧
        (∃ response ∈ records, response.accepted = false) ∧
        ∀ chain ttl e, Answered name records chain ttl e → isPrimaryChainKey chain = true →
          ¬ lookup.Wants chain e
    | .error (.decode error) => ∀ records, EncodesRecords body records →
        ∃ response ∈ records, response.accepted = true ∧
          responseCandidates name response = .error error) ∧
    ∀ records, EncodesRecords body records → (∀ response ∈ records, response.accepted = false) →
      decodeLookupResponse name lookup source headers body =
        .error (if records = [] then .noRecordFound else .noUsableRecord) := by
  refine ⟨?_, fun records => decodeLookupResponse_refused name lookup source headers⟩
  cases hdecode : decodeCandidateGroups name body with
  | error error =>
    rw [decodeLookupResponse, hdecode]
    intro records hencodes
    rw [decodeCandidateGroups_of_encodes name hencodes] at hdecode
    exact decodeRecords_error (except_map_error hdecode)
  | ok out =>
    obtain ⟨records, hencodes, hgroups, hrejected⟩ := decodeCandidateGroups_ok hdecode
    have houtcome : decodeLookupResponse name lookup source headers body =
        lookupOutcome lookup source headers out.1 out.2 := by
      rw [decodeLookupResponse, hdecode]
      rfl
    rw [houtcome, hgroups]
    rcases lookupOutcome_spec name lookup source headers records out.2 with
      ⟨answer, hanswer, hfaithful⟩ | ⟨hempty, hnone⟩
    · rw [hanswer]
      exact ⟨records, hencodes, hfaithful⟩
    · rw [hempty]
      by_cases hzero : out.2 = 0
      · rw [if_pos hzero]
        exact ⟨records, hencodes, all_accepted_of_rejected (hrejected.symm.trans hzero), hnone⟩
      · rw [if_neg hzero]
        rw [hrejected] at hzero
        exact ⟨records, hencodes, exists_refused_of_rejected hzero, hnone⟩

/-- There is no candidate to return. -/
def EmptyResult (outcome : Except LookupSemanticError (LookupAnswer Source)) : Prop :=
  outcome = .error .noRecordFound ∨ outcome = .error .noUsableRecord

/-- The same answer, the same decoding error, or no candidate on either side. -/
def AnsweredAlike (outcome outcome' : Except LookupSemanticError (LookupAnswer Source)) : Prop :=
  (∃ answer, outcome = .ok answer ∧ outcome' = .ok answer) ∨
    (∃ error, outcome = .error (.decode error) ∧ outcome' = .error (.decode error)) ∨
    (EmptyResult outcome ∧ EmptyResult outcome')

omit [SubjectKey] [Crypto] in
/-- The number of refused records tells one empty result from the other, and nothing else. -/
theorem lookupOutcome_rejected (lookup : EndpointLookup) (source : Source) (headers : HeaderMap)
    (groups : EndpointCandidateGroups UInt32) (rejected rejected' : ℕ) :
    AnsweredAlike (lookupOutcome lookup source headers groups rejected)
      (lookupOutcome lookup source headers groups rejected') := by
  by_cases hnone : (collectGroups source lookup.recordLimit (selectGroupPairs
      (filterEndpointCandidateGroups groups lookup.family) lookup.sequences) none).2 = []
  · have hempty : ∀ n, EmptyResult (lookupOutcome lookup source headers groups n) := by
      intro n
      by_cases hn : n = 0
      · exact Or.inl (by simp only [lookupOutcome, hnone, hn, if_true])
      · exact Or.inr (by simp only [lookupOutcome, hnone, hn, if_true, if_false])
    exact Or.inr (Or.inr ⟨hempty rejected, hempty rejected'⟩)
  · exact Or.inl ⟨_, if_neg hnone, if_neg hnone⟩

/-- Two bodies with the same accepted records, and any refused ones among them, are answered
alike. -/
theorem refused_records_have_no_influence (name : Name) (lookup : EndpointLookup) (source : Source)
    (headers : HeaderMap) {body body' : List UInt8} {records records' : List ResponseRecord}
    (h : EncodesRecords body records) (h' : EncodesRecords body' records')
    (hsame : records.filter ResponseRecord.accepted = records'.filter ResponseRecord.accepted) :
    AnsweredAlike (decodeLookupResponse name lookup source headers body)
      (decodeLookupResponse name lookup source headers body') := by
  rw [decodeLookupResponse_of_encodes name lookup source headers h,
    decodeLookupResponse_of_encodes name lookup source headers h', hsame]
  cases decodeRecords name (records'.filter ResponseRecord.accepted) with
  | error error => exact Or.inr (Or.inl ⟨error, rfl, rfl⟩)
  | ok out => exact lookupOutcome_rejected lookup source headers (groupedEndpointCandidates out.1) _ _

end Answer

section Sample

attribute [local instance] plainHome plainCrypto plainSubjectKey

/-- A packet with one endpoint for the name, not signed. -/
def answeredRecord : ResponseRecord :=
  .unsigned (Packet.answer 0 [(['a'], [((EndpointAddr.directV4 ⟨0x0A000001, 443⟩).setMain true
    ).setSequence (.ofU8 7)])]).toBytes []

def answeredLookup : LookupAnswer Unit :=
  ⟨⟨[⟨primaryChainKey (.ofU8 7), [.direct (.v4 ⟨0x0A000001, 443⟩)], [()]⟩]⟩, 300⟩

/-- Fields of a signature that are not text, over bytes that are not a packet. -/
def forgedRecord : ResponseRecord := ⟨⟨[255], [], []⟩, [1], []⟩

/-- A forged record before one with an endpoint leaves the endpoint and its time to live. -/
theorem forgedRecord_has_no_influence :
    decodeLookupResponse ['a'] EndpointLookup.default () []
      (MultiResponse.mk [forgedRecord, answeredRecord]).encode = .ok answeredLookup := by
  have hplain : decodeLookupResponse ['a'] EndpointLookup.default () []
      (MultiResponse.mk [answeredRecord]).encode = .ok answeredLookup := by decide +kernel
  rcases refused_records_have_no_influence ['a'] EndpointLookup.default () []
      (encodesRecords_encode (by decide) (by decide +kernel))
      (encodesRecords_encode (by decide) (by decide +kernel))
      (show List.filter _ [answeredRecord] = List.filter _ [forgedRecord, answeredRecord] by
        decide +kernel) with
    ⟨answer, hanswer, hsame⟩ | ⟨error, herror, _⟩ | ⟨hempty | hempty, _⟩
  · rw [hsame, ← hanswer, hplain]
  · cases herror.symm.trans hplain
  · cases hempty.symm.trans hplain
  · cases hempty.symm.trans hplain

end Sample

end Ddns
