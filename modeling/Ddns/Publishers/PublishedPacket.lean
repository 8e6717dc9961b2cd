import Ddns.Core.PacketAnswer
import Ddns.Core.SignatureVerify
import Ddns.Publishers.Packet
import Ddns.Resolvers.LookupResponse

/-! What an authority publishes is what a lookup of its name returns. -/
namespace Ddns

open Nom BigEndian

section Published

variable [DhttpHome]

/-- One group without a limit loses its duplicates and nothing else. -/
theorem collectGroups_one {Source : Type} (source : Source) (chain : CertificateChainKey)
    {ttl : UInt32} {ttls : List UInt32} {endpoints : List DquicEndpointAddr}
    (httls : ∀ t ∈ ttls, t = ttl) (hlen : ttls.length = endpoints.length) (hne : endpoints ≠ []) :
    collectGroups source none [(chain, ttls.zip endpoints)] none =
      (some ttl, [⟨chain, endpoints.eraseDups, [source]⟩]) := by
  have hsnd : (unseen [] (ttls.zip endpoints)).map Prod.snd = endpoints.eraseDups := by
    rw [unseen_map_snd, List.map_snd_zip hlen.ge]
    simp
  have hdups : endpoints.eraseDups ≠ [] := by
    obtain ⟨e, rest, rfl⟩ := List.exists_cons_of_ne_nil hne
    rw [List.eraseDups_cons]
    exact List.cons_ne_nil _ _
  have hfst : ∀ t ∈ (unseen [] (ttls.zip endpoints)).map Prod.fst, t = ttl := by
    intro t ht
    obtain ⟨item, hitem, rfl⟩ := List.mem_map.mp ht
    exact httls item.1 (List.of_mem_zip ((unseen_sublist [] _).subset hitem)).1
  have hkept : (unseen [] (ttls.zip endpoints)).map Prod.fst ≠ [] := by
    intro hnil
    rw [List.map_eq_nil_iff.mp hnil] at hsnd
    exact hdups hsnd.symm
  obtain ⟨least, hfold, hmem, _⟩ := foldl_minTtl hkept
  obtain rfl := hfst least hmem
  simp only [collectGroups, takeLimit, Option.elim_none, hsnd, if_neg hdups, hfold]

/-- The answers for a name among the answers that are all for it. -/
theorem answerCandidates_answerRecord (name : Name) (fallback : Option CertificateChainKey)
    (records : List EndpointAddr) :
    answerCandidates name fallback (records.map (answerRecord name)) =
      records.map fun record => ⟨300, record, fallback⟩ := by
  induction records with
  | nil => rfl
  | cons record records ih =>
    rw [List.map_cons, List.map_cons, ← ih]
    simp [answerCandidates, answerRecord]

theorem answerCandidates_absent {name : Name} (fallback : Option CertificateChainKey)
    {answers : List ResourceRecord} (h : ∀ answer ∈ answers, answer.name ≠ name) :
    answerCandidates name fallback answers = [] := by
  refine List.filterMap_eq_nil_iff.mpr fun answer hmem => ?_
  cases answer.data with
  | e record => exact if_neg (h answer hmem)
  | _ => rfl

/-- A stamped record is usable, whatever the certificate of the response says. -/
theorem Stamped.usable {T : Type} {sequence : CertificateSequence} {endpoint : DquicEndpointAddr}
    {record : EndpointAddr} (h : Stamped sequence endpoint record) (tag : T)
    (fallback : Option CertificateChainKey) :
    TaggedEndpointCandidate.Usable ⟨tag, record, fallback⟩ (primaryChainKey sequence) endpoint := by
  refine ⟨?_, isPrimaryChainKey_primary sequence, h.converts⟩
  show effectiveChainKey record fallback = primaryChainKey sequence
  rw [effectiveChainKey, if_pos (Or.inl h.isMain), EndpointAddr.certificateChainKey,
    if_pos h.isMain, h.normalizedSequence]

variable [SubjectKey] [Crypto]

/-- A record without a signature is taken as it is. -/
theorem decodeRecords_unsigned (name : Name) {r : ResponseRecord} {remain : Slice} {p : Packet}
    (haccepted : r.signatureFields = SignatureFields.empty)
    (hread : bePacket (wholeSlice r.dns) = .ok remain p) (hremain : remain.bytes = []) :
    decodeRecords name [r] =
      .ok (answerCandidates name r.publisherCertificateChainKey p.answers, 0) := by
  have hunsigned : ¬ (¬ r.signatureFields.isEmpty ∧
      r.signatureFields.verify r.dns r.cert ≠ .ok true) := by
    rw [haccepted]
    intro h
    exact h.1 rfl
  rw [decodeRecords, if_neg hunsigned, hread]
  dsimp only
  rw [if_neg (not_not_intro hremain), decodeRecords, Except.map, List.append_nil]

/-- A response whose only packet has no answer for the name has no record. -/
theorem decodeLookupResponse_absent {Source : Type} (source : Source) (headers : HeaderMap)
    (lookup : EndpointLookup) (name : Name) {r : ResponseRecord} {remain : Slice} {p : Packet}
    (haccepted : r.signatureFields = SignatureFields.empty)
    (hread : bePacket (wholeSlice r.dns) = .ok remain p) (hremain : remain.bytes = [])
    (habsent : ∀ answer ∈ p.answers, answer.name ≠ name)
    (hsize : MultiResponse.encodingSize ⟨[r]⟩ < 2 ^ 32) :
    decodeLookupResponse name lookup source headers (MultiResponse.encode ⟨[r]⟩) =
      .error .noRecordFound := by
  have hrecords : decodeRecords name [r] = .ok ([], 0) := by
    rw [decodeRecords_unsigned name haccepted hread hremain, answerCandidates_absent _ habsent]
  have hempty : ∀ family query, selectGroupPairs
      (filterEndpointCandidateGroups ([] : EndpointCandidateGroups UInt32) family) query = [] := by
    intro family query
    rw [show filterEndpointCandidateGroups ([] : EndpointCandidateGroups UInt32) family = [] from
      ite_self _]
    cases query with
    | limit count => exact List.take_nil
    | _ => rfl
  rw [decodeLookupResponse, decodeCandidateGroups_of_encodes name
    (encodesRecords_encode (by simp [maxResponseRecords]) hsize), hrecords]
  simp only [Except.map, show groupedEndpointCandidates ([] : List (TaggedEndpointCandidate UInt32)) =
    [] from rfl, hempty]
  rfl

/-- A response that carries a packet of the authority: without a signature, or signed by the
authority and with its leaf certificate. -/
structure ResponseRecord.PublishedBy (r : ResponseRecord) (authority : LocalAuthority)
    (packet : List UInt8) : Prop where
  dns : r.dns = packet
  signature : r.signatureFields = SignatureFields.empty ∨
    ∃ created, SignatureFields.sign created packet authority = .ok r.signatureFields ∧
      authority.certificates.head? = some r.cert

omit [DhttpHome] [SubjectKey] in
/-- Such a response is not refused for its signature. -/
theorem ResponseRecord.PublishedBy.accepted {r : ResponseRecord} {authority : LocalAuthority}
    {packet : List UInt8} (h : r.PublishedBy authority packet) :
    ¬ (¬ r.signatureFields.isEmpty ∧ r.signatureFields.verify r.dns r.cert ≠ .ok true) := by
  rintro ⟨hempty, hverify⟩
  rcases h.signature with hfields | ⟨created, hsign, hleaf⟩
  · rw [hfields] at hempty
    exact hempty rfl
  · rw [h.dns] at hverify
    exact hverify (SignatureFields.verify_of_sign hsign hleaf)

/-- The packet of an authority that fits the limit is read back whole. -/
theorem dnsPacketForAuthority_read {authority : LocalAuthority} {name : Name}
    {endpoints : List DquicEndpointAddr} {packet : List UInt8} (hname : WellFormedName name)
    (hplain : ∀ endpoint ∈ endpoints, endpoint.Plain)
    (hok : dnsPacketForAuthority authority name endpoints = .ok packet)
    (hlimit : packet.length ≤ dnsPacketLimit) :
    ∃ chain records p, SubjectKey.extract authority.certificates = .ok chain ∧
      List.Forall₂ (Stamped chain.sequence) endpoints records ∧
      bePacket (wholeSlice packet) = .ok ⟨packet.length, []⟩ p ∧
      p.answers = records.map (answerRecord name) := by
  obtain ⟨records, hrecords, hpacket⟩ : ∃ records,
      dnsEndpointsForAuthority authority name endpoints = .ok records ∧
        (Packet.answer 0 [(name, records)]).toBytes = packet := by
    unfold dnsPacketForAuthority at hok
    cases hencoded : dnsEndpointsForAuthority authority name endpoints with
    | error e =>
      rw [hencoded] at hok
      cases hok
    | ok records =>
      rw [hencoded] at hok
      exact ⟨records, rfl, Except.ok.inj hok⟩
  obtain ⟨_, chain, hchain, hstamped⟩ := dnsEndpointsForAuthority_ok hrecords hplain
  have hanswers : answerRecords [(name, records)] = records.map (answerRecord name) := by
    simp [answerRecords]
  have honly := answersOnly_answer 0 [(name, records)]
  have hall : ∀ r ∈ answerRecords [(name, records)], r.IsAnswer := by
    intro r hr
    refine isAnswer_of_mem ?_ hr
    intro host hhost
    rw [List.mem_singleton.mp hhost]
    exact ⟨hname, fun record hmem => Stamped.publishable_of_mem hstamped hmem⟩
  subst hpacket
  exact ⟨chain, records, _, hchain, hstamped,
    honly.bePacket_toBytes hall (honly.length_le hall hlimit), honly.answers.trans hanswers⟩

/-- A lookup of all sequences returns the endpoints of such a packet as one group. -/
theorem decodeLookupResponse_published {Source : Type} (source : Source) (headers : HeaderMap)
    {authority : LocalAuthority} {name : Name} {endpoints : List DquicEndpointAddr}
    {packet : List UInt8} {sequence : CertificateSequence} {records : List EndpointAddr}
    {p : Packet} (hne : endpoints ≠ [])
    (hstamped : List.Forall₂ (Stamped sequence) endpoints records)
    (hread : bePacket (wholeSlice packet) = .ok ⟨packet.length, []⟩ p)
    (hanswers : p.answers = records.map (answerRecord name)) {r : ResponseRecord}
    (hr : r.PublishedBy authority packet) (hsize : MultiResponse.encodingSize ⟨[r]⟩ < 2 ^ 32) :
    decodeLookupResponse name .all source headers (MultiResponse.encode ⟨[r]⟩) =
      .ok ⟨⟨[⟨primaryChainKey sequence, endpoints.eraseDups, [source]⟩]⟩,
        freshness 300 headers⟩ := by
  have hcandidates : decodeRecords name [r] =
      .ok (records.map fun record => ⟨300, record, r.publisherCertificateChainKey⟩, 0) := by
    rw [decodeRecords, if_neg hr.accepted, hr.dns, hread]
    dsimp only
    rw [if_neg (by simp), hanswers, answerCandidates_answerRecord]
    simp [decodeRecords, Except.map]
  have husable : List.Forall₂
      (fun (candidate : TaggedEndpointCandidate UInt32) endpoint =>
        candidate.Usable (primaryChainKey sequence) endpoint)
      (records.map fun record => ⟨300, record, r.publisherCertificateChainKey⟩) endpoints := by
    rw [List.forall₂_map_left_iff]
    exact hstamped.flip.imp fun record endpoint h => h.usable 300 _
  have htags : ∀ t ∈ (records.map fun record =>
      (⟨300, record, r.publisherCertificateChainKey⟩ : TaggedEndpointCandidate UInt32)).map
        TaggedEndpointCandidate.tag, t = 300 := by
    intro t ht
    obtain ⟨candidate, hcandidate, rfl⟩ := List.mem_map.mp ht
    obtain ⟨record, _, rfl⟩ := List.mem_map.mp hcandidate
    rfl
  have hcollected := collectGroups_one source (primaryChainKey sequence) htags
    (by rw [List.length_map]; exact husable.length_eq) hne
  rw [decodeLookupResponse, decodeCandidateGroups_of_encodes name
    (encodesRecords_encode (by simp [maxResponseRecords]) hsize), hcandidates]
  simp only [Except.map, grouped_of_one_chain husable hne, filterEndpointCandidateGroups,
    Option.isSome_none, Bool.false_eq_true, if_false, selectGroupPairs, EndpointLookup.all,
    hcollected]
  rfl

/-- Every answer of a published packet stands for one endpoint, in order, and the lookup of the
name returns the endpoints without duplicates under the primary chain of the authority. That the
packet was made at all says that the name is the authority's and that its chain is primary. -/
theorem published_endpoints_are_looked_up (authority : LocalAuthority) (chain : CertificateChainKey)
    (labels : List Name) (name : Name) (endpoints : List DquicEndpointAddr) (packet : List UInt8)
    (hchain : SubjectKey.extract authority.certificates = .ok chain)
    (hname : name = dotJoin labels ∧ labels ≠ [] ∧ WellFormedLabels labels)
    (hne : endpoints ≠ []) (hplain : ∀ endpoint ∈ endpoints, endpoint.Plain)
    (hok : dnsPacketForAuthority authority name endpoints = .ok packet)
    (hlimit : packet.length ≤ dnsPacketLimit) :
    (∃ remain p, bePacket (wholeSlice packet) = .ok remain p ∧ remain.bytes = [] ∧
      List.Forall₂ (fun answer endpoint => answer.name = name ∧ answer.typ = .e ∧
        answer.ttl = 300 ∧ ∃ record, answer.data = .e record ∧ record.isMain = true ∧
          record.normalizedSequence = chain.sequence ∧
          DquicEndpointAddr.tryFrom record = some endpoint) p.answers endpoints) ∧
    ∀ (Source : Type) (source : Source) (headers : HeaderMap) (r : ResponseRecord),
      r.PublishedBy authority packet → MultiResponse.encodingSize ⟨[r]⟩ < 2 ^ 32 →
      decodeLookupResponse name .all source headers (MultiResponse.encode ⟨[r]⟩) =
        .ok ⟨⟨[⟨primaryChainKey chain.sequence, endpoints.eraseDups, [source]⟩]⟩,
          freshness 300 headers⟩ := by
  obtain ⟨chain', records, p, hchain', hstamped, hread, hanswers⟩ := dnsPacketForAuthority_read
    (Or.inr ⟨labels, hname.2.1, hname.2.2, hname.1⟩) hplain hok hlimit
  obtain rfl : chain' = chain := by
    rw [hchain] at hchain'
    exact (Except.ok.inj hchain').symm
  refine ⟨⟨_, p, hread, rfl, ?_⟩, ?_⟩
  · rw [hanswers, List.forall₂_map_left_iff]
    refine hstamped.flip.imp fun record endpoint h => ?_
    exact ⟨rfl, rfl, rfl, record, rfl, h.isMain, h.normalizedSequence, h.converts⟩
  · intro Source source headers r hr hsize
    exact decodeLookupResponse_published source headers hne hstamped hread hanswers hr hsize

end Published

section Sample

attribute [local instance] plainHome

attribute [local instance] plainCrypto plainSubjectKey

/-- A relay is published twice, around a direct endpoint. -/
def sampleEndpoints : List DquicEndpointAddr :=
  [.mediate (.v4 ⟨0x0A000001, 5353⟩) (.v4 ⟨0xCB00710A, 4433⟩), .direct (.v6 ⟨1, 443, 0, 0⟩),
    .mediate (.v4 ⟨0x0A000001, 5353⟩) (.v4 ⟨0xCB00710A, 4433⟩)]

/-- The records of these endpoints. -/
def sampleRecords : List EndpointAddr :=
  [((EndpointAddr.natV4 ⟨0xCB00710A, 4433⟩ ⟨0x0A000001, 5353⟩).setMain true).setSequence
      (CertificateSequence.ofU8 7),
    ((EndpointAddr.directV6 ⟨1, 443, 0, 0⟩).setMain true).setSequence (CertificateSequence.ofU8 7),
    ((EndpointAddr.natV4 ⟨0xCB00710A, 4433⟩ ⟨0x0A000001, 5353⟩).setMain true).setSequence
      (CertificateSequence.ofU8 7)]

def samplePacket : List UInt8 := (Packet.answer 0 [(['d', '.', 'n'], sampleRecords)]).toBytes

theorem published_endpoints_are_looked_up_twice :
    dnsPacketForAuthority (plainAuthority ['d', '.', 'n']) ['d', '.', 'n'] sampleEndpoints = .ok samplePacket ∧
      decodeLookupResponse ['d', '.', 'n'] .all () []
          (MultiResponse.encode ⟨[ResponseRecord.unsigned samplePacket []]⟩) =
        .ok ⟨⟨[⟨primaryChainKey (CertificateSequence.ofU8 7), sampleEndpoints.take 2, [()]⟩]⟩,
          300⟩ := by
  have hok : dnsPacketForAuthority (plainAuthority ['d', '.', 'n']) ['d', '.', 'n'] sampleEndpoints =
      .ok samplePacket := rfl
  refine ⟨hok, ?_⟩
  exact (published_endpoints_are_looked_up (plainAuthority ['d', '.', 'n']) _ [['d'], ['n']] ['d', '.', 'n']
    sampleEndpoints samplePacket rfl (by decide) (by decide)
    (by simp [sampleEndpoints, DquicEndpointAddr.Plain, SocketAddr.Plain]) hok (by decide)).2
    Unit () [] (.unsigned samplePacket []) ⟨rfl, Or.inl rfl⟩ (by decide)

end Sample

end Ddns
