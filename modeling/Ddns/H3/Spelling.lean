import Ddns.Core.ErrorSites
import Ddns.H3.Cache
import Ddns.Publishers.PublishedPacket
import Ddns.Resolvers.LookupName

/-! Spellings of one name that share a cache key. The key forgets case and a dot at the end, but
the answers of a response are compared with the name as it was given. -/
namespace Ddns

open Nom BigEndian

/-- A text that a decoded label can have. -/
structure DecodedLabel (label : Name) : Prop where
  nonempty : label ≠ []
  short : label.length ≤ 63

/-- A label that can be put on the wire, dots or not. -/
structure WireLabel (label : Name) : Prop where
  nonempty : label ≠ []
  short : (Utf8.encode label).length ≤ 63

/-- The name ends in a dot after a label of 63 characters. -/
def EndsLong (name : Name) : Prop :=
  ∃ start label, name = start ++ (label ++ ['.']) ∧ label.length = 63 ∧ '.' ∉ label

theorem dotJoin_concat (labels : List Name) (label : Name) :
    dotJoin (labels ++ [label]) = label ∨
      ∃ start, dotJoin (labels ++ [label]) = start ++ '.' :: label := by
  by_cases hne : labels = []
  · left
    rw [hne]
    simp [dotJoin]
  · right
    refine ⟨dotJoin labels, ?_⟩
    rw [dotJoin_append hne (List.cons_ne_nil _ _)]
    simp [dotJoin]

/-- A dot at the end of a name belongs to the last label. -/
theorem dotJoin_concat_dot (labels : List Name) (label : Name) :
    dotJoin (labels ++ [label ++ ['.']]) = dotJoin (labels ++ [label]) ++ ['.'] := by
  by_cases hne : labels = []
  · rw [hne]
    simp [dotJoin]
  · rw [dotJoin_append hne (List.cons_ne_nil _ _), dotJoin_append hne (List.cons_ne_nil _ _)]
    simp [dotJoin]

/-- The last decoded label would have to hold the dot and the 63 characters before it. -/
theorem EndsLong.not_decoded {name : Name} (h : EndsLong name) {labels : List Name}
    (hlabels : ∀ label ∈ labels, DecodedLabel label) : nameOfLabels labels ≠ name := by
  obtain ⟨start, long, rfl, hlong, hdot⟩ := h
  intro heq
  rcases List.eq_nil_or_concat labels with rfl | ⟨init, last, rfl⟩
  · have hlen := congrArg List.length heq
    simp only [nameOfLabels, if_true, List.length_append, List.length_singleton] at hlen
    omega
  rw [List.concat_eq_append] at heq hlabels
  obtain ⟨hne, hshort⟩ := hlabels last (by simp)
  rw [nameOfLabels, if_neg (by simp)] at heq
  rcases dotJoin_concat init last with hjoin | ⟨before, hjoin⟩
  · have hlen := congrArg List.length (hjoin.symm.trans heq)
    simp only [List.length_append, List.length_singleton] at hlen
    omega
  -- counted from the end, the dot before the last label stands inside the long one
  have hrev := congrArg List.reverse (hjoin.symm.trans heq)
  simp only [List.reverse_append, List.reverse_cons, List.reverse_nil, List.nil_append,
    List.append_assoc, List.cons_append] at hrev
  obtain ⟨k, hk⟩ : ∃ k, last.length = k + 1 :=
    ⟨last.length - 1, by have := List.length_pos_of_ne_nil hne; omega⟩
  have hget := congrArg (fun chars : List Char => chars[last.length]?) hrev
  rw [List.getElem?_append_right (by simp), List.length_reverse, Nat.sub_self, hk,
    List.getElem?_cons_succ, List.getElem?_append_left (by rw [List.length_reverse]; omega)] at hget
  exact hdot (List.mem_reverse.mp (List.mem_of_getElem? hget.symm))

/-- A host either can be put on the wire label by label, or it ends long. -/
theorem wireLabels_of_isDnsName [PkiTypes] {host : Name} (h : PkiTypes.isDnsName host = true)
    (hlong : ¬ EndsLong host) :
    ∃ labels, labels ≠ [] ∧ (∀ label ∈ labels, WireLabel label) ∧ host = dotJoin labels := by
  obtain ⟨labels, hne, hw, hascii, rfl | rfl⟩ := PkiTypes.isDnsName_labels host h
  · exact ⟨labels, hne, fun label hl => ⟨(hw label hl).nonempty, (hw label hl).short⟩, rfl⟩
  rcases List.eq_nil_or_concat labels with rfl | ⟨init, last, rfl⟩
  · exact absurd rfl hne
  rw [List.concat_eq_append] at hlong hw hascii ⊢
  have hlast : last ∈ init ++ [last] := by simp
  obtain ⟨hnonempty, hdot, hshort⟩ := hw last hlast
  have hbytes := Utf8.encode_length_of_ascii (hascii last hlast)
  have hroom : last.length ≠ 63 := by
    intro h63
    refine hlong ?_
    rcases dotJoin_concat init last with hjoin | ⟨before, hjoin⟩
    · exact ⟨[], last, by rw [hjoin]; rfl, h63, hdot⟩
    · exact ⟨before ++ ['.'], last, by rw [hjoin]; simp, h63, hdot⟩
  have hdotted : (Utf8.encode (last ++ ['.'])).length = (Utf8.encode last).length + 1 := by
    rw [Utf8.encode_append, List.length_append]
    rfl
  refine ⟨init ++ [last ++ ['.']], by simp, ?_, (dotJoin_concat_dot init last).symm⟩
  intro label hmem
  rcases List.mem_append.mp hmem with hmem | hmem
  · have hinit := hw label (List.mem_append_left _ hmem)
    exact ⟨hinit.nonempty, hinit.short⟩
  · rw [List.mem_singleton.mp hmem]
    exact ⟨by simp, by omega⟩

section Decoded

variable {origin input remain : Slice}

/-- What is read as a name is made of decoded labels. -/
theorem beName_decoded {name : Name} (h : beName input origin = .ok remain name) :
    ∃ labels, (∀ label ∈ labels, DecodedLabel label) ∧ name = nameOfLabels labels := by
  obtain ⟨labels, hexpands, rfl⟩ := (beName_yields input origin).1 _ _ h
  refine ⟨labels.map Utf8.fromUtf8Lossy, ?_, rfl⟩
  intro label hmem
  obtain ⟨bytes, hbytes, rfl⟩ := List.mem_map.mp hmem
  obtain ⟨hpos, hmax⟩ := hexpands.label_bounds bytes hbytes
  refine ⟨Utf8.fromUtf8Lossy_ne_nil (List.ne_nil_of_length_pos hpos), ?_⟩
  exact (Utf8.fromUtf8Lossy_length_le bytes).trans hmax

/-- The section loop keeps only what its parser accepted. -/
theorem accepted_of_mem_parse {α : Type} {parser : Slice → IResult α} {n : ℕ} {s : Slice}
    {item : α} (h : item ∈ (parse parser n s).2) : ∃ input remain, parser input = .ok remain item := by
  induction n generalizing s with
  | zero => exact absurd h List.not_mem_nil
  | succ n ih =>
    rw [parse] at h
    split at h
    · rename_i newInput record hok
      rcases List.mem_cons.mp h with rfl | h
      · exact ⟨s, newInput, hok⟩
      · exact ih h
    · exact ih h
    · exact absurd h List.not_mem_nil

variable [DhttpHome]

/-- No answer of a decoded packet has a name that ends long. -/
theorem EndsLong.not_answered {name : Name} (h : EndsLong name) {p : Packet}
    (hread : bePacket input = .ok remain p) : ∀ answer ∈ p.answers, answer.name ≠ name := by
  obtain ⟨r₁, header, _, hread⟩ := andThen_eq_ok.mp hread
  obtain ⟨r₂, _, _, hread⟩ := andThen_eq_ok.mp hread
  obtain ⟨_, rfl⟩ := IResult.ok.inj hread
  intro answer hmem
  obtain ⟨s, t, hrecord⟩ := accepted_of_mem_parse hmem
  obtain ⟨r, head, hhead, _, _, hname⟩ := beRecord_ok hrecord
  obtain ⟨_, name', hbe, hhead⟩ := andThen_eq_ok.mp hhead
  obtain ⟨labels, hlabels, rfl⟩ := beName_decoded hbe
  obtain ⟨_, typ, _, hhead⟩ := andThen_eq_ok.mp hhead
  obtain ⟨_, cls, _, hhead⟩ := andThen_eq_ok.mp hhead
  obtain ⟨_, ttl, _, hhead⟩ := andThen_eq_ok.mp hhead
  obtain ⟨rdlen, _, rfl⟩ := map_eq_ok.mp hhead
  rw [hname]
  exact h.not_decoded hlabels

variable [SubjectKey] [Crypto]

/-- Two names that no answer has are the same to the decoder. -/
theorem decodeRecords_of_endsLong {name name' : Name} (h : EndsLong name) (h' : EndsLong name')
    (records : List ResponseRecord) : decodeRecords name records = decodeRecords name' records := by
  induction records with
  | nil => rfl
  | cons response rest ih =>
    rw [decodeRecords, decodeRecords, ih]
    cases hread : bePacket (wholeSlice response.dns) with
    | err e => rfl
    | ok remain p =>
      dsimp only
      rw [answerCandidates_absent _ (h.not_answered hread),
        answerCandidates_absent _ (h'.not_answered hread)]

theorem decodeLookupResponse_of_endsLong {Source : Type} {name name' : Name} (h : EndsLong name)
    (h' : EndsLong name') (lookup : EndpointLookup) (source : Source) (headers : HeaderMap)
    (body : List UInt8) :
    decodeLookupResponse name lookup source headers body =
      decodeLookupResponse name' lookup source headers body := by
  have hgroups : decodeCandidateGroups name body = decodeCandidateGroups name' body := by
    simp only [decodeCandidateGroups, decodeRecords_of_endsLong h h']
  rw [decodeLookupResponse, decodeLookupResponse, hgroups]

end Decoded

section Wire

/-- A name written label by label, without compression. -/
def wireName (labels : List Name) : List UInt8 := labels.flatMap labelWire ++ [0]

theorem reads_wireName {buf : List UInt8} {labels : List Name}
    (h : ∀ label ∈ labels, WireLabel label) : Reads buf (wireName labels) labels := by
  induction labels generalizing buf with
  | nil =>
    intro x t
    exact Expands.root (show _ = 0 :: t from rfl)
  | cons label labels ih =>
    obtain ⟨hlabel, hlabels⟩ := List.forall_mem_cons.mp h
    rw [wireName, List.flatMap_cons, List.append_assoc]
    exact reads_label hlabel.nonempty hlabel.short (ih hlabels)

theorem beName_wireName {labels : List Name} (hne : labels ≠ [])
    (h : ∀ label ∈ labels, WireLabel label) (buf x : List UInt8) :
    beName ⟨buf.length, wireName labels ++ x⟩ ⟨0, buf ++ (wireName labels ++ x)⟩ =
      .ok ⟨buf.length + (wireName labels).length, x⟩ (dotJoin labels) := by
  have hid : labels.map (Utf8.fromUtf8Lossy ∘ Utf8.encode) = labels :=
    List.map_id'' Utf8.fromUtf8Lossy_encode labels
  rw [beName_of_expands (reads_wireName h x x), wireLabels, List.map_map, hid, nameOfLabels,
    if_neg hne]

/-- On the wire a name takes two bytes more than its UTF-8 text. -/
theorem wireName_length {labels : List Name} (hne : labels ≠ []) :
    (wireName labels).length = (Utf8.encode (dotJoin labels)).length + 2 := by
  induction labels with
  | nil => exact absurd rfl hne
  | cons label labels ih =>
    rw [wireName, List.flatMap_cons, List.append_assoc, List.length_append]
    cases labels with
    | nil => simp [labelWire, dotJoin]
    | cons next labels =>
      have hrest := ih (List.cons_ne_nil _ _)
      rw [wireName] at hrest
      rw [hrest, dotJoin_cons_cons, Utf8.encode_append, List.length_append, labelWire,
        List.length_cons, Utf8.encode_cons, List.length_append,
        show (String.utf8EncodeChar '.').length = 1 from rfl]
      omega

variable [DhttpHome]

def oneAnswerHeader : Header := ⟨0, 0x8000, 0, 1, 0, 0⟩

/-- A message is read with its only answer. -/
theorem bePacket_of_answer {w : List UInt8} {remain : Slice} {answer : ResourceRecord}
    (hlong : minResourceRecordWireLen ≤ w.length)
    (h : beRecord ⟨0, putHeader oneAnswerHeader ++ w⟩ ⟨12, w⟩ = .ok remain answer) :
    bePacket (wholeSlice (putHeader oneAnswerHeader ++ w)) =
      .ok remain ⟨oneAnswerHeader, [], [answer], [], []⟩ := by
  have hcounts : validateSectionCounts oneAnswerHeader ⟨12, w⟩ = .ok ⟨12, w⟩ () :=
    if_neg (Nat.not_lt.mpr hlong)
  have hanswers : parse (beRecord ⟨0, putHeader oneAnswerHeader ++ w⟩) 1 ⟨12, w⟩ =
      (remain, [answer]) := by
    rw [parse, h]
    rfl
  have hsections : parseSections ⟨0, putHeader oneAnswerHeader ++ w⟩ oneAnswerHeader ⟨12, w⟩ =
      (remain, ⟨oneAnswerHeader, [], [answer], [], []⟩) := by
    show ((parse _ 1 ⟨12, w⟩).1,
      (⟨oneAnswerHeader, [], (parse _ 1 ⟨12, w⟩).2, [], []⟩ : Packet)) = _
    rw [hanswers]
  rw [wholeSlice, bePacket, beHeader_put, andThen_ok, hcounts, andThen_ok, hsections]

/-- An answer for an endpoint, its name written as these labels. -/
def answerWire (labels : List Name) (record : EndpointAddr) : List UInt8 :=
  wireName labels ++ (recordFields (answerRecord (dotJoin labels) record)
    (UInt16.ofNat (putEndpointAddr record).length) ++ (putEndpointAddr record ++ []))

theorem answerWire_length {labels : List Name} (hne : labels ≠ []) (record : EndpointAddr) :
    (answerWire labels record).length =
      (Utf8.encode (dotJoin labels)).length + 12 + (putEndpointAddr record).length := by
  rw [answerWire, List.length_append, wireName_length hne, List.length_append,
    recordFields_length, List.append_nil]
  omega

/-- The answer is read back, even if its labels hold dots. -/
theorem bePacket_answerWire {labels : List Name} {record : EndpointAddr} (hne : labels ≠ [])
    (h : ∀ label ∈ labels, WireLabel label) (hrecord : record.Publishable) :
    ∃ q, bePacket (wholeSlice (putHeader oneAnswerHeader ++ answerWire labels record)) =
      .ok ⟨q, []⟩ ⟨oneAnswerHeader, [], [answerRecord (dotJoin labels) record], [], []⟩ := by
  have hlen := putEndpointAddr_length_le hrecord.unsigned
  have hrdlen : (UInt16.ofNat (putEndpointAddr record).length).toNat =
      (putEndpointAddr record).length := by
    rw [UInt16.toNat_ofNat']
    omega
  have hname := beName_wireName hne h (putHeader oneAnswerHeader)
    (recordFields (answerRecord (dotJoin labels) record)
      (UInt16.ofNat (putEndpointAddr record).length) ++ (putEndpointAddr record ++ []))
  rw [putHeader_length, ← answerWire] at hname
  obtain ⟨q, hq⟩ := beEndpointAddrCompat_put hrecord.wellFormed (by simp [hrecord.unsigned])
    (12 + (wireName labels).length + 10) (UInt16.ofNat (putEndpointAddr record).length)
  have hdata : beRdata ⟨0, putHeader oneAnswerHeader ++ answerWire labels record⟩
      (answerRecord (dotJoin labels) record).typ (UInt16.ofNat (putEndpointAddr record).length)
      ⟨12 + (wireName labels).length + 10, putEndpointAddr record⟩ = .ok ⟨q, []⟩ (.e record) := by
    show (beEndpointAddrCompat _ _).map RData.e = _
    rw [hq, map_ok]
  have hanswer := beRecord_of_parts (answerRecord (dotJoin labels) record) hrdlen hname
    ⟨q, hdata⟩
  refine ⟨_, bePacket_of_answer ?_ hanswer⟩
  rw [answerWire_length hne, minResourceRecordWireLen]
  omega

end Wire

section Answered

variable [DhttpHome]

/-- Every lookup would take some endpoint of the primary chain. -/
theorem exists_stamped (lookup : EndpointLookup) :
    ∃ sequence endpoint record, Stamped sequence endpoint record ∧
      endpointMatchesFamily endpoint lookup.family = true ∧
      ∀ exact, lookup.sequences = .exact exact → sequence = exact := by
  obtain ⟨addr, hplain, hfamily⟩ : ∃ addr : SocketAddr, addr.Plain ∧
      endpointMatchesFamily (.direct addr) lookup.family = true := by
    rcases lookup.family with _ | _ | _
    · exact ⟨.v4 ⟨0, 0⟩, trivial, rfl⟩
    · exact ⟨.v4 ⟨0, 0⟩, trivial, rfl⟩
    · exact ⟨.v6 ⟨0, 0, 0, 0⟩, ⟨rfl, rfl⟩, rfl⟩
  obtain ⟨sequence, hexact⟩ : ∃ sequence, ∀ exact, lookup.sequences = .exact exact →
      sequence = exact := by
    cases lookup.sequences with
    | exact sequence => exact ⟨sequence, fun exact h => SequenceQuery.exact.inj h⟩
    | _ => exact ⟨CertificateSequence.ofU8 0, fun exact h => nomatch h⟩
  obtain ⟨record, hrecord⟩ : ∃ record, stampEndpoint sequence (.direct addr) = some record := by
    cases addr <;> exact ⟨_, rfl⟩
  exact ⟨sequence, .direct addr, record, stampEndpoint_spec hrecord hplain, hfamily, hexact⟩

/-- A lookup that would take the endpoint keeps a group of it alone. -/
theorem collectGroups_taken {Source : Type} (source : Source) (lookup : EndpointLookup)
    {sequence : CertificateSequence} {endpoint : DquicEndpointAddr} (ttl : UInt32)
    (hfamily : endpointMatchesFamily endpoint lookup.family = true)
    (hexact : ∀ exact, lookup.sequences = .exact exact → sequence = exact) :
    collectGroups source lookup.recordLimit
        (selectGroupPairs (filterEndpointCandidateGroups
          [(primaryChainKey sequence, [(ttl, endpoint)])] lookup.family) lookup.sequences) none =
      (some ttl, [⟨primaryChainKey sequence, [endpoint], [source]⟩]) := by
  have hfilter : filterEndpointCandidateGroups [(primaryChainKey sequence, [(ttl, endpoint)])]
      lookup.family = [(primaryChainKey sequence, [(ttl, endpoint)])] := by
    rw [filterEndpointCandidateGroups]
    split
    · simp [hfamily]
    · rfl
  have hselect : ∀ groups : EndpointCandidateGroups UInt32,
      groups = [(primaryChainKey sequence, [(ttl, endpoint)])] →
      selectGroupPairs groups lookup.sequences = groups := by
    rintro _ rfl
    cases hquery : lookup.sequences with
    | default => rfl
    | exact exact =>
      obtain rfl := hexact exact hquery
      simp [selectGroupPairs, primaryChainKey]
    | limit count => exact List.take_of_length_le count.pos
    | all => rfl
  have hlimit : takeLimit lookup.recordLimit [(ttl, endpoint)] = [(ttl, endpoint)] := by
    cases lookup.recordLimit with
    | none => rfl
    | some count => exact List.take_of_length_le count.pos
  rw [hfilter, hselect _ rfl]
  simp only [collectGroups, unseen, List.not_mem_nil, if_false, hlimit]
  rfl

variable [SubjectKey] [Crypto]

/-- A response whose only answer has the name and an endpoint that the lookup takes. -/
theorem decodeLookupResponse_taken {Source : Type} (source : Source) (headers : HeaderMap)
    (lookup : EndpointLookup) {name : Name} {r : ResponseRecord} {remain : Slice} {p : Packet}
    {sequence : CertificateSequence} {endpoint : DquicEndpointAddr} {record : EndpointAddr}
    (haccepted : r.signatureFields = SignatureFields.empty)
    (hread : bePacket (wholeSlice r.dns) = .ok remain p) (hremain : remain.bytes = [])
    (hanswers : p.answers = [answerRecord name record])
    (hstamped : Stamped sequence endpoint record)
    (hfamily : endpointMatchesFamily endpoint lookup.family = true)
    (hexact : ∀ exact, lookup.sequences = .exact exact → sequence = exact)
    (hsize : MultiResponse.encodingSize ⟨[r]⟩ < 2 ^ 32) :
    ∃ answer, decodeLookupResponse name lookup source headers (MultiResponse.encode ⟨[r]⟩) =
      .ok answer := by
  have hrecords : decodeRecords name [r] =
      .ok ([⟨300, record, r.publisherCertificateChainKey⟩], 0) := by
    rw [decodeRecords_unsigned name haccepted hread hremain, hanswers]
    exact congrArg (fun candidates => Except.ok (candidates, 0))
      (answerCandidates_answerRecord name r.publisherCertificateChainKey [record])
  have hgroups := grouped_of_one_chain
    (.cons (hstamped.usable (300 : UInt32) r.publisherCertificateChainKey) .nil)
    (List.cons_ne_nil endpoint [])
  refine ⟨⟨⟨[⟨primaryChainKey sequence, [endpoint], [source]⟩]⟩, freshness 300 headers⟩, ?_⟩
  rw [decodeLookupResponse, decodeCandidateGroups_of_encodes name
    (encodesRecords_encode (by simp [maxResponseRecords]) hsize), hrecords]
  simp only [Except.map, hgroups, List.map_cons, List.map_nil, List.zip_cons_cons, List.zip_nil_right,
    collectGroups_taken source lookup 300 hfamily hexact]
  rfl

/-- A name that can be written is told apart from every other name by some response. -/
theorem separated_of_wireLabels {Source : Type} (source : Source) (lookup : EndpointLookup)
    {labels : List Name} {name' : Name} (hne : labels ≠ [])
    (hlabels : ∀ label ∈ labels, WireLabel label)
    (hshort : (Utf8.encode (dotJoin labels)).length ≤ 253) (hdiff : dotJoin labels ≠ name') :
    ∃ headers body, decodeLookupResponse (dotJoin labels) lookup source headers body ≠
      decodeLookupResponse name' lookup source headers body := by
  obtain ⟨sequence, endpoint, record, hstamped, hfamily, hexact⟩ := exists_stamped lookup
  obtain ⟨q, hread⟩ := bePacket_answerWire hne hlabels hstamped.publishable
  have hsize : MultiResponse.encodingSize
      ⟨[.unsigned (putHeader oneAnswerHeader ++ answerWire labels record) []]⟩ < 2 ^ 32 := by
    have hdata := putEndpointAddr_length_le hstamped.publishable.unsigned
    simp only [MultiResponse.encodingSize, ResponseRecord.unsigned, SignatureFields.empty,
      List.map_cons, List.map_nil, List.sum_cons, List.sum_nil, List.length_nil,
      List.length_append, putHeader_length, answerWire_length hne]
    omega
  generalize putHeader oneAnswerHeader ++ answerWire labels record = message at hread hsize
  refine ⟨[], MultiResponse.encode ⟨[.unsigned message []]⟩, ?_⟩
  obtain ⟨answer, hanswer⟩ := decodeLookupResponse_taken (r := .unsigned message []) source [] lookup
    rfl hread rfl rfl hstamped hfamily hexact hsize
  have habsent : ∀ answer ∈ [answerRecord (dotJoin labels) record], answer.name ≠ name' := by
    intro answer hmem
    rw [List.mem_singleton.mp hmem]
    exact hdiff
  rw [hanswer, decodeLookupResponse_absent (r := .unsigned message []) source [] lookup name' rfl hread
    rfl habsent hsize]
  intro hsame
  cases hsame

variable [PkiTypes]

/-- So is every host that does not end long. -/
theorem separated_of_not_endsLong {Source : Type} (source : Source) (lookup : EndpointLookup)
    {host host' : Name} (h : PkiTypes.isDnsName host = true) (hlong : ¬ EndsLong host)
    (hdiff : host ≠ host') :
    ∃ headers body, decodeLookupResponse host lookup source headers body ≠
      decodeLookupResponse host' lookup source headers body := by
  have hbytes := isDnsName_bytes h
  obtain ⟨labels, hne, hlabels, rfl⟩ := wireLabels_of_isDnsName h hlong
  exact separated_of_wireLabels source lookup hne hlabels hbytes hdiff

/-- Two spellings that share a cache key get the same answer from every response if and only if
they are the same host, or neither of them is a name that an answer can have. -/
theorem same_answer_iff_same_spelling {Source : Type} (source : Source) {name₁ name₂ host₁ host₂ : Name}
    {sequence₁ sequence₂ : Option CertificateSequence} (requested₁ requested₂ : EndpointLookup)
    (h₁ : endpointLookupNameAndSequence name₁ = some (host₁, sequence₁))
    (h₂ : endpointLookupNameAndSequence name₂ = some (host₂, sequence₂))
    (hkey : LookupKey.new host₁ (exactOverride requested₁ sequence₁) =
      LookupKey.new host₂ (exactOverride requested₂ sequence₂)) :
    (∀ headers body,
      decodeLookupResponse host₁ (exactOverride requested₁ sequence₁) source headers body =
        decodeLookupResponse host₂ (exactOverride requested₂ sequence₂) source headers body) ↔
      host₁ = host₂ ∨ EndsLong host₁ ∧ EndsLong host₂ := by
  have hlookup : exactOverride requested₁ sequence₁ = exactOverride requested₂ sequence₂ :=
    congrArg LookupKey.lookup hkey
  rw [hlookup]
  constructor
  · intro hsame
    by_cases hdiff : host₁ = host₂
    · exact Or.inl hdiff
    refine Or.inr ⟨?_, ?_⟩
    · by_contra hlong
      obtain ⟨headers, body, hne⟩ := separated_of_not_endsLong source
        (exactOverride requested₂ sequence₂) (isDnsName_of_accepted h₁) hlong hdiff
      exact hne (hsame headers body)
    · by_contra hlong
      obtain ⟨headers, body, hne⟩ := separated_of_not_endsLong source
        (exactOverride requested₂ sequence₂) (isDnsName_of_accepted h₂) hlong (Ne.symm hdiff)
      exact hne (hsame headers body).symm
  · rintro (rfl | ⟨hlong₁, hlong₂⟩) headers body
    · rfl
    · exact decodeLookupResponse_of_endsLong hlong₁ hlong₂ _ source headers body

end Answered

section Sample

attribute [local instance] plainHome plainCrypto plainSubjectKey plainPki

theorem same_answer_iff_same_spelling_capital :
    ¬ ∀ headers body, decodeLookupResponse ['d', '.', 'n'] (exactOverride .all none) () headers body =
      decodeLookupResponse ['D', '.', 'n'] (exactOverride .all none) () headers body := by
  intro hsame
  have hlower : endpointLookupNameAndSequence ['d', '.', 'n'] = some (['d', '.', 'n'], none) := rfl
  have hcapital : endpointLookupNameAndSequence ['D', '.', 'n'] = some (['D', '.', 'n'], none) := rfl
  rcases (same_answer_iff_same_spelling () .all .all hlower hcapital rfl).mp hsame with
    h | ⟨⟨start, label, h, _⟩, _⟩
  · exact absurd h (by decide)
  · have hlast := congrArg List.getLast? h
    simp at hlast

/-- The packet of a lower-case name, looked up with a capital letter. -/
theorem capital_spelling_not_found :
    endpointLookupNameAndSequence ['d', '.', 'n'] = some (['d', '.', 'n'], none) ∧
    endpointLookupNameAndSequence ['D', '.', 'n'] = some (['D', '.', 'n'], none) ∧
    LookupKey.new ['d', '.', 'n'] (exactOverride .all none) =
      LookupKey.new ['D', '.', 'n'] (exactOverride .all none) ∧
    decodeLookupResponse ['d', '.', 'n'] (exactOverride .all none) () []
        (MultiResponse.encode ⟨[.unsigned samplePacket []]⟩) =
      .ok ⟨⟨[⟨primaryChainKey (.ofU8 7), sampleEndpoints.take 2, [()]⟩]⟩, 300⟩ ∧
    decodeLookupResponse ['D', '.', 'n'] (exactOverride .all none) () []
        (MultiResponse.encode ⟨[.unsigned samplePacket []]⟩) = .error .noRecordFound := by
  have hpacket : dnsPacketForAuthority (plainAuthority ['d', '.', 'n']) ['d', '.', 'n']
      sampleEndpoints = .ok samplePacket := rfl
  have hpublished : (ResponseRecord.unsigned samplePacket []).PublishedBy
      (plainAuthority ['d', '.', 'n']) samplePacket := ⟨rfl, Or.inl rfl⟩
  obtain ⟨chain, records, p, hchain, hstamped, hread, hanswers⟩ :=
    dnsPacketForAuthority_read (by decide)
      (by simp [sampleEndpoints, DquicEndpointAddr.Plain, SocketAddr.Plain]) hpacket (by decide)
  obtain rfl := Except.ok.inj hchain
  refine ⟨rfl, rfl, rfl, ?_, ?_⟩
  · exact decodeLookupResponse_published () [] (by decide) hstamped hread hanswers hpublished
      (by decide)
  · refine decodeLookupResponse_absent (r := .unsigned samplePacket []) () [] _ _ rfl hread rfl ?_
      (by decide)
    rw [hanswers]
    intro answer hmem
    obtain ⟨record, _, rfl⟩ := List.mem_map.mp hmem
    exact show ['d', '.', 'n'] ≠ ['D', '.', 'n'] by decide

end Sample

end Ddns
