import Ddns.Core.EndpointCodec

/-! Which bytes are read as an endpoint record, and how they differ from the ones written. -/
namespace Ddns

open Nom BigEndian

section Inversion

theorem beSocketAddrV4_ok {s r : Slice} {addr : SocketAddrV4} (h : beSocketAddrV4 s = .ok r addr) :
    s.bytes = putSocketAddrV4 addr ++ r.bytes := by
  obtain ⟨remain, port, hport, h⟩ := andThen_eq_ok.mp h
  obtain ⟨ip, hip, rfl⟩ := map_eq_ok.mp h
  rw [(beWord_ok hport).1, (beWord_ok hip).1, putSocketAddrV4, List.append_assoc]

theorem beSocketAddrV6_ok {s r : Slice} {addr : SocketAddrV6} (h : beSocketAddrV6 s = .ok r addr) :
    s.bytes = putSocketAddrV6 addr ++ r.bytes ∧ addr.flowinfo = 0 ∧ addr.scopeId = 0 := by
  obtain ⟨remain, port, hport, h⟩ := andThen_eq_ok.mp h
  obtain ⟨ip, hip, rfl⟩ := map_eq_ok.mp h
  refine ⟨?_, rfl, rfl⟩
  rw [(beWord_ok hport).1, (beWord_ok hip).1, putSocketAddrV6, List.append_assoc]

theorem beSocketAddr_ok {isIpv6 : Bool} {s r : Slice} {addr : SocketAddr}
    (h : beSocketAddr isIpv6 s = .ok r addr) :
    s.bytes = putSocketAddr addr ++ r.bytes ∧ addr.isV6 = isIpv6 ∧ addr.Plain := by
  cases isIpv6 with
  | false =>
    obtain ⟨a, ha, rfl⟩ := map_eq_ok.mp h
    exact ⟨beSocketAddrV4_ok ha, rfl, trivial⟩
  | true =>
    obtain ⟨a, ha, rfl⟩ := map_eq_ok.mp h
    obtain ⟨hbytes, hplain⟩ := beSocketAddrV6_ok ha
    exact ⟨hbytes, rfl, hplain⟩

/-- An optional field that was read tells its flag and its bytes. -/
theorem cond_ok_bytes {α : Type} {present : Bool} {parser : Slice → IResult α}
    {put : α → List UInt8} {s r : Slice} {x : Option α}
    (hput : ∀ a, parser s = .ok r a → s.bytes = put a ++ r.bytes)
    (h : cond present parser s = .ok r x) :
    s.bytes = x.elim [] put ++ r.bytes ∧ present = x.isSome ∧
      ∀ a ∈ x, parser s = .ok r a := by
  rcases cond_ok h with ⟨rfl, a, ha, rfl⟩ | ⟨rfl, rfl, rfl⟩
  · refine ⟨hput a ha, rfl, ?_⟩
    intro b hb
    obtain rfl := Option.mem_some_iff.mp hb
    exact ha
  · exact ⟨rfl, rfl, by simp⟩

variable [DhttpHome]

theorem tryFrom_ok {value : ℕ} {sequence : CertificateSequence}
    (h : CertificateSequence.tryFrom value = some sequence) : sequence.get.toNat = value := by
  unfold CertificateSequence.tryFrom at h
  split at h
  · rename_i hle
    cases h
    have hlt := DhttpHome.sequenceMax.toNat_lt
    rw [UInt32.toNat_ofNat', Nat.mod_eq_of_lt (by omega)]
  · cases h

theorem beSequence_ok {s r : Slice} {sequence : CertificateSequence}
    (h : beSequence s = .ok r sequence) :
    ∃ w, VarintForm w (VarInt.fromU32 sequence.get) ∧ s.bytes = w ++ r.bytes := by
  obtain ⟨remain, x, hx, h⟩ := andThen_eq_ok.mp h
  split at h
  · rename_i found htry
    cases h
    have hval : x = VarInt.fromU32 sequence.get := by
      obtain ⟨val, hlt⟩ := x
      have hget := tryFrom_ok htry
      simp only [VarInt.fromU32, hget]
    rw [← hval]
    exact beVarint_form hx
  · cases h

theorem condSequence_ok {present : Bool} {s r : Slice} {sequence : Option CertificateSequence}
    (h : cond present beSequence s = .ok r sequence) :
    present = sequence.isSome ∧ ∃ w, SequenceForm w sequence ∧ s.bytes = w ++ r.bytes := by
  rcases cond_ok h with ⟨rfl, seq, hseq, rfl⟩ | ⟨rfl, rfl, rfl⟩
  · exact ⟨rfl, beSequence_ok hseq⟩
  · exact ⟨rfl, [], rfl, rfl⟩

/-- The part before the signature agrees with its flags. -/
theorem beEndpointBase_ok {s r : Slice} {e : EndpointAddr} (h : beEndpointBase s = .ok r e) :
    e.BaseFormed ∧ ∃ w, SequenceForm w e.sequence ∧ s.bytes = e.spell w ++ r.bytes := by
  obtain ⟨r₁, flags, hflags, h⟩ := andThen_eq_ok.mp h
  obtain ⟨r₂, sequence, hseq, h⟩ := andThen_eq_ok.mp h
  unfold beEndpointFields at h
  obtain ⟨r₃, primary, hprimary, h⟩ := andThen_eq_ok.mp h
  obtain ⟨r₄, agent, hagent, h⟩ := andThen_eq_ok.mp h
  obtain ⟨load, hload, rfl⟩ := map_eq_ok.mp h
  obtain ⟨hclustered, w, hw, hseqBytes⟩ := condSequence_ok hseq
  obtain ⟨haddrBytes, hfamily, hplain⟩ := beSocketAddr_ok hprimary
  obtain ⟨hagentBytes, hnat, hagents⟩ := cond_ok_bytes (fun a ha => (beSocketAddr_ok ha).1) hagent
  obtain ⟨hloadBytes, hloads, _⟩ := cond_ok_bytes (fun a ha => (beWord_ok ha).1) hload
  refine ⟨⟨hclustered, hloads, hnat, hfamily, ?_, hplain, ?_⟩, w, hw, ?_⟩
  · intro a ha
    exact (beSocketAddr_ok (hagents a ha)).2.1
  · intro a ha
    exact (beSocketAddr_ok (hagents a ha)).2.2
  · rw [(beU8_ok hflags).1, hseqBytes, haddrBytes, hagentBytes, hloadBytes, EndpointAddr.spell]
    simp only [List.append_assoc, List.cons_append, List.nil_append]

omit [DhttpHome] in
theorem beEndpointSignature_ok {flags : UInt8} {s r : Slice} {sig : Option EndpointSignature}
    (h : beEndpointSignature flags s = .ok r sig) :
    decide (flags &&& EndpointAddr.flagSigned = EndpointAddr.flagSigned) = sig.isSome ∧
      ∃ v, s.bytes = v ++ r.bytes ∧ sig.elim (v = [] ∧ r.bytes = []) (SignatureForm v) := by
  unfold beEndpointSignature at h
  split at h
  · rename_i hunsigned
    split at h
    · cases h
    · rename_i hempty
      cases h
      rw [not_not] at hempty
      exact ⟨decide_eq_false hunsigned, [], rfl, rfl, hempty⟩
  · rename_i hsigned
    rw [not_not] at hsigned
    obtain ⟨r₁, scheme, hscheme, h⟩ := andThen_eq_ok.mp h
    obtain ⟨r₂, len, hlen, h⟩ := andThen_eq_ok.mp h
    obtain ⟨bs, htake, rfl⟩ := map_eq_ok.mp h
    obtain ⟨w, hw, hwBytes⟩ := beVarint_form hlen
    obtain ⟨hfits, rfl, rfl⟩ := take_ok htake
    refine ⟨decide_eq_true hsigned, putWord scheme ++ (w ++ (r₂.take len.val).bytes), ?_, ?_⟩
    · rw [(beWord_ok hscheme).1, hwBytes]
      simp only [List.append_assoc]
      exact congrArg _ (congrArg _ (List.take_append_drop _ _).symm)
    · refine ⟨w, len, hw, ?_, rfl⟩
      exact (List.length_take_of_le hfits).symm

/-- What is read is well formed, and the bytes are a form of it. -/
theorem beEndpointAddr_ok {s r : Slice} {e : EndpointAddr} (h : beEndpointAddr s = .ok r e) :
    e.WellFormed ∧ ∃ w v, e.FormOf s.bytes r.bytes w v := by
  rw [beEndpointAddr_eq] at h
  obtain ⟨r₁, base, hbase, h⟩ := andThen_eq_ok.mp h
  obtain ⟨sig, hsig, rfl⟩ := map_eq_ok.mp h
  obtain ⟨hformed, w, hw, hbytes⟩ := beEndpointBase_ok hbase
  obtain ⟨hsigned, v, hvBytes, hv⟩ := beEndpointSignature_ok hsig
  refine ⟨?_, w, v, ?_, hw, hv⟩
  · exact ⟨hformed.clustered, hformed.load, hformed.nat, hsigned, hformed.family,
      hformed.agentFamily, hformed.plain, hformed.agentPlain⟩
  · rw [hbytes, hvBytes]
    rfl

end Inversion

section Size

theorem putSocketAddr_length (addr : SocketAddr) :
    (putSocketAddr addr).length = addrLen addr.isV6 false := by
  cases addr with
  | v4 addr => simp [putSocketAddr, putSocketAddrV4, Word.size, SocketAddr.isV6, addrLen]
  | v6 addr => simp [putSocketAddr, putSocketAddrV6, Word.size, SocketAddr.isV6, addrLen]

variable [DhttpHome] {e : EndpointAddr}

theorem spell_length (h : e.BaseFormed) (w : List UInt8) :
    (e.spell w).length =
      1 + w.length + addrLen e.isIpv6 e.isNat + if e.isLoad then 4 else 0 := by
  have hload : (e.load.elim [] putWord).length = if e.isLoad then 4 else 0 := by
    rw [h.load]
    cases e.load with
    | none => rfl
    | some load => exact putWord_length load
  have haddr : (putSocketAddr e.primary).length + (e.agent.elim [] putSocketAddr).length =
      addrLen e.isIpv6 e.isNat := by
    have hagent := h.agentFamily
    rw [putSocketAddr_length, h.family, h.nat]
    cases ha : e.agent with
    | none => rfl
    | some agent =>
      rw [Option.elim_some, putSocketAddr_length, hagent agent ha, Option.isSome_some]
      cases e.isIpv6 <;> rfl
  rw [EndpointAddr.spell]
  simp only [List.length_append, List.length_cons, List.length_nil, hload, ← haddr]
  omega

theorem putEndpointAddr_length (h : e.WellFormed) :
    (putEndpointAddr e).length = e.encpdingSize := by
  have hbase := spell_length h.base (e.sequence.elim [] fun seq => putVarint (VarInt.fromU32 seq.get))
  have hseq : (e.sequence.elim [] fun seq => putVarint (VarInt.fromU32 seq.get)).length =
      e.sequence.elim 0 fun seq => (VarInt.fromU32 seq.get).encodingSize := by
    cases e.sequence with
    | none => rfl
    | some seq => exact putVarint_length _
  have hsig : (if e.isSigned then e.signature.elim [] putEndpointSignature else []).length =
      if e.isSigned then e.signature.elim 0 fun sig =>
        2 + (signatureLen sig.signature).encodingSize + sig.signature.length else 0 := by
    split
    · cases e.signature with
      | none => rfl
      | some sig =>
        have hscheme : (putWord sig.scheme).length = 2 := putWord_length sig.scheme
        simp only [Option.elim_some, putEndpointSignature, List.length_append, hscheme,
          putVarint_length, Nat.add_assoc]
    · rfl
  have hwrite : e.writeBase.length = _ := hbase
  rw [putEndpointAddr, List.length_append, hwrite, hsig, hseq, h.load, EndpointAddr.encpdingSize]
  omega

/-- The size, the writer and both readers agree. -/
theorem endpointAddr_round_trip (h : e.WellFormed)
    (hsig : ∀ sig ∈ e.signature, sig.signature.length < 2 ^ 62) :
    (putEndpointAddr e).length = e.encpdingSize ∧
      (∀ p, ∃ q, beEndpointAddr ⟨p, putEndpointAddr e⟩ = .ok ⟨q, []⟩ e) ∧
      ((putEndpointAddr e).length ≤ 65535 → ∀ p, ∃ q,
        beEndpointAddrCompat ⟨p, putEndpointAddr e⟩ (UInt16.ofNat (putEndpointAddr e).length) =
          .ok ⟨q, []⟩ e) :=
  ⟨putEndpointAddr_length h, beEndpointAddr_put h hsig,
    fun _ p => beEndpointAddrCompat_put h hsig p _⟩

end Size

section Sample

attribute [local instance] plainHome

/-- A clustered primary endpoint with a load: its record is as long as a legacy one. -/
def clusteredEndpoint : EndpointAddr :=
  ⟨0b0110_1000, some (.ofU8 10), some 0x3F800000, none, .v4 ⟨0xCB00710A, 4433⟩, none⟩

theorem clusteredEndpoint_wellFormed : clusteredEndpoint.WellFormed :=
  ⟨rfl, rfl, rfl, rfl, rfl, by simp [clusteredEndpoint], trivial, by simp [clusteredEndpoint]⟩

theorem clusteredEndpoint_round_trip :
    (putEndpointAddr clusteredEndpoint).length = 12 ∧
      (∀ p, ∃ q, beEndpointAddr ⟨p, putEndpointAddr clusteredEndpoint⟩ =
        .ok ⟨q, []⟩ clusteredEndpoint) ∧
      ∀ p, ∃ q, beEndpointAddrCompat ⟨p, putEndpointAddr clusteredEndpoint⟩ 12 =
        .ok ⟨q, []⟩ clusteredEndpoint := by
  obtain ⟨hlen, hread, hcompat⟩ := endpointAddr_round_trip clusteredEndpoint_wellFormed
    (by simp [clusteredEndpoint])
  have hsize : (putEndpointAddr clusteredEndpoint).length = 12 := hlen
  refine ⟨hsize, hread, ?_⟩
  have hread := hcompat (by omega)
  rw [hsize] at hread
  exact hread

end Sample

/-! Where the fields of a record stand is decided by its first bytes. -/
namespace Layout

variable (b : List UInt8)

def flags : UInt8 := b.headD 0

def has (flag : UInt8) : Bool := flags b &&& flag ≠ 0

/-- The sequence follows the flags. -/
def sequenceEnd : ℕ :=
  1 + if has b EndpointAddr.flagClustered then varintLen (b.getD 1 0) else 0

/-- Where the signature field starts. -/
def baseEnd : ℕ :=
  sequenceEnd b + addrLen (has b EndpointAddr.flagFamily) (has b EndpointAddr.flagNat) +
    if has b EndpointAddr.flagLoad then 4 else 0

/-- The bytes of the integer at an offset, as many as its tag announces. -/
def varintAt (offset : ℕ) : List UInt8 :=
  (b.drop offset).take (varintLen (b.getD offset 0))

/-- The sequence and the length of the signature, where they are there, are as short as they
can be. -/
def ShortestVarints : Prop :=
  (has b EndpointAddr.flagClustered = true → ShortestForm (varintAt b 1)) ∧
    (has b EndpointAddr.flagSigned = true → ShortestForm (varintAt b (baseEnd b + 2)))

theorem varintAt_append {w : List UInt8} {x : VarInt} (h : VarintForm w x) {n : ℕ}
    {pre : List UInt8} (hn : pre.length = n) (t : List UInt8) :
    varintAt (pre ++ (w ++ t)) n = w := by
  subst hn
  obtain ⟨first, rest, rfl, hlen, _⟩ := h
  have hfirst : (pre ++ ((first :: rest) ++ t)).getD pre.length 0 = first := by
    simp [List.getD_eq_getElem?_getD]
  rw [varintAt, hfirst, ← hlen, List.drop_left, List.take_left]

end Layout

section Canonical

variable [DhttpHome] {e : EndpointAddr} {b rest w v : List UInt8}

theorem isSigned_eq (e : EndpointAddr) :
    e.isSigned = decide (e.flags &&& EndpointAddr.flagSigned ≠ 0) := by
  have hlow : (e.flags &&& EndpointAddr.flagSigned).toNat = e.flags.toNat % 2 := by
    rw [UInt8.toNat_and]
    exact Nat.and_two_pow_sub_one_eq_mod e.flags.toNat 1
  rw [EndpointAddr.isSigned, decide_eq_decide]
  rcases Nat.mod_two_eq_zero_or_one e.flags.toNat with hmod | hmod
  · have hzero : e.flags &&& EndpointAddr.flagSigned = 0 := UInt8.toNat_inj.mp (hlow.trans hmod)
    rw [hzero]
    decide
  · have hone : e.flags &&& EndpointAddr.flagSigned = 1 := UInt8.toNat_inj.mp (hlow.trans hmod)
    rw [hone]
    decide

theorem EndpointAddr.FormOf.flags (hf : e.FormOf b rest w v) : Layout.flags b = e.flags := by
  rw [hf.bytes]
  rfl

/-- The sequence field ends where its form ends. -/
theorem EndpointAddr.FormOf.sequenceEnd (hf : e.FormOf b rest w v) (h : e.BaseFormed) :
    Layout.sequenceEnd b = 1 + w.length := by
  have hclustered : Layout.has b flagClustered = e.sequence.isSome := by
    rw [Layout.has, hf.flags]
    exact h.clustered
  have hw := hf.sequence
  rw [Layout.sequenceEnd, hclustered]
  cases hs : e.sequence with
  | none =>
    rw [hs] at hw
    obtain rfl : w = [] := hw
    rfl
  | some seq =>
    rw [hs] at hw
    obtain ⟨first, tail, rfl, hlen, _⟩ := hw
    rw [hf.bytes, Option.isSome_some, if_pos rfl, hlen]
    rfl

theorem EndpointAddr.FormOf.baseEnd (hf : e.FormOf b rest w v) (h : e.BaseFormed) :
    Layout.baseEnd b = (e.spell w).length := by
  rw [spell_length h, Layout.baseEnd, hf.sequenceEnd h]
  simp only [Layout.has, hf.flags]
  rfl

/-- The sequence is the written one exactly when it is in its shortest form. -/
theorem EndpointAddr.FormOf.sequence_shortest (hf : e.FormOf b rest w v) (h : e.BaseFormed) :
    (e.sequence.elim [] fun seq => putVarint (VarInt.fromU32 seq.get)).length ≤ w.length ∧
      ((Layout.has b flagClustered = true → ShortestForm (Layout.varintAt b 1)) ↔
        (e.sequence.elim [] fun seq => putVarint (VarInt.fromU32 seq.get)) = w) := by
  have hclustered : Layout.has b flagClustered = e.sequence.isSome := by
    rw [Layout.has, hf.flags]
    exact h.clustered
  have hw := hf.sequence
  rw [hclustered]
  cases hs : e.sequence with
  | none =>
    rw [hs] at hw
    obtain rfl : w = [] := hw
    exact ⟨le_rfl, by simp⟩
  | some seq =>
    rw [hs] at hw
    have hform : VarintForm w (VarInt.fromU32 seq.get) := hw
    have hat : Layout.varintAt b 1 = w := by
      rw [hf.bytes, spell, List.append_assoc, List.append_assoc]
      exact Layout.varintAt_append hform rfl _
    refine ⟨(putVarint_length _).trans_le hform.size_le, ?_⟩
    rw [hat, imp_iff_right (Option.isSome_some), hform.shortest_iff, Option.elim_some]
    exact eq_comm

/-- The signature is the written one exactly when its length is in its shortest form. -/
theorem EndpointAddr.FormOf.signature_shortest (hf : e.FormOf b rest w v) (h : e.WellFormed) :
    (e.signature.elim [] putEndpointSignature).length ≤ v.length ∧
      ((Layout.has b flagSigned = true → ShortestForm (Layout.varintAt b (Layout.baseEnd b + 2))) ↔
        e.signature.elim [] putEndpointSignature = v) := by
  have hsigned : Layout.has b flagSigned = e.signature.isSome := by
    rw [← h.signed, isSigned_eq, Layout.has, hf.flags]
  have hv := hf.signature
  rw [hsigned, hf.baseEnd h.base]
  cases hs : e.signature with
  | none =>
    rw [hs] at hv
    obtain ⟨rfl, _⟩ := hv
    exact ⟨le_rfl, by simp⟩
  | some sig =>
    rw [hs] at hv
    obtain ⟨x, len, hform, hlen, rfl⟩ := hv
    have hfit : signatureLen sig.signature = len := by
      have hlt := len.lt
      rw [hlen] at hlt
      rw [signatureLen, VarInt.tryFrom, dif_pos hlt, Option.getD_some]
      obtain ⟨val, _⟩ := len
      obtain rfl : val = sig.signature.length := hlen
      rfl
    have hput : putEndpointSignature sig = putWord sig.scheme ++ (putVarint len ++ sig.signature) := by
      rw [putEndpointSignature, hfit]
    have hat : Layout.varintAt b ((e.spell w).length + 2) = x := by
      rw [hf.bytes, List.append_assoc, List.append_assoc, ← List.append_assoc]
      refine Layout.varintAt_append hform ?_ _
      rw [List.length_append, putWord_length]
      rfl
    rw [hat, imp_iff_right (Option.isSome_some), hform.shortest_iff, Option.elim_some, hput]
    constructor
    · have hsize := hform.size_le
      simp only [List.length_append, putVarint_length]
      omega
    · constructor
      · rintro rfl
        rfl
      · intro heq
        exact (List.append_cancel_right (List.append_cancel_left heq)).symm

theorem EndpointAddr.FormOf.signature_lt (hf : e.FormOf b rest w v) :
    ∀ sig ∈ e.signature, sig.signature.length < 2 ^ 62 := by
  intro sig hs
  have hv := hf.signature
  rw [Option.mem_def.mp hs] at hv
  obtain ⟨_, len, _, hlen, _⟩ := hv
  rw [← hlen]
  exact len.lt

/-- The written form is no longer than any other, and another one only when one of its two
integers is not in its shortest form. -/
theorem EndpointAddr.FormOf.canonical (hf : e.FormOf b rest w v) (h : e.WellFormed) :
    (putEndpointAddr e).length + rest.length ≤ b.length ∧
      (putEndpointAddr e ++ rest = b ↔ Layout.ShortestVarints b) := by
  obtain ⟨hwle, hwiff⟩ := hf.sequence_shortest h.base
  obtain ⟨hvle, hviff⟩ := hf.signature_shortest h
  have hput := (h.formOf_put hf.signature_lt).bytes
  rw [List.append_nil] at hput
  rw [Layout.ShortestVarints, hwiff, hviff, hput]
  generalize (e.sequence.elim [] fun seq => putVarint (VarInt.fromU32 seq.get)) = w' at hwle ⊢
  generalize e.signature.elim [] putEndpointSignature = v' at hvle ⊢
  have hbytes := hf.bytes
  constructor
  · rw [hbytes]
    simp only [List.length_append, spell_length h.base]
    omega
  · rw [hbytes, List.append_assoc]
    constructor
    · intro heq
      have hlen := congrArg List.length heq
      simp only [List.length_append, spell_length h.base] at hlen
      have hbase : (e.spell w').length = (e.spell w).length := by
        rw [spell_length h.base, spell_length h.base]
        omega
      obtain ⟨hspell, htail⟩ := List.append_inj heq hbase
      have hw := List.append_inj_left (List.append_cancel_left hspell) (by omega)
      exact ⟨hw, List.append_cancel_right htail⟩
    · rintro ⟨rfl, rfl⟩
      rfl

/-- Whatever bytes are read as a record: its flags agree with its fields, nothing is left of an
unsigned one, and writing it again gives the canonical form of what was read. -/
theorem beEndpointAddr_canonical {p : ℕ} {r : Slice} (h : beEndpointAddr ⟨p, b⟩ = .ok r e) :
    e.WellFormed ∧
      (r.bytes ≠ [] → e.isSigned = true) ∧
      (∀ p', ∃ q, beEndpointAddr ⟨p', putEndpointAddr e⟩ = .ok ⟨q, []⟩ e) ∧
      (putEndpointAddr e).length + r.bytes.length ≤ b.length ∧
      (putEndpointAddr e ++ r.bytes = b ↔ Layout.ShortestVarints b) := by
  obtain ⟨hwell, w, v, hf⟩ := beEndpointAddr_ok h
  obtain ⟨hlen, hshort⟩ := hf.canonical hwell
  refine ⟨hwell, ?_, beEndpointAddr_put hwell hf.signature_lt, hlen, hshort⟩
  intro hne
  have hsignature := hf.signature
  rw [hwell.signed]
  cases hs : e.signature with
  | none =>
    rw [hs] at hsignature
    exact absurd hsignature.2 hne
  | some sig => rfl

end Canonical

section Sample

attribute [local instance] plainHome

/-- A signed record with a two-byte sequence of five and a byte that follows it. -/
def overlongBytes : List UInt8 :=
  [0b0010_0001, 0x40, 5, 0x11, 0x51, 10, 0, 0, 1, 8, 7, 1, 0xAA, 0xFF]

theorem overlongBytes_canonical : ∃ r e, beEndpointAddr ⟨0, overlongBytes⟩ = .ok r e ∧
    r.bytes = [0xFF] ∧ e.isSigned = true ∧ (putEndpointAddr e).length + 1 ≤ 14 ∧
    (putEndpointAddr e ++ [0xFF] = overlongBytes ↔ Layout.ShortestVarints overlongBytes) := by
  refine ⟨⟨13, [0xFF]⟩, ⟨0b0010_0001, some (.ofU8 5), none, some ⟨0x0807, [0xAA]⟩,
    .v4 ⟨0x0A000001, 0x1151⟩, none⟩, ?_⟩
  have hread : beEndpointAddr ⟨0, overlongBytes⟩ = .ok ⟨13, [0xFF]⟩ ⟨0b0010_0001, some (.ofU8 5),
      none, some ⟨0x0807, [0xAA]⟩, .v4 ⟨0x0A000001, 0x1151⟩, none⟩ := by rfl
  obtain ⟨_, hsigned, _, hlen, hshort⟩ := beEndpointAddr_canonical hread
  exact ⟨hread, rfl, hsigned (List.cons_ne_nil _ _), hlen, hshort⟩

end Sample

end Ddns
