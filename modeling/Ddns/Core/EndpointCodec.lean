import Ddns.Core.Endpoint

/-! Endpoint records whose flags agree with their fields are read back as they were written. -/
namespace Ddns

open Nom BigEndian

/-- An address that the wire format can hold: it has no room for a flow label or a scope. -/
def SocketAddr.Plain : SocketAddr → Prop
  | .v4 _ => True
  | .v6 addr => addr.flowinfo = 0 ∧ addr.scopeId = 0

theorem recognises_socketAddrV4 (addr : SocketAddrV4) :
    Recognises beSocketAddrV4 (putSocketAddrV4 addr) addr :=
  (recognises_word addr.port).andThen
    (fun port r => (beU32 r).map fun ip => (⟨ip, port⟩ : SocketAddrV4))
    ((recognises_word addr.ip).map _)

theorem recognises_socketAddrV6 (addr : SocketAddrV6) :
    Recognises beSocketAddrV6 (putSocketAddrV6 addr) ⟨addr.ip, addr.port, 0, 0⟩ :=
  (recognises_word addr.port).andThen
    (fun port r => (beU128 r).map fun ip => (⟨ip, port, 0, 0⟩ : SocketAddrV6))
    ((recognises_word addr.ip).map _)

theorem recognises_socketAddr {addr : SocketAddr} {isIpv6 : Bool} (hf : addr.isV6 = isIpv6)
    (hp : addr.Plain) : Recognises (beSocketAddr isIpv6) (putSocketAddr addr) addr := by
  subst hf
  cases addr with
  | v4 addr => exact (recognises_socketAddrV4 addr).map _
  | v6 addr =>
    have h := (recognises_socketAddrV6 addr).map SocketAddr.v6
    obtain ⟨hflow, hscope⟩ := hp
    have hplain : (⟨addr.ip, addr.port, 0, 0⟩ : SocketAddrV6) = addr := by
      rw [← hscope]
      nth_rewrite 1 [hscope, ← hflow]
      rfl
    rw [hplain] at h
    exact h

theorem local_socketAddrV4 : Local beSocketAddrV4 :=
  local_word.andThen (fun port r => (beU32 r).map fun ip => (⟨ip, port⟩ : SocketAddrV4))
    fun _ => local_word.map _

theorem local_socketAddrV6 : Local beSocketAddrV6 :=
  local_word.andThen
    (fun port r => (beU128 r).map fun ip => (⟨ip, port, 0, 0⟩ : SocketAddrV6))
    fun _ => local_word.map _

theorem local_socketAddr (isIpv6 : Bool) : Local (beSocketAddr isIpv6) := by
  cases isIpv6 with
  | false => exact local_socketAddrV4.map _
  | true => exact local_socketAddrV6.map _

theorem local_endpointSignature (flags : UInt8) : Local (beEndpointSignature flags) := by
  intro s
  unfold beEndpointSignature
  by_cases hf : flags &&& EndpointAddr.flagSigned ≠ EndpointAddr.flagSigned
  · rw [if_pos hf]
    by_cases hs : s.bytes ≠ []
    · rw [if_pos hs]
      exact Yields.err ⟨Slice.Suffix.refl s, hs⟩
    · rw [if_neg hs]
      exact Yields.ok (Slice.Suffix.refl s)
  · rw [if_neg hf]
    exact local_word.andThen
      (fun scheme r => (beVarint r).andThen fun r sigLen =>
        (take sigLen.val r).map fun sig => some (⟨scheme, sig.bytes⟩ : EndpointSignature))
      (fun scheme => local_varint.andThen
        (fun sigLen r => (take sigLen.val r).map fun sig =>
          some (⟨scheme, sig.bytes⟩ : EndpointSignature))
        fun _ => (local_take _).map _) s

variable [DhttpHome]

/-- The flags agree with the fields, and the fields fit the wire format. -/
structure EndpointAddr.WellFormed (e : EndpointAddr) : Prop where
  clustered : e.isClustered = e.sequence.isSome
  load : e.isLoad = e.load.isSome
  nat : e.isNat = e.agent.isSome
  signed : e.isSigned = e.signature.isSome
  family : e.primary.isV6 = e.isIpv6
  agentFamily : ∀ a ∈ e.agent, a.isV6 = e.isIpv6
  plain : e.primary.Plain
  agentPlain : ∀ a ∈ e.agent, a.Plain

/-- As `WellFormed`, without regard to the signature and its flag. -/
structure EndpointAddr.BaseFormed (e : EndpointAddr) : Prop where
  clustered : e.isClustered = e.sequence.isSome
  load : e.isLoad = e.load.isSome
  nat : e.isNat = e.agent.isSome
  family : e.primary.isV6 = e.isIpv6
  agentFamily : ∀ a ∈ e.agent, a.isV6 = e.isIpv6
  plain : e.primary.Plain
  agentPlain : ∀ a ∈ e.agent, a.Plain

theorem EndpointAddr.WellFormed.base {e : EndpointAddr} (h : e.WellFormed) : e.BaseFormed :=
  ⟨h.clustered, h.load, h.nat, h.family, h.agentFamily, h.plain, h.agentPlain⟩

theorem EndpointAddr.BaseFormed.wellFormed {e : EndpointAddr} (h : e.BaseFormed)
    (hsigned : e.isSigned = e.signature.isSome) : e.WellFormed :=
  ⟨h.clustered, h.load, h.nat, hsigned, h.family, h.agentFamily, h.plain, h.agentPlain⟩

section ReadBack

/-- The reader between the sequence and the signature. -/
def beEndpointFields (flags : UInt8) (sequence : Option CertificateSequence) (input : Slice) :
    IResult EndpointAddr :=
  (beSocketAddr (flags &&& EndpointAddr.flagFamily ≠ 0) input).andThen fun remain primary =>
    (cond (flags &&& EndpointAddr.flagNat ≠ 0)
      (beSocketAddr (flags &&& EndpointAddr.flagFamily ≠ 0)) remain).andThen fun remain agent =>
    (cond (flags &&& EndpointAddr.flagLoad ≠ 0) beU32 remain).map fun load =>
      ⟨flags, sequence, load, none, primary, agent⟩

/-- The reader up to the signature. -/
def beEndpointBase (input : Slice) : IResult EndpointAddr :=
  (beU8 input).andThen fun remain flags =>
    (cond (flags &&& EndpointAddr.flagClustered ≠ 0) beSequence remain).andThen
      fun remain sequence => beEndpointFields flags sequence remain

theorem beEndpointAddr_eq (s : Slice) : beEndpointAddr s =
    (beEndpointBase s).andThen fun r e =>
      (beEndpointSignature e.flags r).map fun signature => { e with signature := signature } := by
  simp only [beEndpointAddr, beEndpointBase, beEndpointFields, IResult.map, andThen_andThen, andThen_ok]

/-- The bytes `w` are the sequence field of a record. -/
def SequenceForm (w : List UInt8) (sequence : Option CertificateSequence) : Prop :=
  sequence.elim (w = []) fun seq => VarintForm w (VarInt.fromU32 seq.get)

/-- The bytes `v` are the signature field of a record. -/
def SignatureForm (v : List UInt8) (sig : EndpointSignature) : Prop :=
  ∃ w len, VarintForm w len ∧ len.val = sig.signature.length ∧
    v = putWord sig.scheme ++ (w ++ sig.signature)

/-- The bytes up to the signature, with `w` for the sequence. -/
def EndpointAddr.spell (e : EndpointAddr) (w : List UInt8) : List UInt8 :=
  [e.flags] ++ (w ++ (putSocketAddr e.primary ++
    (e.agent.elim [] putSocketAddr ++ e.load.elim [] putWord)))

theorem sequenceForm_put (sequence : Option CertificateSequence) :
    SequenceForm (sequence.elim [] fun seq => putVarint (VarInt.fromU32 seq.get)) sequence := by
  cases sequence with
  | none => exact rfl
  | some seq => exact varintForm_put _

omit [DhttpHome] in
theorem signatureForm_put {sig : EndpointSignature} (h : sig.signature.length < 2 ^ 62) :
    SignatureForm (putEndpointSignature sig) sig := by
  have hfit : signatureLen sig.signature = ⟨sig.signature.length, h⟩ := by
    rw [signatureLen, VarInt.tryFrom, dif_pos h, Option.getD_some]
  exact ⟨_, ⟨sig.signature.length, h⟩, varintForm_put _, rfl, by rw [putEndpointSignature, hfit]⟩

theorem recognises_sequence {w : List UInt8} {sequence : CertificateSequence}
    (h : VarintForm w (VarInt.fromU32 sequence.get)) : Recognises beSequence w sequence := by
  intro p t
  have hval : (VarInt.fromU32 sequence.get).val = sequence.get.toNat := rfl
  rw [beSequence, h.recognises, andThen_ok, hval, CertificateSequence.tryFrom_get]

theorem recognises_sequenceForm {present : Bool} {w : List UInt8}
    {sequence : Option CertificateSequence} (hp : present = sequence.isSome)
    (h : SequenceForm w sequence) : Recognises (cond present beSequence) w sequence := by
  subst hp
  cases sequence with
  | none =>
    obtain rfl : w = [] := h
    intro p t
    exact rfl
  | some seq => exact (recognises_sequence h).map some

theorem recognises_base {e : EndpointAddr} (h : e.BaseFormed) {w : List UInt8}
    (hw : SequenceForm w e.sequence) :
    Recognises beEndpointBase (e.spell w) { e with signature := none } := by
  have hseq := recognises_sequenceForm h.clustered hw
  have haddr := recognises_socketAddr h.family h.plain
  have hagent := recognises_cond putSocketAddr h.nat
    (fun a ha => recognises_socketAddr (h.agentFamily a ha) (h.agentPlain a ha))
  have hload := recognises_cond putWord h.load (fun l _ => recognises_word l)
  simp only [EndpointAddr.isClustered, EndpointAddr.isIpv6, EndpointAddr.isNat,
    EndpointAddr.isLoad] at hseq haddr hagent hload
  intro p t
  rw [EndpointAddr.spell, beEndpointBase]
  simp only [List.append_assoc]
  rw [recognises_u8, andThen_ok, hseq, andThen_ok, beEndpointFields, haddr, andThen_ok, hagent,
    andThen_ok, hload, map_ok]
  simp only [List.length_append, Nat.add_assoc]

/-- A record without a signature is read to the end of its data. -/
theorem beEndpointSignature_unsigned {e : EndpointAddr} (h : e.isSigned = false) (p : ℕ) :
    beEndpointSignature e.flags ⟨p, []⟩ = .ok ⟨p, []⟩ none := by
  have hne : e.flags &&& EndpointAddr.flagSigned ≠ EndpointAddr.flagSigned := by
    simpa [EndpointAddr.isSigned] using h
  rw [beEndpointSignature, if_pos hne]
  rfl

theorem recognises_signature {e : EndpointAddr} (h : e.isSigned = true) {v : List UInt8}
    {sig : EndpointSignature} (hv : SignatureForm v sig) :
    Recognises (beEndpointSignature e.flags) v (some sig) := by
  have heq : e.flags &&& EndpointAddr.flagSigned = EndpointAddr.flagSigned := by
    simpa [EndpointAddr.isSigned] using h
  obtain ⟨w, len, hw, hlen, rfl⟩ := hv
  intro p t
  rw [beEndpointSignature, if_neg (not_not_intro heq)]
  simp only [List.append_assoc]
  rw [recognises_u16, andThen_ok, hw.recognises, andThen_ok, take_append _ hlen.symm, map_ok,
    hlen]
  simp only [List.length_append, Nat.add_assoc]

/-- The bytes `b` are a record and what follows it, with `w` for the sequence and `v` for the
signature. Nothing follows a record that is not signed. -/
structure EndpointAddr.FormOf (e : EndpointAddr) (b rest w v : List UInt8) : Prop where
  bytes : b = e.spell w ++ (v ++ rest)
  sequence : SequenceForm w e.sequence
  signature : e.signature.elim (v = [] ∧ rest = []) (SignatureForm v)

/-- Every form of a record is read. -/
theorem EndpointAddr.FormOf.reads {e : EndpointAddr} {b rest w v : List UInt8}
    (hf : e.FormOf b rest w v) (h : e.WellFormed) (p : ℕ) :
    ∃ q, beEndpointAddr ⟨p, b⟩ = .ok ⟨q, rest⟩ e := by
  obtain ⟨rfl, hw, hv⟩ := hf
  have hsigned := h.signed
  rw [beEndpointAddr_eq, recognises_base h.base hw, andThen_ok]
  dsimp only
  cases hs : e.signature with
  | none =>
    rw [hs] at hsigned hv
    obtain ⟨rfl, rfl⟩ := hv
    refine ⟨p + (e.spell w).length, ?_⟩
    rw [List.append_nil, beEndpointSignature_unsigned hsigned, map_ok, ← hs]
  | some sig =>
    rw [hs] at hsigned hv
    refine ⟨p + (e.spell w).length + v.length, ?_⟩
    rw [recognises_signature hsigned hv, map_ok, ← hs]

/-- What is written is a form of the record. -/
theorem EndpointAddr.WellFormed.formOf_put {e : EndpointAddr} (h : e.WellFormed)
    (hsig : ∀ sig ∈ e.signature, sig.signature.length < 2 ^ 62) :
    e.FormOf (putEndpointAddr e) []
      (e.sequence.elim [] fun seq => putVarint (VarInt.fromU32 seq.get))
      (e.signature.elim [] putEndpointSignature) := by
  refine ⟨?_, sequenceForm_put e.sequence, ?_⟩
  · have hsigned := h.signed
    rw [List.append_nil, putEndpointAddr, writeBase, spell]
    cases hs : e.signature with
    | none => exact congrArg _ (ite_self _)
    | some sig =>
      rw [hs, Option.isSome_some] at hsigned
      rw [hsigned, if_pos rfl]
  · cases hs : e.signature with
    | none => exact ⟨rfl, rfl⟩
    | some sig => exact signatureForm_put (hsig sig hs)

/-- The modern format is read back, its optional fields included. -/
theorem beEndpointAddr_put {e : EndpointAddr} (h : e.WellFormed)
    (hsig : ∀ sig ∈ e.signature, sig.signature.length < 2 ^ 62) (p : ℕ) :
    ∃ q, beEndpointAddr ⟨p, putEndpointAddr e⟩ = .ok ⟨q, []⟩ e :=
  (h.formOf_put hsig).reads h p

/-- Also where a legacy record has the same length. -/
theorem beEndpointAddrCompat_put {e : EndpointAddr} (h : e.WellFormed)
    (hsig : ∀ sig ∈ e.signature, sig.signature.length < 2 ^ 62) (p : ℕ) (rdlen : UInt16) :
    ∃ q, beEndpointAddrCompat ⟨p, putEndpointAddr e⟩ rdlen = .ok ⟨q, []⟩ e := by
  obtain ⟨q, hq⟩ := beEndpointAddr_put h hsig p
  refine ⟨q, ?_⟩
  unfold beEndpointAddrCompat
  split
  · rw [hq]
    rfl
  · exact hq

end ReadBack

section Remainder

theorem local_sequence : Local (beSequence : Slice → IResult CertificateSequence) := by
  intro s
  refine Yields.andThen (local_varint s) ?_
  intro r seq hr
  cases CertificateSequence.tryFrom seq.val with
  | none => exact Yields.err trivial
  | some sequence => exact Yields.ok hr

theorem local_endpointAddr : Local (beEndpointAddr : Slice → IResult EndpointAddr) := by
  intro s
  refine Yields.andThen (local_u8 s) ?_
  intro r flags hr
  have hnext : Local fun r =>
      (cond (flags &&& EndpointAddr.flagClustered ≠ 0) beSequence r).andThen fun r sequence =>
      (beSocketAddr (flags &&& EndpointAddr.flagFamily ≠ 0) r).andThen fun r primary =>
      (cond (flags &&& EndpointAddr.flagNat ≠ 0)
        (beSocketAddr (flags &&& EndpointAddr.flagFamily ≠ 0)) r).andThen fun r agent =>
      (cond (flags &&& EndpointAddr.flagLoad ≠ 0) beU32 r).andThen fun r load =>
      (beEndpointSignature flags r).map fun signature =>
        (⟨flags, sequence, load, signature, primary, agent⟩ : EndpointAddr) := by
    refine local_sequence.cond.andThen (fun sequence r => _) fun sequence => ?_
    refine (local_socketAddr _).andThen (fun primary r => _) fun primary => ?_
    refine (local_socketAddr _).cond.andThen (fun agent r => _) fun agent => ?_
    refine local_word.cond.andThen (fun load r => _) fun load => ?_
    exact (local_endpointSignature flags).map _
  exact (hnext r).mono (fun _ _ hs => hs.trans hr) (fun _ he => he.mono hr)

theorem local_legacyEndpointAddr {rdlen : UInt16} (h : rdlen.toNat ∈ [6, 12, 18, 36]) :
    Local fun s => (beLegacyEndpointAddrByLength s rdlen : IResult EndpointAddr) := by
  intro s
  dsimp only
  unfold beLegacyEndpointAddrByLength
  by_cases h6 : rdlen = 6
  · rw [if_pos h6]
    exact local_socketAddrV4.map _ s
  rw [if_neg h6]
  by_cases h12 : rdlen = 12
  · rw [if_pos h12]
    exact local_socketAddrV4.andThen (fun primary r =>
      (beSocketAddrV4 r).map fun agent => EndpointAddr.natV4 primary agent)
      (fun _ => local_socketAddrV4.map _) s
  rw [if_neg h12]
  by_cases h18 : rdlen = 18
  · rw [if_pos h18]
    exact local_socketAddrV6.map _ s
  rw [if_neg h18]
  by_cases h36 : rdlen = 36
  · rw [if_pos h36]
    exact local_socketAddrV6.andThen (fun primary r =>
      (beSocketAddrV6 r).map fun agent => EndpointAddr.natV6 primary agent)
      (fun _ => local_socketAddrV6.map _) s
  · -- one of the four lengths is the given one
    rw [← UInt16.toNat_inj] at h6 h12 h18 h36
    simp only [List.mem_cons, List.not_mem_nil, or_false] at h
    rcases h with h | h | h | h
    · exact absurd h h6
    · exact absurd h h12
    · exact absurd h h18
    · exact absurd h h36

theorem local_endpointAddrCompat (rdlen : UInt16) :
    Local fun s => (beEndpointAddrCompat s rdlen : IResult EndpointAddr) := by
  intro s
  dsimp only
  unfold beEndpointAddrCompat
  by_cases hl : rdlen.toNat ∈ [6, 12, 18, 36]
  · rw [if_pos hl]
    cases hm : (beEndpointAddr s : IResult EndpointAddr) with
    | err e => exact local_legacyEndpointAddr hl s
    | ok r e =>
      dsimp only
      by_cases hr : r.bytes = []
      · rw [if_pos hr]
        exact Yields.ok ((local_endpointAddr s).1 r e hm)
      · rw [if_neg hr]
        exact local_legacyEndpointAddr hl s
  · rw [if_neg hl]
    exact local_endpointAddr s

end Remainder

section Stamp

/-- An endpoint that a record can hold. -/
def DquicEndpointAddr.Plain : DquicEndpointAddr → Prop
  | .direct addr => addr.Plain
  | .mediate agent outer => agent.Plain ∧ outer.Plain

omit [DhttpHome] in
theorem or_and_of_disjoint (flags flag mask : UInt8) (h : flag &&& mask = 0) :
    (flags ||| flag) &&& mask = flags &&& mask := by
  rw [← UInt8.toBitVec_inj] at h ⊢
  simp only [UInt8.toBitVec_or, UInt8.toBitVec_and] at h ⊢
  rw [BitVec.and_comm, BitVec.and_or_distrib_left, BitVec.and_comm mask.toBitVec flag.toBitVec, h,
    BitVec.and_comm]
  exact BitVec.or_zero

omit [DhttpHome] in
theorem or_and_self (flags flag : UInt8) : (flags ||| flag) &&& flag = flag := by
  rw [← UInt8.toBitVec_inj]
  simp only [UInt8.toBitVec_or, UInt8.toBitVec_and]
  ext i hi
  simp only [BitVec.getElem_and, BitVec.getElem_or]
  cases flag.toBitVec[i] with
  | false => exact Bool.and_false _
  | true => rw [Bool.or_true, Bool.and_true]

/-- A flag is not changed when a different one is set or cleared. -/
theorem setFlag_and (e : EndpointAddr) (flag mask : UInt8) (on : Bool) (hset : flag &&& mask = 0)
    (hclear : ~~~flag &&& mask = mask) : (e.setFlag flag on).flags &&& mask = e.flags &&& mask := by
  cases on with
  | true => exact or_and_of_disjoint e.flags flag mask hset
  | false =>
    show (e.flags &&& ~~~flag) &&& mask = e.flags &&& mask
    rw [UInt8.and_assoc, hclear]

/-- The flag itself is as it was set or cleared. -/
theorem setFlag_and_self (e : EndpointAddr) (flag : UInt8) (on : Bool) :
    (e.setFlag flag on).flags &&& flag = if on then flag else 0 := by
  cases on with
  | true => exact or_and_self e.flags flag
  | false =>
    show (e.flags &&& ~~~flag) &&& flag = 0
    rw [UInt8.and_assoc, UInt8.and_comm (~~~flag) flag, UInt8.and_not_self]
    exact UInt8.and_zero

/-- Flags that agree with the new fields keep a record readable up to its signature when the flags
of its addresses are as before. -/
theorem EndpointAddr.BaseFormed.update {e : EndpointAddr} (h : e.BaseFormed) {flags : UInt8}
    {sequence : Option CertificateSequence} {load : Option UInt32}
    (signature : Option EndpointSignature)
    (hseq : decide (flags &&& flagClustered ≠ 0) = sequence.isSome)
    (hload : decide (flags &&& flagLoad ≠ 0) = load.isSome)
    (hkeep : ∀ mask ∈ [flagFamily, flagNat], flags &&& mask = e.flags &&& mask) :
    (⟨flags, sequence, load, signature, e.primary, e.agent⟩ : EndpointAddr).BaseFormed := by
  have hbit : ∀ mask ∈ [flagFamily, flagNat],
      decide (flags &&& mask ≠ 0) = decide (e.flags &&& mask ≠ 0) :=
    fun mask hmem => congrArg (fun bits => decide (bits ≠ 0)) (hkeep mask hmem)
  have hfamily := hbit flagFamily (by simp)
  refine ⟨hseq, hload, ?_, h.family.trans hfamily.symm, ?_, h.plain, h.agentPlain⟩
  · exact (hbit flagNat (by simp)).trans h.nat
  · intro a ha
    exact (h.agentFamily a ha).trans hfamily.symm

/-- New flags and a new sequence that agree keep a record well formed when the other flags that
its fields depend on are as before. -/
theorem EndpointAddr.WellFormed.restamp {e : EndpointAddr} (h : e.WellFormed) (flags : UInt8)
    (sequence : Option CertificateSequence)
    (hseq : decide (flags &&& flagClustered ≠ 0) = sequence.isSome)
    (hkeep : ∀ mask ∈ [flagFamily, flagNat, flagLoad, flagSigned], flags &&& mask = e.flags &&& mask) :
    (⟨flags, sequence, e.load, e.signature, e.primary, e.agent⟩ : EndpointAddr).WellFormed := by
  have hload : decide (flags &&& flagLoad ≠ 0) = e.load.isSome :=
    (congrArg (fun bits => decide (bits ≠ 0)) (hkeep flagLoad (by simp))).trans h.load
  have hsigned : decide (flags &&& flagSigned = flagSigned) = e.signature.isSome :=
    (congrArg (fun bits => decide (bits = flagSigned)) (hkeep flagSigned (by simp))).trans h.signed
  refine (h.base.update e.signature hseq hload ?_).wellFormed hsigned
  intro mask hmem
  exact hkeep mask (List.mem_append_left [flagLoad, flagSigned] hmem)

/-- Setting or clearing a flag that is none of these keeps them. -/
theorem setFlag_keeps (e : EndpointAddr) (flag : UInt8) (on : Bool) {masks : List UInt8}
    (hother : masks.all fun mask => flag &&& mask = 0 ∧ ~~~flag &&& mask = mask) :
    ∀ mask ∈ masks, (e.setFlag flag on).flags &&& mask = e.flags &&& mask := by
  intro mask hmem
  obtain ⟨hset, hclear⟩ := of_decide_eq_true (List.all_eq_true.mp hother mask hmem)
  exact setFlag_and e flag mask on hset hclear

/-- A flag that only the signature depends on, or nothing. -/
theorem EndpointAddr.BaseFormed.setFlag {e : EndpointAddr} (h : e.BaseFormed) {flag : UInt8}
    (on : Bool) (signature : Option EndpointSignature)
    (hother : [flagFamily, flagNat, flagClustered, flagLoad].all fun mask =>
      flag &&& mask = 0 ∧ ~~~flag &&& mask = mask) :
    ({ e.setFlag flag on with signature := signature } : EndpointAddr).BaseFormed := by
  have hkeep := setFlag_keeps e flag on hother
  refine h.update signature ?_ ?_ fun mask hmem =>
    hkeep mask (List.mem_append_left [flagClustered, flagLoad] hmem)
  · exact (congrArg (fun bits => decide (bits ≠ 0)) (hkeep flagClustered (by simp))).trans h.clustered
  · exact (congrArg (fun bits => decide (bits ≠ 0)) (hkeep flagLoad (by simp))).trans h.load

theorem EndpointAddr.WellFormed.setMain {e : EndpointAddr} (h : e.WellFormed) (on : Bool) :
    (e.setMain on).WellFormed := by
  have hcluster := setFlag_and e flagMain flagClustered on (by decide) (by decide)
  refine h.restamp _ e.sequence ?_ (setFlag_keeps e flagMain on (by decide))
  exact (congrArg (fun bits => decide (bits ≠ 0)) hcluster).trans h.clustered

theorem EndpointAddr.WellFormed.setSequence {e : EndpointAddr} (h : e.WellFormed)
    (sequence : CertificateSequence) : (e.setSequence sequence).WellFormed := by
  unfold EndpointAddr.setSequence
  split
  · refine h.restamp _ (some sequence) ?_ (setFlag_keeps e flagClustered true (by decide))
    exact congrArg (fun bits => decide (bits ≠ 0)) (setFlag_and_self e flagClustered true)
  · refine h.restamp _ none ?_ (setFlag_keeps e flagClustered false (by decide))
    exact congrArg (fun bits => decide (bits ≠ 0)) (setFlag_and_self e flagClustered false)

theorem isMain_setMain (e : EndpointAddr) : (e.setMain true).isMain = true :=
  decide_eq_true (setFlag_and_self e EndpointAddr.flagMain true)

theorem isMain_setSequence (e : EndpointAddr) (sequence : CertificateSequence) :
    (e.setSequence sequence).isMain = e.isMain := by
  have hkeep := fun on => setFlag_and e EndpointAddr.flagClustered
    EndpointAddr.flagMain on (by decide) (by decide)
  unfold EndpointAddr.setSequence
  split
  · exact congrArg (fun bits => decide (bits = EndpointAddr.flagMain)) (hkeep true)
  · exact congrArg (fun bits => decide (bits = EndpointAddr.flagMain)) (hkeep false)

/-- A sequence of zero is not written, and is what a missing one stands for. -/
theorem normalizedSequence_setSequence (e : EndpointAddr) (sequence : CertificateSequence) :
    (e.setSequence sequence).normalizedSequence = sequence := by
  unfold EndpointAddr.setSequence
  split
  · rfl
  · rename_i hzero
    show CertificateSequence.ofU8 0 = sequence
    ext1
    rw [UInt32.not_lt] at hzero
    exact (UInt32.le_zero_iff.mp hzero).symm

theorem tryFrom_setSequence (e : EndpointAddr) (sequence : CertificateSequence) :
    DquicEndpointAddr.tryFrom (e.setSequence sequence) = DquicEndpointAddr.tryFrom e := by
  unfold EndpointAddr.setSequence
  split <;> rfl

theorem setSequence_signature (e : EndpointAddr) (sequence : CertificateSequence) :
    (e.setSequence sequence).signature = e.signature := by
  unfold EndpointAddr.setSequence
  split <;> rfl

/-- A record with addresses only needs no more than the flags of its family and of its agent. -/
theorem EndpointAddr.wellFormed_addresses {flags : UInt8} {primary : SocketAddr} {agent : Option SocketAddr}
    (hother : flags &&& flagClustered = 0 ∧ flags &&& flagLoad = 0 ∧ flags &&& flagSigned = 0)
    (hnat : decide (flags &&& flagNat ≠ 0) = agent.isSome)
    (hfamily : ∀ a ∈ primary :: agent.toList, a.isV6 = decide (flags &&& flagFamily ≠ 0))
    (hplain : ∀ a ∈ primary :: agent.toList, a.Plain) :
    (⟨flags, none, none, none, primary, agent⟩ : EndpointAddr).WellFormed := by
  have hagent : ∀ a ∈ agent, a ∈ primary :: agent.toList := by
    intro a ha
    exact List.mem_cons_of_mem _ (Option.mem_toList.mpr ha)
  obtain ⟨hclustered, hload, hsigned⟩ := hother
  refine ⟨?_, ?_, hnat, ?_, hfamily primary (by simp), ?_, hplain primary (by simp), ?_⟩
  · exact decide_eq_false (not_not_intro hclustered)
  · exact decide_eq_false (not_not_intro hload)
  · refine decide_eq_false ?_
    show flags &&& flagSigned ≠ flagSigned
    rw [hsigned]
    decide
  · intro a ha
    exact hfamily a (hagent a ha)
  · intro a ha
    exact hplain a (hagent a ha)

/-- The record of an endpoint is well formed and not signed, and gives the endpoint back. -/
theorem tryFrom_spec {endpoint : DquicEndpointAddr} {e : EndpointAddr}
    (h : EndpointAddr.tryFrom endpoint = some e) (hp : endpoint.Plain) :
    e.WellFormed ∧ e.signature = none ∧ DquicEndpointAddr.tryFrom e = some endpoint := by
  match endpoint, h, hp with
  | .direct (.v4 addr), rfl, hp =>
    refine ⟨EndpointAddr.wellFormed_addresses (by decide) (by decide) ?_ ?_, rfl, rfl⟩
    · simp [SocketAddr.isV6]
    · simpa [DquicEndpointAddr.Plain] using hp
  | .direct (.v6 addr), rfl, hp =>
    refine ⟨EndpointAddr.wellFormed_addresses (by decide) (by decide) ?_ ?_, rfl, rfl⟩
    · simp [SocketAddr.isV6]
      decide
    · simpa [DquicEndpointAddr.Plain] using hp
  | .mediate (.v4 agent) (.v4 outer), rfl, hp =>
    refine ⟨EndpointAddr.wellFormed_addresses (by decide) (decide_eq_true (by decide)) ?_ ?_, rfl, rfl⟩
    · simp [SocketAddr.isV6]
      decide
    · simpa using hp.symm
  | .mediate (.v6 agent) (.v6 outer), rfl, hp =>
    refine ⟨EndpointAddr.wellFormed_addresses (by decide) (decide_eq_true (by decide)) ?_ ?_, rfl, rfl⟩
    · simp [SocketAddr.isV6]
      decide
    · simpa using hp.symm

omit [DhttpHome] in
/-- An address takes at most eighteen bytes. -/
theorem putSocketAddr_length_le (addr : SocketAddr) : (putSocketAddr addr).length ≤ 18 := by
  cases addr with
  | v4 addr => simp [putSocketAddr, putSocketAddrV4, Word.size]
  | v6 addr => simp [putSocketAddr, putSocketAddrV6, Word.size]

/-- A record without a signature is short. -/
theorem putEndpointAddr_length_le {e : EndpointAddr} (h : e.signature = none) :
    (putEndpointAddr e).length ≤ 49 := by
  have hprimary := putSocketAddr_length_le e.primary
  have hagent : (e.agent.elim [] putSocketAddr).length ≤ 18 := by
    cases e.agent with
    | none => exact Nat.zero_le _
    | some agent => exact putSocketAddr_length_le agent
  have hsequence : (e.sequence.elim [] fun seq => putVarint (VarInt.fromU32 seq.get)).length ≤ 8 := by
    cases e.sequence with
    | none => exact Nat.zero_le _
    | some sequence => exact (putVarint_length _).trans_le (encodingSize_le _)
  have hload : (e.load.elim [] putWord).length ≤ 4 := by
    cases e.load with
    | none => exact Nat.zero_le _
    | some load => simp [Word.size]
  have hsignature : (if e.isSigned then e.signature.elim [] putEndpointSignature else []) = [] := by
    rw [h]
    exact ite_self _
  rw [putEndpointAddr, hsignature, EndpointAddr.writeBase]
  simp only [List.length_append, List.length_cons, List.length_nil]
  omega

end Stamp

end Ddns
