import Ddns.Core.EndpointCanonical

/-! Records of the layout without flags, and when they are taken for modern ones. -/
namespace Ddns

open Nom BigEndian

theorem fixed_socketAddr (isIpv6 : Bool) : Fixed (beSocketAddr isIpv6) (addrLen isIpv6 false) := by
  cases isIpv6 with
  | false =>
    exact (fixed_word.andThen (fun port r => (beU32 r).map fun ip => (⟨ip, port⟩ : SocketAddrV4))
      fun _ => fixed_word.map _).map _
  | true =>
    exact (fixed_word.andThen
      (fun port r => (beU128 r).map fun ip => (⟨ip, port, 0, 0⟩ : SocketAddrV6))
      fun _ => fixed_word.map _).map _

theorem addrLen_nat (isIpv6 isNat : Bool) :
    addrLen isIpv6 isNat = addrLen isIpv6 false + if isNat then addrLen isIpv6 false else 0 := by
  cases isIpv6 <;> cases isNat <;> rfl

theorem six_le_addrLen (isIpv6 isNat : Bool) : 6 ≤ addrLen isIpv6 isNat := by
  cases isIpv6 <;> cases isNat <;> decide

/-- An integer is read as soon as all the bytes that its tag announces are there. -/
theorem beVarint_of_le {s : Slice} (h : varintLen (s.bytes.headD 0) ≤ s.len) :
    ∃ x, beVarint s = .ok (s.drop (varintLen (s.bytes.headD 0))) x ∧
      x.val = varintValue (s.bytes.headD 0) (s.bytes.tail.take (varintLen (s.bytes.headD 0) - 1))
        (varintLen (s.bytes.headD 0)) := by
  obtain ⟨p, bytes⟩ := s
  cases bytes with
  | nil =>
    have hpos := varintLen_pos 0
    have hzero : varintLen 0 ≤ 0 := h
    omega
  | cons first rest =>
    have hpos := varintLen_pos first
    have hfits : ¬ (⟨p + 1, rest⟩ : Slice).len + 1 < varintLen first := by
      have hlen : varintLen first ≤ rest.length + 1 := h
      show ¬ rest.length + 1 < varintLen first
      omega
    have hdrop : (⟨p + 1, rest⟩ : Slice).drop (varintLen first - 1) =
        (⟨p, first :: rest⟩ : Slice).drop (varintLen first) := by
      have hone : (⟨p + 1, rest⟩ : Slice) = (⟨p, first :: rest⟩ : Slice).drop 1 := rfl
      rw [hone, Slice.drop_drop]
      congr 1
      omega
    rw [beVarint, beU8_cons, andThen_ok]
    dsimp only
    rw [if_neg hfits, hdrop]
    exact ⟨_, rfl, rfl⟩

namespace Layout

variable (b : List UInt8)

/-- The integer at an offset. -/
def valueAt (offset : ℕ) : ℕ :=
  varintValue (b.getD offset 0) ((b.drop (offset + 1)).take (varintLen (b.getD offset 0) - 1))
    (varintLen (b.getD offset 0))

/-- The length that the flags, the sequence and the length of the signature announce. -/
def total : ℕ :=
  if has b EndpointAddr.flagSigned then
    baseEnd b + 2 + varintLen (b.getD (baseEnd b + 2) 0) + valueAt b (baseEnd b + 2)
  else baseEnd b

/-- The bytes are a modern record from the first to the last one. -/
def Complete [DhttpHome] : Prop :=
  total b = b.length ∧
    (has b EndpointAddr.flagClustered = true → valueAt b 1 ≤ DhttpHome.sequenceMax.toNat)

instance [DhttpHome] : Decidable (Complete b) := inferInstanceAs (Decidable (_ ∧ _))

theorem valueAt_append {w : List UInt8} {x : VarInt} (h : VarintForm w x) {n : ℕ}
    {pre : List UInt8} (hn : pre.length = n) (t : List UInt8) :
    varintLen ((pre ++ (w ++ t)).getD n 0) = w.length ∧ valueAt (pre ++ (w ++ t)) n = x.val := by
  subst hn
  obtain ⟨first, rest, rfl, hlen, hval⟩ := h
  have hfirst : (pre ++ ((first :: rest) ++ t)).getD pre.length 0 = first := by
    simp [List.getD_eq_getElem?_getD]
  have hdrop : (pre ++ ((first :: rest) ++ t)).drop (pre.length + 1) = rest ++ t := by
    rw [← List.drop_drop, List.drop_left]
    rfl
  have hrest : varintLen first - 1 = rest.length := by
    rw [← hlen]
    rfl
  rw [valueAt, hfirst, hdrop, hrest, List.take_left, hval, hlen]
  exact ⟨rfl, rfl⟩

/-- An integer that fits is read with its value. -/
theorem beVarint_at (p : ℕ) {offset : ℕ} (h : offset + varintLen (b.getD offset 0) ≤ b.length) :
    ∃ x, beVarint ((⟨p, b⟩ : Slice).drop offset) =
        .ok ((⟨p, b⟩ : Slice).drop (offset + varintLen (b.getD offset 0))) x ∧
      x.val = valueAt b offset := by
  have hhead : ((⟨p, b⟩ : Slice).drop offset).bytes.headD 0 = b.getD offset 0 := by
    rw [Slice.drop_bytes, List.headD_eq_head?_getD, List.head?_drop, List.getD_eq_getElem?_getD]
  obtain ⟨x, hx, hval⟩ := beVarint_of_le (s := (⟨p, b⟩ : Slice).drop offset) (by
    rw [hhead, Slice.drop_len]
    show varintLen (b.getD offset 0) ≤ b.length - offset
    omega)
  rw [hhead, Slice.drop_drop] at hx
  rw [hhead, Slice.drop_bytes, List.tail_drop] at hval
  exact ⟨x, hx, hval⟩

end Layout

section Complete

variable [DhttpHome] {b : List UInt8}

/-- The sequence field of bytes that are long enough. -/
theorem condSequence_at (p : ℕ) (hlen : Layout.sequenceEnd b ≤ b.length)
    (hrange : Layout.has b EndpointAddr.flagClustered = true →
      Layout.valueAt b 1 ≤ DhttpHome.sequenceMax.toNat) :
    ∃ sequence, cond (Layout.has b EndpointAddr.flagClustered) beSequence
      ((⟨p, b⟩ : Slice).drop 1) = .ok ((⟨p, b⟩ : Slice).drop (Layout.sequenceEnd b)) sequence := by
  unfold Layout.sequenceEnd at hlen ⊢
  cases hc : Layout.has b EndpointAddr.flagClustered with
  | false => exact ⟨none, rfl⟩
  | true =>
    rw [hc, if_pos rfl] at hlen
    obtain ⟨x, hx, hval⟩ := Layout.beVarint_at b p hlen
    have htry : ∃ sequence, CertificateSequence.tryFrom x.val = some sequence := by
      rw [hval, CertificateSequence.tryFrom, dif_pos (hrange hc)]
      exact ⟨_, rfl⟩
    obtain ⟨sequence, htry⟩ := htry
    refine ⟨some sequence, ?_⟩
    rw [Nom.cond, if_pos rfl, if_pos rfl, beSequence, hx, andThen_ok, htry, map_ok]

theorem fixed_endpointFields (flags : UInt8) (tail : List UInt8)
    (sequence : Option CertificateSequence) :
    Fixed (beEndpointFields flags sequence)
      (addrLen (Layout.has (flags :: tail) EndpointAddr.flagFamily)
          (Layout.has (flags :: tail) EndpointAddr.flagNat) +
        if Layout.has (flags :: tail) EndpointAddr.flagLoad then 4 else 0) := by
  have h := (fixed_socketAddr (flags &&& EndpointAddr.flagFamily ≠ 0)).andThen
    (fun primary r => (Nom.cond (flags &&& EndpointAddr.flagNat ≠ 0)
      (beSocketAddr (flags &&& EndpointAddr.flagFamily ≠ 0)) r).andThen fun r agent =>
        (Nom.cond (flags &&& EndpointAddr.flagLoad ≠ 0) beU32 r).map fun load =>
          (⟨flags, sequence, load, none, primary, agent⟩ : EndpointAddr))
    fun primary => ((fixed_socketAddr _).cond _).andThen
      (fun agent r => (Nom.cond (flags &&& EndpointAddr.flagLoad ≠ 0) beU32 r).map fun load =>
        (⟨flags, sequence, load, none, primary, agent⟩ : EndpointAddr))
      fun _ => (fixed_word.cond _).map _
  rw [← Nat.add_assoc, ← addrLen_nat] at h
  exact h

/-- The part before the signature is read when its bytes are there. -/
theorem beEndpointBase_of_le (p : ℕ) (hlen : Layout.baseEnd b ≤ b.length)
    (hrange : Layout.has b EndpointAddr.flagClustered = true →
      Layout.valueAt b 1 ≤ DhttpHome.sequenceMax.toNat) :
    ∃ e, beEndpointBase ⟨p, b⟩ = .ok ((⟨p, b⟩ : Slice).drop (Layout.baseEnd b)) e := by
  cases b with
  | nil => simp [Layout.baseEnd, Layout.sequenceEnd] at hlen
  | cons flags tail =>
    unfold Layout.baseEnd at hlen ⊢
    obtain ⟨sequence, hseq⟩ := condSequence_at p (by omega) hrange
    obtain ⟨e, he⟩ := fixed_endpointFields flags tail sequence
      ((⟨p, flags :: tail⟩ : Slice).drop (Layout.sequenceEnd (flags :: tail))) (by
        rw [Slice.drop_len]
        show _ ≤ (flags :: tail).length - _
        omega)
    rw [Slice.drop_drop, ← Nat.add_assoc] at he
    refine ⟨e, ?_⟩
    rw [beEndpointBase, beU8_cons, andThen_ok, ← he]
    exact congrArg (fun x => x.andThen fun r sequence => beEndpointFields flags sequence r) hseq

omit [DhttpHome] in
/-- The signature field of bytes that are long enough. -/
theorem beEndpointSignature_of_le {flags : UInt8}
    (hsigned : flags &&& EndpointAddr.flagSigned = EndpointAddr.flagSigned) (p : ℕ) {offset : ℕ}
    (hlen : offset + 2 + varintLen (b.getD (offset + 2) 0) + Layout.valueAt b (offset + 2) ≤
      b.length) :
    ∃ sig, beEndpointSignature flags ((⟨p, b⟩ : Slice).drop offset) =
      .ok ((⟨p, b⟩ : Slice).drop (offset + 2 + varintLen (b.getD (offset + 2) 0) +
        Layout.valueAt b (offset + 2))) sig := by
  have hlens (n : ℕ) : ((⟨p, b⟩ : Slice).drop n).len = b.length - n := Slice.drop_len _ _
  obtain ⟨scheme, hscheme⟩ := (fixed_word (α := UInt16)) ((⟨p, b⟩ : Slice).drop offset) (by
    rw [hlens]
    show 2 ≤ _
    omega)
  obtain ⟨x, hx, hval⟩ := Layout.beVarint_at b p (show offset + 2 + _ ≤ b.length by omega)
  obtain ⟨sig, hsig⟩ := fixed_take x.val
    ((⟨p, b⟩ : Slice).drop (offset + 2 + varintLen (b.getD (offset + 2) 0))) (by
      rw [hlens, hval]
      omega)
  rw [Slice.drop_drop] at hscheme hsig
  have hscheme : beU16 ((⟨p, b⟩ : Slice).drop offset) = .ok ((⟨p, b⟩ : Slice).drop (offset + 2)) scheme :=
    hscheme
  refine ⟨some ⟨scheme, sig.bytes⟩, ?_⟩
  rw [beEndpointSignature, if_neg (not_not_intro hsigned), hscheme, andThen_ok, hx, andThen_ok,
    hsig, map_ok, hval]

/-- A record that leaves nothing is as long as its first bytes announce. -/
theorem complete_of_read {p q : ℕ} {e : EndpointAddr}
    (h : beEndpointAddr ⟨p, b⟩ = .ok ⟨q, []⟩ e) : Layout.Complete b := by
  obtain ⟨hwell, w, v, hf⟩ := beEndpointAddr_ok h
  have hbase := hf.baseEnd hwell.base
  have hsigned : Layout.has b EndpointAddr.flagSigned = e.signature.isSome := by
    rw [← hwell.signed, isSigned_eq, Layout.has, hf.flags]
  have hbytes : b = e.spell w ++ v := hf.bytes.trans (by rw [List.append_nil])
  constructor
  · have hsignature := hf.signature
    rw [Layout.total, hsigned, hbase]
    cases hs : e.signature with
    | none =>
      rw [hs] at hsignature
      rw [hbytes, hsignature.1, List.append_nil]
      rfl
    | some sig =>
      rw [hs] at hsignature
      obtain ⟨x, len, hx, hlen, rfl⟩ := hsignature
      have hpre : (e.spell w ++ putWord sig.scheme).length = (e.spell w).length + 2 := by
        rw [List.length_append, putWord_length]
        rfl
      obtain ⟨htag, hval⟩ := Layout.valueAt_append hx hpre sig.signature
      rw [hbytes, Option.isSome_some, if_pos rfl, ← List.append_assoc, htag, hval, hlen,
        List.length_append, hpre, List.length_append]
      omega
  · intro hclustered
    have hsequence := hf.sequence
    rw [Layout.has, hf.flags] at hclustered
    have hsome : e.sequence.isSome = true := hwell.clustered.symm.trans hclustered
    obtain ⟨seq, hseq⟩ := Option.isSome_iff_exists.mp hsome
    rw [hseq] at hsequence
    have hone : [e.flags].length = 1 := rfl
    rw [hbytes, EndpointAddr.spell, List.append_assoc, List.append_assoc,
      (Layout.valueAt_append hsequence hone _).2]
    exact seq.le_max

/-- Bytes that are as long as they announce are read to their end. -/
theorem read_of_complete (h : Layout.Complete b) (p : ℕ) :
    ∃ q e, beEndpointAddr ⟨p, b⟩ = .ok ⟨q, []⟩ e := by
  obtain ⟨htotal, hrange⟩ := h
  have hend : ((⟨p, b⟩ : Slice).drop (Layout.total b)) = ⟨p + Layout.total b, []⟩ := by
    rw [Slice.drop, htotal, List.drop_length]
  have hle : Layout.baseEnd b ≤ b.length := by
    rw [← htotal, Layout.total]
    split <;> omega
  obtain ⟨e, hbase⟩ := beEndpointBase_of_le p hle hrange
  have hflags : Layout.has b EndpointAddr.flagSigned = e.isSigned := by
    obtain ⟨_, w, _, hbytes⟩ := beEndpointBase_ok hbase
    have hb : b = e.spell w ++ _ := hbytes
    rw [isSigned_eq, Layout.has, hb]
    rfl
  rw [beEndpointAddr_eq, hbase, andThen_ok]
  unfold Layout.total at htotal hend
  rw [hflags] at htotal hend
  cases hs : e.isSigned with
  | false =>
    rw [hs, if_neg Bool.false_ne_true] at hend
    rw [hend, beEndpointSignature_unsigned hs, map_ok]
    exact ⟨_, _, rfl⟩
  | true =>
    rw [hs, if_pos rfl] at htotal hend
    have hbit : e.flags &&& EndpointAddr.flagSigned = EndpointAddr.flagSigned := of_decide_eq_true hs
    obtain ⟨sig, hsig⟩ := beEndpointSignature_of_le hbit p htotal.le
    rw [hsig, map_ok, hend]
    exact ⟨_, _, rfl⟩

end Complete

section Legacy

/-- The endpoints of the layout without flags. -/
inductive LegacyEndpoint where
  | directV4 (addr : SocketAddrV4)
  | natV4 (outer agent : SocketAddrV4)
  | directV6 (ip : BitVec 128) (port : UInt16)
  | natV6 (outerIp : BitVec 128) (outerPort : UInt16) (agentIp : BitVec 128) (agentPort : UInt16)

namespace LegacyEndpoint

/-- The port and the address, for the outer address and then for the agent. -/
def payload : LegacyEndpoint → List UInt8
  | directV4 addr => putWord addr.port ++ putWord addr.ip
  | natV4 outer agent =>
    putWord outer.port ++ putWord outer.ip ++ (putWord agent.port ++ putWord agent.ip)
  | directV6 ip port => putWord port ++ putWord ip
  | natV6 outerIp outerPort agentIp agentPort =>
    putWord outerPort ++ putWord outerIp ++ (putWord agentPort ++ putWord agentIp)

variable [DhttpHome]

def endpoint : LegacyEndpoint → EndpointAddr
  | directV4 addr => .directV4 addr
  | natV4 outer agent => .natV4 outer agent
  | directV6 ip port => .directV6 ⟨ip, port, 0, 0⟩
  | natV6 outerIp outerPort agentIp agentPort =>
    .natV6 ⟨outerIp, outerPort, 0, 0⟩ ⟨agentIp, agentPort, 0, 0⟩

def rdlen (legacy : LegacyEndpoint) : UInt16 := UInt16.ofNat legacy.payload.length

theorem payload_length (legacy : LegacyEndpoint) :
    legacy.payload.length =
      addrLen legacy.endpoint.primary.isV6 legacy.endpoint.agent.isSome := by
  cases legacy <;> simp [payload, Word.size] <;> rfl

theorem rdlen_mem (legacy : LegacyEndpoint) : legacy.rdlen.toNat ∈ [6, 12, 18, 36] := by
  rw [rdlen, payload_length]
  cases legacy.endpoint.primary.isV6 <;> cases legacy.endpoint.agent.isSome <;> decide

/-- The legacy reader gives the endpoint back. -/
theorem read_payload (legacy : LegacyEndpoint) (p : ℕ) : ∃ q,
    beLegacyEndpointAddrByLength ⟨p, legacy.payload⟩ legacy.rdlen = .ok ⟨q, []⟩ legacy.endpoint := by
  have hlen := congrArg UInt16.ofNat legacy.payload_length
  rw [rdlen, hlen]
  cases legacy with
  | directV4 addr =>
    have h := (recognises_socketAddrV4 addr).map EndpointAddr.directV4 p []
    rw [List.append_nil] at h
    exact ⟨_, h⟩
  | natV4 outer agent =>
    have h := (recognises_socketAddrV4 outer).andThen
      (fun primary r => (beSocketAddrV4 r).map fun agent => EndpointAddr.natV4 primary agent)
      ((recognises_socketAddrV4 agent).map _) p []
    rw [List.append_nil] at h
    exact ⟨_, h⟩
  | directV6 ip port =>
    have h := (recognises_socketAddrV6 ⟨ip, port, 0, 0⟩).map EndpointAddr.directV6 p []
    rw [List.append_nil] at h
    exact ⟨_, h⟩
  | natV6 outerIp outerPort agentIp agentPort =>
    have h := (recognises_socketAddrV6 ⟨outerIp, outerPort, 0, 0⟩).andThen
      (fun primary r => (beSocketAddrV6 r).map fun agent => EndpointAddr.natV6 primary agent)
      ((recognises_socketAddrV6 ⟨agentIp, agentPort, 0, 0⟩).map _) p []
    rw [List.append_nil] at h
    exact ⟨_, h⟩

/-- The modern record of a legacy endpoint is longer by its flags, so the two readings of one
payload never agree. -/
theorem modern_ne (legacy : LegacyEndpoint) {p q : ℕ} {e : EndpointAddr}
    (h : beEndpointAddr ⟨p, legacy.payload⟩ = .ok ⟨q, []⟩ e) : e ≠ legacy.endpoint := by
  rintro rfl
  obtain ⟨hwell, w, v, hf⟩ := beEndpointAddr_ok h
  have hlen := congrArg List.length hf.bytes
  rw [List.length_append, spell_length hwell.base, payload_length, hwell.family, ← hwell.nat] at hlen
  omega

/-- A payload of six bytes is too short for any modern record. -/
theorem directV4_not_complete (addr : SocketAddrV4) : ¬ Layout.Complete (directV4 addr).payload := by
  intro h
  have hlen : (directV4 addr).payload.length = 6 := payload_length _
  have hbase : 7 ≤ Layout.baseEnd (directV4 addr).payload := by
    have haddr := six_le_addrLen (Layout.has (directV4 addr).payload EndpointAddr.flagFamily)
      (Layout.has (directV4 addr).payload EndpointAddr.flagNat)
    unfold Layout.baseEnd Layout.sequenceEnd
    omega
  have htotal := h.1
  unfold Layout.total at htotal
  split at htotal <;> omega

/-- A legacy payload is read as such exactly when it is not a modern record from end to end; a
modern record is preferred. -/
theorem legacy_compat (legacy : LegacyEndpoint) (p : ℕ) :
    ((∃ q, beEndpointAddrCompat ⟨p, legacy.payload⟩ legacy.rdlen = .ok ⟨q, []⟩ legacy.endpoint) ↔
        ¬ Layout.Complete legacy.payload) ∧
      (Layout.Complete legacy.payload → ∃ q e,
        beEndpointAddr ⟨p, legacy.payload⟩ = .ok ⟨q, []⟩ e ∧
        beEndpointAddrCompat ⟨p, legacy.payload⟩ legacy.rdlen = .ok ⟨q, []⟩ e) ∧
      ∀ addr, legacy = directV4 addr → ¬ Layout.Complete legacy.payload := by
  have hmodern : ∀ q e, beEndpointAddr ⟨p, legacy.payload⟩ = .ok ⟨q, []⟩ e →
      beEndpointAddrCompat ⟨p, legacy.payload⟩ legacy.rdlen = .ok ⟨q, []⟩ e := by
    intro q e h
    rw [beEndpointAddrCompat, if_pos legacy.rdlen_mem, h]
    rfl
  refine ⟨⟨?_, ?_⟩, ?_, ?_⟩
  · rintro ⟨q, hlegacy⟩ hcomplete
    obtain ⟨q', e, h⟩ := read_of_complete hcomplete p
    have hsame := (hmodern q' e h).symm.trans hlegacy
    simp only [IResult.ok.injEq] at hsame
    exact legacy.modern_ne h hsame.2
  · intro hnot
    obtain ⟨q, hq⟩ := legacy.read_payload p
    refine ⟨q, ?_⟩
    rw [beEndpointAddrCompat, if_pos legacy.rdlen_mem, ← hq]
    split
    · rename_i remaining e h
      -- a modern record with nothing left would be complete
      refine if_neg ?_
      intro hempty
      obtain ⟨pos, bytes⟩ := remaining
      obtain rfl : bytes = [] := hempty
      exact hnot (complete_of_read h)
    · rfl
  · intro hcomplete
    obtain ⟨q, e, h⟩ := read_of_complete hcomplete p
    exact ⟨q, e, h, hmodern q e h⟩
  · rintro addr rfl
    exact directV4_not_complete addr

end LegacyEndpoint

end Legacy

section Sample

attribute [local instance] plainHome

/-- A mediated IPv4 endpoint with an outer port of 10241. -/
def ambiguousEndpoint : LegacyEndpoint := .natV4 ⟨0x0A000001, 0x2801⟩ ⟨0x0A000002, 2000⟩

/-- The port is taken for the flags of a clustered record with a load. -/
theorem ambiguousEndpoint_read_as_modern :
    beEndpointAddrCompat ⟨0, ambiguousEndpoint.payload⟩ ambiguousEndpoint.rdlen =
        .ok ⟨12, []⟩ ⟨0x28, some (.ofU8 1), some 0x0A000002, none,
          .v4 ⟨0x000107D0, 0x0A00⟩, none⟩ ∧
      ¬ ∀ (legacy : LegacyEndpoint) (p : ℕ), ∃ q,
        beEndpointAddrCompat ⟨p, legacy.payload⟩ legacy.rdlen = .ok ⟨q, []⟩ legacy.endpoint := by
  have hread : beEndpointAddrCompat ⟨0, ambiguousEndpoint.payload⟩ ambiguousEndpoint.rdlen =
      .ok ⟨12, []⟩ ⟨0x28, some (.ofU8 1), some 0x0A000002, none,
        .v4 ⟨0x000107D0, 0x0A00⟩, none⟩ := by rfl
  refine ⟨hread, ?_⟩
  intro h
  obtain ⟨q, hq⟩ := h ambiguousEndpoint 0
  have hsame := hread.symm.trans hq
  simp only [IResult.ok.injEq] at hsame
  exact absurd (congrArg EndpointAddr.agent hsame.2) (Option.some_ne_none _).symm

end Sample

end Ddns
