import Ddns.Core.EndpointCanonical
import Ddns.Core.Signature

/-! Signing an endpoint record: what the signature covers, and what a failure leaves behind. -/
namespace Ddns

open Nom BigEndian

/-- `u16::from` of a scheme -/
def SignatureScheme.toU16 : SignatureScheme → UInt16
  | .ed25519 => 0x0807
  | .ecdsaNistp256Sha256 => 0x0403
  | .ecdsaNistp384Sha384 => 0x0503
  | .rsaPssSha256 => 0x0804
  | .rsaPssSha384 => 0x0805
  | .rsaPssSha512 => 0x0806
  | .rsaPkcs1Sha256 => 0x0401
  | .rsaPkcs1Sha384 => 0x0501
  | .rsaPkcs1Sha512 => 0x0601
  | .unknown code => code

/-- `SignatureScheme::from` of a code -/
def SignatureScheme.ofU16 (code : UInt16) : SignatureScheme :=
  if code = 0x0807 then .ed25519
  else if code = 0x0403 then .ecdsaNistp256Sha256
  else if code = 0x0503 then .ecdsaNistp384Sha384
  else if code = 0x0804 then .rsaPssSha256
  else if code = 0x0805 then .rsaPssSha384
  else if code = 0x0806 then .rsaPssSha512
  else if code = 0x0401 then .rsaPkcs1Sha256
  else if code = 0x0501 then .rsaPkcs1Sha384
  else if code = 0x0601 then .rsaPkcs1Sha512
  else .unknown code

inductive SignEndpointError where
  | sign
  | noSupportedScheme
  deriving DecidableEq

section Definitions

variable [DhttpHome] [Crypto]

/-- The scheme of an identity that has a certificate. -/
def LocalAuthority.scheme (authority : LocalAuthority) : Option SignatureScheme :=
  authority.certificates.head?.bind fun _ => canonicalSchemeForSpki authority.publicKey

namespace EndpointAddr

/-- The result, and the record as the call leaves it: the flag is set before anything can fail. -/
def signWithAuthority (e : EndpointAddr) (authority : LocalAuthority) :
    Except SignEndpointError Unit × EndpointAddr :=
  let e := e.setSigned true
  let data := e.signedData
  match authority.scheme with
  | none => (.error .noSupportedScheme, e)
  | some scheme =>
    match authority.sign (SignatureScheme.ofU16 scheme.toU16) data with
    | none => (.error .sign, e)
    | some signature => (.ok (), { e with signature := some ⟨scheme.toU16, signature⟩ })

/-- `none` for a scheme without an algorithm. -/
def verifySignature (e : EndpointAddr) (spki : List UInt8) : Option Bool :=
  match e.signature with
  | none => some false
  | some sig => siginVerify spki (SignatureScheme.ofU16 sig.scheme) e.signedData sig.signature

/-- The record of a server before it is signed. -/
def stamp (serverId : UInt8) (ep : EndpointAddr) : EndpointAddr :=
  (ep.setMain (serverId = 0)).setSequence (CertificateSequence.ofU8 serverId)

end EndpointAddr

/-- An error of the signer is dropped. -/
def signEndponitAddress (serverId : UInt8) (authority : Option LocalAuthority)
    (endpoint : DquicEndpointAddr) : Option EndpointAddr :=
  (EndpointAddr.tryFrom endpoint).map fun ep =>
    let stamped := ep.stamp serverId
    match authority with
    | none => stamped
    | some authority => (stamped.signWithAuthority authority).2

end Definitions

section SignedData

variable [DhttpHome] {e e₁ e₂ : EndpointAddr}

theorem EndpointAddr.BaseFormed.setSigned (h : e.BaseFormed) (on : Bool)
    (signature : Option EndpointSignature) :
    ({ e.setSigned on with signature := signature } : EndpointAddr).BaseFormed :=
  h.setFlag on signature (by decide)

/-- The bytes up to the signature determine the fields. -/
theorem writeBase_inj (h₁ : e₁.BaseFormed) (h₂ : e₂.BaseFormed)
    (h : e₁.writeBase = e₂.writeBase) :
    ({ e₁ with signature := none } : EndpointAddr) = { e₂ with signature := none } := by
  have hread₁ := recognises_base h₁ (sequenceForm_put e₁.sequence) 0 []
  have hread₂ := recognises_base h₂ (sequenceForm_put e₂.sequence) 0 []
  have hbytes : e₁.spell (e₁.sequence.elim [] fun seq => putVarint (VarInt.fromU32 seq.get)) =
      e₂.spell (e₂.sequence.elim [] fun seq => putVarint (VarInt.fromU32 seq.get)) := h
  rw [hbytes] at hread₁
  have hsame := hread₁.symm.trans hread₂
  simp only [IResult.ok.injEq] at hsame
  exact hsame.2

theorem setSigned_setSigned (e : EndpointAddr) (on : Bool) :
    (e.setSigned on).setSigned true = e.setSigned true := by
  have hset : (if on then e.flags ||| EndpointAddr.flagSigned
        else e.flags &&& ~~~EndpointAddr.flagSigned) ||| EndpointAddr.flagSigned =
      e.flags ||| EndpointAddr.flagSigned := by
    cases on with
    | true =>
      rw [if_pos rfl, UInt8.or_assoc, UInt8.or_self]
    | false =>
      rw [if_neg Bool.false_ne_true, ← UInt8.toBitVec_inj]
      simp only [UInt8.toBitVec_or, UInt8.toBitVec_and, UInt8.toBitVec_not]
      ext i hi
      simp only [BitVec.getElem_or, BitVec.getElem_and, BitVec.getElem_not]
      cases e.flags.toBitVec[i] <;> cases EndpointAddr.flagSigned.toBitVec[i] <;> rfl
  unfold EndpointAddr.setSigned EndpointAddr.setFlag
  dsimp only
  rw [if_pos rfl, if_pos rfl, hset]

/-- The signature and its flag are not signed. -/
theorem signedData_resign (e : EndpointAddr) (on : Bool) (signature : Option EndpointSignature) :
    ({ e.setSigned on with signature := signature } : EndpointAddr).signedData = e.signedData := by
  have hflags := congrArg EndpointAddr.flags (setSigned_setSigned e on)
  show EndpointAddr.writeBase ⟨_, e.sequence, e.load, none, e.primary, e.agent⟩ =
    EndpointAddr.writeBase ⟨_, e.sequence, e.load, none, e.primary, e.agent⟩
  exact congrArg (fun flags => EndpointAddr.writeBase
    ⟨flags, e.sequence, e.load, none, e.primary, e.agent⟩) hflags

theorem signedData_inj (h₁ : e₁.BaseFormed) (h₂ : e₂.BaseFormed) :
    e₁.signedData = e₂.signedData ↔
      e₁.flags ||| EndpointAddr.flagSigned = e₂.flags ||| EndpointAddr.flagSigned ∧
      e₁.sequence = e₂.sequence ∧ e₁.primary = e₂.primary ∧ e₁.agent = e₂.agent ∧
      e₁.load = e₂.load := by
  constructor
  · intro h
    have hsame := writeBase_inj (h₁.setSigned true none) (h₂.setSigned true none) h
    rw [EndpointAddr.mk.injEq] at hsame
    obtain ⟨hflags, hsequence, hload, _, hprimary, hagent⟩ := hsame
    exact ⟨hflags, hsequence, hprimary, hagent, hload⟩
  · rintro ⟨hflags, hsequence, hprimary, hagent, hload⟩
    have hset : ∀ e : EndpointAddr, e.signedData = EndpointAddr.writeBase
        ⟨e.flags ||| EndpointAddr.flagSigned, e.sequence, e.load, none, e.primary, e.agent⟩ :=
      fun e => rfl
    rw [hset, hset, hflags, hsequence, hprimary, hagent, hload]

/-- A record that is read from what was written for another one differs from it in the signature
only. -/
theorem beEndpointAddr_put_fields (h : e.BaseFormed) {p : ℕ} {r : Slice} {e' : EndpointAddr}
    (hread : beEndpointAddr ⟨p, putEndpointAddr e⟩ = .ok r e') :
    ∃ signature, e' = { e with signature := signature } := by
  have hbase := recognises_base h (sequenceForm_put e.sequence) p
    (if e.isSigned then e.signature.elim [] putEndpointSignature else [])
  have hput : putEndpointAddr e = e.spell _ ++ _ := rfl
  rw [beEndpointAddr_eq, hput, hbase, andThen_ok] at hread
  obtain ⟨signature, _, rfl⟩ := map_eq_ok.mp hread
  exact ⟨signature, rfl⟩

/-- Every field is signed and nothing else is. -/
theorem signedData_covers_fields (h₁ : e₁.BaseFormed) (h₂ : e₂.BaseFormed) :
    (e₁.signedData = e₂.signedData ↔
      e₁.flags ||| EndpointAddr.flagSigned = e₂.flags ||| EndpointAddr.flagSigned ∧
      e₁.sequence = e₂.sequence ∧ e₁.primary = e₂.primary ∧ e₁.agent = e₂.agent ∧
      e₁.load = e₂.load) ∧
      (∀ on signature, ({ e₁.setSigned on with signature := signature } : EndpointAddr).signedData =
        e₁.signedData) ∧
      ∀ p r e, beEndpointAddr ⟨p, putEndpointAddr e₁⟩ = .ok r e → e.signedData = e₁.signedData := by
  refine ⟨signedData_inj h₁ h₂, signedData_resign e₁, ?_⟩
  intro p r e hread
  obtain ⟨signature, rfl⟩ := beEndpointAddr_put_fields h₁ hread
  rfl

end SignedData

section Sample

attribute [local instance] plainHome

/-- Two endpoints that differ in the flag of the primary chain only. -/
theorem signedData_covers_main :
    (EndpointAddr.directV4 ⟨0x0A000001, 5353⟩).signedData ≠
      ((EndpointAddr.directV4 ⟨0x0A000001, 5353⟩).setMain true).signedData := by
  have hformed : (EndpointAddr.directV4 ⟨0x0A000001, 5353⟩).WellFormed :=
    (tryFrom_spec (show EndpointAddr.tryFrom (.direct (.v4 ⟨0x0A000001, 5353⟩)) = some _ from rfl)
      trivial).1
  intro h
  obtain ⟨hcovers, _⟩ := signedData_covers_fields hformed.base (hformed.setMain true).base
  exact absurd (hcovers.mp h).1 (by decide)

end Sample

section Failure

variable [DhttpHome] [Crypto]

/-- The identity signs the data: it has a certificate, its key is supported, and its signer
gives this signature. -/
def LocalAuthority.Signs (authority : LocalAuthority) (data signature : List UInt8) : Prop :=
  ∃ scheme, authority.scheme = some scheme ∧
    authority.sign (SignatureScheme.ofU16 scheme.toU16) data = some signature

/-- Either the signature is added, or the call fails and only the flag is set. -/
theorem signWithAuthority_cases (e : EndpointAddr) (authority : LocalAuthority) :
    (∃ scheme signature, authority.scheme = some scheme ∧
        authority.sign (SignatureScheme.ofU16 scheme.toU16) e.signedData = some signature ∧
        e.signWithAuthority authority =
          (.ok (), { e.setSigned true with signature := some ⟨scheme.toU16, signature⟩ })) ∨
      ((∀ signature, ¬ authority.Signs e.signedData signature) ∧
        ∃ err, e.signWithAuthority authority = (.error err, e.setSigned true)) := by
  have hdata : (e.setSigned true).signedData = e.signedData := signedData_resign e true e.signature
  unfold EndpointAddr.signWithAuthority
  dsimp only
  rw [hdata]
  cases hscheme : authority.scheme with
  | none =>
    refine .inr ⟨?_, _, rfl⟩
    rintro signature ⟨scheme, hsome, _⟩
    rw [hscheme] at hsome
    cases hsome
  | some scheme =>
    dsimp only
    cases hsign : authority.sign (SignatureScheme.ofU16 scheme.toU16) e.signedData with
    | none =>
      refine .inr ⟨?_, _, rfl⟩
      rintro signature ⟨other, hother, hsigns⟩
      obtain rfl : scheme = other := Option.some_inj.mp (hscheme.symm.trans hother)
      rw [hsign] at hsigns
      cases hsigns
    | some signature => exact .inl ⟨scheme, signature, rfl, hsign, rfl⟩

omit [DhttpHome] in
/-- The code of the scheme of a key stands for that scheme. -/
theorem ofU16_toU16 {spki : List UInt8} {scheme : SignatureScheme}
    (h : canonicalSchemeForSpki spki = some scheme) :
    SignatureScheme.ofU16 scheme.toU16 = scheme := by
  cases scheme with
  | unknown code =>
    unfold canonicalSchemeForSpki at h
    repeat' split at h
    all_goals cases h
  | _ => rfl

/-- A record that was signed verifies with the key of the identity. -/
theorem verifySignature_signed {e : EndpointAddr} {authority : LocalAuthority}
    (h : (e.signWithAuthority authority).1 = .ok ()) :
    (e.signWithAuthority authority).2.verifySignature authority.publicKey = some true := by
  rcases signWithAuthority_cases e authority with
    ⟨scheme, signature, hscheme, hsign, hresult⟩ | ⟨_, err, hresult⟩
  · obtain ⟨cert, _, hcanonical⟩ := Option.bind_eq_some_iff.mp hscheme
    have hdata := signedData_resign e true (some ⟨scheme.toU16, signature⟩)
    have hcode := ofU16_toU16 hcanonical
    rw [hcode] at hsign
    rw [hresult, EndpointAddr.verifySignature]
    dsimp only at hdata ⊢
    rw [hdata, hcode]
    exact authority.sign_verifies scheme _ _ hcanonical hsign
  · rw [hresult] at h
    cases h

omit [Crypto] in
theorem isSigned_setSigned (e : EndpointAddr) : (e.setSigned true).isSigned = true :=
  decide_eq_true (setFlag_and_self e EndpointAddr.flagSigned true)

omit [Crypto] in
/-- The flag is there already exactly when setting it changes nothing. -/
theorem setSigned_eq_iff (e : EndpointAddr) : e.setSigned true = e ↔ e.isSigned = true := by
  constructor
  · intro h
    rw [← h]
    exact isSigned_setSigned e
  · intro h
    have hbit : e.flags &&& EndpointAddr.flagSigned = EndpointAddr.flagSigned := of_decide_eq_true h
    have hor : e.flags ||| EndpointAddr.flagSigned = e.flags := by
      rw [← hbit, ← UInt8.toBitVec_inj]
      simp only [UInt8.toBitVec_or, UInt8.toBitVec_and]
      ext i hi
      simp only [BitVec.getElem_or, BitVec.getElem_and]
      cases e.flags.toBitVec[i] <;> cases EndpointAddr.flagSigned.toBitVec[i] <;> rfl
    show (⟨e.flags ||| EndpointAddr.flagSigned, _, _, _, _, _⟩ : EndpointAddr) = e
    rw [hor]

omit [Crypto] in
/-- What is written is read back exactly when the flag and the signature agree. -/
theorem reads_back_iff {e : EndpointAddr} (h : e.BaseFormed) :
    (∀ p, ∃ q, beEndpointAddr ⟨p, putEndpointAddr e⟩ = .ok ⟨q, []⟩ e) ↔
      e.isSigned = e.signature.isSome ∧ ∀ sig ∈ e.signature, sig.signature.length < 2 ^ 62 := by
  constructor
  · intro hread
    obtain ⟨q, hq⟩ := hread 0
    obtain ⟨hwell, w, v, hf⟩ := beEndpointAddr_ok hq
    exact ⟨hwell.signed, hf.signature_lt⟩
  · rintro ⟨hsigned, hlen⟩
    exact beEndpointAddr_put (h.wellFormed hsigned) hlen

omit [Crypto] in
/-- A stamped record is well formed and not signed. -/
theorem stamp_spec {endpoint : DquicEndpointAddr} {ep : EndpointAddr} (hplain : endpoint.Plain)
    (h : EndpointAddr.tryFrom endpoint = some ep) (serverId : UInt8) :
    (ep.stamp serverId).WellFormed ∧ (ep.stamp serverId).signature = none := by
  obtain ⟨hwell, hnone, _⟩ := tryFrom_spec h hplain
  refine ⟨(hwell.setMain _).setSequence _, ?_⟩
  exact (setSequence_signature _ _).trans hnone

/-- Signing a stamped record gives a record that is read back exactly when the identity signs. -/
theorem signed_reads_back_iff {e : EndpointAddr} (hwell : e.WellFormed) (hnone : e.signature = none)
    (authority : LocalAuthority) :
    (∀ p, ∃ q, beEndpointAddr ⟨p, putEndpointAddr (e.signWithAuthority authority).2⟩ =
        .ok ⟨q, []⟩ (e.signWithAuthority authority).2) ↔
      ∃ signature, authority.Signs e.signedData signature ∧ signature.length < 2 ^ 62 := by
  rcases signWithAuthority_cases e authority with
    ⟨scheme, signature, hscheme, hsign, hresult⟩ | ⟨hnot, err, hresult⟩
  · rw [hresult, reads_back_iff (hwell.base.setSigned true (some ⟨scheme.toU16, signature⟩))]
    constructor
    · rintro ⟨_, hlen⟩
      exact ⟨signature, ⟨scheme, hscheme, hsign⟩, hlen _ rfl⟩
    · rintro ⟨signature', ⟨scheme', hscheme', hsign'⟩, hlen⟩
      obtain rfl : scheme = scheme' := Option.some_inj.mp (hscheme.symm.trans hscheme')
      obtain rfl : signature = signature' := Option.some_inj.mp (hsign.symm.trans hsign')
      refine ⟨isSigned_setSigned e, ?_⟩
      intro other hother
      obtain rfl := Option.mem_some_iff.mp hother
      exact hlen
  · have hformed : (e.setSigned true).BaseFormed := hwell.base.setSigned true e.signature
    rw [hresult, reads_back_iff hformed]
    constructor
    · rintro ⟨hsigned, _⟩
      have htrue := isSigned_setSigned e
      have hnone' : (e.setSigned true).signature = none := hnone
      rw [hsigned, hnone'] at htrue
      cases htrue
    · rintro ⟨signature, hsigns, _⟩
      exact absurd hsigns (hnot signature)

/-- A failed signing leaves the record as it was only when its flag was set before, and what is
published is read back only when nothing fails. -/
theorem sign_failure_iff :
    (∀ (e : EndpointAddr) (authority : LocalAuthority),
      (∀ err, (e.signWithAuthority authority).1 = .error err →
        (e.signWithAuthority authority).2 = e) ↔
      (∃ signature, authority.Signs e.signedData signature) ∨ e.isSigned = true) ∧
    ∀ (serverId : UInt8) (authority : Option LocalAuthority) (endpoint : DquicEndpointAddr),
      endpoint.Plain →
      ((∀ ep, signEndponitAddress serverId authority endpoint = some ep →
        ∀ p, ∃ q, beEndpointAddr ⟨p, putEndpointAddr ep⟩ = .ok ⟨q, []⟩ ep) ↔
      ∀ ep, EndpointAddr.tryFrom endpoint = some ep → ∀ a ∈ authority,
        ∃ signature, a.Signs (ep.stamp serverId).signedData signature ∧
          signature.length < 2 ^ 62) := by
  constructor
  · intro e authority
    rcases signWithAuthority_cases e authority with
      ⟨scheme, signature, hscheme, hsign, hresult⟩ | ⟨hnot, err, hresult⟩
    · rw [hresult]
      exact ⟨fun _ => .inl ⟨signature, scheme, hscheme, hsign⟩, fun _ err herr => (by cases herr)⟩
    · rw [hresult]
      constructor
      · intro h
        exact .inr ((setSigned_eq_iff e).mp (h err rfl))
      · rintro (⟨signature, hsigns⟩ | hsigned) _ _
        · exact absurd hsigns (hnot signature)
        · exact (setSigned_eq_iff e).mpr hsigned
  · intro serverId authority endpoint hplain
    cases htry : EndpointAddr.tryFrom endpoint with
    | none =>
      unfold signEndponitAddress
      rw [htry]
      exact ⟨fun _ _ h => (by cases h), fun _ _ h => (by cases h)⟩
    | some ep =>
      obtain ⟨hwell, hnone⟩ := stamp_spec hplain htry serverId
      unfold signEndponitAddress
      rw [htry, Option.map_some]
      simp only [Option.some_inj, forall_eq']
      cases authority with
      | none =>
        refine ⟨fun _ a ha => (by cases ha), fun _ => ?_⟩
        exact beEndpointAddr_put hwell (by simp [hnone])
      | some authority =>
        have h := signed_reads_back_iff hwell hnone authority
        simp only [Option.mem_some_iff, forall_eq']
        exact h

end Failure

section Sample

/-- Libraries for a key on a curve that no scheme is known for. -/
@[reducible] def otherCurveCrypto : Crypto :=
  { plainCrypto with
    parseSpki := fun _ => some ⟨.keyTypeEcPublicKey, some (.other [1, 3, 132, 0, 35]), [4]⟩ }

attribute [local instance] plainHome otherCurveCrypto

def otherCurveAuthority : LocalAuthority where
  name := ['a', '.', 'd', 'h', 't', 't', 'p', '.', 'n', 'e', 't']
  certificates := [[1]]
  publicKey := []
  sign _ _ := none
  leaf_spki _ _ := rfl
  sign_verifies _ _ _ _ h := by cases h

/-- The signing fails, the flag stays, and the published record is refused where it is read. -/
theorem otherCurve_leaves_flag :
    ((EndpointAddr.directV4 ⟨0x0A000001, 5353⟩).signWithAuthority otherCurveAuthority).1 =
        .error .noSupportedScheme ∧
      ((EndpointAddr.directV4 ⟨0x0A000001, 5353⟩).signWithAuthority otherCurveAuthority).2 ≠
        EndpointAddr.directV4 ⟨0x0A000001, 5353⟩ ∧
      ∃ ep, signEndponitAddress 0 (some otherCurveAuthority)
          (.direct (.v4 ⟨0x0A000001, 5353⟩)) = some ep ∧
        beEndpointAddr ⟨0, putEndpointAddr ep⟩ = .err (.incomplete 2) := by
  refine ⟨by decide, by decide, ⟨0b0100_0001, none, none, none, .v4 ⟨0x0A000001, 5353⟩, none⟩, ?_, ?_⟩
  · rfl
  · rfl

end Sample

end Ddns
