import Ddns.Core.SignatureBase

/-! A signature verifies, and only for the body and the certificate it was made for. -/
namespace Ddns

section Crypto

variable [Crypto]

theorem verifyContentDigest_other {dns dns' : List UInt8}
    (h : Crypto.sha256 dns' ≠ Crypto.sha256 dns) :
    verifyContentDigest (contentDigestValue dns) dns' = .error .digestMismatch := by
  rw [verifyContentDigest, contentDigestValue, enclosed_append]
  dsimp only
  rw [Crypto.base64Decode_encode]
  exact if_pos (Ne.symm h)

namespace SignatureFields

theorem sign_eq {created : UInt64} {dns cert : List UInt8} {authority : LocalAuthority}
    {scheme : SignatureScheme} {alg base : Name} {signature : List UInt8}
    (hcert : authority.certificates.head? = some cert)
    (hscheme : canonicalSchemeForSpki authority.publicKey = some scheme)
    (halg : algNameForScheme scheme = some alg)
    (hbase : signatureBase (contentDigestValue dns)
      (signatureInputValue created.toNat (keyidForCert cert) alg) = .ok base)
    (hsignature : authority.sign scheme (Utf8.encode base) = some signature) :
    sign created dns authority = .ok (written created.toNat dns cert alg signature) := by
  rw [sign, hcert]
  dsimp only
  rw [hscheme]
  dsimp only
  rw [halg]
  dsimp only
  rw [hbase, Except.bind, hsignature]
  rfl

/-- The digest is looked at before anything else. -/
theorem verify_written_other_body (created : ℕ) {dns dns' : List UInt8} (cert cert' : List UInt8)
    (alg : Name) (signature : List UInt8) (h : Crypto.sha256 dns' ≠ Crypto.sha256 dns) :
    (written created dns cert alg signature).verify dns' cert' = .error .digestMismatch := by
  rw [verify, isEmpty_written, if_neg Bool.false_ne_true, written]
  dsimp only
  rw [fieldStr_encode, Except.bind, verifyContentDigest_other h]
  rfl

/-- A certificate with another fingerprint is refused before its key is looked at. -/
theorem verify_written_other_cert {created : ℕ} (dns : List UInt8) {cert cert' : List UInt8}
    {scheme : SignatureScheme} {alg : Name} (signature : List UInt8) (hcreated : created < 2 ^ 64)
    (halg : algNameForScheme scheme = some alg)
    (h : Crypto.sha256 cert' ≠ Crypto.sha256 cert) :
    (written created dns cert alg signature).verify dns cert' = .ok false := by
  obtain ⟨params, hparsed⟩ := parseSignatureInput_value hcreated
    (semicolon_not_mem_keyid cert) (semicolon_not_mem_algName halg)
  have hkeyid : keyidForCert cert ≠ keyidForCert cert' := fun heq => h (keyidForCert_inj heq).symm
  rw [verify, isEmpty_written, if_neg Bool.false_ne_true, written]
  dsimp only
  rw [fieldStr_encode, Except.bind, verifyContentDigest_value, Except.bind, fieldStr_encode,
    Except.bind, hparsed]
  exact if_pos hkeyid

/-- What an authority has signed verifies with its leaf certificate; it does not for a body or with
a certificate of another digest. -/
theorem sign_verifies_exactly {created : UInt64} {dns : List UInt8} {authority : LocalAuthority}
    {fields : SignatureFields} (h : sign created dns authority = .ok fields) :
    ∃ leaf, authority.certificates.head? = some leaf ∧ fields.verify dns leaf = .ok true ∧
      (∀ dns', Crypto.sha256 dns' ≠ Crypto.sha256 dns →
        fields.verify dns' leaf = .error .digestMismatch) ∧
      ∀ cert, Crypto.sha256 cert ≠ Crypto.sha256 leaf → fields.verify dns cert = .ok false := by
  obtain ⟨leaf, scheme, alg, base, signature, hleaf, _, halg, _, _, rfl⟩ := sign_ok h
  refine ⟨leaf, hleaf, verify_of_sign h hleaf, ?_, ?_⟩
  · intro dns' hother
    exact verify_written_other_body _ _ _ _ _ hother
  · intro cert hother
    exact verify_written_other_cert _ _ created.toNat_lt halg hother

end SignatureFields

end Crypto

section Sample

/-- `dnt` -/
def otherDns : List UInt8 := [100, 110, 116]

/-- The digest of the other body. -/
def otherDigest : List UInt8 :=
  [186, 240, 228, 192, 148, 73, 254, 139, 62, 116, 211, 235, 241, 177, 109, 29, 246, 15, 67,
   122, 121, 195, 85, 21, 60, 82, 44, 39, 91, 47, 23, 114]

/-- A certificate that the signer has made for itself. -/
def signerCert : List UInt8 :=
  [48, 129, 190, 48, 114, 2, 1, 1, 48, 5, 6, 3, 43, 101, 112, 48, 12, 49, 10, 48, 8, 6, 3, 85,
   4, 3, 12, 1, 97, 48, 30, 23, 13, 50, 54, 49, 49, 49, 56, 48, 52, 52, 52, 48, 54, 90, 23, 13,
   51, 54, 49, 49, 49, 53, 48, 52, 52, 52, 48, 54, 90, 48, 12, 49, 10, 48, 8, 6, 3, 85, 4, 3,
   12, 1, 97, 48, 42, 48, 5, 6, 3, 43, 101, 112, 3, 33, 0, 6, 194, 224, 194, 49, 169, 186, 220,
   129, 221, 22, 174, 53, 117, 107, 116, 134, 225, 159, 4, 185, 219, 200, 146, 179, 13, 25, 219,
   124, 182, 131, 123, 48, 5, 6, 3, 43, 101, 112, 3, 65, 0, 79, 109, 38, 209, 32, 234, 133, 183,
   17, 242, 6, 3, 96, 95, 127, 108, 210, 156, 134, 76, 29, 175, 93, 190, 215, 140, 11, 116, 114,
   42, 174, 21, 216, 161, 185, 138, 67, 198, 51, 193, 209, 201, 171, 1, 97, 144, 166, 128, 73,
   79, 93, 48, 99, 113, 202, 127, 41, 34, 183, 168, 203, 234, 241, 5]

def signerFingerprint : List UInt8 :=
  [234, 102, 19, 25, 60, 103, 201, 133, 158, 113, 161, 240, 57, 165, 169, 6, 246, 47, 15, 94,
   135, 12, 192, 234, 100, 128, 122, 116, 203, 108, 213, 171]

/-- The public key within the certificate. -/
def signerSpki : List UInt8 := (signerCert.drop 75).take 44

/-- What is signed for the body at the time 1. -/
def signerBase : Name :=
  digestLineText ++ ((digestPrefixText ++ (Base64.encode sampleDigest ++ [':'])) ++
    (paramsLineText ++ (signatureInputValue 1 (sha256Text ++ signerFingerprint.flatMap fun b =>
      [hexDigit (b.toNat / 16), hexDigit (b.toNat % 16)]) ed25519Name).drop dnsText.length))

def signerSignature : List UInt8 :=
  [179, 39, 29, 141, 122, 76, 25, 43, 51, 225, 48, 158, 209, 49, 147, 49, 103, 236, 210, 135,
   86, 138, 30, 109, 230, 166, 227, 79, 23, 78, 62, 186, 36, 57, 146, 196, 119, 204, 86, 31,
   205, 22, 191, 154, 119, 192, 214, 200, 1, 43, 163, 132, 97, 201, 153, 213, 225, 5, 172, 206,
   23, 106, 233, 7]

/-- Base64, and what the other libraries make of the bodies, the certificates and the signature. -/
@[reducible] def signerCrypto : Crypto where
  sha256 bytes :=
    if bytes = sampleDns then sampleDigest
    else if bytes = otherDns then otherDigest
    else if bytes = signerCert then signerFingerprint
    else if bytes = sampleCert then sampleFingerprint
    else []
  base64Encode := Base64.encode
  base64Decode := Base64.decode
  base64Decode_encode := Base64.decode_encode
  parseSpki bytes :=
    if bytes = signerSpki then some ⟨.sigEd25519, none, signerSpki.drop 12⟩ else none
  certificateSpki bytes := if bytes = signerCert then some signerSpki else none
  ringVerify scheme key data signature :=
    scheme = .ed25519 ∧ key = signerSpki.drop 12 ∧ data = Utf8.encode signerBase ∧
      signature = signerSignature

attribute [local instance] signerCrypto

def signer : LocalAuthority where
  name := ['a']
  certificates := [signerCert]
  publicKey := signerSpki
  sign scheme data :=
    if scheme = .ed25519 ∧ data = Utf8.encode signerBase then some signerSignature else none
  leaf_spki cert hcert := by
    obtain rfl := Option.some_inj.mp hcert
    exact if_pos rfl
  sign_verifies scheme data signature _ hsign := by
    obtain ⟨⟨rfl, rfl⟩, hsignature⟩ := Option.ite_none_right_eq_some.mp hsign
    obtain rfl := Option.some_inj.mp hsignature
    have hspki : Crypto.parseSpki signerSpki = some ⟨.sigEd25519, none, signerSpki.drop 12⟩ :=
      if_pos rfl
    rw [siginVerify, hspki]
    · exact congrArg some (decide_eq_true ⟨rfl, rfl, rfl, rfl⟩)
    · intro code hcode
      cases hcode

theorem signer_digests :
    Crypto.sha256 sampleDns = sampleDigest ∧ Crypto.sha256 otherDns = otherDigest ∧
      Crypto.sha256 signerCert = signerFingerprint ∧
      Crypto.sha256 sampleCert = sampleFingerprint := by
  have hshort : ∀ cert : List UInt8, cert.head? = some 48 → cert ≠ sampleDns ∧ cert ≠ otherDns := by
    intro cert hhead
    constructor <;> rintro rfl <;> cases hhead
  have hsigner := hshort signerCert rfl
  have hsample := hshort sampleCert rfl
  have hcerts : sampleCert ≠ signerCert := by
    intro heq
    have hyear := congrArg (fun cert => cert.getD 40 0) heq
    exact absurd hyear (by decide)
  refine ⟨if_pos rfl, ?_, ?_, ?_⟩
  · exact (if_neg (by decide)).trans (if_pos rfl)
  · exact (if_neg hsigner.1).trans ((if_neg hsigner.2).trans (if_pos rfl))
  · exact (if_neg hsample.1).trans ((if_neg hsample.2).trans ((if_neg hcerts).trans (if_pos rfl)))

/-- The signer's fields for the body verify; they do not for another body, or with another
certificate. -/
theorem sign_verifies_exactly_signer :
    ∃ fields, SignatureFields.sign 1 sampleDns signer = .ok fields ∧
      fields.verify sampleDns signerCert = .ok true ∧
      fields.verify otherDns signerCert = .error .digestMismatch ∧
      fields.verify sampleDns sampleCert = .ok false := by
  obtain ⟨hdns, hother, hcert, hcert'⟩ := signer_digests
  obtain ⟨params, hparsed⟩ := parseSignatureInput_value (by decide : 1 < 2 ^ 64)
    (semicolon_not_mem_keyid signerCert) (by decide : ';' ∉ ed25519Name)
  have hinput := parseSignatureInput_eq_some hparsed
  have hbase : signatureBase (contentDigestValue sampleDns)
      (signatureInputValue 1 (keyidForCert signerCert) ed25519Name) = .ok signerBase := by
    have hparams : params = (signatureInputValue 1 (keyidForCert signerCert) ed25519Name).drop
        dnsText.length := by
      rw [hinput, List.drop_left]
    rw [signatureBase, hparsed]
    dsimp only
    rw [hparams, keyidForCert, certFingerprintHex, hcert, contentDigestValue, hdns]
    rfl
  have hsign : SignatureFields.sign 1 sampleDns signer = .ok (SignatureFields.written 1 sampleDns
      signerCert ed25519Name signerSignature) := by
    have hscheme : canonicalSchemeForSpki signer.publicKey = some .ed25519 := by
      have hspki : Crypto.parseSpki signerSpki = some ⟨.sigEd25519, none, signerSpki.drop 12⟩ :=
        if_pos rfl
      change canonicalSchemeForSpki signerSpki = _
      rw [canonicalSchemeForSpki, hspki]
      rfl
    have hsigned : signer.sign .ed25519 (Utf8.encode signerBase) = some signerSignature := by
      simp only [signer, and_self, if_true]
    exact @SignatureFields.sign_eq _ 1 _ _ _ _ _ _ _ rfl hscheme rfl hbase hsigned
  obtain ⟨leaf, hleaf, hverify, hbody, hcertificate⟩ := SignatureFields.sign_verifies_exactly hsign
  obtain rfl := Option.some_inj.mp hleaf
  refine ⟨_, hsign, hverify, hbody otherDns ?_, hcertificate sampleCert ?_⟩
  · rw [hdns, hother]
    decide
  · rw [hcert, hcert']
    decide

end Sample

end Ddns
