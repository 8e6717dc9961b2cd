import Ddns.Core.SignatureVerify
import Ddns.Library.Base64

/-! What a signature base says about the body, the parameters and the certificate. -/
namespace Ddns

theorem fieldStr_ok {field : List UInt8} {text : Name} (h : fieldStr field = .ok text) :
    Utf8.encode text = field := by
  unfold fieldStr at h
  split at h
  · rename_i found hfound
    cases h
    exact Utf8.encode_of_fromUtf8 hfound
  · cases h

theorem enclosed_eq_some {start text inner : Name} (h : enclosed start text = some inner) :
    text = start ++ (inner ++ [':']) := by
  obtain ⟨rest, hrest, hinner⟩ := Option.bind_eq_some_iff.mp h
  rw [← List.isPrefixOf?_eq_some_iff_append_eq.mp hrest,
    ← List.isSuffixOf?_eq_some_iff_append_eq.mp hinner]

/-- The parameters that are signed are all of the input after its label. -/
theorem parseSignatureInput_eq_some {input : Name} {parsed : ParsedSignatureInput}
    (h : parseSignatureInput input = some parsed) : input = dnsText ++ parsed.signatureParams := by
  unfold parseSignatureInput at h
  split at h
  · cases h
  obtain ⟨params, hparams, h⟩ := Option.bind_eq_some_iff.mp h
  obtain ⟨_, _, h⟩ := Option.bind_eq_some_iff.mp h
  obtain ⟨read, _, h⟩ := Option.bind_eq_some_iff.mp h
  split at h
  · cases h
    exact (List.isPrefixOf?_eq_some_iff_append_eq.mp hparams).symm
  · cases h

theorem signatureBase_ok {digestText inputText base : Name} {parsed : ParsedSignatureInput}
    (hparsed : parseSignatureInput inputText = some parsed)
    (h : signatureBase digestText inputText = .ok base) :
    base = digestLineText ++ (digestText ++ (paramsLineText ++ parsed.signatureParams)) := by
  rw [signatureBase, hparsed] at h
  exact (Except.ok.inj h).symm

theorem hexDigit_inj {m n : ℕ} (hm : m < 16) (hn : n < 16) (h : hexDigit m = hexDigit n) :
    m = n := by
  have hall : ∀ m < 16, ∀ n < 16, hexDigit m = hexDigit n → m = n := by decide
  exact hall m hm n hn h

/-- Hexadecimal digits tell byte strings apart. -/
theorem hex_inj {bytes bytes' : List UInt8}
    (h : bytes.flatMap (fun b => [hexDigit (b.toNat / 16), hexDigit (b.toNat % 16)]) =
      bytes'.flatMap fun b => [hexDigit (b.toNat / 16), hexDigit (b.toNat % 16)]) :
    bytes = bytes' := by
  induction bytes generalizing bytes' with
  | nil =>
    cases bytes' with
    | nil => rfl
    | cons b' bytes' => cases h
  | cons b bytes ih =>
    cases bytes' with
    | nil => cases h
    | cons b' bytes' =>
      have hb := b.toNat_lt
      have hb' := b'.toNat_lt
      obtain ⟨hhigh, h⟩ := List.cons.inj h
      obtain ⟨hlow, h⟩ := List.cons.inj h
      have hhigh := hexDigit_inj (by omega) (by omega) hhigh
      have hlow := hexDigit_inj (by omega) (by omega) hlow
      have hbyte : b = b' := UInt8.toNat_inj.mp (by omega)
      rw [hbyte, ih h]

section Crypto

variable [Crypto]

/-- Decoding succeeds only on digits of base64 and padding. -/
def DecodesBase64Only : Prop :=
  ∀ text bytes, Crypto.base64Decode text = some bytes →
    ∀ c ∈ text, c ∈ Base64.alphabet ∨ c = '='

theorem keyidForCert_inj {cert cert' : List UInt8} (h : keyidForCert cert = keyidForCert cert') :
    Crypto.sha256 cert = Crypto.sha256 cert' :=
  hex_inj (List.append_cancel_left h)

theorem verifyContentDigest_ok {digestText : Name} {dns : List UInt8}
    (h : verifyContentDigest digestText dns = .ok ()) :
    ∃ encoded, digestText = digestPrefixText ++ (encoded ++ [':']) ∧
      Crypto.base64Decode encoded = some (Crypto.sha256 dns) := by
  unfold verifyContentDigest at h
  split at h
  · cases h
  rename_i encoded hencoded
  split at h
  · cases h
  rename_i decoded hdecoded
  split at h
  · cases h
  rename_i hsame
  rw [not_not.mp hsame] at hdecoded
  exact ⟨encoded, enclosed_eq_some hencoded, hdecoded⟩

/-- A digest that was checked has no line break, whatever the parameters have. -/
theorem newline_not_mem_digest (hbase64 : DecodesBase64Only) {digestText : Name}
    {dns : List UInt8} (h : verifyContentDigest digestText dns = .ok ()) : '\n' ∉ digestText := by
  obtain ⟨encoded, rfl, hdecoded⟩ := verifyContentDigest_ok h
  rw [List.mem_append, List.mem_append, List.mem_singleton]
  rintro (hmem | hmem | hmem)
  · exact absurd hmem (by decide)
  · rcases hbase64 encoded _ hdecoded _ hmem with halphabet | hpad
    · exact absurd halphabet (by decide)
    · exact absurd hpad (by decide)
  · exact absurd hmem (by decide)

/-- A digest text is the digest of one body only. -/
theorem digest_of_digestText {digestText : Name} {dns dns' : List UInt8}
    (h : verifyContentDigest digestText dns = .ok ())
    (h' : verifyContentDigest digestText dns' = .ok ()) :
    Crypto.sha256 dns = Crypto.sha256 dns' := by
  obtain ⟨encoded, hencoded, hdecoded⟩ := verifyContentDigest_ok h
  obtain ⟨encoded', hencoded', hdecoded'⟩ := verifyContentDigest_ok h'
  have hsame := hencoded.symm.trans hencoded'
  obtain rfl := List.append_cancel_right (List.append_cancel_left hsame)
  exact Option.some_inj.mp (hdecoded.symm.trans hdecoded')

namespace SignatureFields

/-- One base belongs to one digest text and one input. -/
theorem Reaches.texts_eq (hbase64 : DecodesBase64Only) {fields fields' : SignatureFields}
    {dns dns' cert cert' : List UInt8} {call call' : SiginCall}
    {digestText digestText' inputText inputText' : Name} {parsed parsed' : ParsedSignatureInput}
    (h : fields.Reaches dns cert call digestText inputText parsed)
    (h' : fields'.Reaches dns' cert' call' digestText' inputText' parsed')
    (hbase : call.base = call'.base) : digestText = digestText' ∧ inputText = inputText' := by
  have hwhole : digestLineText ++ (digestText ++ (paramsLineText ++ parsed.signatureParams)) =
      digestLineText ++ (digestText' ++ (paramsLineText ++ parsed'.signatureParams)) := by
    rw [← signatureBase_ok h.parses h.base, ← signatureBase_ok h'.parses h'.base, hbase]
  have hlines := List.append_cancel_left hwhole
  -- the line break of the separator is the first one in the base after the digest
  obtain ⟨hdigest, hrest⟩ := Text.append_cons_inj (newline_not_mem_digest hbase64 h.digest)
    (newline_not_mem_digest hbase64 h'.digest) hlines
  have hparams : parsed.signatureParams = parsed'.signatureParams :=
    List.append_cancel_left hrest
  refine ⟨hdigest, ?_⟩
  rw [parseSignatureInput_eq_some h.parses, parseSignatureInput_eq_some h'.parses, hparams]

end SignatureFields

/-- Two calls with one base are about the same digest and the same parameters, and so about
bodies and certificates with the same digests. -/
theorem signatureBase_binds (hbase64 : DecodesBase64Only) {fields fields' : SignatureFields}
    {dns dns' cert cert' : List UInt8} {call call' : SignatureFields.SiginCall}
    (h : fields.verifyCall dns cert = .ok (some call))
    (h' : fields'.verifyCall dns' cert' = .ok (some call')) (hbase : call.base = call'.base) :
    fields.contentDigest = fields'.contentDigest ∧
      fields.signatureInput = fields'.signatureInput ∧ call.scheme = call'.scheme ∧
      Crypto.sha256 dns = Crypto.sha256 dns' ∧ Crypto.sha256 cert = Crypto.sha256 cert' := by
  obtain ⟨digestText, inputText, parsed, hreach⟩ := SignatureFields.reaches_of_verifyCall h
  obtain ⟨digestText', inputText', parsed', hreach'⟩ := SignatureFields.reaches_of_verifyCall h'
  obtain ⟨rfl, rfl⟩ := hreach.texts_eq hbase64 hreach' hbase
  obtain rfl := Option.some_inj.mp (hreach.parses.symm.trans hreach'.parses)
  refine ⟨?_, ?_, ?_, digest_of_digestText hreach.digest hreach'.digest, ?_⟩
  · exact (fieldStr_ok hreach.contentDigest).symm.trans (fieldStr_ok hreach'.contentDigest)
  · exact (fieldStr_ok hreach.signatureInput).symm.trans (fieldStr_ok hreach'.signatureInput)
  · exact Option.some_inj.mp (hreach.scheme.symm.trans hreach'.scheme)
  · exact keyidForCert_inj (hreach.keyid.symm.trans hreach'.keyid)

end Crypto

section Sample

/-- `dns` -/
def sampleDns : List UInt8 := [100, 110, 115]

/-- A certificate for an Ed25519 key, without extensions. -/
def sampleCert : List UInt8 :=
  [48, 129, 190, 48, 114, 2, 1, 1, 48, 5, 6, 3, 43, 101, 112, 48, 12, 49, 10, 48, 8, 6, 3, 85,
   4, 3, 12, 1, 97, 48, 30, 23, 13, 50, 54, 49, 49, 49, 56, 48, 49, 52, 49, 48, 50, 90, 23,
   13, 51, 54, 49, 49, 49, 53, 48, 49, 52, 49, 48, 50, 90, 48, 12, 49, 10, 48, 8, 6, 3, 85, 4,
   3, 12, 1, 97, 48, 42, 48, 5, 6, 3, 43, 101, 112, 3, 33, 0, 126, 60, 85, 222, 109, 44, 193,
   190, 228, 203, 239, 191, 165, 57, 97, 211, 220, 201, 7, 1, 170, 185, 183, 72, 166, 180, 45,
   150, 111, 50, 219, 174, 48, 5, 6, 3, 43, 101, 112, 3, 65, 0, 246, 129, 2, 102, 194, 203,
   199, 233, 222, 4, 93, 64, 234, 151, 110, 160, 114, 133, 6, 210, 135, 251, 88, 92, 156, 178,
   45, 117, 65, 138, 228, 73, 115, 162, 153, 255, 0, 112, 235, 175, 212, 195, 225, 86, 142,
   240, 118, 161, 225, 73, 211, 17, 207, 17, 23, 71, 66, 170, 168, 254, 118, 82, 203, 10]

/-- The digest of the body. -/
def sampleDigest : List UInt8 :=
  [221, 117, 169, 214, 251, 48, 156, 67, 153, 254, 66, 92, 213, 249, 15, 249, 94, 186, 19, 93,
   105, 36, 251, 145, 118, 110, 229, 211, 114, 107, 22, 138]

/-- The digest of the certificate. -/
def sampleFingerprint : List UInt8 :=
  [206, 167, 94, 148, 160, 141, 217, 83, 38, 242, 138, 137, 12, 127, 45, 33, 83, 22, 93, 216,
   72, 50, 109, 103, 87, 142, 140, 111, 96, 161, 132, 228]

/-- Base64, and what the other libraries make of the body and the certificate. -/
@[reducible] def sampleCrypto : Crypto where
  sha256 bytes :=
    if bytes = sampleDns then sampleDigest
    else if bytes = sampleCert then sampleFingerprint
    else []
  base64Encode := Base64.encode
  base64Decode := Base64.decode
  base64Decode_encode := Base64.decode_encode
  parseSpki _ := none
  certificateSpki bytes := if bytes = sampleCert then some ((sampleCert.drop 75).take 44) else none
  ringVerify _ _ _ _ := false

attribute [local instance] sampleCrypto

/-- Two signatures for the same body reach the call with the same base. -/
theorem sampleFields_bind :
    ∃ call call',
      (SignatureFields.written 1 sampleDns sampleCert ed25519Name [1]).verifyCall sampleDns
        sampleCert = .ok (some call) ∧
      (SignatureFields.written 1 sampleDns sampleCert ed25519Name [2]).verifyCall sampleDns
        sampleCert = .ok (some call') ∧
      call.signature ≠ call'.signature ∧ call.base = call'.base ∧ call.scheme = call'.scheme := by
  obtain ⟨params, hparsed⟩ := parseSignatureInput_value (by decide : 1 < 2 ^ 64)
    (semicolon_not_mem_keyid sampleCert) (by decide : ';' ∉ ed25519Name)
  have hbase : signatureBase (contentDigestValue sampleDns)
      (signatureInputValue 1 (keyidForCert sampleCert) ed25519Name) = .ok (digestLineText ++
        (contentDigestValue sampleDns ++ (paramsLineText ++ params))) := by
    rw [signatureBase, hparsed]
  have hspki : Crypto.certificateSpki sampleCert = some ((sampleCert.drop 75).take 44) :=
    if_pos rfl
  have halg : algNameForScheme .ed25519 = some ed25519Name := rfl
  have hcall := SignatureFields.verifyCall_written [1] (by decide) halg hbase hspki
  have hcall' := SignatureFields.verifyCall_written [2] (by decide) halg hbase hspki
  have hbinds := signatureBase_binds (fun _ _ => Base64.mem_of_decode) hcall hcall' rfl
  have hother : ([1] : List UInt8) ≠ [2] := by decide
  exact ⟨_, _, hcall, hcall', hother, rfl, hbinds.2.2.1⟩

end Sample

end Ddns
