import Mathlib.Data.List.Basic
import Ddns.Core.Certificate
import Ddns.Library.Text

/-! Publisher signatures over DNS bodies. -/
namespace Ddns

section Except

variable {ε α β γ : Type}

/-- A chain of fallible steps that succeeds has succeeded in its first step. -/
theorem except_bind_ok {x : Except ε α} {f : α → Except ε β} {b : β} (h : x.bind f = .ok b) :
    ∃ a, x = .ok a ∧ f a = .ok b := by
  cases x with
  | error e => cases h
  | ok a => exact ⟨a, rfl, h⟩

theorem except_map_ok {x : Except ε α} {f : α → β} {b : β} (h : x.map f = .ok b) :
    ∃ a, x = .ok a ∧ f a = b := by
  cases x with
  | error e => cases h
  | ok a => exact ⟨a, rfl, Except.ok.inj h⟩

theorem except_bind_assoc (x : Except ε α) (f : α → Except ε β) (g : β → Except ε γ) :
    (x.bind f).bind g = x.bind fun a => (f a).bind g := by
  cases x <;> rfl

/-- A chain that fails has failed in its first step or in the rest. -/
theorem except_bind_error {x : Except ε α} {f : α → Except ε β} {e : ε} (h : x.bind f = .error e) :
    x = .error e ∨ ∃ a, x = .ok a ∧ f a = .error e := by
  cases x with
  | error e' =>
    cases h
    exact Or.inl rfl
  | ok a => exact Or.inr ⟨a, rfl, h⟩

theorem except_map_error {x : Except ε α} {f : α → β} {e : ε} (h : x.map f = .error e) :
    x = .error e := by
  cases x with
  | error e' =>
    cases h
    rfl
  | ok a => cases h

end Except

/-- The schemes that are told apart; `unknown` stands for every other code. -/
inductive SignatureScheme where
  | ed25519
  | ecdsaNistp256Sha256
  | ecdsaNistp384Sha384
  | rsaPssSha256
  | rsaPssSha384
  | rsaPssSha512
  | rsaPkcs1Sha256
  | rsaPkcs1Sha384
  | rsaPkcs1Sha512
  | unknown (code : UInt16)
  deriving DecidableEq

/-- The object identifiers that are told apart. -/
inductive Oid where
  | sigEd25519
  | pkcs1RsaEncryption
  | keyTypeEcPublicKey
  | ecP256
  | nistEcP384
  | other (arcs : List ℕ)
  deriving DecidableEq

/-- A parsed public key: its algorithm, the parameter of it that is an object identifier, and
the key itself. -/
structure SubjectPublicKeyInfo where
  algorithm : Oid
  parameters : Option Oid
  subjectPublicKey : List UInt8

/-- What is used of the libraries for hashing, base64, certificates and signatures. -/
class Crypto where
  sha256 : List UInt8 → List UInt8
  base64Encode : List UInt8 → Name
  base64Decode : Name → Option (List UInt8)
  /-- Decoding inverts encoding. -/
  base64Decode_encode : ∀ bytes, base64Decode (base64Encode bytes) = some bytes
  /-- `SubjectPublicKeyInfo::from_der` -/
  parseSpki : List UInt8 → Option SubjectPublicKeyInfo
  /-- The encoded public key of a certificate, if the certificate parses. -/
  certificateSpki : List UInt8 → Option (List UInt8)
  /-- `UnparsedPublicKey::verify` for the algorithm of a scheme -/
  ringVerify : SignatureScheme → List UInt8 → List UInt8 → List UInt8 → Bool

/-- `ed25519` -/
def ed25519Name : Name := ['e', 'd', '2', '5', '5', '1', '9']

/-- `ecdsa-p256-sha256` -/
def ecdsaP256Name : Name :=
  ['e', 'c', 'd', 's', 'a', '-', 'p', '2', '5', '6', '-', 's', 'h', 'a', '2', '5', '6']

/-- `ecdsa-p384-sha384` -/
def ecdsaP384Name : Name :=
  ['e', 'c', 'd', 's', 'a', '-', 'p', '3', '8', '4', '-', 's', 'h', 'a', '3', '8', '4']

/-- `rsa-pss-sha256` -/
def rsaPss256Name : Name := ['r', 's', 'a', '-', 'p', 's', 's', '-', 's', 'h', 'a', '2', '5', '6']

/-- `rsa-pss-sha384` -/
def rsaPss384Name : Name := ['r', 's', 'a', '-', 'p', 's', 's', '-', 's', 'h', 'a', '3', '8', '4']

/-- `rsa-pss-sha512` -/
def rsaPss512Name : Name := ['r', 's', 'a', '-', 'p', 's', 's', '-', 's', 'h', 'a', '5', '1', '2']

/-- `rsa-v1_5-sha256` -/
def rsaPkcs256Name : Name :=
  ['r', 's', 'a', '-', 'v', '1', '_', '5', '-', 's', 'h', 'a', '2', '5', '6']

/-- `rsa-v1_5-sha384` -/
def rsaPkcs384Name : Name :=
  ['r', 's', 'a', '-', 'v', '1', '_', '5', '-', 's', 'h', 'a', '3', '8', '4']

/-- `rsa-v1_5-sha512` -/
def rsaPkcs512Name : Name :=
  ['r', 's', 'a', '-', 'v', '1', '_', '5', '-', 's', 'h', 'a', '5', '1', '2']

def algNameForScheme : SignatureScheme → Option Name
  | .ed25519 => some ed25519Name
  | .ecdsaNistp256Sha256 => some ecdsaP256Name
  | .ecdsaNistp384Sha384 => some ecdsaP384Name
  | .rsaPssSha256 => some rsaPss256Name
  | .rsaPssSha384 => some rsaPss384Name
  | .rsaPssSha512 => some rsaPss512Name
  | .rsaPkcs1Sha256 => some rsaPkcs256Name
  | .rsaPkcs1Sha384 => some rsaPkcs384Name
  | .rsaPkcs1Sha512 => some rsaPkcs512Name
  | .unknown _ => none

def schemeForAlgName (alg : Name) : Option SignatureScheme :=
  if alg = ed25519Name then some .ed25519
  else if alg = ecdsaP256Name then some .ecdsaNistp256Sha256
  else if alg = ecdsaP384Name then some .ecdsaNistp384Sha384
  else if alg = rsaPss256Name then some .rsaPssSha256
  else if alg = rsaPss384Name then some .rsaPssSha384
  else if alg = rsaPss512Name then some .rsaPssSha512
  else if alg = rsaPkcs256Name then some .rsaPkcs1Sha256
  else if alg = rsaPkcs384Name then some .rsaPkcs1Sha384
  else if alg = rsaPkcs512Name then some .rsaPkcs1Sha512
  else none

inductive SignatureFieldsError where
  | missingCertificate
  | unsupportedScheme (scheme : SignatureScheme)
  | unsupportedAlgorithm (alg : Name)
  | invalidField (field : Name)
  | invalidUtf8
  | invalidBase64
  | digestMismatch
  | sign
  | invalidCertificate
  | verify
  deriving DecidableEq

structure SignatureFields where
  contentDigest : List UInt8
  signatureInput : List UInt8
  signature : List UInt8
  deriving DecidableEq

/-- `content-digest` -/
def contentDigestHeader : Name :=
  ['c', 'o', 'n', 't', 'e', 'n', 't', '-', 'd', 'i', 'g', 'e', 's', 't']

/-- `signature-input` -/
def signatureInputHeader : Name :=
  ['s', 'i', 'g', 'n', 'a', 't', 'u', 'r', 'e', '-', 'i', 'n', 'p', 'u', 't']

/-- `signature` -/
def signatureHeader : Name := ['s', 'i', 'g', 'n', 'a', 't', 'u', 'r', 'e']

/-- `sha-256=:` -/
def digestPrefixText : Name := ['s', 'h', 'a', '-', '2', '5', '6', '=', ':']

/-- `dns=:` -/
def signaturePrefixText : Name := ['d', 'n', 's', '=', ':']

/-- `dns=` -/
def dnsText : Name := ['d', 'n', 's', '=']

/-- `("content-digest")` -/
def digestListText : Name :=
  ['(', '"', 'c', 'o', 'n', 't', 'e', 'n', 't', '-', 'd', 'i', 'g', 'e', 's', 't', '"', ')']

/-- `dns=("content-digest")` -/
def signatureInputPrefixText : Name := dnsText ++ digestListText

/-- `created=` -/
def createdText : Name := ['c', 'r', 'e', 'a', 't', 'e', 'd', '=']

/-- `keyid=` -/
def keyidText : Name := ['k', 'e', 'y', 'i', 'd', '=']

/-- `alg=` -/
def algText : Name := ['a', 'l', 'g', '=']

/-- `sha256:` -/
def sha256Text : Name := ['s', 'h', 'a', '2', '5', '6', ':']

section Crypto

variable [Crypto]

def canonicalSchemeForSpki (spki : List UInt8) : Option SignatureScheme :=
  match Crypto.parseSpki spki with
  | none => none
  | some info =>
    if info.algorithm = .sigEd25519 then some .ed25519
    else if info.algorithm = .pkcs1RsaEncryption then some .rsaPssSha512
    else if info.algorithm ≠ .keyTypeEcPublicKey then none
    else
      match info.parameters with
      | none => none
      | some curve =>
        if curve = .ecP256 then some .ecdsaNistp256Sha256
        else if curve = .nistEcP384 then some .ecdsaNistp384Sha384
        else none

/-- `sigin::verify`: `none` for a scheme without an algorithm. -/
def siginVerify (spki : List UInt8) (scheme : SignatureScheme) (data signature : List UInt8) :
    Option Bool :=
  match scheme with
  | .unknown _ => none
  | scheme =>
    match Crypto.parseSpki spki with
    | none => some false
    | some info => some (Crypto.ringVerify scheme info.subjectPublicKey data signature)

/-- The signing side of an identity. The leaf certificate carries its public key, and what it
signs with the canonical scheme of that key verifies. -/
structure LocalAuthority where
  name : Name
  certificates : List (List UInt8)
  publicKey : List UInt8
  sign : SignatureScheme → List UInt8 → Option (List UInt8)
  leaf_spki : ∀ cert ∈ certificates.head?, Crypto.certificateSpki cert = some publicKey
  sign_verifies : ∀ scheme data signature, canonicalSchemeForSpki publicKey = some scheme →
    sign scheme data = some signature → siginVerify publicKey scheme data signature = some true

def hexDigit (n : ℕ) : Char := Nat.digitChar n

/-- Two lower-case hexadecimal digits for each byte of the digest. -/
def certFingerprintHex (certDer : List UInt8) : Name :=
  (Crypto.sha256 certDer).flatMap fun b => [hexDigit (b.toNat / 16), hexDigit (b.toNat % 16)]

def keyidForCert (certDer : List UInt8) : Name := sha256Text ++ certFingerprintHex certDer

def contentDigestValue (dnsBytes : List UInt8) : Name :=
  digestPrefixText ++ (Crypto.base64Encode (Crypto.sha256 dnsBytes) ++ [':'])

def signatureValue (signature : List UInt8) : Name :=
  signaturePrefixText ++ (Crypto.base64Encode signature ++ [':'])

end Crypto

def signatureInputValue (created : ℕ) (keyid alg : Name) : Name :=
  signatureInputPrefixText ++ (';' :: (createdText ++ (Text.decimal created ++
    (';' :: (keyidText ++ ('"' :: (keyid ++ ('"' :: ';' :: (algText ++
      ('"' :: (alg ++ ['"'])))))))))))

structure ParsedSignatureInput where
  signatureParams : Name
  alg : Name
  keyid : Name
  deriving DecidableEq

def unquote (value : Name) : Option Name :=
  (['"'].isPrefixOf? value).bind (['"'].isSuffixOf? ·)

/-- The parameters seen so far; a later one replaces an earlier one. -/
structure SignatureParams where
  created : Option ℕ
  keyid : Option Name
  alg : Option Name
  deriving DecidableEq

/-- One parameter; `none` for one that is not known. -/
def readParam (params : SignatureParams) (param : Name) : Option SignatureParams :=
  match createdText.isPrefixOf? param with
  | some value => some { params with created := Text.parseU64 value }
  | none =>
    match keyidText.isPrefixOf? param with
    | some value => some { params with keyid := unquote value }
    | none =>
      match algText.isPrefixOf? param with
      | some value => some { params with alg := unquote value }
      | none => none

/-- An error is always about the `signature-input` field. -/
def parseSignatureInput (input : Name) : Option ParsedSignatureInput :=
  if ¬ signatureInputPrefixText.isPrefixOf input then none
  else
    (dnsText.isPrefixOf? input).bind fun signatureParams =>
      (digestListText.isPrefixOf? signatureParams).bind fun params =>
        (((params.splitOn ';').filter (· ≠ [])).foldlM readParam ⟨none, none, none⟩).bind fun read =>
          match read.created, read.keyid, read.alg with
          | some _, some keyid, some alg => some ⟨signatureParams, alg, keyid⟩
          | _, _, _ => none

/-- `"content-digest": ` -/
def digestLineText : Name :=
  ['"', 'c', 'o', 'n', 't', 'e', 'n', 't', '-', 'd', 'i', 'g', 'e', 's', 't', '"', ':', ' ']

/-- The line break and `"@signature-params": ` -/
def paramsLineText : Name :=
  ['\n', '"', '@', 's', 'i', 'g', 'n', 'a', 't', 'u', 'r', 'e', '-', 'p', 'a', 'r', 'a', 'm', 's',
   '"', ':', ' ']

def signatureBase (contentDigest signatureInput : Name) : Except SignatureFieldsError Name :=
  match parseSignatureInput signatureInput with
  | none => .error (.invalidField signatureInputHeader)
  | some parsed =>
    .ok (digestLineText ++ (contentDigest ++ (paramsLineText ++ parsed.signatureParams)))

def fieldStr (field : List UInt8) : Except SignatureFieldsError Name :=
  match Utf8.fromUtf8 field with
  | some text => .ok text
  | none => .error .invalidUtf8

/-- The text between a start and a final colon. -/
def enclosed (start text : Name) : Option Name :=
  (start.isPrefixOf? text).bind ([':'].isSuffixOf? ·)

section Crypto

variable [Crypto]

def verifyContentDigest (contentDigest : Name) (dnsBytes : List UInt8) :
    Except SignatureFieldsError Unit :=
  match enclosed digestPrefixText contentDigest with
  | none => .error (.invalidField contentDigestHeader)
  | some encoded =>
    match Crypto.base64Decode encoded with
    | none => .error .invalidBase64
    | some decoded =>
      if decoded ≠ Crypto.sha256 dnsBytes then .error .digestMismatch else .ok ()

def parseSignature (input : Name) : Except SignatureFieldsError (List UInt8) :=
  match enclosed signaturePrefixText input with
  | none => .error (.invalidField signatureHeader)
  | some encoded =>
    match Crypto.base64Decode encoded with
    | none => .error .invalidBase64
    | some decoded => .ok decoded

namespace SignatureFields

def empty : SignatureFields := ⟨[], [], []⟩

omit [Crypto] in
def isEmpty (fields : SignatureFields) : Bool :=
  fields.contentDigest = [] ∧ fields.signatureInput = [] ∧ fields.signature = []

/-- `created` is the clock in seconds, a `u64`. -/
def sign (created : UInt64) (dnsBytes : List UInt8) (authority : LocalAuthority) :
    Except SignatureFieldsError SignatureFields :=
  match authority.certificates.head? with
  | none => .error .missingCertificate
  | some cert =>
    let keyid := keyidForCert cert
    let contentDigest := contentDigestValue dnsBytes
    match canonicalSchemeForSpki authority.publicKey with
    | none => .error (.unsupportedScheme (.unknown 0))
    | some scheme =>
      match algNameForScheme scheme with
      | none => .error (.unsupportedScheme scheme)
      | some alg =>
        let signatureInput := signatureInputValue created.toNat keyid alg
        (signatureBase contentDigest signatureInput).bind fun base =>
          match authority.sign scheme (Utf8.encode base) with
          | none => .error .sign
          | some signature =>
            .ok ⟨Utf8.encode contentDigest, Utf8.encode signatureInput,
              Utf8.encode (signatureValue signature)⟩

def verify (fields : SignatureFields) (dnsBytes certDer : List UInt8) :
    Except SignatureFieldsError Bool :=
  if fields.isEmpty then .ok false
  else
    (fieldStr fields.contentDigest).bind fun contentDigest =>
    (verifyContentDigest contentDigest dnsBytes).bind fun _ =>
    (fieldStr fields.signatureInput).bind fun signatureInput =>
      match parseSignatureInput signatureInput with
      | none => .error (.invalidField signatureInputHeader)
      | some parsed =>
        if parsed.keyid ≠ keyidForCert certDer then .ok false
        else
          match schemeForAlgName parsed.alg with
          | none => .error (.unsupportedAlgorithm parsed.alg)
          | some scheme =>
            (fieldStr fields.signature).bind fun text =>
            (parseSignature text).bind fun signature =>
            (signatureBase contentDigest signatureInput).bind fun base =>
              match Crypto.certificateSpki certDer with
              | none => .error .invalidCertificate
              | some spki =>
                match siginVerify spki scheme (Utf8.encode base) signature with
                | none => .error .verify
                | some verified => .ok verified

end SignatureFields

end Crypto

section Plain

/-- Libraries that are good enough where nothing is signed. -/
@[reducible] def plainCrypto : Crypto where
  sha256 bytes := bytes.take 32
  base64Encode bytes := bytes.map fun b => Char.ofNat b.toNat
  base64Decode text := some (text.map fun c => UInt8.ofNat c.toNat)
  base64Decode_encode bytes := by
    have hchar : ∀ n < 256, (Char.ofNat n).toNat = n := by decide +kernel
    have hbyte : ∀ b : UInt8, UInt8.ofNat (Char.ofNat b.toNat).toNat = b := by
      intro b
      rw [hchar b.toNat b.toNat_lt, UInt8.ofNat_toNat]
    simp [Function.comp_def, hbyte]
  parseSpki _ := none
  certificateSpki _ := some []
  ringVerify _ _ _ _ := false

attribute [local instance] plainCrypto

/-- An identity with a certificate that cannot sign. -/
def plainAuthority (name : Name) : LocalAuthority where
  name := name
  certificates := [[1]]
  publicKey := []
  sign _ _ := none
  leaf_spki _ _ := rfl
  sign_verifies _ _ _ _ h := by cases h

end Plain

end Ddns
