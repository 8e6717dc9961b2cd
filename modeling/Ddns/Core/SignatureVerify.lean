import Ddns.Core.Signature

/-! What an authority signs, its own certificate verifies. -/
namespace Ddns

theorem enclosed_append (start text : Name) : enclosed start (start ++ (text ++ [':'])) = some text := by
  have hstart : start.isPrefixOf? (start ++ (text ++ [':'])) = some (text ++ [':']) :=
    List.isPrefixOf?_eq_some_iff_append_eq.mpr rfl
  have hstop : [':'].isSuffixOf? (text ++ [':']) = some text :=
    List.isSuffixOf?_eq_some_iff_append_eq.mpr rfl
  rw [enclosed, hstart, Option.bind_some, hstop]

theorem unquote_quoted (text : Name) : unquote ('"' :: (text ++ ['"'])) = some text := by
  have hstart : ['"'].isPrefixOf? ('"' :: (text ++ ['"'])) = some (text ++ ['"']) :=
    List.isPrefixOf?_eq_some_iff_append_eq.mpr rfl
  have hstop : ['"'].isSuffixOf? (text ++ ['"']) = some text :=
    List.isSuffixOf?_eq_some_iff_append_eq.mpr rfl
  rw [unquote, hstart, Option.bind_some, hstop]

theorem readParam_created (params : SignatureParams) (value : Name) :
    readParam params (createdText ++ value) =
      some { params with created := Text.parseU64 value } := by
  have h : createdText.isPrefixOf? (createdText ++ value) = some value :=
    List.isPrefixOf?_eq_some_iff_append_eq.mpr rfl
  rw [readParam, h]

theorem readParam_keyid (params : SignatureParams) (value : Name) :
    readParam params (keyidText ++ value) = some { params with keyid := unquote value } := by
  have hc : createdText.isPrefixOf? (keyidText ++ value) = none := rfl
  have h : keyidText.isPrefixOf? (keyidText ++ value) = some value :=
    List.isPrefixOf?_eq_some_iff_append_eq.mpr rfl
  rw [readParam, hc, h]

theorem readParam_alg (params : SignatureParams) (value : Name) :
    readParam params (algText ++ value) = some { params with alg := unquote value } := by
  have hc : createdText.isPrefixOf? (algText ++ value) = none := rfl
  have hk : keyidText.isPrefixOf? (algText ++ value) = none := rfl
  have h : algText.isPrefixOf? (algText ++ value) = some value :=
    List.isPrefixOf?_eq_some_iff_append_eq.mpr rfl
  rw [readParam, hc, hk, h]

/-- The parameters that are written, one after the other. -/
def writtenParams (created : ℕ) (keyid alg : Name) : List Name :=
  [createdText ++ Text.decimal created,
    keyidText ++ ('"' :: (keyid ++ ['"'])), algText ++ ('"' :: (alg ++ ['"']))]

theorem semicolon_not_mem_decimal (n : ℕ) : ';' ∉ Text.decimal n := by
  intro h
  exact absurd (Text.isDigit_of_mem_decimal h) (by decide)

/-- The written input is taken apart into its parameters again. -/
theorem parseSignatureInput_value {created : ℕ} {keyid alg : Name} (hc : created < 2 ^ 64)
    (hk : ';' ∉ keyid) (ha : ';' ∉ alg) :
    ∃ params, parseSignatureInput (signatureInputValue created keyid alg) =
      some ⟨params, alg, keyid⟩ := by
  have hsplit : ([';'].intercalate ([] :: writtenParams created keyid alg)).splitOn ';' =
      [] :: writtenParams created keyid alg := by
    apply List.splitOn_intercalate _ _ (by simp)
    intro l hl
    simp only [writtenParams, List.mem_cons, List.not_mem_nil, or_false] at hl
    rcases hl with rfl | rfl | rfl | rfl
    · exact List.not_mem_nil
    · rw [List.mem_append]
      exact not_or.mpr ⟨by decide, semicolon_not_mem_decimal created⟩
    · simp only [List.mem_append, List.mem_cons, List.not_mem_nil, or_false, not_or]
      exact ⟨by decide, by decide, hk, by decide⟩
    · simp only [List.mem_append, List.mem_cons, List.not_mem_nil, or_false, not_or]
      exact ⟨by decide, by decide, ha, by decide⟩
  have htext : signatureInputValue created keyid alg = dnsText ++ (digestListText ++
      [';'].intercalate ([] :: writtenParams created keyid alg)) := by
    simp [signatureInputValue, signatureInputPrefixText, writtenParams]
  have hstart : signatureInputPrefixText.isPrefixOf (signatureInputValue created keyid alg) := by
    rw [htext]
    exact List.isPrefixOf_iff_prefix.mpr ⟨_, (List.append_assoc _ _ _).symm⟩
  have hdns : dnsText.isPrefixOf? (signatureInputValue created keyid alg) = some
      (digestListText ++ [';'].intercalate ([] :: writtenParams created keyid alg)) :=
    List.isPrefixOf?_eq_some_iff_append_eq.mpr htext.symm
  have hlist : digestListText.isPrefixOf? (digestListText ++
      [';'].intercalate ([] :: writtenParams created keyid alg)) =
      some ([';'].intercalate ([] :: writtenParams created keyid alg)) :=
    List.isPrefixOf?_eq_some_iff_append_eq.mpr rfl
  have hfilter : ([] :: writtenParams created keyid alg).filter (· ≠ []) =
      writtenParams created keyid alg := by
    simp [writtenParams, Text.decimal_ne_nil]
  refine ⟨digestListText ++ [';'].intercalate ([] :: writtenParams created keyid alg), ?_⟩
  rw [parseSignatureInput, if_neg (not_not_intro hstart), hdns, Option.bind_some, hlist,
    Option.bind_some, hsplit, hfilter, writtenParams]
  simp only [List.foldlM_cons, List.foldlM_nil, readParam_created, readParam_keyid, readParam_alg,
    unquote_quoted, Text.parseU64_decimal hc, Option.bind_eq_bind, Option.bind_some]
  rfl

theorem schemeForAlgName_algName {scheme : SignatureScheme} {alg : Name}
    (h : algNameForScheme scheme = some alg) : schemeForAlgName alg = some scheme := by
  cases scheme with
  | unknown code => cases h
  | _ => cases h; decide

theorem semicolon_not_mem_algName {scheme : SignatureScheme} {alg : Name}
    (h : algNameForScheme scheme = some alg) : ';' ∉ alg := by
  cases scheme with
  | unknown code => cases h
  | _ => cases h; decide

theorem semicolon_ne_hexDigit {n : ℕ} (h : n < 16) : ';' ≠ hexDigit n := by
  have hall : ∀ n < 16, ';' ≠ hexDigit n := by decide
  exact hall n h

theorem fieldStr_encode (text : Name) : fieldStr (Utf8.encode text) = .ok text := by
  rw [fieldStr, Utf8.fromUtf8_encode]

section Crypto

variable [Crypto]

theorem semicolon_not_mem_keyid (cert : List UInt8) : ';' ∉ keyidForCert cert := by
  rw [keyidForCert, List.mem_append, not_or]
  refine ⟨by decide, ?_⟩
  intro h
  obtain ⟨b, _, hb⟩ := List.mem_flatMap.mp h
  have hlt := b.toNat_lt
  rcases List.mem_cons.mp hb with hb | hb
  · exact semicolon_ne_hexDigit (by omega) hb
  · exact semicolon_ne_hexDigit (by omega) (List.mem_singleton.mp hb)

theorem verifyContentDigest_value (dns : List UInt8) :
    verifyContentDigest (contentDigestValue dns) dns = .ok () := by
  rw [verifyContentDigest, contentDigestValue, enclosed_append]
  dsimp only
  rw [Crypto.base64Decode_encode]
  exact if_neg (by simp)

theorem parseSignature_value (signature : List UInt8) :
    parseSignature (signatureValue signature) = .ok signature := by
  rw [parseSignature, signatureValue, enclosed_append]
  dsimp only
  rw [Crypto.base64Decode_encode]

namespace SignatureFields

/-- The fields that signing writes. -/
def written (created : ℕ) (dns cert : List UInt8) (alg : Name) (signature : List UInt8) :
    SignatureFields :=
  ⟨Utf8.encode (contentDigestValue dns),
    Utf8.encode (signatureInputValue created (keyidForCert cert) alg),
    Utf8.encode (signatureValue signature)⟩

/-- What signing puts into the fields. -/
theorem sign_ok {created : UInt64} {dns : List UInt8} {authority : LocalAuthority}
    {fields : SignatureFields} (h : sign created dns authority = .ok fields) :
    ∃ cert scheme alg base signature, authority.certificates.head? = some cert ∧
      canonicalSchemeForSpki authority.publicKey = some scheme ∧
      algNameForScheme scheme = some alg ∧
      signatureBase (contentDigestValue dns)
        (signatureInputValue created.toNat (keyidForCert cert) alg) = .ok base ∧
      authority.sign scheme (Utf8.encode base) = some signature ∧
      fields = written created.toNat dns cert alg signature := by
  unfold sign at h
  split at h
  · cases h
  rename_i cert hcert
  dsimp only at h
  split at h
  · cases h
  rename_i scheme hscheme
  split at h
  · cases h
  rename_i alg halg
  obtain ⟨base, hbase, h⟩ := except_bind_ok h
  split at h
  · cases h
  rename_i signature hsig
  cases h
  exact ⟨cert, scheme, alg, base, signature, hcert, hscheme, halg, hbase, hsig, rfl⟩

/-- The arguments of the call of `sigin::verify`; the base is still a text. -/
structure SiginCall where
  spki : List UInt8
  scheme : SignatureScheme
  base : Name
  signature : List UInt8

namespace SiginCall

/-- What is made of the result of the call. -/
def outcome (call : SiginCall) : Except SignatureFieldsError Bool :=
  match siginVerify call.spki call.scheme (Utf8.encode call.base) call.signature with
  | none => .error .verify
  | some verified => .ok verified

end SiginCall

/-- The part of `verify` before the call of `sigin::verify`; `none` where it returns `Ok(false)`
without calling it. -/
def verifyCall (fields : SignatureFields) (dnsBytes certDer : List UInt8) :
    Except SignatureFieldsError (Option SiginCall) :=
  if fields.isEmpty then .ok none
  else
    (fieldStr fields.contentDigest).bind fun contentDigest =>
    (verifyContentDigest contentDigest dnsBytes).bind fun _ =>
    (fieldStr fields.signatureInput).bind fun signatureInput =>
      match parseSignatureInput signatureInput with
      | none => .error (.invalidField signatureInputHeader)
      | some parsed =>
        if parsed.keyid ≠ keyidForCert certDer then .ok none
        else
          match schemeForAlgName parsed.alg with
          | none => .error (.unsupportedAlgorithm parsed.alg)
          | some scheme =>
            (fieldStr fields.signature).bind fun text =>
            (parseSignature text).bind fun signature =>
            (signatureBase contentDigest signatureInput).bind fun base =>
              match Crypto.certificateSpki certDer with
              | none => .error .invalidCertificate
              | some spki => .ok (some ⟨spki, scheme, base, signature⟩)

/-- Verifying is calling, where the call is reached. -/
theorem verify_eq_verifyCall (fields : SignatureFields) (dns cert : List UInt8) :
    fields.verify dns cert =
      (fields.verifyCall dns cert).bind fun call => call.elim (.ok false) SiginCall.outcome := by
  unfold verify verifyCall
  split
  · rfl
  -- both take the same steps up to the call
  rw [except_bind_assoc]
  congr 1
  funext contentDigest
  rw [except_bind_assoc]
  congr 1
  funext _
  rw [except_bind_assoc]
  congr 1
  funext signatureInput
  cases parseSignatureInput signatureInput with
  | none => rfl
  | some parsed =>
    dsimp only
    split
    · rfl
    cases schemeForAlgName parsed.alg with
    | none => rfl
    | some scheme =>
      dsimp only
      rw [except_bind_assoc]
      congr 1
      funext text
      rw [except_bind_assoc]
      congr 1
      funext signature
      rw [except_bind_assoc]
      congr 1
      funext base
      cases Crypto.certificateSpki cert <;> rfl

/-- The call is reached with what the fields say. -/
structure Reaches (fields : SignatureFields) (dns cert : List UInt8) (call : SiginCall)
    (digestText inputText : Name) (parsed : ParsedSignatureInput) : Prop where
  contentDigest : fieldStr fields.contentDigest = .ok digestText
  digest : verifyContentDigest digestText dns = .ok ()
  signatureInput : fieldStr fields.signatureInput = .ok inputText
  parses : parseSignatureInput inputText = some parsed
  keyid : parsed.keyid = keyidForCert cert
  scheme : schemeForAlgName parsed.alg = some call.scheme
  base : signatureBase digestText inputText = .ok call.base

theorem reaches_of_verifyCall {fields : SignatureFields} {dns cert : List UInt8} {call : SiginCall}
    (h : fields.verifyCall dns cert = .ok (some call)) :
    ∃ contentDigest signatureInput parsed,
      fields.Reaches dns cert call contentDigest signatureInput parsed := by
  unfold verifyCall at h
  split at h
  · cases h
  obtain ⟨contentDigest, hcontentDigest, h⟩ := except_bind_ok h
  obtain ⟨_, hdigest, h⟩ := except_bind_ok h
  obtain ⟨signatureInput, hsignatureInput, h⟩ := except_bind_ok h
  cases hparsed : parseSignatureInput signatureInput with
  | none =>
    rw [hparsed] at h
    cases h
  | some parsed =>
    rw [hparsed] at h
    dsimp only at h
    split at h
    · cases h
    rename_i hkeyid
    split at h
    · cases h
    rename_i scheme hscheme
    obtain ⟨text, _, h⟩ := except_bind_ok h
    obtain ⟨signature, _, h⟩ := except_bind_ok h
    obtain ⟨base, hbase, h⟩ := except_bind_ok h
    split at h
    · cases h
    · cases h
      exact ⟨contentDigest, signatureInput, parsed, hcontentDigest, hdigest, hsignatureInput,
        hparsed, not_not.mp hkeyid, hscheme, hbase⟩

/-- Written fields are never taken for missing ones. -/
theorem isEmpty_written (created : ℕ) (dns cert : List UInt8) (alg : Name)
    (signature : List UInt8) : (written created dns cert alg signature).isEmpty = false := by
  have hne : Utf8.encode (contentDigestValue dns) ≠ [] := by
    intro hnil
    cases Utf8.encode_eq_nil.mp hnil
  rw [isEmpty, decide_eq_false_iff_not]
  intro hall
  exact hne hall.1

/-- Written fields reach the call. -/
theorem verifyCall_written {created : ℕ} {dns cert spki : List UInt8} (signature : List UInt8)
    {scheme : SignatureScheme} {alg base : Name} (hcreated : created < 2 ^ 64)
    (halg : algNameForScheme scheme = some alg)
    (hbase : signatureBase (contentDigestValue dns)
      (signatureInputValue created (keyidForCert cert) alg) = .ok base)
    (hspki : Crypto.certificateSpki cert = some spki) :
    (written created dns cert alg signature).verifyCall dns cert =
      .ok (some ⟨spki, scheme, base, signature⟩) := by
  obtain ⟨params, hparsed⟩ := parseSignatureInput_value hcreated
    (semicolon_not_mem_keyid cert) (semicolon_not_mem_algName halg)
  rw [verifyCall, isEmpty_written, if_neg Bool.false_ne_true, written]
  dsimp only
  rw [fieldStr_encode, Except.bind,
    verifyContentDigest_value, Except.bind, fieldStr_encode, Except.bind, hparsed]
  dsimp only
  rw [if_neg (not_not_intro rfl), schemeForAlgName_algName halg]
  dsimp only
  rw [fieldStr_encode, Except.bind, parseSignature_value, Except.bind, hbase, Except.bind, hspki]

/-- The leaf certificate of the authority verifies what the authority has signed. -/
theorem verify_of_sign {created : UInt64} {dns cert : List UInt8} {authority : LocalAuthority}
    {fields : SignatureFields} (h : sign created dns authority = .ok fields)
    (hcert : authority.certificates.head? = some cert) : fields.verify dns cert = .ok true := by
  obtain ⟨cert', scheme, alg, base, signature, hcert', hscheme, halg, hbase, hsig, rfl⟩ := sign_ok h
  rw [hcert] at hcert'
  cases hcert'
  have hspki := authority.leaf_spki cert hcert
  have hverify := authority.sign_verifies scheme (Utf8.encode base) signature hscheme hsig
  rw [verify_eq_verifyCall, verifyCall_written signature created.toNat_lt halg hbase hspki,
    Except.bind, Option.elim, SiginCall.outcome, hverify]

end SignatureFields

end Crypto

end Ddns
