import Ddns.Core.SignatureRoundTrip
import Ddns.H3.Resolver
import Ddns.H3.Response
import Ddns.Url

/-! A publication over H3 from the endpoints to the lease. -/
namespace Ddns

/-- `dhttp-dns-lease-millis` -/
def leaseHeader : Name :=
  ['d', 'h', 't', 't', 'p', '-', 'd', 'n', 's', '-', 'l', 'e', 'a', 's', 'e', '-', 'm', 'i', 'l', 'l',
   'i', 's']

/-- `content-type` -/
def contentTypeHeader : Name := ['c', 'o', 'n', 't', 'e', 'n', 't', '-', 't', 'y', 'p', 'e']

/-- `application/octet-stream` -/
def octetStreamText : Name :=
  ['a', 'p', 'p', 'l', 'i', 'c', 'a', 't', 'i', 'o', 'n', '/', 'o', 'c', 't', 'e', 't', '-', 's', 't',
   'r', 'e', 'a', 'm']

/-- What is taken for the lease of a server that gives none, in milliseconds. -/
def legacyLease : ℕ := 300000

/-- The lease in milliseconds, unless it is not valid. `fits` says whether the clock can still count
to the end of a lease. -/
def publishLease (headers : HeaderMap) (empty : Bool) (fits : ℕ → Bool) : Option ℕ :=
  match HeaderMap.getAll headers (.other leaseHeader) with
  | [] => some (if empty then 0 else legacyLease)
  | [value] =>
    (headerStr value).bind fun text =>
      if text = [] ∨ ¬ Text.allDigits text then none
      else
        (Text.parseU64 text).bind fun millis =>
          if empty ≠ decide (millis = 0) then none
          else if fits millis then some millis
          else none
  | _ => none

/-- `HeaderValue::from_bytes` accepts. -/
def isHeaderValue (value : List UInt8) : Bool := value.all fun b => b = 9 ∨ (32 ≤ b ∧ b ≠ 127)

structure PublishRequest where
  url : Name
  headers : HeaderMap
  body : List UInt8
  deriving DecidableEq

/-- The code panics where this gives nothing. -/
def publishRequest (serverOrigin : Url) (name : Name) (packet : List UInt8)
    (fields : SignatureFields) : Option PublishRequest :=
  if isHeaderValue fields.contentDigest ∧ isHeaderValue fields.signatureInput ∧
      isHeaderValue fields.signature then
    some ⟨(publishUrl serverOrigin name).asStr,
      [(.other contentTypeHeader, Utf8.encode octetStreamText),
        (.other contentDigestHeader, fields.contentDigest),
        (.other signatureInputHeader, fields.signatureInput),
        (.other signatureHeader, fields.signature)], packet⟩
  else none

/-- What comes of a request whose body is sent. -/
inductive Upload (E : Type) where
  | refused (source : E)
  | broken (source : E)
  | answered (reply : Reply E)

section Publications

variable [DhttpHome] [SubjectKey] [Crypto] {Source E : Type}

/-- A named endpoint. The authority is missing where its credentials cannot be loaded. -/
structure H3Endpoint where
  name : Name
  localAuthority : Option LocalAuthority

omit [DhttpHome] [Crypto] in
inductive H3PublishFailure (E : Type) where
  | refused (error : H3PublishError)
  | credentials
  | signRequest (source : SignatureFieldsError)
  | request (source : E)
  | upload (source : E)
  | body (source : E)
  | responseTooLarge (limit : ℕ)
  | status (status : ℕ) (message : Name)
  | invalidLease

/-- Everything before the request is signed. -/
def preparePacket (endpoint : Option H3Endpoint) (name : Name)
    (endpoints : List DquicEndpointAddr) :
    Except (H3PublishFailure E) (LocalAuthority × List UInt8) :=
  if ¬ DhttpHome.validateName name then .error (.refused .invalidName)
  else
    match endpoint with
    | none => .error (.refused .identityRequired)
    | some endpoint =>
      if endpoint.name ≠ name then .error (.refused .identityNameMismatch)
      else
        match endpoint.localAuthority with
        | none => .error .credentials
        | some identity =>
          match dnsPacketForAuthority identity name endpoints with
          | .error source => .error (.refused (.encodePacket source))
          | .ok packet =>
            if dnsPacketLimit < packet.length then
              .error (.refused (.packetTooLarge dnsPacketLimit))
            else .ok (identity, packet)

omit [DhttpHome] [Crypto] in
/-- The reply to a publication. There is no limit on the time that it takes, so it gives nothing as
long as the code would wait. -/
def publishReply (empty : Bool) (fits : ℕ → Bool) :
    Reply E → Option (Except (H3PublishFailure E) ℕ)
  | .silent => none
  | .failed source => some (.error (.request source))
  | .response status headers body =>
    if status ≠ 200 then
      (readBodyLimited body statusBodyLimit).map fun out =>
        match out with
        | .error (.body source) => .error (.body source)
        | .error .tooLarge => .error (.responseTooLarge statusBodyLimit)
        | .ok bytes => .error (.status status (Text.trim (Utf8.fromUtf8Lossy bytes)))
    else
      some (match publishLease headers empty fits with
        | none => .error .invalidLease
        | some lease => .ok lease)

/-- The request of a publication, unless it fails before. `created` is the clock when it is signed.
It gives nothing where the code panics. -/
def publishAsk (serverOrigin : ServerOrigin true) (endpoint : Option H3Endpoint) (created : UInt64)
    (name : Name) (endpoints : List DquicEndpointAddr) :
    Option (Except (H3PublishFailure E) PublishRequest) :=
  match preparePacket endpoint name endpoints with
  | .error error => some (.error error)
  | .ok (identity, packet) =>
    match SignatureFields.sign created packet identity with
    | .error source => some (.error (.signRequest source))
    | .ok fields => (publishRequest serverOrigin.url name packet fields).map .ok

structure PublishOutcome (Source E : Type) where
  result : Except (H3PublishFailure E) ℕ
  cache : LookupCache Source

/-- `send` is what comes of the request. It gives nothing where the code panics or waits forever. -/
def publishEndpoints (serverOrigin : ServerOrigin true) (endpoint : Option H3Endpoint)
    (cache : LookupCache Source) (created : UInt64) (fits : ℕ → Bool) (name : Name)
    (endpoints : List DquicEndpointAddr) (send : PublishRequest → Upload E) :
    Option (PublishOutcome Source E) :=
  (publishAsk serverOrigin endpoint created name endpoints).bind fun asked =>
    match asked with
    | .error error => some ⟨.error error, cache⟩
    | .ok request =>
      match send request with
      | .refused source => some ⟨.error (.request source), cache⟩
      | .broken source => some ⟨.error (.upload source), cache⟩
      | .answered reply =>
        (publishReply endpoints.isEmpty fits reply).map fun result =>
          ⟨result, match result with
            | .ok _ => cache.invalidateName name
            | .error _ => cache⟩

end Publications

section Leases

variable {headers : HeaderMap} {empty : Bool} {fits : ℕ → Bool} {lease : ℕ}

/-- The lease that the headers of a reply give: the legacy one without the header, and else its one
value in digits, which is zero for a withdrawal and only for it. -/
def AcceptedLease (headers : HeaderMap) (empty : Bool) (fits : ℕ → Bool) (lease : ℕ) : Prop :=
  (HeaderMap.getAll headers (.other leaseHeader) = [] ∧ lease = if empty then 0 else legacyLease) ∨
    ∃ value text, HeaderMap.getAll headers (.other leaseHeader) = [value] ∧
      headerStr value = some text ∧ IsNumber text ∧ lease = Nat.ofDigitChars 10 text 0 ∧
      lease < 2 ^ 64 ∧ (empty = true ↔ lease = 0) ∧ fits lease = true

theorem publishLease_eq_some_iff :
    publishLease headers empty fits = some lease ↔ AcceptedLease headers empty fits lease := by
  rw [publishLease, AcceptedLease]
  rcases hvalues : HeaderMap.getAll headers (.other leaseHeader) with _ | ⟨value, _ | ⟨second, rest⟩⟩
  · constructor
    · intro h
      exact Or.inl ⟨rfl, (Option.some.inj h).symm⟩
    · rintro (⟨_, rfl⟩ | ⟨_, _, hone, _⟩)
      · rfl
      · cases hone
  · constructor
    · intro h
      obtain ⟨text, htext, h⟩ := Option.bind_eq_some_iff.mp h
      split at h
      · cases h
      rename_i hdigits
      push Not at hdigits
      obtain ⟨millis, hmillis, h⟩ := Option.bind_eq_some_iff.mp h
      rw [Text.parseU64_digits hdigits.1 hdigits.2] at hmillis
      split at hmillis
      · rename_i hlt
        split at h
        · cases h
        rename_i hzero
        split at h
        · rename_i hfits
          obtain rfl := Option.some.inj h
          refine Or.inr ⟨value, text, rfl, htext, hdigits, (Option.some.inj hmillis).symm, ?_, ?_, hfits⟩
          · rwa [← Option.some.inj hmillis]
          · rw [not_not.mp hzero, decide_eq_true_iff]
        · cases h
      · cases hmillis
    · rintro (⟨h, _⟩ | ⟨value', text, hone, htext, hdigits, hvalue, hlt, hzero, hfits⟩)
      · cases h
      · obtain ⟨rfl, _⟩ := List.cons.inj hone
        have hne : ¬ (text = [] ∨ ¬ Text.allDigits text = true) := by
          rintro (hnil | hbad)
          · exact hdigits.1 hnil
          · exact hbad hdigits.2
        simp only [htext, Option.bind_some]
        rw [if_neg hne, Text.parseU64_digits hdigits.1 hdigits.2, ← hvalue, if_pos hlt,
          Option.bind_some, if_neg, if_pos hfits]
        exact not_not_intro (Bool.eq_iff_iff.mpr (hzero.trans decide_eq_true_iff.symm))
  · simp

/-- Nothing is leased exactly when nothing was published. -/
theorem AcceptedLease.zero_iff (h : AcceptedLease headers empty fits lease) :
    lease = 0 ↔ empty = true := by
  rcases h with ⟨_, rfl⟩ | ⟨_, _, _, _, _, _, _, hzero, _⟩
  · cases empty with
    | false => simp [legacyLease]
    | true => simp
  · exact hzero.symm

end Leases

section HeaderValues

/-- A visible character of ASCII, or a blank. -/
def Printable (c : Char) : Prop := 32 ≤ c.toNat ∧ c.toNat < 127

instance (c : Char) : Decidable (Printable c) := inferInstanceAs (Decidable (_ ∧ _))

theorem printable_of_all {text : Name} (h : text.all (fun c => decide (Printable c)) = true) :
    ∀ c ∈ text, Printable c := by
  intro c hc
  exact of_decide_eq_true (List.all_eq_true.mp h c hc)

theorem printable_of_isDigit {c : Char} (h : c.isDigit = true) : Printable c := by
  have hrange := Char.isDigit_iff_toNat.mp h
  have hzero : '0'.toNat = 48 := rfl
  have hnine : '9'.toNat = 57 := rfl
  exact ⟨by omega, by omega⟩

theorem printable_hexDigit {n : ℕ} (h : n < 16) : Printable (hexDigit n) := by
  have hall : ∀ n < 16, Printable (hexDigit n) := by decide
  exact hall n h

theorem isHeaderValue_utf8EncodeChar {c : Char} (h : Printable c) :
    isHeaderValue (String.utf8EncodeChar c) = true := by
  obtain ⟨hlow, hhigh⟩ := h
  have hone : String.utf8EncodeChar c = [UInt8.ofNat c.toNat] := if_pos (by
    change c.toNat ≤ 127
    omega)
  have hbyte : (UInt8.ofNat c.toNat).toNat = c.toNat := Utf8.toNat_ofNat_of_lt (by omega)
  rw [hone, isHeaderValue, List.all_cons, List.all_nil, Bool.and_true, decide_eq_true_iff]
  refine Or.inr ⟨UInt8.le_iff_toNat_le.mpr (by rw [hbyte]; exact hlow), ?_⟩
  intro heq
  rw [heq] at hbyte
  change 127 = c.toNat at hbyte
  omega

/-- A printable text is the value of a header. -/
theorem isHeaderValue_encode {text : Name} (h : ∀ c ∈ text, Printable c) :
    isHeaderValue (Utf8.encode text) = true := by
  induction text with
  | nil => rfl
  | cons c text ih =>
    have hc := isHeaderValue_utf8EncodeChar (h c List.mem_cons_self)
    have htext := ih fun d hd => h d (List.mem_cons_of_mem c hd)
    rw [isHeaderValue] at hc htext ⊢
    rw [Utf8.encode_cons, List.all_append, hc, htext]
    rfl

theorem printable_algName {scheme : SignatureScheme} {alg : Name}
    (h : algNameForScheme scheme = some alg) : ∀ c ∈ alg, Printable c := by
  cases scheme with
  | unknown code => cases h
  | _ => cases h; exact printable_of_all rfl

variable [Crypto]

theorem printable_keyid (cert : List UInt8) : ∀ c ∈ keyidForCert cert, Printable c := by
  refine List.forall_mem_append.mpr ⟨printable_of_all rfl, ?_⟩
  intro c hc
  obtain ⟨b, _, hb⟩ := List.mem_flatMap.mp hc
  have hlt := b.toNat_lt
  rcases List.mem_cons.mp hb with rfl | hb
  · exact printable_hexDigit (by omega)
  · obtain rfl := List.mem_singleton.mp hb
    exact printable_hexDigit (by omega)

/-- Base64 is printable, as the library documents. -/
def PrintableBase64 : Prop := ∀ bytes, ∀ c ∈ Crypto.base64Encode bytes, Printable c

/-- The fields of a signature are values of headers. -/
theorem isHeaderValue_written (hbase64 : PrintableBase64) (created : ℕ) (dns cert : List UInt8)
    {scheme : SignatureScheme} {alg : Name} (halg : algNameForScheme scheme = some alg)
    (signature : List UInt8) :
    let fields := SignatureFields.written created dns cert alg signature
    isHeaderValue fields.contentDigest = true ∧ isHeaderValue fields.signatureInput = true ∧
      isHeaderValue fields.signature = true := by
  have hcolon : ∀ c ∈ [':'], Printable c := printable_of_all rfl
  have hquote : Printable '"' := by decide
  have hsemicolon : Printable ';' := by decide
  have hnumber : ∀ c ∈ Text.decimal created, Printable c := by
    intro c hc
    exact printable_of_isDigit (Text.isDigit_of_mem_decimal hc)
  refine ⟨isHeaderValue_encode ?_, isHeaderValue_encode ?_, isHeaderValue_encode ?_⟩
  · exact List.forall_mem_append.mpr
      ⟨printable_of_all rfl, List.forall_mem_append.mpr ⟨hbase64 _, hcolon⟩⟩
  · simp only [signatureInputValue, List.forall_mem_append, List.forall_mem_cons]
    exact ⟨printable_of_all rfl, hsemicolon, printable_of_all rfl, hnumber, hsemicolon,
      printable_of_all rfl, hquote, printable_keyid cert, hquote, hsemicolon, printable_of_all rfl,
      hquote, printable_algName halg, hquote, by simp⟩
  · exact List.forall_mem_append.mpr
      ⟨printable_of_all rfl, List.forall_mem_append.mpr ⟨hbase64 _, hcolon⟩⟩

end HeaderValues

section Outcomes

variable [DhttpHome] [SubjectKey] [Crypto] {Content Source E : Type}
  {serverOrigin : ServerOrigin true} {endpoint : Option H3Endpoint} {name : Name}
  {endpoints : List DquicEndpointAddr} {created : UInt64}

theorem preparePacket_ok_iff {identity : LocalAuthority} {packet : List UInt8} :
    preparePacket (E := E) endpoint name endpoints = .ok (identity, packet) ↔
      DhttpHome.validateName name = true ∧ endpoint = some ⟨name, some identity⟩ ∧
        dnsPacketForAuthority identity name endpoints = .ok packet ∧
        packet.length ≤ dnsPacketLimit := by
  constructor
  · intro h
    unfold preparePacket at h
    split at h
    · cases h
    rename_i hvalid
    split at h
    · cases h
    rename_i endpoint'
    split at h
    · cases h
    rename_i hname
    split at h
    · cases h
    rename_i identity' hidentity
    split at h
    · cases h
    rename_i packet' hpacket
    split at h
    · cases h
    rename_i hfits
    cases h
    refine ⟨not_not.mp hvalid, ?_, hpacket, Nat.le_of_not_lt hfits⟩
    obtain ⟨name', authority⟩ := endpoint'
    obtain rfl : name' = name := not_not.mp hname
    rw [← hidentity]
  · rintro ⟨hvalid, rfl, hpacket, hfits⟩
    rw [preparePacket, if_neg (not_not_intro hvalid)]
    simp only [ne_eq, not_true, if_false, hpacket]
    exact if_neg (Nat.not_lt.mpr hfits)

/-- With credentials at hand it is what the resolver checks before it asks the server. -/
theorem preparePacket_eq_publishPacket (r : H3Resolver Content Source) :
    (preparePacket (E := E) (r.identity.map fun identity => ⟨identity.name, some identity⟩) name
        endpoints).map Prod.snd =
      (r.publishPacket name endpoints).mapError .refused := by
  unfold preparePacket H3Resolver.publishPacket
  split
  · rfl
  cases r.identity with
  | none => rfl
  | some identity =>
    simp only [Option.map_some]
    split
    · rfl
    rcases dnsPacketForAuthority identity name endpoints with source | packet
    · rfl
    · simp only
      split
      · rfl
      · rfl

theorem publishAsk_ok_iff {request : PublishRequest} :
    publishAsk (E := E) serverOrigin endpoint created name endpoints = some (.ok request) ↔
      ∃ identity packet fields,
        preparePacket (E := E) endpoint name endpoints = .ok (identity, packet) ∧
        SignatureFields.sign created packet identity = .ok fields ∧
        publishRequest serverOrigin.url name packet fields = some request := by
  rw [publishAsk]
  constructor
  · intro h
    split at h
    · cases h
    rename_i identity packet hprepared
    split at h
    · cases h
    rename_i fields hfields
    obtain ⟨request', hrequest, heq⟩ := Option.map_eq_some_iff.mp h
    cases heq
    exact ⟨identity, packet, fields, hprepared, hfields, hrequest⟩
  · rintro ⟨identity, packet, fields, hprepared, hfields, hrequest⟩
    simp only [hprepared, hfields, hrequest, Option.map_some]

omit [Crypto] in
/-- A reply that a publication succeeds with. -/
theorem publishReply_ok_iff {empty : Bool} {fits : ℕ → Bool} {reply : Reply E} {lease : ℕ} :
    publishReply empty fits reply = some (.ok lease) ↔
      ∃ headers body, reply = .response 200 headers body ∧
        AcceptedLease headers empty fits lease := by
  constructor
  · intro h
    cases reply with
    | silent => cases h
    | failed source => cases h
    | response status headers body =>
      rw [publishReply] at h
      split at h
      · obtain ⟨out, _, hout⟩ := Option.map_eq_some_iff.mp h
        split at hout <;> cases hout
      · rename_i hstatus
        split at h
        · cases h
        · rename_i lease' hlease
          cases h
          exact ⟨headers, body, by rw [not_not.mp hstatus], publishLease_eq_some_iff.mp hlease⟩
  · rintro ⟨headers, body, rfl, hlease⟩
    rw [publishReply, if_neg (not_not_intro rfl), publishLease_eq_some_iff.mpr hlease]

/-- A publication succeeds exactly when its name and identity are in order, its packet fits and is
signed, and the server takes it with a 200 and an acceptable lease; then it forgets what the cache
has for the name. A publication that fails leaves the cache as it is. -/
theorem publish_ok_iff (serverOrigin : ServerOrigin true) (endpoint : Option H3Endpoint)
    (cache cache' : LookupCache Source) (created : UInt64) (fits : ℕ → Bool) (name : Name)
    (endpoints : List DquicEndpointAddr) (send : PublishRequest → Upload E) (lease : ℕ) :
    (publishEndpoints serverOrigin endpoint cache created fits name endpoints send =
        some ⟨.ok lease, cache'⟩ ↔
      cache' = cache.invalidateName name ∧ DhttpHome.validateName name = true ∧
      ∃ identity packet fields request headers body, endpoint = some ⟨name, some identity⟩ ∧
        dnsPacketForAuthority identity name endpoints = .ok packet ∧
        packet.length ≤ dnsPacketLimit ∧ SignatureFields.sign created packet identity = .ok fields ∧
        publishRequest serverOrigin.url name packet fields = some request ∧
        send request = .answered (.response 200 headers body) ∧
        AcceptedLease headers endpoints.isEmpty fits lease ∧ (lease = 0 ↔ endpoints = [])) ∧
    ∀ failure, publishEndpoints serverOrigin endpoint cache created fits name endpoints send =
      some ⟨.error failure, cache'⟩ → cache' = cache := by
  constructor
  · constructor
    · intro h
      obtain ⟨asked, hasked, h⟩ := Option.bind_eq_some_iff.mp h
      rcases asked with error | request
      · cases h
      obtain ⟨identity, packet, fields, hprepared, hfields, hrequest⟩ := publishAsk_ok_iff.mp hasked
      obtain ⟨hvalid, hendpoint, hpacket, hfits⟩ := preparePacket_ok_iff.mp hprepared
      dsimp only at h
      split at h
      · cases h
      · cases h
      rename_i reply hreply
      obtain ⟨result, hresult, heq⟩ := Option.map_eq_some_iff.mp h
      obtain ⟨rfl, rfl⟩ := PublishOutcome.mk.inj heq
      obtain ⟨headers, body, rfl, hlease⟩ := publishReply_ok_iff.mp hresult
      exact ⟨rfl, hvalid, identity, packet, fields, request, headers, body, hendpoint, hpacket,
        hfits, hfields, hrequest, hreply, hlease, hlease.zero_iff.trans List.isEmpty_iff⟩
    · rintro ⟨rfl, hvalid, identity, packet, fields, request, headers, body, hendpoint, hpacket,
        hfits, hfields, hrequest, hreply, hlease, _⟩
      have hasked := publishAsk_ok_iff (E := E).mpr ⟨identity, packet, fields,
        preparePacket_ok_iff.mpr ⟨hvalid, hendpoint, hpacket, hfits⟩, hfields, hrequest⟩
      rw [publishEndpoints, hasked, Option.bind_some]
      simp only [hreply, publishReply_ok_iff.mpr ⟨headers, body, rfl, hlease⟩, Option.map_some]
  · intro failure h
    obtain ⟨asked, _, h⟩ := Option.bind_eq_some_iff.mp h
    rcases asked with error | request
    · cases h
      rfl
    dsimp only at h
    split at h
    · cases h
      rfl
    · cases h
      rfl
    obtain ⟨result, _, heq⟩ := Option.map_eq_some_iff.mp h
    obtain ⟨rfl, rfl⟩ := PublishOutcome.mk.inj heq
    rfl

/-- Whatever a publication sends goes to the origin, names what it publishes, is within the limit,
and carries the signature of the leaf certificate of the identity with that name. Building the
request never fails. -/
theorem publish_sends_signed_packet (hbase64 : PrintableBase64) (serverOrigin : ServerOrigin true)
    (endpoint : Option H3Endpoint) (created : UInt64) (name : Name)
    (endpoints : List DquicEndpointAddr) :
    (∃ failure : H3PublishFailure E,
      publishAsk serverOrigin endpoint created name endpoints = some (.error failure)) ∨
    ∃ (request : PublishRequest) (identity : LocalAuthority) (leaf : List UInt8) (query : Name)
      (fields : SignatureFields),
      publishAsk (E := E) serverOrigin endpoint created name endpoints = some (.ok request) ∧
      endpoint = some ⟨name, some identity⟩ ∧ identity.name = name ∧
      request.url = serverOrigin.url.asciiSerialization ++ publishApiPath ++ '?' :: query ∧
      FormUrlencoded.parse query = [(hostText, name)] ∧
      dnsPacketForAuthority identity name endpoints = .ok request.body ∧
      request.body.length ≤ dnsPacketLimit ∧
      HeaderMap.getAll request.headers (.other contentDigestHeader) = [fields.contentDigest] ∧
      HeaderMap.getAll request.headers (.other signatureInputHeader) = [fields.signatureInput] ∧
      HeaderMap.getAll request.headers (.other signatureHeader) = [fields.signature] ∧
      identity.certificates.head? = some leaf ∧ fields.verify request.body leaf = .ok true := by
  rcases hprepared : preparePacket (E := E) endpoint name endpoints with failure | ⟨identity, packet⟩
  · refine Or.inl ⟨failure, ?_⟩
    rw [publishAsk, hprepared]
  obtain ⟨_, hendpoint, hpacket, hfits⟩ := preparePacket_ok_iff.mp hprepared
  rcases hsign : SignatureFields.sign created packet identity with source | fields
  · refine Or.inl ⟨.signRequest source, ?_⟩
    simp only [publishAsk, hprepared, hsign]
  obtain ⟨leaf, scheme, alg, base, signature, hleaf, _, halg, _, _, hwritten⟩ :=
    SignatureFields.sign_ok hsign
  have hvalues := isHeaderValue_written hbase64 created.toNat packet leaf halg signature
  rw [← hwritten] at hvalues
  have hname : identity.name = name := by
    rw [dnsPacketForAuthority] at hpacket
    obtain ⟨encoded, hencoded, _⟩ := except_map_ok hpacket
    rw [dnsEndpointsForAuthority] at hencoded
    split at hencoded
    · cases hencoded
    · rename_i hname
      exact not_not.mp hname
  have hrequest : publishRequest serverOrigin.url name packet fields = some _ := if_pos hvalues
  have hurl : (publishUrl serverOrigin.url name).asStr = _ :=
    asStr_resource serverOrigin publishApiPath (FormUrlencoded.serialize [(hostText, name)])
  exact Or.inr ⟨_, identity, leaf, _, fields, publishAsk_ok_iff.mpr ⟨identity, packet, fields,
    hprepared, hsign, hrequest⟩, hendpoint, hname, hurl, FormUrlencoded.parse_serialize _, hpacket,
    hfits, rfl, rfl, rfl, hleaf, SignatureFields.verify_of_sign hsign hleaf⟩

end Outcomes

section Sample

/-- The packet of a withdrawal is a header. -/
def withdrawalPacket : List UInt8 := [0, 0, 128, 0, 0, 0, 0, 0, 0, 0, 0, 0]

def withdrawalDigest : List UInt8 :=
  [242, 109, 39, 225, 228, 156, 31, 114, 18, 25, 135, 135, 160, 114, 186, 88, 27, 11, 61, 150,
   181, 182, 187, 98, 59, 75, 78, 155, 48, 26, 98, 7]

/-- What is signed for the withdrawal at the time 1. -/
def withdrawalBase : Name :=
  digestLineText ++ ((digestPrefixText ++ (Base64.encode withdrawalDigest ++ [':'])) ++
    (paramsLineText ++ (signatureInputValue 1 (sha256Text ++ signerFingerprint.flatMap fun b =>
      [hexDigit (b.toNat / 16), hexDigit (b.toNat % 16)]) ed25519Name).drop dnsText.length))

def withdrawalSignature : List UInt8 :=
  [249, 31, 33, 181, 241, 114, 10, 106, 194, 37, 92, 205, 64, 108, 232, 58, 228, 41, 241, 119,
   212, 44, 219, 201, 180, 220, 66, 180, 182, 39, 29, 101, 210, 159, 236, 168, 6, 67, 20, 149,
   70, 163, 227, 176, 20, 82, 85, 71, 132, 199, 35, 108, 113, 78, 148, 84, 85, 234, 221, 241,
   178, 68, 133, 14]

/-- Base64, and what the other libraries make of the packet, the certificate and the signature. -/
@[reducible] def withdrawalCrypto : Crypto where
  sha256 bytes :=
    if bytes = withdrawalPacket then withdrawalDigest
    else if bytes = signerCert then signerFingerprint
    else []
  base64Encode := Base64.encode
  base64Decode := Base64.decode
  base64Decode_encode := Base64.decode_encode
  parseSpki bytes :=
    if bytes = signerSpki then some ⟨.sigEd25519, none, signerSpki.drop 12⟩ else none
  certificateSpki bytes := if bytes = signerCert then some signerSpki else none
  ringVerify scheme key data signature :=
    scheme = .ed25519 ∧ key = signerSpki.drop 12 ∧ data = Utf8.encode withdrawalBase ∧
      signature = withdrawalSignature

attribute [local instance] plainHome plainSubjectKey withdrawalCrypto

theorem withdrawal_digests :
    Crypto.sha256 withdrawalPacket = withdrawalDigest ∧
      Crypto.sha256 signerCert = signerFingerprint := by
  have hother : signerCert ≠ withdrawalPacket := by
    intro heq
    cases congrArg List.head? heq
  exact ⟨if_pos rfl, (if_neg hother).trans (if_pos rfl)⟩

theorem withdrawal_spki :
    Crypto.parseSpki signerSpki = some ⟨.sigEd25519, none, signerSpki.drop 12⟩ := if_pos rfl

def withdrawer : LocalAuthority where
  name := ['a']
  certificates := [signerCert]
  publicKey := signerSpki
  sign scheme data :=
    if scheme = .ed25519 ∧ data = Utf8.encode withdrawalBase then some withdrawalSignature else none
  leaf_spki cert hcert := by
    obtain rfl := Option.some_inj.mp hcert
    exact if_pos rfl
  sign_verifies scheme data signature _ hsign := by
    obtain ⟨⟨rfl, rfl⟩, hsignature⟩ := Option.ite_none_right_eq_some.mp hsign
    obtain rfl := Option.some_inj.mp hsignature
    rw [siginVerify, withdrawal_spki]
    · exact congrArg some (decide_eq_true ⟨rfl, rfl, rfl, rfl⟩)
    · intro code hcode
      cases hcode

theorem withdrawer_signs :
    ∃ fields, SignatureFields.sign 1 withdrawalPacket withdrawer = .ok fields := by
  obtain ⟨hpacket, hcert⟩ := withdrawal_digests
  obtain ⟨params, hparsed⟩ := parseSignatureInput_value (by decide : 1 < 2 ^ 64)
    (semicolon_not_mem_keyid signerCert) (by decide : ';' ∉ ed25519Name)
  have hinput := parseSignatureInput_eq_some hparsed
  have hbase : signatureBase (contentDigestValue withdrawalPacket)
      (signatureInputValue 1 (keyidForCert signerCert) ed25519Name) = .ok withdrawalBase := by
    have hparams : params = (signatureInputValue 1 (keyidForCert signerCert) ed25519Name).drop
        dnsText.length := by
      rw [hinput, List.drop_left]
    rw [signatureBase, hparsed]
    dsimp only
    rw [hparams, keyidForCert, certFingerprintHex, hcert, contentDigestValue, hpacket]
    rfl
  have hscheme : canonicalSchemeForSpki withdrawer.publicKey = some .ed25519 := by
    change canonicalSchemeForSpki signerSpki = _
    rw [canonicalSchemeForSpki, withdrawal_spki]
    rfl
  have hsigned : withdrawer.sign .ed25519 (Utf8.encode withdrawalBase) =
      some withdrawalSignature := by
    simp only [withdrawer, and_self, if_true]
  exact ⟨_, @SignatureFields.sign_eq _ 1 _ _ _ _ _ _ _ rfl hscheme rfl hbase hsigned⟩

theorem base64_printable : PrintableBase64 := by
  intro bytes c hc
  have hall : ∀ c ∈ '=' :: Base64.alphabet, Printable c := printable_of_all rfl
  rcases Base64.mem_of_decode (Base64.decode_encode bytes) c hc with halphabet | rfl
  · exact hall c (List.mem_cons_of_mem _ halphabet)
  · exact hall '=' List.mem_cons_self

/-- The origin `https://d/` -/
def sampleOrigin : ServerOrigin true := ⟨⟨httpsText, [], none, some ['d'], none, ['/'], none, none⟩, rfl⟩

/-- A withdrawal is sent, signed. -/
theorem publish_sends_signed_packet_withdrawal :
    ∃ (request : PublishRequest) (fields : SignatureFields),
      publishAsk (E := Unit) sampleOrigin (some ⟨['a'], some withdrawer⟩) 1 ['a'] [] =
        some (.ok request) ∧
      request.body = withdrawalPacket ∧ fields.verify withdrawalPacket signerCert = .ok true := by
  have hpacket : dnsPacketForAuthority withdrawer ['a'] [] = .ok withdrawalPacket := rfl
  have hprepared : preparePacket (E := Unit) (some ⟨['a'], some withdrawer⟩) ['a'] [] =
      .ok (withdrawer, withdrawalPacket) :=
    preparePacket_ok_iff.mpr ⟨rfl, rfl, hpacket, by decide⟩
  obtain ⟨signed, hsigned⟩ := withdrawer_signs
  rcases publish_sends_signed_packet (E := Unit) base64_printable sampleOrigin
      (some ⟨['a'], some withdrawer⟩) 1 ['a'] [] with ⟨failure, hfailure⟩ |
    ⟨request, identity, leaf, _, fields, hasked, hendpoint, _, _, _, hbody, _, _, _, _, hleaf, hverify⟩
  · simp only [publishAsk, hprepared, hsigned] at hfailure
    obtain ⟨_, _, heq⟩ := Option.map_eq_some_iff.mp hfailure
    cases heq
  · cases hendpoint
    obtain rfl := Option.some.inj hleaf
    obtain heq := Except.ok.inj (hpacket.symm.trans hbody)
    rw [← heq] at hverify
    exact ⟨request, fields, hasked, heq.symm, hverify⟩

end Sample

end Ddns
