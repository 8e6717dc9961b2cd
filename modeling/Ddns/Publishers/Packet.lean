import Ddns.Core.PacketAnswer
import Ddns.Core.Signature

/-! What an authority publishes: its endpoints, stamped with the sequence of its chain. -/
namespace Ddns

variable [DhttpHome] [SubjectKey] [Crypto]

omit [Crypto] in
inductive EncodeAuthorityDnsPacketError where
  | authorityNameMismatch
  | dhttpSubjectKeyIdentifier (source : SubjectKey.ExtractError)
  | encodeEndpoint
  | secondaryAuthority

omit [SubjectKey] [Crypto] in
/-- An endpoint as a record of the primary chain with this sequence. -/
def stampEndpoint (sequence : CertificateSequence) (endpoint : DquicEndpointAddr) :
    Option EndpointAddr :=
  (EndpointAddr.tryFrom endpoint).map fun record => (record.setMain true).setSequence sequence

/-- The loop over the endpoints ends at the first that has no record. -/
def dnsEndpointsForAuthority (authority : LocalAuthority) (name : Name)
    (endpoints : List DquicEndpointAddr) :
    Except EncodeAuthorityDnsPacketError (List EndpointAddr) :=
  if authority.name ≠ name then .error .authorityNameMismatch
  else
    match SubjectKey.extract authority.certificates with
    | .error source => .error (.dhttpSubjectKeyIdentifier source)
    | .ok chain =>
      match endpoints.mapM (stampEndpoint chain.sequence) with
      | none => .error .encodeEndpoint
      | some encoded =>
        if encoded ≠ [] ∧ ¬ isPrimaryChainKey chain then .error .secondaryAuthority
        else .ok encoded

def dnsPacketForAuthority (authority : LocalAuthority) (name : Name)
    (endpoints : List DquicEndpointAddr) : Except EncodeAuthorityDnsPacketError (List UInt8) :=
  (dnsEndpointsForAuthority authority name endpoints).map fun encoded =>
    (Packet.answer 0 [(name, encoded)]).toBytes

/-- `DNS_PACKET_LIMIT` of the H3 publisher. -/
def dnsPacketLimit : ℕ := 65535

section Stamped

omit [SubjectKey] [Crypto]

/-- A record that stands for an endpoint of the primary chain with this sequence. -/
structure Stamped (sequence : CertificateSequence) (endpoint : DquicEndpointAddr)
    (record : EndpointAddr) : Prop where
  publishable : record.Publishable
  isMain : record.isMain = true
  normalizedSequence : record.normalizedSequence = sequence
  converts : DquicEndpointAddr.tryFrom record = some endpoint

theorem stampEndpoint_spec {sequence : CertificateSequence} {endpoint : DquicEndpointAddr}
    {record : EndpointAddr} (h : stampEndpoint sequence endpoint = some record)
    (hp : endpoint.Plain) : Stamped sequence endpoint record := by
  obtain ⟨plain, hplain, rfl⟩ := Option.map_eq_some_iff.mp h
  obtain ⟨hwf, hsig, hconv⟩ := tryFrom_spec hplain hp
  refine ⟨⟨(hwf.setMain true).setSequence sequence, ?_⟩, ?_, ?_, ?_⟩
  · rw [setSequence_signature]
    exact hsig
  · rw [isMain_setSequence, isMain_setMain]
  · exact normalizedSequence_setSequence _ sequence
  · rw [tryFrom_setSequence]
    exact hconv

/-- Each endpoint is stamped, in order. -/
theorem forall₂_stamped {sequence : CertificateSequence} {endpoints : List DquicEndpointAddr}
    {records : List EndpointAddr} (h : endpoints.mapM (stampEndpoint sequence) = some records)
    (hp : ∀ endpoint ∈ endpoints, endpoint.Plain) :
    List.Forall₂ (Stamped sequence) endpoints records := by
  induction endpoints generalizing records with
  | nil =>
    rw [List.mapM_nil] at h
    obtain rfl := Option.some.inj h
    exact .nil
  | cons endpoint endpoints ih =>
    rw [List.mapM_cons] at h
    obtain ⟨record, hrecord, h⟩ := Option.bind_eq_some_iff.mp h
    obtain ⟨rest, hrest, h⟩ := Option.bind_eq_some_iff.mp h
    obtain rfl := Option.some.inj h
    exact .cons (stampEndpoint_spec hrecord (hp endpoint List.mem_cons_self))
      (ih hrest fun e he => hp e (List.mem_cons_of_mem _ he))

theorem Stamped.publishable_of_mem {sequence : CertificateSequence}
    {endpoints : List DquicEndpointAddr} {records : List EndpointAddr}
    (h : List.Forall₂ (Stamped sequence) endpoints records) {record : EndpointAddr}
    (hmem : record ∈ records) : record.Publishable := by
  induction h with
  | nil => exact absurd hmem List.not_mem_nil
  | cons hfirst _ ih =>
    rcases List.mem_cons.mp hmem with rfl | hmem
    · exact hfirst.publishable
    · exact ih hmem

end Stamped

/-- What a successful publication requires and gives. -/
theorem dnsEndpointsForAuthority_ok {authority : LocalAuthority} {name : Name}
    {endpoints : List DquicEndpointAddr} {encoded : List EndpointAddr}
    (h : dnsEndpointsForAuthority authority name endpoints = .ok encoded)
    (hp : ∀ endpoint ∈ endpoints, endpoint.Plain) :
    authority.name = name ∧ ∃ chain, SubjectKey.extract authority.certificates = .ok chain ∧
      List.Forall₂ (Stamped chain.sequence) endpoints encoded := by
  unfold dnsEndpointsForAuthority at h
  split at h
  · cases h
  rename_i hname
  refine ⟨not_not.mp hname, ?_⟩
  split at h
  · cases h
  rename_i chain hchain
  refine ⟨chain, hchain, ?_⟩
  split at h
  · cases h
  rename_i records hrecords
  split at h
  · cases h
  · obtain rfl := Except.ok.inj h
    exact forall₂_stamped hrecords hp

end Ddns
