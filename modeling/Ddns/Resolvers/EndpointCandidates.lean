import Mathlib.Data.PNat.Basic
import Ddns.Core.Endpoint

/-! Endpoint candidates, grouped by the certificate chain of their publisher. -/
namespace Ddns

inductive Family where
  | v4
  | v6
  deriving DecidableEq

variable [DhttpHome]

inductive SequenceQuery where
  | default
  | exact (sequence : CertificateSequence)
  | limit (count : ℕ+)
  | all
  deriving DecidableEq

structure EndpointLookup where
  sequences : SequenceQuery
  recordLimit : Option ℕ+
  family : Option Family
  deriving DecidableEq

namespace EndpointLookup

def default : EndpointLookup := ⟨.default, none, none⟩

def exact (sequence : CertificateSequence) : EndpointLookup := ⟨.exact sequence, none, none⟩

def limit (count : ℕ+) : EndpointLookup := ⟨.limit count, none, none⟩

def all : EndpointLookup := ⟨.all, none, none⟩

def withRecordLimit (lookup : EndpointLookup) (count : ℕ+) : EndpointLookup :=
  { lookup with recordLimit := some count }

def withFamily (lookup : EndpointLookup) (family : Option Family) : EndpointLookup :=
  { lookup with family := family }

end EndpointLookup

/-- `Source` stays a parameter: only equality of sources is ever used. -/
structure EndpointCandidateGroup (Source : Type) where
  chain : CertificateChainKey
  endpoints : List DquicEndpointAddr
  sources : List Source
  deriving DecidableEq

structure EndpointCandidates (Source : Type) where
  groups : List (EndpointCandidateGroup Source)
  deriving DecidableEq

/-- The groups with a tag on each endpoint. -/
abbrev EndpointCandidateGroups (T : Type) := List (CertificateChainKey × List (T × DquicEndpointAddr))

structure TaggedEndpointCandidate (T : Type) where
  tag : T
  record : EndpointAddr
  fallbackChainKey : Option CertificateChainKey

/-- The address whose family counts; both addresses of a candidate are of one family. -/
def DquicEndpointAddr.addr : DquicEndpointAddr → SocketAddr
  | .direct addr => addr
  | .mediate _ outer => outer

omit [DhttpHome] in
def endpointMatchesFamily (endpoint : DquicEndpointAddr) : Option Family → Bool
  | none => true
  | some .v4 => !endpoint.addr.isV6
  | some .v6 => endpoint.addr.isV6

section Groups

variable {T : Type}

/-- Groups that the filter empties are dropped. -/
def filterEndpointCandidateGroups (groups : EndpointCandidateGroups T) (family : Option Family) :
    EndpointCandidateGroups T :=
  if family.isSome then
    (groups.map fun group =>
      (group.1, group.2.filter fun item => endpointMatchesFamily item.2 family)).filter
        fun group => !group.2.isEmpty
  else groups

def selectGroupPairs (groups : List (CertificateChainKey × T)) (query : SequenceQuery) :
    List (CertificateChainKey × T) :=
  match query with
  | .default => groups.take 3
  | .exact sequence => groups.filter fun group => group.1.sequence = sequence
  | .limit limit => groups.take limit
  | .all => groups

/-- A record that carries its own identity is not given another one. -/
def effectiveChainKey (record : EndpointAddr) (fallbackChainKey : Option CertificateChainKey) :
    CertificateChainKey :=
  if record.isMain ∨ record.sequence.isSome then record.certificateChainKey
  else fallbackChainKey.getD record.certificateChainKey

/-- The endpoint goes to the group of its key, or to a new group at the end. -/
def pushEndpoint (chainKey : CertificateChainKey) (item : T × DquicEndpointAddr) :
    EndpointCandidateGroups T → EndpointCandidateGroups T
  | [] => [(chainKey, [item])]
  | group :: groups =>
    if group.1 = chainKey then (group.1, group.2 ++ [item]) :: groups
    else group :: pushEndpoint chainKey item groups

/-- One turn of the loop: records of other chains and records without an endpoint are skipped. -/
def addCandidate (groups : EndpointCandidateGroups T) (candidate : TaggedEndpointCandidate T) :
    EndpointCandidateGroups T :=
  let chainKey := effectiveChainKey candidate.record candidate.fallbackChainKey
  if isPrimaryChainKey chainKey then
    match DquicEndpointAddr.tryFrom candidate.record with
    | none => groups
    | some endpoint => pushEndpoint chainKey (candidate.tag, endpoint) groups
  else groups

def groupedEndpointCandidates (records : List (TaggedEndpointCandidate T)) :
    EndpointCandidateGroups T :=
  records.foldl addCandidate []

/-- The candidate is usable, with this chain and this endpoint. -/
structure TaggedEndpointCandidate.Usable (candidate : TaggedEndpointCandidate T)
    (chain : CertificateChainKey) (endpoint : DquicEndpointAddr) : Prop where
  chainKey : effectiveChainKey candidate.record candidate.fallbackChainKey = chain
  primary : isPrimaryChainKey chain = true
  converts : DquicEndpointAddr.tryFrom candidate.record = some endpoint

theorem addCandidate_usable {groups : EndpointCandidateGroups T}
    {candidate : TaggedEndpointCandidate T} {chain : CertificateChainKey}
    {endpoint : DquicEndpointAddr} (h : candidate.Usable chain endpoint) :
    addCandidate groups candidate = pushEndpoint chain (candidate.tag, endpoint) groups := by
  simp only [addCandidate, h.chainKey, h.primary, if_true, h.converts]

/-- Candidates of a chain that has a group already are added to it, in their order. -/
theorem foldl_addCandidate_of_one_chain {chain : CertificateChainKey}
    {candidates : List (TaggedEndpointCandidate T)} {endpoints : List DquicEndpointAddr}
    (h : List.Forall₂ (fun candidate endpoint => candidate.Usable chain endpoint) candidates
      endpoints) (items : List (T × DquicEndpointAddr)) :
    candidates.foldl addCandidate [(chain, items)] =
      [(chain, items ++ (candidates.map TaggedEndpointCandidate.tag).zip endpoints)] := by
  induction h generalizing items with
  | nil => simp
  | cons hfirst _ ih =>
    rw [List.foldl_cons, addCandidate_usable hfirst, pushEndpoint, if_pos rfl, ih]
    simp

theorem grouped_of_one_chain {chain : CertificateChainKey}
    {candidates : List (TaggedEndpointCandidate T)} {endpoints : List DquicEndpointAddr}
    (h : List.Forall₂ (fun candidate endpoint => candidate.Usable chain endpoint) candidates
      endpoints) (hne : endpoints ≠ []) :
    groupedEndpointCandidates candidates =
      [(chain, (candidates.map TaggedEndpointCandidate.tag).zip endpoints)] := by
  cases h with
  | nil => exact absurd rfl hne
  | cons hfirst hrest =>
    rw [groupedEndpointCandidates, List.foldl_cons, addCandidate_usable hfirst, pushEndpoint,
      foldl_addCandidate_of_one_chain hrest]
    simp

end Groups

end Ddns
