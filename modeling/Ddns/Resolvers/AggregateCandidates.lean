import Ddns.Library.Futures
import Ddns.Mdns.Lookup
import Ddns.Resolvers.Merge

/-! The lookups for candidates that ask several resolvers at once and merge their answers. -/
namespace Ddns

open Futures

section Model

variable [DhttpHome] {Source Error : Type} [DecidableEq Source]

/-- An entry of `Resolvers`: its label, and what it will answer if it supports candidates. -/
structure ResolverEntry (Source Error : Type) where
  label : Name
  candidates : Option (Except Error (EndpointCandidates Source))

inductive CandidateError (Error : Type) where
  /-- `resolver does not support endpoint candidate lookup` -/
  | unsupported
  | lookup (error : Error)

structure CandidateState (Source Error : Type) where
  groups : List (EndpointCandidateGroup Source)
  succeeded : Bool
  errors : List (Name × CandidateError Error)

/-- One turn of the loop over the answers. -/
def CandidateState.completed (state : CandidateState Source Error) :
    Name × Except Error (EndpointCandidates Source) → CandidateState Source Error
  | (_, .ok candidates) =>
    { state with groups := mergeCandidates state.groups candidates.groups, succeeded := true }
  | (label, .error error) => { state with errors := state.errors ++ [(label, .lookup error)] }

namespace Resolvers

def pending (entries : List (ResolverEntry Source Error)) :
    List (Name × Except Error (EndpointCandidates Source)) :=
  entries.filterMap fun entry => entry.candidates.map fun answer => (entry.label, answer)

/-- These are refused before the others are awaited. -/
def unsupported (entries : List (ResolverEntry Source Error)) :
    List (Name × CandidateError Error) :=
  (entries.filter fun entry => entry.candidates.isNone).map fun entry => (entry.label, .unsupported)

/-- What `Resolvers::lookup_endpoint_candidates` may return. -/
def LookupEndpointCandidates (entries : List (ResolverEntry Source Error))
    (result : Except (List (Name × CandidateError Error)) (EndpointCandidates Source)) : Prop :=
  ∃ state, Drains CandidateState.completed (pending entries) ⟨[], false, unsupported entries⟩ state ∧
    result = if state.succeeded then .ok ⟨state.groups⟩ else .error state.errors

end Resolvers

inductive MdnsSetError (Error : Type) where
  | noResolversAvailable
  | lookup (error : MdnsLookupError Error)

structure MdnsCandidateState (Error : Type) where
  groups : List (EndpointCandidateGroup MdnsSource)
  lastError : Option (MdnsLookupError Error)

def MdnsCandidateState.completed (state : MdnsCandidateState Error) :
    Except (MdnsLookupError Error) (EndpointCandidates MdnsSource) → MdnsCandidateState Error
  | .ok candidates => { state with groups := mergeGroups state.groups candidates.groups }
  | .error error => { state with lastError := some error }

namespace MdnsResolverSet

variable [PkiTypes]

/-- The lookups of the resolvers of the family. -/
def pending (set : MdnsResolverSet) (query : MdnsInstance → Name → Except Error (List EndpointAddr))
    (name : Name) (lookup : EndpointLookup) :
    List (Except (MdnsLookupError Error) (EndpointCandidates MdnsSource)) :=
  (set.values.filter fun resolver => ∀ family ∈ lookup.family, resolver.family = family).map
    fun resolver => resolver.lookupEndpointCandidates (query resolver) name lookup

/-- What `MdnsResolverSet::candidates` may return. -/
def Candidates (set : MdnsResolverSet)
    (query : MdnsInstance → Name → Except Error (List EndpointAddr)) (name : Name)
    (lookup : EndpointLookup)
    (result : Except (MdnsSetError Error) (EndpointCandidates MdnsSource)) : Prop :=
  if set.pending query name lookup = [] then result = .error .noResolversAvailable
  else
    ∃ state, Drains MdnsCandidateState.completed (set.pending query name lookup) ⟨[], none⟩ state ∧
      result =
        if state.groups.isEmpty then .error (.lookup (state.lastError.getD .noRecordFound))
        else .ok ⟨state.groups⟩

end MdnsResolverSet

end Model

section Answers

/-- The answers of the lookups that did not fail. -/
def okAnswers {Error A : Type} (results : List (Except Error A)) : List A :=
  results.filterMap Except.toOption

variable [DhttpHome] {Source Error : Type} [DecidableEq Source]

theorem foldl_completed (order : List (Name × Except Error (EndpointCandidates Source)))
    (state : CandidateState Source Error) :
    (order.foldl CandidateState.completed state).groups =
        (okAnswers (order.map Prod.snd)).foldl
          (fun target answer => mergeCandidates target answer.groups) state.groups ∧
      ((order.foldl CandidateState.completed state).succeeded = true ↔
        state.succeeded = true ∨ okAnswers (order.map Prod.snd) ≠ []) := by
  induction order generalizing state with
  | nil => exact ⟨rfl, by simp [okAnswers]⟩
  | cons first order ih =>
    obtain ⟨label, answer⟩ := first
    obtain ⟨hgroups, hsucceeded⟩ := ih (state.completed (label, answer))
    rw [List.foldl_cons, hgroups, hsucceeded]
    cases answer with
    | ok candidates =>
      exact ⟨rfl, iff_of_true (Or.inl rfl) (Or.inr (List.cons_ne_nil _ _))⟩
    | error error => exact ⟨rfl, Iff.rfl⟩

theorem foldl_mdnsCompleted
    (order : List (Except (MdnsLookupError Error) (EndpointCandidates MdnsSource)))
    (state : MdnsCandidateState Error) :
    (order.foldl MdnsCandidateState.completed state).groups =
      (okAnswers order).foldl (fun target answer => mergeGroups target answer.groups)
        state.groups := by
  induction order generalizing state with
  | nil => rfl
  | cons answer order ih =>
    rw [List.foldl_cons, ih]
    cases answer with
    | ok candidates => rfl
    | error error => rfl

namespace Resolvers

/-- The candidates that are returned are those of all answers, merged in some order. -/
theorem lookupEndpointCandidates_ok_iff {entries : List (ResolverEntry Source Error)}
    {candidates : EndpointCandidates Source} :
    LookupEndpointCandidates entries (.ok candidates) ↔
      ∃ order : List (Name × Except Error (EndpointCandidates Source)),
        order.Perm (pending entries) ∧ okAnswers (order.map Prod.snd) ≠ [] ∧
          candidates.groups = mergeAnswers mergeCandidates (okAnswers (order.map Prod.snd)) := by
  unfold LookupEndpointCandidates
  simp only [drains_iff]
  constructor
  · rintro ⟨state, ⟨order, hperm, rfl⟩, hresult⟩
    obtain ⟨hgroups, hsucceeded⟩ := foldl_completed order ⟨[], false, unsupported entries⟩
    split at hresult
    · rename_i hok
      obtain rfl := Except.ok.inj hresult
      exact ⟨order, hperm, by simpa using hsucceeded.mp hok, hgroups⟩
    · cases hresult
  · rintro ⟨order, hperm, hne, hcandidates⟩
    obtain ⟨hgroups, hsucceeded⟩ := foldl_completed order ⟨[], false, unsupported entries⟩
    refine ⟨_, ⟨order, hperm, rfl⟩, ?_⟩
    rw [if_pos (hsucceeded.mpr (Or.inr hne)), hgroups]
    exact congrArg Except.ok (congrArg EndpointCandidates.mk hcandidates)

end Resolvers

namespace MdnsResolverSet

theorem candidates_ok_iff [PkiTypes] {set : MdnsResolverSet}
    {query : MdnsInstance → Name → Except Error (List EndpointAddr)} {name : Name}
    {lookup : EndpointLookup} {candidates : EndpointCandidates MdnsSource} :
    set.Candidates query name lookup (.ok candidates) ↔
      ∃ order : List (Except (MdnsLookupError Error) (EndpointCandidates MdnsSource)),
        order.Perm (set.pending query name lookup) ∧ candidates.groups ≠ [] ∧
          candidates.groups = mergeAnswers mergeGroups (okAnswers order) := by
  unfold Candidates
  simp only [drains_iff]
  constructor
  · intro h
    split at h
    · cases h
    · obtain ⟨state, ⟨order, hperm, rfl⟩, hresult⟩ := h
      split at hresult
      · cases hresult
      · rename_i hne
        obtain rfl := Except.ok.inj hresult
        exact ⟨order, hperm, by simpa using hne, foldl_mdnsCompleted order ⟨[], none⟩⟩
  · rintro ⟨order, hperm, hne, hcandidates⟩
    have hgroups : (order.foldl MdnsCandidateState.completed ⟨[], none⟩).groups =
        candidates.groups := (foldl_mdnsCompleted order ⟨[], none⟩).trans hcandidates.symm
    have hpending : set.pending query name lookup ≠ [] := by
      intro hnil
      rw [hnil] at hperm
      obtain rfl := hperm.eq_nil
      exact hne hcandidates
    rw [if_neg hpending]
    refine ⟨_, ⟨order, hperm, rfl⟩, ?_⟩
    rw [hgroups, if_neg (by simpa using hne)]

end MdnsResolverSet

end Answers

section Bounds

variable [DhttpHome] {Source Error : Type}

/-- The largest number of groups. -/
def SequenceQuery.most : SequenceQuery → Option ℕ
  | .default => some 3
  | .limit count => some count
  | .exact _ => none
  | .all => none

/-- The candidates keep to what was asked for. -/
structure Respects (lookup : EndpointLookup) (candidates : EndpointCandidates Source) : Prop where
  groups : ∀ count ∈ lookup.sequences.most, candidates.groups.length ≤ count
  records : ∀ count ∈ lookup.recordLimit, ∀ group ∈ candidates.groups,
    group.endpoints.length ≤ count
  sequence : ∀ sequence, lookup.sequences = .exact sequence → ∀ group ∈ candidates.groups,
    group.chain.sequence = sequence

/-- Each chain of the answers has one group. The numbers asked for hold for each of the answers,
and for each of the groups that became one; the sequence holds for all of them. -/
structure RespectsPerAnswer (lookup : EndpointLookup) (answers : List (EndpointCandidates Source))
    (candidates : EndpointCandidates Source) : Prop where
  chains : candidates.groups.length = ((answers.flatMap EndpointCandidates.groups).map
    EndpointCandidateGroup.chain).dedup.length
  groups : ∀ count ∈ lookup.sequences.most, candidates.groups.length ≤ count * answers.length
  records : ∀ count ∈ lookup.recordLimit, ∀ merged ∈ candidates.groups,
    merged.endpoints.length ≤ count * ((answers.flatMap EndpointCandidates.groups).filter
      fun group => group.chain = merged.chain).length
  sequence : ∀ sequence, lookup.sequences = .exact sequence → ∀ merged ∈ candidates.groups,
    merged.chain.sequence = sequence

theorem length_groups_le {count : ℕ} {answers : List (EndpointCandidates Source)}
    (h : ∀ answer ∈ answers, answer.groups.length ≤ count) :
    (answers.flatMap EndpointCandidates.groups).length ≤ count * answers.length := by
  induction answers with
  | nil => exact Nat.zero_le _
  | cons answer answers ih =>
    have hfirst := h answer List.mem_cons_self
    have hrest := ih fun other hother => h other (List.mem_cons_of_mem _ hother)
    rw [List.flatMap_cons, List.length_append, List.length_cons, Nat.mul_add]
    omega

variable [DecidableEq Source]

/-- Merging, in any order, answers that keep to what was asked for. -/
theorem respectsPerAnswer_merge {lookup : EndpointLookup}
    {answers order : List (EndpointCandidates Source)} (hperm : order.Perm answers)
    (h : ∀ answer ∈ answers, Respects lookup answer) :
    RespectsPerAnswer lookup answers ⟨mergeAnswers mergeInto order⟩ := by
  have hflat : (order.flatMap EndpointCandidates.groups).Perm
      (answers.flatMap EndpointCandidates.groups) := hperm.flatMap_right _
  have hchains : (mergeAnswers mergeInto order).length =
      ((answers.flatMap EndpointCandidates.groups).map
        EndpointCandidateGroup.chain).dedup.length :=
    (mergeOf_answers order).length_eq.trans (hflat.map _).dedup.length_eq
  have hrespects : ∀ group, (∃ answer ∈ order, group ∈ answer.groups) →
      ∃ answer, Respects lookup answer ∧ group ∈ answer.groups := by
    rintro group ⟨answer, hanswer, hgroup⟩
    exact ⟨answer, h answer (hperm.subset hanswer), hgroup⟩
  refine ⟨hchains, ?_, ?_, ?_⟩
  · intro count hcount
    have hflatMap := length_groups_le fun answer hanswer => (h answer hanswer).groups count hcount
    have hdedup := ((answers.flatMap EndpointCandidates.groups).map
      EndpointCandidateGroup.chain).dedup_sublist.length_le
    rw [List.length_map] at hdedup
    exact hchains.trans_le (hdedup.trans hflatMap)
  · intro count hcount merged hmerged
    obtain ⟨first, rest, hgroups, hfilter, hendpoints, _⟩ := mem_mergeAnswers hmerged
    have hlength : ∀ group ∈ first :: rest, group.endpoints.length ≤ count := by
      intro group hgroup
      obtain ⟨answer, hanswer, hin⟩ := hrespects group ((hgroups group).mp hgroup).1
      exact hanswer.records count hcount group hin
    have hcons : ((answers.flatMap EndpointCandidates.groups).filter
        fun group => group.chain = merged.chain).length = rest.length + 1 := by
      rw [← (hflat.filter _).length_eq, hfilter, List.length_cons]
    have hunion := Merging.length_foldl_union_le (hlength first List.mem_cons_self)
      (List.forall_mem_map.mpr fun group hgroup => hlength group (List.mem_cons_of_mem _ hgroup))
    rw [List.length_map] at hunion
    rw [hendpoints, hcons]
    exact hunion
  · intro sequence hsequence merged hmerged
    obtain ⟨first, rest, hgroups, _⟩ := mem_mergeAnswers hmerged
    obtain ⟨hfirst, hchain⟩ := (hgroups first).mp List.mem_cons_self
    obtain ⟨answer, hanswer, hin⟩ := hrespects first hfirst
    rw [← hchain]
    exact hanswer.sequence sequence hsequence first hin

/-- One source keeps to what was asked for. -/
theorem respects_candidateGroups (source : Source) (records : List EndpointAddr)
    (lookup : EndpointLookup) :
    Respects lookup (candidateGroups (records.map fun record => ⟨source, record, none⟩) lookup) := by
  refine ⟨?_, ?_, ?_⟩
  · intro count hcount
    rw [candidateGroups_tagged, List.length_map]
    cases hsequences : lookup.sequences with
    | default =>
      rw [hsequences] at hcount
      obtain rfl := Option.some_inj.mp hcount
      exact List.length_take_le 3 _
    | limit limit =>
      rw [hsequences] at hcount
      obtain rfl := Option.some_inj.mp hcount
      exact List.length_take_le limit _
    | exact sequence =>
      rw [hsequences] at hcount
      cases hcount
    | all =>
      rw [hsequences] at hcount
      cases hcount
  · intro count hcount group hgroup
    rw [candidateGroups_tagged] at hgroup
    obtain ⟨g, _, rfl⟩ := List.mem_map.mp hgroup
    rw [hcount]
    exact List.length_take_le count _
  · intro sequence hsequence group hgroup
    rw [candidateGroups_tagged, hsequence] at hgroup
    obtain ⟨g, hg, rfl⟩ := List.mem_map.mp hgroup
    exact of_decide_eq_true (List.mem_filter.mp hg).2

theorem MdnsInstance.respects_candidates [PkiTypes] {resolver : MdnsInstance}
    {query : Name → Except Error (List EndpointAddr)} {name domain : Name}
    {sequence : Option CertificateSequence} {lookup : EndpointLookup}
    {candidates : EndpointCandidates MdnsSource}
    (hname : mdnsLookupParts name = some (domain, sequence))
    (h : resolver.lookupEndpointCandidates query name lookup = .ok candidates) :
    Respects (exactOverride lookup sequence) candidates := by
  rw [MdnsInstance.lookupEndpointCandidates, hname] at h
  dsimp only at h
  split at h
  · cases h
  · obtain rfl := Except.ok.inj h
    exact respects_candidateGroups _ _ _

/-- The candidates of several resolvers keep to the sequence asked for, and to the numbers as often
as resolvers have answered. -/
theorem merged_candidates_bounded [PkiTypes] (lookup : EndpointLookup) :
    (∀ (entries : List (ResolverEntry Source Error)) (candidates : EndpointCandidates Source),
      (∀ answer ∈ okAnswers ((Resolvers.pending entries).map Prod.snd), Respects lookup answer) →
      Resolvers.LookupEndpointCandidates entries (.ok candidates) →
      RespectsPerAnswer lookup (okAnswers ((Resolvers.pending entries).map Prod.snd)) candidates) ∧
    ∀ (set : MdnsResolverSet) (query : MdnsInstance → Name → Except Error (List EndpointAddr))
        (name : Name) (candidates : EndpointCandidates MdnsSource),
      (∀ answer ∈ okAnswers (set.pending query name lookup), Respects lookup answer) →
      set.Candidates query name lookup (.ok candidates) →
      RespectsPerAnswer lookup (okAnswers (set.pending query name lookup)) candidates := by
  constructor
  · intro entries candidates hrespects hreturned
    obtain ⟨order, hperm, _, hgroups⟩ := Resolvers.lookupEndpointCandidates_ok_iff.mp hreturned
    obtain rfl : candidates = ⟨mergeAnswers mergeInto (okAnswers (order.map Prod.snd))⟩ :=
      congrArg EndpointCandidates.mk hgroups
    exact respectsPerAnswer_merge ((hperm.map Prod.snd).filterMap _) hrespects
  · intro set query name candidates hrespects hreturned
    obtain ⟨order, hperm, _, hgroups⟩ := MdnsResolverSet.candidates_ok_iff.mp hreturned
    obtain rfl : candidates = ⟨mergeAnswers mergeInto (okAnswers order)⟩ :=
      congrArg EndpointCandidates.mk hgroups
    exact respectsPerAnswer_merge (hperm.filterMap _) hrespects

end Bounds

section Sample

attribute [local instance] plainHome plainPki

/-- One group with one endpoint. -/
def sampleLookup : EndpointLookup := (EndpointLookup.limit 1).withRecordLimit 1

def sampleAnswer (ip : UInt32) : EndpointCandidates ℕ :=
  ⟨[⟨primaryChainKey (.ofU8 1), [.direct (.v4 ⟨ip, 443⟩)], [0]⟩]⟩

def sampleEntries : List (ResolverEntry ℕ Unit) :=
  [⟨['a'], some (.ok (sampleAnswer 1))⟩, ⟨['b'], none⟩, ⟨['c'], some (.ok (sampleAnswer 2))⟩]

def sampleSet : MdnsResolverSet :=
  { MdnsResolverSet.new ['s'] with
    resolvers := ((∅ : AList fun _ : MdnsBinding => MdnsInstance).insert ⟨['e'], .v6 1⟩
      ⟨0, ['e'], .v6 1⟩).insert ⟨['f'], .v6 2⟩ ⟨1, ['f'], .v6 2⟩ }

/-- Each of the two resolvers finds a chain of its own. -/
def sampleSetQuery (resolver : MdnsInstance) (_ : Name) : Except Unit (List EndpointAddr) :=
  .ok [sampleRecord (if resolver.id = 0 then 1 else 2) .v6]

theorem sampleAnswer_respects (ip : UInt32) : Respects sampleLookup (sampleAnswer ip) := by
  refine ⟨?_, ?_, ?_⟩
  · intro count hcount
    obtain rfl := Option.some_inj.mp hcount
    exact Nat.le_refl 1
  · intro count hcount group hgroup
    obtain rfl := Option.some_inj.mp hcount
    obtain rfl := List.mem_singleton.mp hgroup
    exact Nat.le_refl 1
  · intro sequence hsequence
    cases hsequence

theorem sampleEntries_respect {answer : EndpointCandidates ℕ}
    (h : answer ∈ okAnswers ((Resolvers.pending sampleEntries).map Prod.snd)) :
    Respects sampleLookup answer := by
  have hanswers : okAnswers ((Resolvers.pending sampleEntries).map Prod.snd) =
      [sampleAnswer 1, sampleAnswer 2] := rfl
  rw [hanswers] at h
  rcases List.mem_pair.mp h with rfl | rfl
  · exact sampleAnswer_respects 1
  · exact sampleAnswer_respects 2

theorem sampleSet_respects {answer : EndpointCandidates MdnsSource}
    (h : answer ∈ okAnswers (sampleSet.pending sampleSetQuery sampleName sampleLookup)) :
    Respects sampleLookup answer := by
  have hname : mdnsLookupParts sampleName = some (sampleName, none) := by decide
  obtain ⟨result, hresult, hok⟩ := List.mem_filterMap.mp h
  obtain ⟨resolver, _, rfl⟩ := List.mem_map.mp hresult
  cases hanswer : resolver.lookupEndpointCandidates (sampleSetQuery resolver) sampleName
      sampleLookup with
  | error error =>
    rw [hanswer] at hok
    cases hok
  | ok candidates =>
    rw [hanswer] at hok
    obtain rfl := Option.some_inj.mp hok
    exact MdnsInstance.respects_candidates hname hanswer

theorem sampleEntries_returned : Resolvers.LookupEndpointCandidates sampleEntries
    (.ok ⟨mergeAnswers mergeCandidates [sampleAnswer 1, sampleAnswer 2]⟩) :=
  Resolvers.lookupEndpointCandidates_ok_iff.mpr
    ⟨_, List.Perm.refl _, List.cons_ne_nil _ _, rfl⟩

theorem sampleSet_chains : (mergeAnswers mergeGroups (okAnswers (sampleSet.pending sampleSetQuery
    sampleName sampleLookup))).map EndpointCandidateGroup.chain =
      [primaryChainKey (.ofU8 2), primaryChainKey (.ofU8 1)] := by
  decide

theorem sampleSet_returned : sampleSet.Candidates sampleSetQuery sampleName sampleLookup
    (.ok ⟨mergeAnswers mergeGroups (okAnswers (sampleSet.pending sampleSetQuery sampleName
      sampleLookup))⟩) := by
  refine MdnsResolverSet.candidates_ok_iff.mpr ⟨_, List.Perm.refl _, ?_, rfl⟩
  intro hnil
  have hchains := (congrArg (List.map EndpointCandidateGroup.chain) hnil).symm.trans sampleSet_chains
  cases hchains

/-- Two resolvers that answer, of three, and a set of two resolvers. -/
theorem merged_candidates_bounded_two :
    RespectsPerAnswer sampleLookup (okAnswers ((Resolvers.pending sampleEntries).map Prod.snd))
        ⟨mergeAnswers mergeCandidates [sampleAnswer 1, sampleAnswer 2]⟩ ∧
      RespectsPerAnswer sampleLookup
        (okAnswers (sampleSet.pending sampleSetQuery sampleName sampleLookup))
        ⟨mergeAnswers mergeGroups (okAnswers (sampleSet.pending sampleSetQuery sampleName
          sampleLookup))⟩ :=
  ⟨(merged_candidates_bounded sampleLookup).1 sampleEntries _ (fun _ => sampleEntries_respect)
      sampleEntries_returned,
    (@merged_candidates_bounded _ ℕ _ _ _ sampleLookup).2 sampleSet sampleSetQuery sampleName _
      (fun _ => sampleSet_respects) sampleSet_returned⟩

/-- One endpoint was asked for and one group, and two of each are returned. -/
theorem merged_candidates_exceed_limits :
    (∃ candidates,
      (∀ answer ∈ okAnswers ((Resolvers.pending sampleEntries).map Prod.snd),
        Respects sampleLookup answer) ∧
      Resolvers.LookupEndpointCandidates sampleEntries (.ok candidates) ∧
      ¬ Respects sampleLookup candidates) ∧
    ∃ candidates,
      (∀ answer ∈ okAnswers (sampleSet.pending sampleSetQuery sampleName sampleLookup),
        Respects sampleLookup answer) ∧
      sampleSet.Candidates sampleSetQuery sampleName sampleLookup (.ok candidates) ∧
      ¬ Respects sampleLookup candidates := by
  refine ⟨⟨_, fun _ => sampleEntries_respect, sampleEntries_returned, ?_⟩,
    ⟨_, fun _ => sampleSet_respects, sampleSet_returned, ?_⟩⟩
  · intro hrespects
    have hone := hrespects.records 1 rfl _ List.mem_cons_self
    exact absurd hone (by decide)
  · intro hrespects
    have hone := hrespects.groups 1 rfl
    have htwo := congrArg List.length sampleSet_chains
    rw [List.length_map] at htwo
    exact absurd (htwo.symm.trans_le hone) (by decide)

end Sample

end Ddns
