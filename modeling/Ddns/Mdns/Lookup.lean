import Ddns.Library.Distinct
import Ddns.Mdns.ResolverSet
import Ddns.Resolvers.EndpointGroup
import Ddns.Resolvers.LookupName

/-! The two lookups of an mDNS resolver: the plain one and the one for candidates. -/
namespace Ddns

open Distinct

section Names

variable [PkiTypes]

def authorityHost (name : Name) : Name := (splitDigits name).elim name Prod.fst

def dhttpDnsSuffix : Name := ['d', 'h', 't', 't', 'p', '.', 'n', 'e', 't']

def localMdnsSuffix : Name := ['l', 'o', 'c', 'a', 'l']

/-- Names of dhttp may ask for a sequence, local ones may not. -/
def mdnsLookupParts [DhttpHome] (name : Name) : Option (Name × Option CertificateSequence) :=
  let authority := authorityHost name
  let host := if authority.getLast? = some '.' then authority.dropLast else authority
  (resolvableName host).bind fun host =>
    if Text.eqIgnoreAsciiCase host dhttpDnsSuffix ∨
        ('.' :: dhttpDnsSuffix) <:+ Text.toAsciiLowercase host then
      endpointLookupNameAndSequence name
    else if ('.' :: localMdnsSuffix) <:+ Text.toAsciiLowercase host ∧
        localMdnsSuffix.length < (Utf8.encode host).length then
      some (host, none)
    else none

end Names

section Model

variable [DhttpHome] {Source Error : Type}

/-- `Source::Mdns` -/
structure MdnsSource where
  nic : Name
  family : Family
  deriving DecidableEq

inductive MdnsLookupError (Error : Type) where
  | noRecordFound
  | query (error : Error)

def MdnsInstance.family (resolver : MdnsInstance) : Family :=
  match resolver.boundIp with
  | .v4 _ => .v4
  | .v6 _ => .v6

def MdnsInstance.source (resolver : MdnsInstance) : MdnsSource :=
  ⟨resolver.boundDevice, resolver.family⟩

/-- What is streamed of the records that a query returned. -/
def streamedEndpoints (source : Source) (records : List EndpointAddr)
    (sequence : Option CertificateSequence) (family : Option Family) :
    List (Source × DquicEndpointAddr) :=
  ((selectedEndpointAddrsForSequence records sequence).filter fun endpoint =>
    endpointMatchesFamily endpoint family).map fun endpoint => (source, endpoint)

/-- Nothing is asked for another family than that of the resolver. -/
def MdnsInstance.lookup [PkiTypes] (resolver : MdnsInstance)
    (query : Name → Except Error (List EndpointAddr)) (hostname : Name) (family : Option Family) :
    Except (MdnsLookupError Error) (List (MdnsSource × DquicEndpointAddr)) :=
  if ∃ f ∈ family, f ≠ resolver.family then .ok []
  else
    match mdnsLookupParts hostname with
    | none => .error .noRecordFound
    | some (domain, sequence) =>
      match query domain with
      | .error error => .error (.query error)
      | .ok records => .ok (streamedEndpoints resolver.source records sequence family)

variable [DecidableEq Source]

/-- One turn of the loop over the endpoints of a group. -/
def collectItem (limit : Option ℕ+) (out : List Source × List DquicEndpointAddr)
    (item : Source × DquicEndpointAddr) : List Source × List DquicEndpointAddr :=
  (addNew none out.1 item.1, addNew (limit.map PNat.val) out.2 item.2)

def candidateGroups (records : List (TaggedEndpointCandidate Source)) (lookup : EndpointLookup) :
    EndpointCandidates Source :=
  let selected := selectGroupPairs
    (filterEndpointCandidateGroups (groupedEndpointCandidates records) lookup.family) lookup.sequences
  let collected := selected.map fun group =>
    let out := group.2.foldl (collectItem lookup.recordLimit) ([], [])
    (⟨group.1, out.2, out.1⟩ : EndpointCandidateGroup Source)
  ⟨collected.filter fun group => !group.endpoints.isEmpty⟩

/-- The candidates of the records that a query returned. -/
def queriedCandidates (source : Source) (records : List EndpointAddr)
    (sequence : Option CertificateSequence) (lookup : EndpointLookup) : EndpointCandidates Source :=
  candidateGroups (records.map fun record => ⟨source, record, none⟩) (exactOverride lookup sequence)

def MdnsInstance.lookupEndpointCandidates [PkiTypes] (resolver : MdnsInstance)
    (query : Name → Except Error (List EndpointAddr)) (name : Name) (lookup : EndpointLookup) :
    Except (MdnsLookupError Error) (EndpointCandidates MdnsSource) :=
  match mdnsLookupParts name with
  | none => .error .noRecordFound
  | some (domain, sequence) =>
    match query domain with
    | .error error => .error (.query error)
    | .ok records => .ok (queriedCandidates resolver.source records sequence lookup)

/-- What is streamed is the first group of candidates, and nothing only if there is none. -/
def Agrees (streamed : List (Source × DquicEndpointAddr)) (candidates : EndpointCandidates Source) :
    Prop :=
  (streamed.map Prod.snd).eraseDups =
      (candidates.groups.head?.map EndpointCandidateGroup.endpoints).getD [] ∧
    (streamed = [] → candidates.groups = [])

/-- If any record that counts has an endpoint of the family, then the family is that of the
resolver and one of the first chain has such an endpoint. -/
def FirstChainServes (own : Family) (records : List EndpointAddr)
    (sequence : Option CertificateSequence) (family : Option Family) : Prop :=
  ∀ u ∈ usableOf records sequence, endpointMatchesFamily u.2 family = true →
    (∀ f ∈ family, f = own) ∧
      ∃ first ∈ (usableOf records sequence).head?, ∃ v ∈ usableOf records sequence,
        v.1 = first.1 ∧ endpointMatchesFamily v.2 family = true

end Model

section Collect

variable {Source : Type} [DecidableEq Source]

theorem foldl_collectItem (limit : Option ℕ+) (items : List (Source × DquicEndpointAddr))
    (out : List Source × List DquicEndpointAddr) :
    items.foldl (collectItem limit) out =
      ((items.map Prod.fst).foldl (addNew none) out.1,
        (items.map Prod.snd).foldl (addNew (limit.map PNat.val)) out.2) := by
  induction items generalizing out with
  | nil => rfl
  | cons item items ih =>
    rw [List.foldl_cons, ih]
    rfl

theorem eraseDups_tags (tag : Source) {endpoints : List DquicEndpointAddr} (hne : endpoints ≠ []) :
    ((endpoints.map fun endpoint => (tag, endpoint)).map Prod.fst).eraseDups = [tag] := by
  obtain ⟨first, rest, rfl⟩ := List.exists_cons_of_ne_nil hne
  rw [List.map_cons, List.map_cons, List.eraseDups_cons]
  simp

theorem upTo_ne_nil {limit : Option ℕ+} {endpoints : List DquicEndpointAddr}
    (hne : endpoints ≠ []) : upTo (limit.map PNat.val) endpoints.eraseDups ≠ [] := by
  obtain ⟨first, rest, rfl⟩ := List.exists_cons_of_ne_nil hne
  rw [List.eraseDups_cons]
  cases limit with
  | none => exact List.cons_ne_nil _ _
  | some count =>
    intro hnil
    rcases List.take_eq_nil_iff.mp hnil with hzero | hcons
    · exact count.ne_zero hzero
    · cases hcons

end Collect

section Candidates

variable [DhttpHome] {Source : Type}

/-- The endpoints of the family in each chain that has one. -/
def wantedGroups (us : List (CertificateChainKey × DquicEndpointAddr)) (family : Option Family) :
    List (CertificateChainKey × List DquicEndpointAddr) :=
  ((Grouping.group us).map fun g => (g.1, g.2.filter fun endpoint =>
    endpointMatchesFamily endpoint family)).filter fun g => !g.2.isEmpty

variable {us : List (CertificateChainKey × DquicEndpointAddr)} {family : Option Family}

theorem group_ne_nil {g : CertificateChainKey × List DquicEndpointAddr}
    (h : g ∈ Grouping.group us) : g.2 ≠ [] := by
  have hgroups := Grouping.groupsOf_group us
  obtain ⟨u, hu, hkey⟩ := List.mem_map.mp ((hgroups.keys g.1).mp (List.mem_map_of_mem h))
  have hmem : u.2 ∈ g.2 := by
    rw [hgroups.items g h]
    exact List.mem_map_of_mem (List.mem_filter.mpr ⟨hu, decide_eq_true hkey⟩)
  exact List.ne_nil_of_mem hmem

theorem wantedGroups_none (us : List (CertificateChainKey × DquicEndpointAddr)) :
    wantedGroups us none = Grouping.group us := by
  have hmap : ((Grouping.group us).map fun g => (g.1, g.2.filter fun endpoint =>
      endpointMatchesFamily endpoint none)) = Grouping.group us := by
    simp [endpointMatchesFamily]
  rw [wantedGroups, hmap, List.filter_eq_self]
  intro g hg
  simpa using group_ne_nil hg

/-- The filter by family does not look at the tags. -/
theorem filterGroups_tagged (tag : Source) :
    filterEndpointCandidateGroups ((Grouping.group us).map fun g =>
        (g.1, g.2.map fun endpoint => (tag, endpoint))) family =
      (wantedGroups us family).map fun g => (g.1, g.2.map fun endpoint => (tag, endpoint)) := by
  cases family with
  | none =>
    rw [wantedGroups_none]
    rfl
  | some family =>
    rw [filterEndpointCandidateGroups, Option.isSome_some, if_pos rfl, wantedGroups, List.map_map,
      List.filter_map, List.filter_map, List.map_map]
    simp only [Function.comp_def, List.filter_map, List.isEmpty_map]

theorem wantedGroups_filter (p : CertificateChainKey → Bool) :
    (wantedGroups us family).filter (fun g => p g.1) =
      wantedGroups (us.filter fun u => p u.1) family := by
  rw [wantedGroups, wantedGroups, ← Grouping.group_filter, List.filter_filter, List.filter_map,
    List.filter_map, List.filter_filter]
  simp only [Function.comp_def, Bool.and_comm]

theorem selectGroupPairs_map {A B : Type} (f : A → B) (groups : List (CertificateChainKey × A))
    (query : SequenceQuery) :
    selectGroupPairs (groups.map fun g => (g.1, f g.2)) query =
      (selectGroupPairs groups query).map fun g => (g.1, f g.2) := by
  cases query with
  | default => exact List.map_take.symm
  | exact sequence =>
    rw [selectGroupPairs, List.filter_map]
    rfl
  | limit count => exact List.map_take.symm
  | all => rfl

variable [DecidableEq Source]

/-- The candidates of records from one source. -/
theorem candidateGroups_tagged (source : Source) (records : List EndpointAddr)
    (lookup : EndpointLookup) :
    (candidateGroups (records.map fun record => ⟨source, record, none⟩) lookup).groups =
      (selectGroupPairs (wantedGroups (records.filterMap EndpointAddr.usable) lookup.family)
        lookup.sequences).map fun g =>
          ⟨g.1, upTo (lookup.recordLimit.map PNat.val) g.2.eraseDups, [source]⟩ := by
  have hne : ∀ g ∈ selectGroupPairs
      (wantedGroups (records.filterMap EndpointAddr.usable) lookup.family) lookup.sequences,
      g.2 ≠ [] := by
    intro g hg
    have hwanted := (selectGroupPairs_sublist _ _).subset hg
    simpa using (List.mem_filter.mp hwanted).2
  rw [candidateGroups, grouped_tagged, filterGroups_tagged, selectGroupPairs_map]
  dsimp only
  rw [List.map_map]
  have hmap : ∀ g ∈ selectGroupPairs
      (wantedGroups (records.filterMap EndpointAddr.usable) lookup.family) lookup.sequences,
      ((fun group : CertificateChainKey × List (Source × DquicEndpointAddr) =>
        (⟨group.1, (group.2.foldl (collectItem lookup.recordLimit) ([], [])).2,
          (group.2.foldl (collectItem lookup.recordLimit) ([], [])).1⟩ :
          EndpointCandidateGroup Source)) ∘ fun g => (g.1, g.2.map fun e => (source, e))) g =
        ⟨g.1, upTo (lookup.recordLimit.map PNat.val) g.2.eraseDups, [source]⟩ := by
    intro g hg
    simp only [Function.comp_apply, foldl_collectItem, foldl_addNew_nil]
    rw [eraseDups_tags source (hne g hg), List.map_map]
    simp [upTo, Function.comp_def]
  rw [List.map_congr_left hmap, List.filter_eq_self]
  intro group hgroup
  obtain ⟨g, hg, rfl⟩ := List.mem_map.mp hgroup
  simpa using upTo_ne_nil (hne g hg)

/-- No chain is wanted exactly when no endpoint is of the family. -/
theorem wantedGroups_eq_nil_iff :
    wantedGroups us family = [] ↔ ∀ u ∈ us, ¬ endpointMatchesFamily u.2 family = true := by
  have hgroups := Grouping.groupsOf_group us
  rw [wantedGroups, List.filter_eq_nil_iff, List.forall_mem_map]
  constructor
  · intro h u hu hmatches
    obtain ⟨g, hg, hkey⟩ := List.mem_map.mp ((hgroups.keys u.1).mpr (List.mem_map_of_mem hu))
    have hmem : u.2 ∈ g.2 := by
      rw [hgroups.items g hg]
      exact List.mem_map_of_mem (List.mem_filter.mpr ⟨hu, decide_eq_true hkey.symm⟩)
    have hkept : u.2 ∈ g.2.filter fun endpoint => endpointMatchesFamily endpoint family :=
      List.mem_filter.mpr ⟨hmem, hmatches⟩
    have hne := List.ne_nil_of_mem hkept
    exact h g hg (by simpa using hne)
  · intro h g hg hne
    obtain ⟨endpoint, hendpoint⟩ := List.exists_mem_of_ne_nil (g.2.filter fun endpoint =>
      endpointMatchesFamily endpoint family) (by simpa using hne)
    obtain ⟨hmem, hmatches⟩ := List.mem_filter.mp hendpoint
    rw [hgroups.items g hg] at hmem
    obtain ⟨u, hu, rfl⟩ := List.mem_map.mp hmem
    exact h u (List.mem_filter.mp hu).1 hmatches

/-- The candidates of a lookup that only asks for the family. -/
theorem queriedCandidates_family (source : Source) (records : List EndpointAddr)
    (sequence : Option CertificateSequence) (family : Option Family) :
    ((queriedCandidates source records sequence
        (EndpointLookup.default.withFamily family)).groups.head? =
      (wantedGroups (usableOf records sequence) family).head?.map fun g =>
        ⟨g.1, g.2.eraseDups, [source]⟩) ∧
    ((queriedCandidates source records sequence
        (EndpointLookup.default.withFamily family)).groups = [] ↔
      wantedGroups (usableOf records sequence) family = []) := by
  rw [queriedCandidates, candidateGroups_tagged]
  cases sequence with
  | none =>
    have hall : usableOf records none = records.filterMap EndpointAddr.usable := by
      simp [usableOf]
    rw [hall]
    constructor
    · rw [List.head?_map]
      exact congrArg _ (List.head?_take.trans (if_neg (by decide)))
    · rw [List.map_eq_nil_iff]
      exact List.take_eq_nil_iff.trans (or_iff_right (by decide))
  | some sequence =>
    have hfilter : (wantedGroups (records.filterMap EndpointAddr.usable) family).filter
        (fun g => decide (g.1.sequence = sequence)) = wantedGroups
          ((records.filterMap EndpointAddr.usable).filter fun u => u.1.sequence = sequence) family :=
      wantedGroups_filter fun chain => decide (chain.sequence = sequence)
    have husable : usableOf records (some sequence) =
        (records.filterMap EndpointAddr.usable).filter fun u => u.1.sequence = sequence := by
      simp [usableOf]
    rw [husable, ← hfilter]
    constructor
    · exact List.head?_map
    · exact List.map_eq_nil_iff

/-- The endpoints of the family in the first chain. -/
def firstWanted (us : List (CertificateChainKey × DquicEndpointAddr)) (family : Option Family) :
    List DquicEndpointAddr :=
  (((Grouping.group us).head?.map Prod.snd).getD []).filter fun endpoint =>
    endpointMatchesFamily endpoint family

theorem firstWanted_ne_nil_iff :
    firstWanted us family ≠ [] ↔ ∃ first ∈ us.head?, ∃ v ∈ us,
      v.1 = first.1 ∧ endpointMatchesFamily v.2 family = true := by
  cases us with
  | nil => simp [firstWanted, Grouping.group]
  | cons first us =>
    obtain ⟨rest, hgroup⟩ := Grouping.group_cons first us
    rw [firstWanted, hgroup, List.head?_cons, Option.map_some, Option.getD_some, ne_eq,
      List.filter_eq_nil_iff]
    constructor
    · intro h
      by_contra hnone
      refine h ?_
      intro endpoint hendpoint hmatches
      obtain ⟨v, hv, rfl⟩ := List.mem_map.mp hendpoint
      obtain ⟨hmem, hchain⟩ := List.mem_filter.mp hv
      exact hnone ⟨first, rfl, v, hmem, of_decide_eq_true hchain, hmatches⟩
    · rintro ⟨chosen, hchosen, v, hv, hchain, hmatches⟩ h
      obtain rfl := Option.some_inj.mp hchosen
      refine h v.2 (List.mem_map_of_mem ?_) hmatches
      exact List.mem_filter.mpr ⟨hv, decide_eq_true hchain⟩

/-- A first chain that has an endpoint of the family is the first one wanted. -/
theorem wantedGroups_head?_of_firstWanted (hne : firstWanted us family ≠ []) :
    ((wantedGroups us family).head?.map Prod.snd).getD [] = firstWanted us family := by
  unfold firstWanted at hne ⊢
  unfold wantedGroups
  cases hgroup : Grouping.group us with
  | nil =>
    rw [hgroup] at hne
    exact absurd rfl hne
  | cons first rest =>
    rw [hgroup, List.head?_cons, Option.map_some, Option.getD_some] at hne
    rw [List.map_cons, List.filter_cons, if_pos (by simpa using hne)]
    rfl

omit [DecidableEq Source] in
theorem agrees_nil_iff {candidates : EndpointCandidates Source} :
    Agrees [] candidates ↔ candidates.groups = [] := by
  constructor
  · intro h
    exact h.2 rfl
  · intro h
    unfold Agrees
    rw [h]
    exact ⟨rfl, fun _ => rfl⟩

/-- Without the guard. -/
theorem streamedEndpoints_agrees_iff (source : Source) {own : Family} (records : List EndpointAddr)
    (sequence : Option CertificateSequence) {family : Option Family} (hown : ∀ f ∈ family, f = own) :
    Agrees (streamedEndpoints source records sequence family)
        (queriedCandidates source records sequence (EndpointLookup.default.withFamily family)) ↔
      FirstChainServes own records sequence family := by
  obtain ⟨hhead, hnil⟩ := queriedCandidates_family source records sequence family
  have hstreamed : (streamedEndpoints source records sequence family).map Prod.snd =
      firstWanted (usableOf records sequence) family := by
    rw [firstWanted, ← selectedEndpointAddrsForSequence_eq, streamedEndpoints, List.map_map]
    exact List.map_id _
  by_cases hne : firstWanted (usableOf records sequence) family = []
  · -- nothing is streamed
    rw [hne, List.map_eq_nil_iff] at hstreamed
    rw [hstreamed, agrees_nil_iff, hnil, wantedGroups_eq_nil_iff]
    constructor
    · intro h u hu hmatches
      exact absurd hmatches (h u hu)
    · intro h u hu hmatches
      exact firstWanted_ne_nil_iff.mpr (h u hu hmatches).2 hne
  · refine iff_of_true ⟨?_, ?_⟩ fun u hu hmatches => ⟨hown, firstWanted_ne_nil_iff.mp hne⟩
    · rw [hstreamed, hhead, ← wantedGroups_head?_of_firstWanted hne]
      cases (wantedGroups (usableOf records sequence) family).head? with
      | none => rfl
      | some g => rfl
    · intro hempty
      rw [hempty] at hstreamed
      exact absurd hstreamed.symm hne

/-- The two lookups agree exactly when the first chain has an endpoint of the family if any has. -/
theorem plain_lookup_agrees_iff [PkiTypes] {Error : Type} (resolver : MdnsInstance)
    (query : Name → Except Error (List EndpointAddr)) {name domain : Name}
    {sequence : Option CertificateSequence} {records : List EndpointAddr} (family : Option Family)
    (hname : mdnsLookupParts name = some (domain, sequence)) (hquery : query domain = .ok records) :
    ∃ streamed candidates, resolver.lookup query name family = .ok streamed ∧
      resolver.lookupEndpointCandidates query name (EndpointLookup.default.withFamily family) =
        .ok candidates ∧
      (Agrees streamed candidates ↔
        FirstChainServes resolver.family records sequence family) := by
  have hcandidates : resolver.lookupEndpointCandidates query name
      (EndpointLookup.default.withFamily family) = .ok (queriedCandidates resolver.source records
        sequence (EndpointLookup.default.withFamily family)) := by
    rw [MdnsInstance.lookupEndpointCandidates, hname]
    dsimp only
    rw [hquery]
  by_cases hforeign : ∃ f ∈ family, f ≠ resolver.family
  · refine ⟨[], _, if_pos hforeign, hcandidates, ?_⟩
    rw [agrees_nil_iff, (queriedCandidates_family resolver.source records sequence family).2,
      wantedGroups_eq_nil_iff]
    obtain ⟨f, hf, hne⟩ := hforeign
    constructor
    · intro h u hu hmatches
      exact absurd hmatches (h u hu)
    · intro h u hu hmatches
      exact hne ((h u hu hmatches).1 f hf)
  · have hown : ∀ f ∈ family, f = resolver.family := by
      intro f hf
      by_contra hne
      exact hforeign ⟨f, hf, hne⟩
    refine ⟨_, _, ?_, hcandidates, streamedEndpoints_agrees_iff _ _ _ hown⟩
    rw [MdnsInstance.lookup, if_neg hforeign, hname]
    dsimp only
    rw [hquery]

end Candidates

section Sample

attribute [local instance] plainHome plainPki

/-- A resolver bound to an address of the sixth version. -/
def sampleResolver : MdnsInstance := ⟨0, ['e'], .v6 1⟩

def sampleName : Name := ['a', '.', 'l', 'o', 'c', 'a', 'l']

/-- A record of the chain with the sequence, with an endpoint of the family. -/
def sampleRecord (sequence : UInt8) (family : Family) : EndpointAddr :=
  let record := match family with
    | .v4 => EndpointAddr.directV4 ⟨0x0A000001, 443⟩
    | .v6 => EndpointAddr.directV6 ⟨1, 443, 0, 0⟩
  (record.setMain true).setSequence (CertificateSequence.ofU8 sequence)

def sampleQuery (records : List EndpointAddr) (_ : Name) : Except Unit (List EndpointAddr) :=
  .ok records

/-- The first chain has endpoints of both families. -/
theorem plain_lookup_agrees_iff_mixed :
    ∃ streamed candidates,
      sampleResolver.lookup (sampleQuery
        [sampleRecord 1 .v4, sampleRecord 2 .v6, sampleRecord 1 .v6]) sampleName (some .v6) =
          .ok streamed ∧
      sampleResolver.lookupEndpointCandidates (sampleQuery
        [sampleRecord 1 .v4, sampleRecord 2 .v6, sampleRecord 1 .v6]) sampleName
          (EndpointLookup.default.withFamily (some .v6)) = .ok candidates ∧
      Agrees streamed candidates := by
  have hname : mdnsLookupParts sampleName = some (sampleName, none) := by decide
  obtain ⟨streamed, candidates, hstreamed, hcandidates, hiff⟩ := plain_lookup_agrees_iff
    sampleResolver (sampleQuery [sampleRecord 1 .v4, sampleRecord 2 .v6, sampleRecord 1 .v6])
    (some .v6) hname rfl
  refine ⟨streamed, candidates, hstreamed, hcandidates, hiff.mpr ?_⟩
  unfold FirstChainServes
  decide

/-- The first chain has only an endpoint of the other family, so nothing is streamed. -/
theorem later_chain_not_streamed :
    mdnsLookupParts sampleName = some (sampleName, none) ∧
      sampleResolver.family = .v6 ∧
      ∃ candidates,
        sampleResolver.lookup (sampleQuery [sampleRecord 1 .v4, sampleRecord 2 .v6]) sampleName
          (some .v6) = .ok [] ∧
        sampleResolver.lookupEndpointCandidates
          (sampleQuery [sampleRecord 1 .v4, sampleRecord 2 .v6]) sampleName
            (EndpointLookup.default.withFamily (some .v6)) = .ok candidates ∧
        candidates.groups.map EndpointCandidateGroup.endpoints =
          [[.direct (.v6 ⟨1, 443, 0, 0⟩)]] ∧
        ¬ Agrees [] candidates := by
  have hname : mdnsLookupParts sampleName = some (sampleName, none) := by decide
  have hgroups : (queriedCandidates sampleResolver.source [sampleRecord 1 .v4, sampleRecord 2 .v6]
      none (EndpointLookup.default.withFamily (some .v6))).groups.map
        EndpointCandidateGroup.endpoints = [[.direct (.v6 ⟨1, 443, 0, 0⟩)]] := by decide
  refine ⟨hname, rfl, _, ?_, ?_, hgroups, ?_⟩
  · rw [MdnsInstance.lookup, if_neg (by decide), hname]
    rfl
  · rw [MdnsInstance.lookupEndpointCandidates, hname]
    rfl
  · intro hagrees
    rw [hagrees.2 rfl] at hgroups
    cases hgroups

end Sample

end Ddns
