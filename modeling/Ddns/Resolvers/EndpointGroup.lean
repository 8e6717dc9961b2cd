import Mathlib.Data.List.Find
import Ddns.Resolvers.LookupResponse

/-! The endpoints of one chain, for lookups that do not ask for candidates. -/
namespace Ddns

section Groups

variable [DhttpHome]

/-- The first chain, or the one with the sequence. -/
def selectedEndpointRecordsWithFallbackChainKeys {T : Type}
    (records : List (T × EndpointAddr × Option CertificateChainKey))
    (sequence : Option CertificateSequence) : List (T × DquicEndpointAddr) :=
  let groups := groupedEndpointCandidates (records.map fun record =>
    ⟨record.1, record.2.1, record.2.2⟩)
  match sequence with
  | some sequence =>
    ((groups.find? fun group => isPrimaryChainKey group.1 ∧ group.1.sequence = sequence).map
      Prod.snd).getD []
  | none => (groups.head?.map Prod.snd).getD []

def selectedEndpointRecordsForSequence {T : Type} (records : List (T × EndpointAddr))
    (sequence : Option CertificateSequence) : List (T × DquicEndpointAddr) :=
  selectedEndpointRecordsWithFallbackChainKeys
    (records.map fun record => (record.1, record.2, none)) sequence

def selectedEndpointRecords {T : Type} (records : List (T × EndpointAddr)) :
    List (T × DquicEndpointAddr) :=
  selectedEndpointRecordsWithFallbackChainKeys
    (records.map fun record => (record.1, record.2, none)) none

def selectedEndpointAddrs (records : List EndpointAddr) : List DquicEndpointAddr :=
  (selectedEndpointRecords (records.map fun record => ((), record))).map Prod.snd

def selectedEndpointAddrsForSequence (records : List EndpointAddr)
    (sequence : Option CertificateSequence) : List DquicEndpointAddr :=
  match sequence with
  | some sequence =>
    (selectedEndpointRecordsForSequence (records.map fun record => ((), record))
      (some sequence)).map Prod.snd
  | none => selectedEndpointAddrs records

/-- The chain and the endpoint of a record, if it can be used. -/
def EndpointAddr.usable (record : EndpointAddr) : Option (CertificateChainKey × DquicEndpointAddr) :=
  if isPrimaryChainKey record.certificateChainKey then
    (DquicEndpointAddr.tryFrom record).map fun endpoint => (record.certificateChainKey, endpoint)
  else none

/-- The records that count, with a sequence only those of its chain. -/
def usableOf (records : List EndpointAddr) (sequence : Option CertificateSequence) :
    List (CertificateChainKey × DquicEndpointAddr) :=
  (records.filterMap EndpointAddr.usable).filter fun u => ∀ s ∈ sequence, u.1.sequence = s

section Selected

variable {T : Type} {records : List EndpointAddr}

theorem usable_tagged (tag : T) (record : EndpointAddr) :
    (⟨tag, record, none⟩ : TaggedEndpointCandidate T).usable =
      record.usable.map fun u => (u.1, (tag, u.2)) := by
  have hchain : effectiveChainKey record none = record.certificateChainKey := by
    rw [effectiveChainKey]
    split <;> rfl
  unfold TaggedEndpointCandidate.usable EndpointAddr.usable
  dsimp only
  rw [hchain]
  split
  · rw [Option.map_map]
    rfl
  · rfl

/-- The groups of records that all have the same tag. -/
theorem grouped_tagged (tag : T) (records : List EndpointAddr) :
    groupedEndpointCandidates (records.map fun record => ⟨tag, record, none⟩) =
      (Grouping.group (records.filterMap EndpointAddr.usable)).map fun g =>
        (g.1, g.2.map fun endpoint => (tag, endpoint)) := by
  rw [groupedEndpointCandidates_eq, ← Grouping.group_map, List.filterMap_map, List.map_filterMap]
  congr 1
  refine List.filterMap_congr ?_
  intro record _
  exact usable_tagged tag record

theorem usable_primary {u : CertificateChainKey × DquicEndpointAddr}
    (h : u ∈ records.filterMap EndpointAddr.usable) : isPrimaryChainKey u.1 = true := by
  obtain ⟨record, _, husable⟩ := List.mem_filterMap.mp h
  unfold EndpointAddr.usable at husable
  split at husable
  · rename_i hprimary
    obtain ⟨endpoint, _, rfl⟩ := Option.map_eq_some_iff.mp husable
    exact hprimary
  · cases husable

/-- The groups of a sequence are those of its records. -/
theorem group_usableOf (records : List EndpointAddr) (sequence : Option CertificateSequence) :
    Grouping.group (usableOf records sequence) =
      (Grouping.group (records.filterMap EndpointAddr.usable)).filter fun g =>
        ∀ s ∈ sequence, g.1.sequence = s :=
  (Grouping.group_filter
    (fun chain : CertificateChainKey => decide (∀ s ∈ sequence, chain.sequence = s)) _).symm

theorem group_primary {g : CertificateChainKey × List DquicEndpointAddr}
    (h : g ∈ Grouping.group (records.filterMap EndpointAddr.usable)) :
    isPrimaryChainKey g.1 = true := by
  have hkey := ((Grouping.groupsOf_group _).keys g.1).mp (List.mem_map_of_mem h)
  obtain ⟨u, hu, heq⟩ := List.mem_map.mp hkey
  rw [← heq]
  exact usable_primary hu

/-- What is selected is the first group of the records that count. -/
theorem selectedEndpointAddrsForSequence_eq (records : List EndpointAddr)
    (sequence : Option CertificateSequence) :
    selectedEndpointAddrsForSequence records sequence =
      ((Grouping.group (usableOf records sequence)).head?.map Prod.snd).getD [] := by
  have htagged : (((records.map fun record => ((), record)).map fun record =>
      (record.1, record.2, (none : Option CertificateChainKey))).map fun record =>
        (⟨record.1, record.2.1, record.2.2⟩ : TaggedEndpointCandidate Unit)) =
      records.map fun record => ⟨(), record, none⟩ := by
    rw [List.map_map, List.map_map]
    rfl
  -- the tags come off again
  have hplain : ∀ group : Option (CertificateChainKey × List DquicEndpointAddr),
      (((group.map fun g => (g.1, g.2.map fun endpoint => ((), endpoint))).map Prod.snd).getD []).map
        Prod.snd = (group.map Prod.snd).getD [] := by
    intro group
    cases group with
    | none => rfl
    | some g => simp
  rw [group_usableOf]
  cases sequence with
  | none =>
    simp only [selectedEndpointAddrsForSequence, selectedEndpointAddrs, selectedEndpointRecords,
      selectedEndpointRecordsWithFallbackChainKeys]
    rw [htagged, grouped_tagged, List.head?_map, hplain]
    simp
  | some sequence =>
    simp only [selectedEndpointAddrsForSequence, selectedEndpointRecordsForSequence,
      selectedEndpointRecordsWithFallbackChainKeys]
    rw [htagged, grouped_tagged, List.find?_map, hplain, List.head?_filter]
    congr 2
    refine List.find?_congr ?_
    intro g hg
    simp [group_primary hg]

end Selected

section Partition

variable {T : Type}

/-- The usable candidates, each with its chain. -/
def usableCandidates (candidates : List (TaggedEndpointCandidate T)) :
    List (CertificateChainKey × (T × DquicEndpointAddr)) :=
  candidates.filterMap TaggedEndpointCandidate.usable

def taggedCandidates (records : List (T × EndpointAddr × Option CertificateChainKey)) :
    List (TaggedEndpointCandidate T) :=
  records.map fun record => ⟨record.1, record.2.1, record.2.2⟩

/-- Only one usage is primary. -/
def OnePrimaryUsage : Prop :=
  ∀ usage, DhttpHome.kindFlag usage = primaryKindFlag → usage = DhttpHome.clientAndServer

theorem grouped_primary {candidates : List (TaggedEndpointCandidate T)}
    {g : CertificateChainKey × List (T × DquicEndpointAddr)}
    (h : g ∈ groupedEndpointCandidates candidates) : isPrimaryChainKey g.1 = true := by
  have hkey := ((grouped_groupsOf candidates).keys g.1).mp (List.mem_map_of_mem h)
  obtain ⟨u, hu, heq⟩ := List.mem_map.mp hkey
  obtain ⟨candidate, _, husable⟩ := List.mem_filterMap.mp hu
  rw [← heq]
  exact (usable_eq_some.mp husable).1.primary

/-- A primary chain is known by its sequence. -/
theorem sequence_eq_iff (hone : OnePrimaryUsage) {chain : CertificateChainKey}
    (h : isPrimaryChainKey chain = true) (sequence : CertificateSequence) :
    chain.sequence = sequence ↔ chain = primaryChainKey sequence := by
  obtain ⟨sequence', usage⟩ := chain
  obtain rfl := hone usage (of_decide_eq_true h)
  simp [primaryChainKey]

/-- The records of the chain with a sequence, in their order. -/
theorem selected_sequence (hone : OnePrimaryUsage)
    (records : List (T × EndpointAddr × Option CertificateChainKey))
    (sequence : CertificateSequence) :
    selectedEndpointRecordsWithFallbackChainKeys records (some sequence) =
      ((usableCandidates (taggedCandidates records)).filter fun u =>
        u.1 = primaryChainKey sequence).map Prod.snd := by
  rw [usableCandidates, ← Grouping.find?_group, ← groupedEndpointCandidates_eq]
  change ((List.find? _ (groupedEndpointCandidates (taggedCandidates records))).map _).getD [] = _
  congr 2
  refine List.find?_congr ?_
  intro g hg
  have hprimary := grouped_primary hg
  simp only [hprimary, true_and, sequence_eq_iff hone hprimary]

/-- The records of the chain of the first one, in their order. -/
theorem selected_first (records : List (T × EndpointAddr × Option CertificateChainKey)) :
    selectedEndpointRecordsWithFallbackChainKeys records none =
      (usableCandidates (taggedCandidates records)).head?.elim [] fun first =>
        ((usableCandidates (taggedCandidates records)).filter fun u => u.1 = first.1).map
          Prod.snd := by
  change ((groupedEndpointCandidates (taggedCandidates records)).head?.map Prod.snd).getD [] = _
  rw [groupedEndpointCandidates_eq, ← usableCandidates]
  cases usableCandidates (taggedCandidates records) with
  | nil => rfl
  | cons first us =>
    obtain ⟨rest, hgroup⟩ := Grouping.group_cons first us
    rw [hgroup]
    rfl

/-- The groups are those of the usable records, one for each chain in the order of its first
record, and a selection gives the records of its chain. -/
theorem grouping_stable_partition (hone : OnePrimaryUsage) :
    (∀ candidates : List (TaggedEndpointCandidate T),
      groupedEndpointCandidates candidates =
        ((usableCandidates candidates).map Prod.fst).eraseDups.map (fun chain =>
          (chain, ((usableCandidates candidates).filter fun u => u.1 = chain).map Prod.snd)) ∧
      ((groupedEndpointCandidates candidates).map Prod.fst).Nodup ∧
      ∀ g ∈ groupedEndpointCandidates candidates, isPrimaryChainKey g.1 = true) ∧
    ∀ records : List (T × EndpointAddr × Option CertificateChainKey),
      (∀ sequence, selectedEndpointRecordsWithFallbackChainKeys records (some sequence) =
        ((usableCandidates (taggedCandidates records)).filter fun u =>
          u.1 = primaryChainKey sequence).map Prod.snd) ∧
      selectedEndpointRecordsWithFallbackChainKeys records none =
        (usableCandidates (taggedCandidates records)).head?.elim [] fun first =>
          ((usableCandidates (taggedCandidates records)).filter fun u => u.1 = first.1).map
            Prod.snd := by
  constructor
  · intro candidates
    refine ⟨?_, (grouped_groupsOf candidates).nodup, fun g hg => grouped_primary hg⟩
    rw [groupedEndpointCandidates_eq]
    exact Grouping.group_eq _
  · intro records
    exact ⟨selected_sequence hone records, selected_first records⟩

end Partition

end Groups

section Sample

attribute [local instance] plainHome

/-- A record that takes the chain of its certificate, between two of a chain of their own. -/
def fallbackRecords : List (ℕ × EndpointAddr × Option CertificateChainKey) :=
  [(0, ((EndpointAddr.directV4 ⟨1, 443⟩).setMain true).setSequence (.ofU8 2), none),
    (1, EndpointAddr.directV4 ⟨2, 443⟩, some (primaryChainKey (.ofU8 1))),
    (2, ((EndpointAddr.directV4 ⟨3, 443⟩).setMain true).setSequence (.ofU8 2), none)]

theorem grouping_stable_partition_fallback :
    selectedEndpointRecordsWithFallbackChainKeys fallbackRecords (some (.ofU8 1)) =
        [(1, .direct (.v4 ⟨2, 443⟩))] ∧
      selectedEndpointRecordsWithFallbackChainKeys fallbackRecords (some (.ofU8 2)) =
        [(0, .direct (.v4 ⟨1, 443⟩)), (2, .direct (.v4 ⟨3, 443⟩))] := by
  have hone : OnePrimaryUsage := by
    change ∀ usage : Bool, (if usage then ['1'] else ['0']) = ['0'] → usage = false
    decide
  have hselected := fun sequence => ((grouping_stable_partition hone).2 fallbackRecords).1 sequence
  rw [hselected, hselected]
  decide

end Sample

end Ddns
