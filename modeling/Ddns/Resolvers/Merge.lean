import Ddns.Library.Merging
import Ddns.Resolvers.EndpointCandidates

/-! Merging the candidates of several sources. -/
namespace Ddns

section Merge

variable [DhttpHome] {Source : Type} [DecidableEq Source]

/-- The new group without what the existing one has is added to it. -/
def EndpointCandidateGroup.extend (existing group : EndpointCandidateGroup Source) :
    EndpointCandidateGroup Source :=
  { existing with
    endpoints := Merging.union existing.endpoints group.endpoints
    sources := Merging.union existing.sources group.sources }

/-- The loop over the groups of one answer: a group goes to the first one of its chain, or to the
end. -/
def mergeInto (target groups : List (EndpointCandidateGroup Source)) :
    List (EndpointCandidateGroup Source) :=
  groups.foldl (Merging.insert EndpointCandidateGroup.chain EndpointCandidateGroup.extend) target

/-- `merge_groups` of the set of mDNS resolvers. -/
def mergeGroups (target groups : List (EndpointCandidateGroup Source)) :
    List (EndpointCandidateGroup Source) :=
  mergeInto target groups

/-- The same loop, written out in `Resolvers::lookup_endpoint_candidates`. -/
def mergeCandidates (target groups : List (EndpointCandidateGroup Source)) :
    List (EndpointCandidateGroup Source) :=
  mergeInto target groups

/-- The answers that have arrived, in this order. -/
def mergeAnswers (merge : List (EndpointCandidateGroup Source) →
      List (EndpointCandidateGroup Source) → List (EndpointCandidateGroup Source))
    (answers : List (EndpointCandidates Source)) : List (EndpointCandidateGroup Source) :=
  answers.foldl (fun target answer => merge target answer.groups) []

/-- The groups are the unions over the answers, one for each chain. -/
structure UnionOf (answers : List (EndpointCandidates Source))
    (groups : List (EndpointCandidateGroup Source)) : Prop where
  nodup : (groups.map EndpointCandidateGroup.chain).Nodup
  chains : ∀ chain, chain ∈ groups.map EndpointCandidateGroup.chain ↔
    ∃ answer ∈ answers, ∃ group ∈ answer.groups, group.chain = chain
  endpoints : ∀ merged ∈ groups, ∀ endpoint, endpoint ∈ merged.endpoints ↔
    ∃ answer ∈ answers, ∃ group ∈ answer.groups, group.chain = merged.chain ∧
      endpoint ∈ group.endpoints
  sources : ∀ merged ∈ groups, ∀ source, source ∈ merged.sources ↔
    ∃ answer ∈ answers, ∃ group ∈ answer.groups, group.chain = merged.chain ∧
      source ∈ group.sources

/-- No endpoint and no source is there twice. -/
def EndpointCandidateGroup.Distinct (group : EndpointCandidateGroup Source) : Prop :=
  group.endpoints.Nodup ∧ group.sources.Nodup

/-- The same groups, in whatever order, with the same endpoints and sources, in whatever order. -/
def SameGroups (groups groups' : List (EndpointCandidateGroup Source)) : Prop :=
  (∀ chain, chain ∈ groups.map EndpointCandidateGroup.chain ↔
    chain ∈ groups'.map EndpointCandidateGroup.chain) ∧
  ∀ group ∈ groups, ∀ group' ∈ groups', group.chain = group'.chain →
    (∀ endpoint, endpoint ∈ group.endpoints ↔ endpoint ∈ group'.endpoints) ∧
      ∀ source, source ∈ group.sources ↔ source ∈ group'.sources

section Union

variable {groups : List (EndpointCandidateGroup Source)}
  {answers answers' : List (EndpointCandidates Source)}

theorem mergeAnswers_eq (answers : List (EndpointCandidates Source)) :
    mergeAnswers mergeInto answers =
      Merging.all (fun group : EndpointCandidateGroup Source => group.chain)
        EndpointCandidateGroup.extend (answers.flatMap EndpointCandidates.groups) := by
  rw [Merging.all, List.foldl_flatMap]
  rfl

theorem mergeOf_answers (answers : List (EndpointCandidates Source)) :
    Merging.MergeOf EndpointCandidateGroup.chain EndpointCandidateGroup.extend
      (answers.flatMap EndpointCandidates.groups) (mergeAnswers mergeInto answers) := by
  have hchain : ∀ existing group : EndpointCandidateGroup Source,
      (existing.extend group).chain = existing.chain := fun _ _ => rfl
  rw [mergeAnswers_eq answers]
  exact Merging.mergeOf_all hchain _

theorem foldl_extend (first : EndpointCandidateGroup Source)
    (rest : List (EndpointCandidateGroup Source)) :
    rest.foldl EndpointCandidateGroup.extend first =
      ⟨first.chain, (rest.map EndpointCandidateGroup.endpoints).foldl Merging.union first.endpoints,
        (rest.map EndpointCandidateGroup.sources).foldl Merging.union first.sources⟩ := by
  induction rest generalizing first with
  | nil => rfl
  | cons group rest ih =>
    rw [List.foldl_cons, ih]
    rfl

/-- A merged group is the union of the groups of its chain. -/
theorem mem_mergeAnswers {merged : EndpointCandidateGroup Source}
    (h : merged ∈ mergeAnswers mergeInto answers) :
    ∃ first rest, (∀ group, group ∈ first :: rest ↔
        (∃ answer ∈ answers, group ∈ answer.groups) ∧ group.chain = merged.chain) ∧
      (answers.flatMap EndpointCandidates.groups).filter
        (fun group => group.chain = merged.chain) = first :: rest ∧
      merged.endpoints =
        (rest.map EndpointCandidateGroup.endpoints).foldl Merging.union first.endpoints ∧
      merged.sources =
        (rest.map EndpointCandidateGroup.sources).foldl Merging.union first.sources := by
  obtain ⟨first, rest, hfilter, hmerged⟩ := (mergeOf_answers answers).items merged h
  rw [foldl_extend] at hmerged
  refine ⟨first, rest, ?_, hfilter, congrArg EndpointCandidateGroup.endpoints hmerged,
    congrArg EndpointCandidateGroup.sources hmerged⟩
  intro group
  rw [← hfilter, List.mem_filter, List.mem_flatMap, decide_eq_true_iff]

omit [DecidableEq Source] in
theorem mem_foldl_field {F : Type} [DecidableEq F] {first : EndpointCandidateGroup Source}
    {rest : List (EndpointCandidateGroup Source)} {chain : CertificateChainKey}
    (field : EndpointCandidateGroup Source → List F)
    (hgroups : ∀ group, group ∈ first :: rest ↔
      (∃ answer ∈ answers, group ∈ answer.groups) ∧ group.chain = chain) (x : F) :
    x ∈ (rest.map field).foldl Merging.union (field first) ↔
      ∃ answer ∈ answers, ∃ group ∈ answer.groups, group.chain = chain ∧ x ∈ field group := by
  rw [Merging.mem_foldl_union]
  constructor
  · intro h
    have hsome : ∃ group ∈ first :: rest, x ∈ field group := by
      rcases h with h | ⟨ys, hys, h⟩
      · exact ⟨first, List.mem_cons_self, h⟩
      · obtain ⟨group, hgroup, rfl⟩ := List.mem_map.mp hys
        exact ⟨group, List.mem_cons_of_mem _ hgroup, h⟩
    obtain ⟨group, hgroup, hx⟩ := hsome
    obtain ⟨⟨answer, hanswer, hin⟩, hchain⟩ := (hgroups group).mp hgroup
    exact ⟨answer, hanswer, group, hin, hchain, hx⟩
  · rintro ⟨answer, hanswer, group, hin, hchain, hx⟩
    rcases List.mem_cons.mp ((hgroups group).mpr ⟨⟨answer, hanswer, hin⟩, hchain⟩) with rfl | hgroup
    · exact Or.inl hx
    · exact Or.inr ⟨field group, List.mem_map_of_mem hgroup, hx⟩

theorem unionOf_mergeAnswers (answers : List (EndpointCandidates Source)) :
    UnionOf answers (mergeAnswers mergeInto answers) := by
  have hmerge := mergeOf_answers answers
  refine ⟨hmerge.nodup, ?_, ?_, ?_⟩
  · intro chain
    rw [hmerge.keys chain, List.mem_map]
    constructor
    · rintro ⟨group, hgroup, rfl⟩
      obtain ⟨answer, hanswer, hin⟩ := List.mem_flatMap.mp hgroup
      exact ⟨answer, hanswer, group, hin, rfl⟩
    · rintro ⟨answer, hanswer, group, hin, rfl⟩
      exact ⟨group, List.mem_flatMap.mpr ⟨answer, hanswer, hin⟩, rfl⟩
  · intro merged hmerged endpoint
    obtain ⟨first, rest, hgroups, _, hendpoints, _⟩ := mem_mergeAnswers hmerged
    rw [hendpoints]
    exact mem_foldl_field EndpointCandidateGroup.endpoints hgroups endpoint
  · intro merged hmerged source
    obtain ⟨first, rest, hgroups, _, _, hsources⟩ := mem_mergeAnswers hmerged
    rw [hsources]
    exact mem_foldl_field EndpointCandidateGroup.sources hgroups source

theorem distinct_mergeAnswers
    (h : ∀ answer ∈ answers, ∀ group ∈ answer.groups, group.Distinct)
    {merged : EndpointCandidateGroup Source} (hmerged : merged ∈ mergeAnswers mergeInto answers) :
    merged.Distinct := by
  obtain ⟨first, rest, hgroups, _, hendpoints, hsources⟩ := mem_mergeAnswers hmerged
  have hdistinct : ∀ group ∈ first :: rest, group.Distinct := by
    intro group hgroup
    obtain ⟨⟨answer, hanswer, hin⟩, _⟩ := (hgroups group).mp hgroup
    exact h answer hanswer group hin
  have hfirst := hdistinct first List.mem_cons_self
  have hrest : ∀ group ∈ rest, group.Distinct :=
    fun group hgroup => hdistinct group (List.mem_cons_of_mem _ hgroup)
  constructor
  · rw [hendpoints]
    exact Merging.nodup_foldl_union hfirst.1 (List.forall_mem_map.mpr fun g hg => (hrest g hg).1)
  · rw [hsources]
    exact Merging.nodup_foldl_union hfirst.2 (List.forall_mem_map.mpr fun g hg => (hrest g hg).2)

omit [DecidableEq Source] in
/-- The union does not depend on the order of the answers. -/
theorem UnionOf.perm (h : UnionOf answers groups) (hperm : answers.Perm answers') :
    UnionOf answers' groups := by
  have hmem : ∀ P : EndpointCandidates Source → Prop,
      (∃ answer ∈ answers, P answer) ↔ ∃ answer ∈ answers', P answer := by
    intro P
    exact exists_congr fun answer => and_congr_left fun _ => hperm.mem_iff
  refine ⟨h.nodup, ?_, ?_, ?_⟩
  · intro chain
    rw [h.chains chain, hmem]
  · intro merged hmerged endpoint
    rw [h.endpoints merged hmerged endpoint, hmem]
  · intro merged hmerged source
    rw [h.sources merged hmerged source, hmem]

omit [DecidableEq Source] in
theorem UnionOf.same (h : UnionOf answers groups)
    {groups' : List (EndpointCandidateGroup Source)} (h' : UnionOf answers groups') :
    SameGroups groups groups' := by
  refine ⟨fun chain => (h.chains chain).trans (h'.chains chain).symm, ?_⟩
  intro group hgroup group' hgroup' hchain
  constructor
  · intro endpoint
    rw [h.endpoints group hgroup, h'.endpoints group' hgroup', hchain]
  · intro source
    rw [h.sources group hgroup, h'.sources group' hgroup', hchain]

/-- Merging loses nothing, makes no duplicates and does not depend on the order of arrival. -/
theorem merge_lossless (hperm : answers.Perm answers') :
    (UnionOf answers (mergeAnswers mergeGroups answers) ∧
      UnionOf answers (mergeAnswers mergeCandidates answers)) ∧
    (SameGroups (mergeAnswers mergeGroups answers) (mergeAnswers mergeGroups answers') ∧
      SameGroups (mergeAnswers mergeCandidates answers) (mergeAnswers mergeCandidates answers')) ∧
    ((∀ answer ∈ answers, ∀ group ∈ answer.groups, group.Distinct) →
      (∀ merged ∈ mergeAnswers mergeGroups answers, merged.Distinct) ∧
        ∀ merged ∈ mergeAnswers mergeCandidates answers, merged.Distinct) := by
  have hunion := unionOf_mergeAnswers answers
  have hsame := hunion.same ((unionOf_mergeAnswers answers').perm hperm.symm)
  refine ⟨⟨hunion, hunion⟩, ⟨hsame, hsame⟩, ?_⟩
  intro h
  exact ⟨fun merged => distinct_mergeAnswers h, fun merged => distinct_mergeAnswers h⟩

end Union

end Merge

section Sample

attribute [local instance] plainHome

/-- Two sources with a chain in common, in both orders. -/
theorem merge_lossless_swap :
    SameGroups
      (mergeAnswers mergeGroups [⟨[⟨primaryChainKey (.ofU8 1), [.direct (.v4 ⟨1, 1⟩)], [0]⟩]⟩,
        ⟨[⟨primaryChainKey (.ofU8 1), [.direct (.v4 ⟨2, 1⟩)], [1]⟩]⟩])
      (mergeAnswers mergeGroups [⟨[⟨primaryChainKey (.ofU8 1), [.direct (.v4 ⟨2, 1⟩)], [1]⟩]⟩,
        ⟨[⟨primaryChainKey (.ofU8 1), [.direct (.v4 ⟨1, 1⟩)], [0]⟩]⟩]) :=
  (merge_lossless (List.Perm.swap _ _ [])).2.1.1

end Sample

end Ddns
