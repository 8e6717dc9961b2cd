import Ddns.Library.History
import Ddns.Resolvers.AggregateCandidates

/-! When the lookups for candidates fail, and what they then say. -/
namespace Ddns

open Futures

section Labelled

variable [DhttpHome] {Source Error : Type}

/-- What an entry adds to the error of a lookup. -/
def ResolverEntry.report (entry : ResolverEntry Source Error) :
    Option (Name × CandidateError Error) :=
  match entry.candidates with
  | none => some (entry.label, .unsupported)
  | some (.error error) => some (entry.label, .lookup error)
  | some (.ok _) => none

/-- The failures among the answers, with the labels of the resolvers. -/
def failuresOf (answers : List (Name × Except Error (EndpointCandidates Source))) :
    List (Name × CandidateError Error) :=
  answers.filterMap fun answer =>
    match answer.2 with
    | .ok _ => none
    | .error error => some (answer.1, .lookup error)

variable [DecidableEq Source]

theorem errors_foldl_completed (order : List (Name × Except Error (EndpointCandidates Source)))
    (state : CandidateState Source Error) :
    (order.foldl CandidateState.completed state).errors = state.errors ++ failuresOf order := by
  induction order generalizing state with
  | nil => exact (List.append_nil _).symm
  | cons first order ih =>
    obtain ⟨label, answer⟩ := first
    refine (ih (state.completed (label, answer))).trans ?_
    cases answer with
    | ok candidates => rfl
    | error error => exact List.append_assoc _ _ _

end Labelled

section Orders

variable [DhttpHome] {Source Error : Type}

/-- The answer that was reported as a failure. -/
def answerOf : Name × CandidateError Error → Option (Name × Except Error (EndpointCandidates Source))
  | (_, .unsupported) => none
  | (label, .lookup error) => some (label, .error error)

theorem filterMap_answerOf {answers : List (Name × Except Error (EndpointCandidates Source))}
    (hfailed : okAnswers (answers.map Prod.snd) = []) :
    (failuresOf answers).filterMap answerOf = answers := by
  induction answers with
  | nil => rfl
  | cons first answers ih =>
    obtain ⟨label, answer⟩ := first
    cases answer with
    | ok candidates => cases hfailed
    | error error => exact congrArg (List.cons (label, Except.error error)) (ih hfailed)

theorem failuresOf_filterMap {reported : List (Name × CandidateError Error)}
    (h : ∀ failure ∈ reported, ∃ error, failure.2 = .lookup error) :
    failuresOf (reported.filterMap (@answerOf _ Source Error)) = reported := by
  induction reported with
  | nil => rfl
  | cons first reported ih =>
    obtain ⟨label, failure⟩ := first
    obtain ⟨error, rfl⟩ := h _ List.mem_cons_self
    exact congrArg (List.cons (label, CandidateError.lookup error))
      (ih fun other hother => h other (List.mem_cons_of_mem _ hother))

theorem exists_error_of_mem {answers : List (Name × Except Error (EndpointCandidates Source))}
    {failure : Name × CandidateError Error} (h : failure ∈ failuresOf answers) :
    ∃ error, failure.2 = .lookup error := by
  obtain ⟨⟨label, answer⟩, _, hanswer⟩ := List.mem_filterMap.mp h
  cases answer with
  | ok candidates => cases hanswer
  | error error =>
    cases hanswer
    exact ⟨error, rfl⟩

/-- Every order of the failures is that of some order of the answers. -/
theorem exists_order_of_failures {answers : List (Name × Except Error (EndpointCandidates Source))}
    (hfailed : okAnswers (answers.map Prod.snd) = []) {reported : List (Name × CandidateError Error)}
    (hreported : reported.Perm (failuresOf answers)) :
    ∃ order, order.Perm answers ∧ failuresOf order = reported := by
  refine ⟨reported.filterMap answerOf, ?_, ?_⟩
  · have hperm := hreported.filterMap (@answerOf _ Source Error)
    rw [filterMap_answerOf hfailed] at hperm
    exact hperm
  · refine failuresOf_filterMap ?_
    intro failure hfailure
    exact exists_error_of_mem (hreported.mem_iff.mp hfailure)

/-- Those that do not support candidates and those that fail make up the report. -/
theorem reports_perm (entries : List (ResolverEntry Source Error)) :
    (Resolvers.unsupported entries ++ failuresOf (Resolvers.pending entries)).Perm
      (entries.filterMap ResolverEntry.report) := by
  induction entries with
  | nil => exact List.Perm.refl _
  | cons entry entries ih =>
    obtain ⟨label, candidates⟩ := entry
    cases candidates with
    | none => exact ih.cons (label, .unsupported)
    | some answer =>
      cases answer with
      | ok candidates => exact ih
      | error error => exact List.perm_middle.trans (ih.cons (label, .lookup error))

/-- No resolver of the entries answers. -/
theorem okAnswers_pending {entries : List (ResolverEntry Source Error)} :
    okAnswers ((Resolvers.pending entries).map Prod.snd) = [] ↔
      ∀ entry ∈ entries, ∀ answer, entry.candidates ≠ some (.ok answer) := by
  induction entries with
  | nil => simp [Resolvers.pending, okAnswers]
  | cons entry entries ih =>
    obtain ⟨label, candidates⟩ := entry
    rw [List.forall_mem_cons, ← ih]
    cases candidates with
    | none => exact ⟨fun h => ⟨by simp, h⟩, fun h => h.2⟩
    | some answer =>
      cases answer with
      | ok answer =>
        constructor
        · intro h
          cases h
        · intro h
          exact absurd rfl (h.1 answer)
      | error error => exact ⟨fun h => ⟨by simp, h⟩, fun h => h.2⟩

end Orders

namespace Resolvers

variable [DhttpHome] {Source Error : Type} [DecidableEq Source]

/-- A lookup for candidates fails exactly when no resolver answers. Its error then has one line
for each resolver: first those that were not asked, then the others in any order. -/
theorem failure_names_every_resolver (entries : List (ResolverEntry Source Error))
    (errors : List (Name × CandidateError Error)) :
    LookupEndpointCandidates entries (.error errors) ↔
      (∀ entry ∈ entries, ∀ answer, entry.candidates ≠ some (.ok answer)) ∧
        errors.Perm (entries.filterMap ResolverEntry.report) ∧
        unsupported entries <+: errors := by
  unfold LookupEndpointCandidates
  simp only [drains_iff]
  rw [← okAnswers_pending]
  constructor
  · rintro ⟨state, ⟨order, hperm, rfl⟩, hresult⟩
    split at hresult
    · cases hresult
    · rename_i hnone
      rw [(foldl_completed order ⟨[], false, unsupported entries⟩).2] at hnone
      have hfailed : okAnswers ((pending entries).map Prod.snd) = [] := by
        have hok : okAnswers (order.map Prod.snd) = [] := by simpa using hnone
        exact List.Perm.nil_eq (hok ▸ (hperm.map Prod.snd).filterMap Except.toOption) |>.symm
      rw [errors_foldl_completed] at hresult
      cases hresult
      refine ⟨hfailed, ?_, List.prefix_append _ _⟩
      exact ((hperm.filterMap _).append_left _).trans (reports_perm entries)
  · rintro ⟨hfailed, hperm, reported, rfl⟩
    have hreported : reported.Perm (failuresOf (pending entries)) :=
      (List.perm_append_left_iff _).mp (hperm.trans (reports_perm entries).symm)
    obtain ⟨order, horder, rfl⟩ := exists_order_of_failures hfailed hreported
    refine ⟨_, ⟨order, horder, rfl⟩, ?_⟩
    have hok : okAnswers (order.map Prod.snd) = [] :=
      List.Perm.eq_nil (hfailed ▸ (horder.map Prod.snd).filterMap Except.toOption)
    rw [if_neg, errors_foldl_completed]
    rw [(foldl_completed order ⟨[], false, unsupported entries⟩).2, hok]
    simp

end Resolvers

section Set

variable [DhttpHome] {Error : Type}

/-- No group is left exactly when no answer has one. -/
theorem mergeAnswers_eq_nil {Source : Type} [DecidableEq Source]
    {answers : List (EndpointCandidates Source)} :
    mergeAnswers mergeGroups answers = [] ↔ ∀ answer ∈ answers, answer.groups = [] := by
  have hchains := (unionOf_mergeAnswers answers).chains
  constructor
  · intro hnil answer hanswer
    refine List.eq_nil_iff_forall_not_mem.mpr ?_
    intro group hgroup
    have hmem := (hchains group.chain).mpr ⟨answer, hanswer, group, hgroup, rfl⟩
    rw [show mergeAnswers mergeInto answers = [] from hnil] at hmem
    exact absurd hmem List.not_mem_nil
  · intro hempty
    refine List.eq_nil_iff_forall_not_mem.mpr ?_
    intro merged hmerged
    obtain ⟨answer, hanswer, group, hgroup, _⟩ :=
      (hchains merged.chain).mp (List.mem_map_of_mem hmerged)
    rw [hempty answer hanswer] at hgroup
    exact absurd hgroup List.not_mem_nil

/-- A failure is remembered, and an answer leaves what is remembered alone. -/
def lastErrorEffect (result : Except (MdnsLookupError Error) (EndpointCandidates MdnsSource))
    (_ : Unit) : Option (Option (MdnsLookupError Error)) :=
  match result with
  | .ok _ => none
  | .error error => some (some error)

theorem lastError_eq_final
    (order : List (Except (MdnsLookupError Error) (EndpointCandidates MdnsSource))) :
    (order.foldl MdnsCandidateState.completed ⟨[], none⟩).lastError =
      History.final lastErrorEffect order () := by
  induction order using List.reverseRecOn with
  | nil => rfl
  | append_singleton order last ih =>
    rw [History.final_snoc, List.foldl_append, ← ih]
    cases last with
    | ok candidates => rfl
    | error error => rfl

/-- The last failure is one of them. -/
theorem mem_of_lastError
    {order : List (Except (MdnsLookupError Error) (EndpointCandidates MdnsSource))}
    {error : MdnsLookupError Error}
    (h : (order.foldl MdnsCandidateState.completed ⟨[], none⟩).lastError = some error) :
    .error error ∈ order := by
  rw [lastError_eq_final] at h
  obtain ⟨before, result, after, rfl, hresult, _⟩ := History.final_eq_some_iff.mp h
  cases result with
  | ok candidates => cases hresult
  | error other =>
    cases hresult
    simp

/-- Nothing is remembered only where nothing has failed. -/
theorem not_mem_of_lastError
    {order : List (Except (MdnsLookupError Error) (EndpointCandidates MdnsSource))}
    (h : (order.foldl MdnsCandidateState.completed ⟨[], none⟩).lastError = none)
    (error : MdnsLookupError Error) : .error error ∉ order := by
  rw [lastError_eq_final] at h
  induction order using List.reverseRecOn with
  | nil => exact List.not_mem_nil
  | append_singleton order last ih =>
    rw [History.final_snoc] at h
    cases last with
    | error other => cases h
    | ok candidates =>
      intro hmem
      rcases List.mem_append.mp hmem with hmem | hmem
      · exact ih h hmem
      · cases List.mem_singleton.mp hmem

omit [DhttpHome] in
theorem mem_okAnswers {A : Type} {results : List (Except Error A)} {answer : A} :
    answer ∈ okAnswers results ↔ .ok answer ∈ results := by
  refine List.mem_filterMap.trans ?_
  constructor
  · rintro ⟨result, hresult, hanswer⟩
    cases result with
    | ok other =>
      cases hanswer
      exact hresult
    | error error => cases hanswer
  · intro hanswer
    exact ⟨_, hanswer, rfl⟩

/-- The loop over the results ends without a group exactly when no answer has one. The error is
then one of the failures, and each of them may come last. -/
theorem drained_without_groups
    {results : List (Except (MdnsLookupError Error) (EndpointCandidates MdnsSource))}
    {cause : MdnsLookupError Error} :
    (∃ state, Drains MdnsCandidateState.completed results ⟨[], none⟩ state ∧
        state.groups = [] ∧ state.lastError.getD .noRecordFound = cause) ↔
      (∀ answer, .ok answer ∈ results → answer.groups = []) ∧
        (.error cause ∈ results ∨
          (cause = .noRecordFound ∧ ∀ other, .error other ∉ results)) := by
  simp only [drains_iff]
  constructor
  · rintro ⟨state, ⟨order, hperm, rfl⟩, hempty, rfl⟩
    rw [foldl_mdnsCompleted] at hempty
    refine ⟨?_, ?_⟩
    · intro answer hanswer
      exact mergeAnswers_eq_nil.mp hempty answer (mem_okAnswers.mpr (hperm.mem_iff.mpr hanswer))
    · cases hlast : (order.foldl MdnsCandidateState.completed ⟨[], none⟩).lastError with
      | some cause => exact Or.inl (hperm.mem_iff.mp (mem_of_lastError hlast))
      | none =>
        refine Or.inr ⟨rfl, ?_⟩
        intro other hother
        exact not_mem_of_lastError hlast other (hperm.mem_iff.mpr hother)
  · rintro ⟨hgroups, hcause⟩
    have hempty : ∀ order : List (Except (MdnsLookupError Error) (EndpointCandidates MdnsSource)),
        order.Perm results → (order.foldl MdnsCandidateState.completed ⟨[], none⟩).groups = [] := by
      intro order hperm
      rw [foldl_mdnsCompleted]
      refine mergeAnswers_eq_nil.mpr ?_
      intro answer hanswer
      exact hgroups answer (hperm.mem_iff.mp (mem_okAnswers.mp hanswer))
    rcases hcause with hfailed | ⟨rfl, hfine⟩
    · -- the failure that is reported comes last
      obtain ⟨before, after, rfl⟩ := List.append_of_mem hfailed
      have hperm : (before ++ after ++ [Except.error cause]).Perm
          (before ++ Except.error cause :: after) :=
        (List.perm_append_singleton _ _).trans List.perm_middle.symm
      refine ⟨_, ⟨_, hperm, rfl⟩, hempty _ hperm, ?_⟩
      rw [List.foldl_append]
      rfl
    · refine ⟨_, ⟨_, List.Perm.refl _, rfl⟩, hempty _ (List.Perm.refl _), ?_⟩
      cases hlast : (results.foldl MdnsCandidateState.completed ⟨[], none⟩).lastError with
      | none => rfl
      | some other => exact absurd (mem_of_lastError hlast) (hfine other)

/-- The set gives no candidates exactly when it has no resolver of the family or no answer has a
group. It then says which resolver has failed, whichever comes last, and speaks of a missing record
only when none has failed. -/
theorem set_candidates_fail_iff [PkiTypes] (set : MdnsResolverSet)
    (query : MdnsInstance → Name → Except Error (List EndpointAddr)) (name : Name)
    (lookup : EndpointLookup) (error : MdnsSetError Error) :
    set.Candidates query name lookup (.error error) ↔
      (set.pending query name lookup = [] ∧ error = .noResolversAvailable) ∨
      (set.pending query name lookup ≠ [] ∧
        (∀ answer, .ok answer ∈ set.pending query name lookup → answer.groups = []) ∧
        ∃ cause, error = .lookup cause ∧
          (.error cause ∈ set.pending query name lookup ∨
            (cause = .noRecordFound ∧ ∀ other, .error other ∉ set.pending query name lookup))) := by
  unfold MdnsResolverSet.Candidates
  by_cases hnone : set.pending query name lookup = []
  · rw [if_pos hnone]
    constructor
    · intro h
      cases h
      exact Or.inl ⟨hnone, rfl⟩
    · rintro (⟨_, rfl⟩ | ⟨hsome, _⟩)
      · rfl
      · exact absurd hnone hsome
  rw [if_neg hnone]
  constructor
  · rintro ⟨state, hdrains, hresult⟩
    split at hresult
    · rename_i hempty
      cases hresult
      obtain ⟨hgroups, hcause⟩ :=
        drained_without_groups.mp ⟨state, hdrains, List.isEmpty_iff.mp hempty, rfl⟩
      exact Or.inr ⟨hnone, hgroups, _, rfl, hcause⟩
    · cases hresult
  · rintro (⟨hpending, _⟩ | ⟨_, hgroups, cause, rfl, hcause⟩)
    · exact absurd hpending hnone
    · obtain ⟨state, hdrains, hempty, rfl⟩ := drained_without_groups.mpr ⟨hgroups, hcause⟩
      refine ⟨state, hdrains, ?_⟩
      rw [if_pos (List.isEmpty_iff.mpr hempty)]

end Set

end Ddns
