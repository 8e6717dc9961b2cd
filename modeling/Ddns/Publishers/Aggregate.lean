import Ddns.Core.Endpoint
import Ddns.Library.Futures

/-! Publishers that hand one publication to several others. -/
namespace Ddns

open Futures

/-- A publisher with a label of its own, which gives nothing when it never returns, or several
publishers that are published to together. -/
inductive Publisher (Error : Type) where
  | single (label : Name) (publish : Name → List DquicEndpointAddr → Option (Except Error Unit))
  | publishers (members : List (Publisher Error))

/-- The error of one publisher, or of several with their labels. -/
inductive PublishersError (Error : Type) where
  | single (source : Error)
  | publishers (errors : List (Name × PublishersError Error))

structure PublishReport (Error : Type) where
  successes : List Name
  failures : List (Name × Error)

namespace PublishReport

variable {Error : Type}

/-- One turn of the loop over the results. -/
def add (report : PublishReport Error) (entry : Name × Except Error Unit) : PublishReport Error :=
  match entry with
  | (label, .ok ()) => { report with successes := report.successes ++ [label] }
  | (label, .error error) => { report with failures := report.failures ++ [(label, error)] }

/-- The results of all publishers, in the order in which they came. -/
def conclude (results : List (Name × Except Error Unit)) :
    Except (List (Name × Error)) (PublishReport Error) :=
  let report := results.foldl add ⟨[], []⟩
  if report.successes.isEmpty then .error report.failures else .ok report

end PublishReport

section Trees

variable {Error : Type}

/-- `Publishers(` -/
def publishersText : Name := ['P', 'u', 'b', 'l', 'i', 's', 'h', 'e', 'r', 's', '(']

mutual

/-- `Display` -/
def Publisher.display : Publisher Error → Name
  | .single label _ => label
  | .publishers members =>
    publishersText ++ [',', ' '].intercalate (Publisher.displayAll members) ++ [')']

def Publisher.displayAll : List (Publisher Error) → List Name
  | [] => []
  | member :: members => member.display :: Publisher.displayAll members

end

mutual

/-- The publishers with labels of their own, from left to right. -/
def Publisher.leaves : Publisher Error →
    List (Name × (Name → List DquicEndpointAddr → Option (Except Error Unit)))
  | .single label publish => [(label, publish)]
  | .publishers members => Publisher.leavesAll members

def Publisher.leavesAll : List (Publisher Error) →
    List (Name × (Name → List DquicEndpointAddr → Option (Except Error Unit)))
  | [] => []
  | member :: members => member.leaves ++ Publisher.leavesAll members

end

mutual

/-- The errors within an error, each with the label next to it. -/
def PublishersError.sources (label : Name) : PublishersError Error → List (Name × Error)
  | .single source => [(label, source)]
  | .publishers errors => PublishersError.sourcesAll errors

def PublishersError.sourcesAll : List (Name × PublishersError Error) → List (Name × Error)
  | [] => []
  | (label, error) :: errors => error.sources label ++ PublishersError.sourcesAll errors

end

end Trees

mutual

/-- A publication through a publisher returns, the results of several coming in any order. -/
inductive Publishes {Error : Type} (name : Name) (endpoints : List DquicEndpointAddr) :
    Publisher Error → Except (PublishersError Error) Unit → Prop
  | single {label : Name} {publish : Name → List DquicEndpointAddr → Option (Except Error Unit)}
    {result : Except Error Unit} (h : publish name endpoints = some result) :
    Publishes name endpoints (.single label publish) (result.mapError .single)
  | none : Publishes name endpoints (.publishers []) (.error (.publishers []))
  | publishers {members : List (Publisher Error)}
    {results collected : List (Name × Except (PublishersError Error) Unit)}
    (hne : members ≠ []) (all : PublishesAll name endpoints members results)
    (drained : Drains (fun collected entry => collected ++ [entry]) results [] collected) :
    Publishes name endpoints (.publishers members)
      ((PublishReport.conclude collected).map (fun _ => ()) |>.mapError .publishers)

/-- Every one of the publishers returns. -/
inductive PublishesAll {Error : Type} (name : Name) (endpoints : List DquicEndpointAddr) :
    List (Publisher Error) → List (Name × Except (PublishersError Error) Unit) → Prop
  | nil : PublishesAll name endpoints [] []
  | cons {member : Publisher Error} {members : List (Publisher Error)}
    {result : Except (PublishersError Error) Unit}
    {results : List (Name × Except (PublishersError Error) Unit)}
    (first : Publishes name endpoints member result)
    (rest : PublishesAll name endpoints members results) :
    PublishesAll name endpoints (member :: members) ((member.display, result) :: results)

end

section Reports

variable {Error : Type}

/-- The labels of the publishers that succeeded. -/
def labelsOf (results : List (Name × Except Error Unit)) : List Name :=
  results.filterMap fun entry =>
    match entry with
    | (label, .ok ()) => some label
    | (_, .error _) => none

/-- The labels and errors of the publishers that failed. -/
def errorsOf (results : List (Name × Except Error Unit)) : List (Name × Error) :=
  results.filterMap fun entry =>
    match entry with
    | (_, .ok ()) => none
    | (label, .error error) => some (label, error)

theorem foldl_add (results : List (Name × Except Error Unit)) (report : PublishReport Error) :
    results.foldl PublishReport.add report =
      ⟨report.successes ++ labelsOf results, report.failures ++ errorsOf results⟩ := by
  induction results generalizing report with
  | nil => simp [labelsOf, errorsOf]
  | cons entry results ih =>
    obtain ⟨label, error | ⟨⟨⟩⟩⟩ := entry
    · rw [List.foldl_cons, ih]
      simp [PublishReport.add, labelsOf, errorsOf]
    · rw [List.foldl_cons, ih]
      simp [PublishReport.add, labelsOf, errorsOf]

theorem conclude_eq (results : List (Name × Except Error Unit)) :
    PublishReport.conclude results =
      if (labelsOf results).isEmpty then .error (errorsOf results)
      else .ok ⟨labelsOf results, errorsOf results⟩ := by
  rw [PublishReport.conclude, foldl_add]
  rfl

/-- One success is enough. -/
theorem conclude_of_mem {results : List (Name × Except Error Unit)} {label : Name}
    (h : (label, .ok ()) ∈ results) : ∃ report, PublishReport.conclude results = .ok report := by
  have hmem : label ∈ labelsOf results := List.mem_filterMap.mpr ⟨_, h, rfl⟩
  have hne : (labelsOf results).isEmpty ≠ true := by
    rw [Ne, List.isEmpty_iff]
    exact List.ne_nil_of_mem hmem
  exact ⟨_, (conclude_eq results).trans (if_neg hne)⟩

theorem conclude_of_failures {results : List (Name × Except Error Unit)}
    (h : ∀ entry ∈ results, ∃ error, entry.2 = .error error) :
    PublishReport.conclude results = .error (errorsOf results) := by
  have hnil : labelsOf results = [] := by
    refine List.filterMap_eq_nil_iff.mpr ?_
    rintro ⟨label, result⟩ hentry
    obtain ⟨error, rfl⟩ := h _ hentry
    rfl
  rw [conclude_eq, hnil]
  rfl

theorem sourcesAll_eq (errors : List (Name × PublishersError Error)) :
    PublishersError.sourcesAll errors = errors.flatMap fun entry => entry.2.sources entry.1 := by
  induction errors with
  | nil => rfl
  | cons entry errors ih => rw [PublishersError.sourcesAll, ih, List.flatMap_cons]

theorem errorsOf_perm {results results' : List (Name × Except Error Unit)}
    (h : results.Perm results') : (errorsOf results).Perm (errorsOf results') :=
  h.filterMap _

/-- Collecting keeps the order in which the results come. -/
theorem foldl_snoc {α : Type} (order collected : List α) :
    order.foldl (fun collected x => collected ++ [x]) collected = collected ++ order := by
  induction order generalizing collected with
  | nil => simp
  | cons x order ih => rw [List.foldl_cons, ih, List.append_assoc, List.singleton_append]

end Reports

section Outcomes

variable {Error : Type} {name : Name} {endpoints : List DquicEndpointAddr}

/-- The publisher returned this error. -/
def Fails (name : Name) (endpoints : List DquicEndpointAddr)
    (leaf : Name × (Name → List DquicEndpointAddr → Option (Except Error Unit)))
    (failure : Name × Error) : Prop :=
  leaf.1 = failure.1 ∧ leaf.2 name endpoints = some (.error failure.2)

/-- The publisher returned without an error. -/
def Succeeds (name : Name) (endpoints : List DquicEndpointAddr)
    (leaf : Name × (Name → List DquicEndpointAddr → Option (Except Error Unit))) : Prop :=
  leaf.2 name endpoints = some (.ok ())

/-- Some publisher succeeded, or all of them failed and the error has what each of them said. -/
def Settled (name : Name) (endpoints : List DquicEndpointAddr) (publisher : Publisher Error)
    (result : Except (PublishersError Error) Unit) : Prop :=
  (result = .ok () ∧ ∃ leaf ∈ publisher.leaves, Succeeds name endpoints leaf) ∨
    ∃ error failures, result = .error error ∧
      List.Forall₂ (Fails name endpoints) publisher.leaves failures ∧
      (error.sources publisher.display).Perm failures

/-- The same of several publishers before their results are collected. -/
def SettledAll (name : Name) (endpoints : List DquicEndpointAddr)
    (members : List (Publisher Error))
    (results : List (Name × Except (PublishersError Error) Unit)) : Prop :=
  ((∃ label, (label, .ok ()) ∈ results) ∧
      ∃ leaf ∈ Publisher.leavesAll members, Succeeds name endpoints leaf) ∨
    ∃ failures, (∀ entry ∈ results, ∃ error, entry.2 = .error error) ∧
      List.Forall₂ (Fails name endpoints) (Publisher.leavesAll members) failures ∧
      (PublishersError.sourcesAll (errorsOf results)).Perm failures

theorem settled_single {label : Name}
    {publish : Name → List DquicEndpointAddr → Option (Except Error Unit)}
    {result : Except Error Unit} (h : publish name endpoints = some result) :
    Settled name endpoints (.single label publish) (result.mapError .single) := by
  rcases result with error | ⟨⟨⟩⟩
  · refine Or.inr ⟨.single error, [(label, error)], rfl, ?_, .refl _⟩
    exact .cons ⟨rfl, h⟩ .nil
  · exact Or.inl ⟨rfl, (label, publish), List.mem_singleton.mpr rfl, h⟩

theorem settledAll_cons {member : Publisher Error} {members : List (Publisher Error)}
    {result : Except (PublishersError Error) Unit}
    {results : List (Name × Except (PublishersError Error) Unit)}
    (hfirst : Settled name endpoints member result)
    (hrest : SettledAll name endpoints members results) :
    SettledAll name endpoints (member :: members) ((member.display, result) :: results) := by
  rw [SettledAll, Publisher.leavesAll]
  rcases hfirst with ⟨rfl, leaf, hleaf, hsucceeds⟩ | ⟨error, failures, rfl, hfails, hperm⟩
  · exact Or.inl ⟨⟨member.display, List.mem_cons_self⟩, leaf, List.mem_append_left _ hleaf,
      hsucceeds⟩
  rcases hrest with ⟨⟨label, hlabel⟩, leaf, hleaf, hsucceeds⟩ | ⟨failures', hall, hfails', hperm'⟩
  · exact Or.inl ⟨⟨label, List.mem_cons_of_mem _ hlabel⟩, leaf, List.mem_append_right _ hleaf,
      hsucceeds⟩
  · refine Or.inr ⟨failures ++ failures', ?_, List.rel_append hfails hfails', hperm.append hperm'⟩
    intro entry hentry
    rcases List.mem_cons.mp hentry with rfl | hentry
    · exact ⟨error, rfl⟩
    · exact hall entry hentry

theorem settled_publishers {members : List (Publisher Error)}
    {results collected : List (Name × Except (PublishersError Error) Unit)}
    (hall : SettledAll name endpoints members results)
    (hdrained : Drains (fun collected entry => collected ++ [entry]) results [] collected) :
    Settled name endpoints (.publishers members)
      ((PublishReport.conclude collected).map (fun _ => ()) |>.mapError .publishers) := by
  obtain ⟨order, hperm, horder⟩ := drains_iff.mp hdrained
  obtain rfl : collected = order := by rw [horder, foldl_snoc, List.nil_append]
  rcases hall with ⟨⟨label, hlabel⟩, hleaf⟩ | ⟨failures, hall, hfails, hsources⟩
  · obtain ⟨report, hreport⟩ := conclude_of_mem (hperm.mem_iff.mpr hlabel)
    rw [hreport]
    exact Or.inl ⟨rfl, hleaf⟩
  · have hfailed : ∀ entry ∈ collected, ∃ error, entry.2 = .error error := by
      intro entry hentry
      exact hall entry (hperm.mem_iff.mp hentry)
    rw [conclude_of_failures hfailed]
    refine Or.inr ⟨.publishers (errorsOf collected), failures, rfl, hfails, ?_⟩
    refine List.Perm.trans ?_ hsources
    rw [PublishersError.sources, sourcesAll_eq, sourcesAll_eq]
    exact (errorsOf_perm hperm).flatMap_right _

mutual

theorem settled_of_publishes {publisher : Publisher Error}
    {result : Except (PublishersError Error) Unit} (h : Publishes name endpoints publisher result) :
    Settled name endpoints publisher result := by
  cases h with
  | single h => exact settled_single h
  | none => exact Or.inr ⟨_, [], rfl, .nil, .nil⟩
  | publishers hne hall hdrained =>
    exact settled_publishers (settledAll_of_publishesAll hall) hdrained

theorem settledAll_of_publishesAll {members : List (Publisher Error)}
    {results : List (Name × Except (PublishersError Error) Unit)}
    (h : PublishesAll name endpoints members results) :
    SettledAll name endpoints members results := by
  cases h with
  | nil => exact Or.inr ⟨[], by simp, .nil, .nil⟩
  | cons hfirst hrest =>
    exact settledAll_cons (settled_of_publishes hfirst) (settledAll_of_publishesAll hrest)

end

/-- The publisher returned. -/
def Returns (name : Name) (endpoints : List DquicEndpointAddr)
    (leaf : Name × (Name → List DquicEndpointAddr → Option (Except Error Unit))) : Prop :=
  (leaf.2 name endpoints).isSome = true

mutual

theorem exists_publishes (publisher : Publisher Error)
    (h : ∀ leaf ∈ publisher.leaves, Returns name endpoints leaf) :
    ∃ result, Publishes name endpoints publisher result := by
  cases publisher with
  | single label publish =>
    obtain ⟨result, hresult⟩ := Option.isSome_iff_exists.mp (h _ (List.mem_singleton.mpr rfl))
    exact ⟨_, .single hresult⟩
  | publishers members =>
    by_cases hne : members = []
    · rw [hne]
      exact ⟨_, .none⟩
    · obtain ⟨results, hall⟩ := exists_publishesAll members h
      exact ⟨_, .publishers hne hall (drains_iff.mpr ⟨results, .refl results, rfl⟩)⟩

theorem exists_publishesAll (members : List (Publisher Error))
    (h : ∀ leaf ∈ Publisher.leavesAll members, Returns name endpoints leaf) :
    ∃ results, PublishesAll name endpoints members results := by
  cases members with
  | nil => exact ⟨[], .nil⟩
  | cons member members =>
    rw [Publisher.leavesAll, List.forall_mem_append] at h
    obtain ⟨result, hfirst⟩ := exists_publishes member h.1
    obtain ⟨results, hrest⟩ := exists_publishesAll members h.2
    exact ⟨_, .cons hfirst hrest⟩

end

mutual

theorem returns_of_publishes {publisher : Publisher Error}
    {result : Except (PublishersError Error) Unit} (h : Publishes name endpoints publisher result) :
    ∀ leaf ∈ publisher.leaves, Returns name endpoints leaf := by
  cases h with
  | single h =>
    intro leaf hleaf
    obtain rfl := List.mem_singleton.mp hleaf
    exact Option.isSome_iff_exists.mpr ⟨_, h⟩
  | none =>
    intro leaf hleaf
    cases hleaf
  | publishers hne hall hdrained => exact returns_of_publishesAll hall

theorem returns_of_publishesAll {members : List (Publisher Error)}
    {results : List (Name × Except (PublishersError Error) Unit)}
    (h : PublishesAll name endpoints members results) :
    ∀ leaf ∈ Publisher.leavesAll members, Returns name endpoints leaf := by
  cases h with
  | nil =>
    intro leaf hleaf
    cases hleaf
  | cons hfirst hrest =>
    exact List.forall_mem_append.mpr ⟨returns_of_publishes hfirst, returns_of_publishesAll hrest⟩

end

theorem not_succeeds_of_fails
    {leaves : List (Name × (Name → List DquicEndpointAddr → Option (Except Error Unit)))}
    {failures : List (Name × Error)} (h : List.Forall₂ (Fails name endpoints) leaves failures) :
    ¬ ∃ leaf ∈ leaves, Succeeds name endpoints leaf := by
  rintro ⟨leaf, hleaf, hsucceeds⟩
  induction h with
  | nil => cases hleaf
  | cons hfails _ ih =>
    rcases List.mem_cons.mp hleaf with rfl | hleaf
    · cases hfails.2.symm.trans hsucceeds
    · exact ih hleaf

/-- However publishers are nested, and in whatever order they return: a publication returns if each
single publisher does, it succeeds exactly when one of them does, and otherwise its error has the
error of each of them once, next to its label. -/
theorem publication_settles (name : Name) (endpoints : List DquicEndpointAddr)
    (publisher : Publisher Error) :
    ((∃ result, Publishes name endpoints publisher result) ↔
      ∀ leaf ∈ publisher.leaves, Returns name endpoints leaf) ∧
    ∀ result, Publishes name endpoints publisher result →
      (result = .ok () ↔ ∃ leaf ∈ publisher.leaves, Succeeds name endpoints leaf) ∧
      ∀ error, result = .error error →
        ∃ failures, List.Forall₂ (Fails name endpoints) publisher.leaves failures ∧
          (error.sources publisher.display).Perm failures := by
  refine ⟨⟨?_, exists_publishes publisher⟩, ?_⟩
  · rintro ⟨result, hpublishes⟩
    exact returns_of_publishes hpublishes
  · intro result hpublishes
    rcases settled_of_publishes hpublishes with ⟨rfl, hleaf⟩ | ⟨error, failures, rfl, hfails, hperm⟩
    · refine ⟨⟨fun _ => hleaf, fun _ => rfl⟩, ?_⟩
      intro error herror
      cases herror
    · refine ⟨⟨?_, fun hleaf => absurd hleaf (not_succeeds_of_fails hfails)⟩, ?_⟩
      · intro hok
        cases hok
      · intro error' herror
        cases herror
        exact ⟨failures, hfails, hperm⟩

end Outcomes

end Ddns
