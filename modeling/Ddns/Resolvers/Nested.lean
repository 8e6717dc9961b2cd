import Ddns.Resolvers.Aggregate

/-! Resolvers that are made of other resolvers, to any depth. -/
namespace Ddns

open Futures Transition

variable {Source Error : Type}

/-- A resolver with a label of its own and what it will answer, or several that are asked
together. -/
inductive Resolver (Source Error : Type) where
  | single (label : Name) (answer : Except Error (List (LookupRecord Source)))
  | resolvers (members : List (Resolver Source Error))

/-- The error of one resolver, or of several with their labels. -/
inductive ResolversError (Error : Type) where
  | single (source : Error)
  | resolvers (errors : List (Name × ResolversError Error))

/-- `Resolvers(` -/
def resolversText : Name := ['R', 'e', 's', 'o', 'l', 'v', 'e', 'r', 's', '(']

mutual

/-- `Display` -/
def Resolver.display : Resolver Source Error → Name
  | .single label _ => label
  | .resolvers members =>
    resolversText ++ [',', ' '].intercalate (Resolver.displayAll members) ++ [')']

def Resolver.displayAll : List (Resolver Source Error) → List Name
  | [] => []
  | member :: members => member.display :: Resolver.displayAll members

end

mutual

/-- What the resolvers with labels of their own answer, from left to right. -/
def Resolver.leaves : Resolver Source Error → List (PendingLookup Source Error)
  | .single label answer => [(label, answer)]
  | .resolvers members => Resolver.leavesAll members

def Resolver.leavesAll : List (Resolver Source Error) → List (PendingLookup Source Error)
  | [] => []
  | member :: members => member.leaves ++ Resolver.leavesAll members

end

mutual

/-- The errors within an error, each with the label next to it. -/
def ResolversError.sources (label : Name) : ResolversError Error → List (Name × Error)
  | .single source => [(label, source)]
  | .resolvers errors => ResolversError.sourcesAll errors

def ResolversError.sourcesAll : List (Name × ResolversError Error) → List (Name × Error)
  | [] => []
  | (label, error) :: errors => error.sources label ++ ResolversError.sourcesAll errors

end

section Lookups

variable [DecidableEq Source]

mutual

/-- What a lookup may come to when its stream is read to its end. -/
inductive Looks :
    Resolver Source Error → Except (ResolversError Error) (List (LookupRecord Source)) → Prop
  | single {label : Name} {answer : Except Error (List (LookupRecord Source))} :
    Looks (.single label answer) (answer.mapError .single)
  | answered {members : List (Resolver Source Error)}
    {lookups : List (PendingLookup Source (ResolversError Error))}
    {items : List (LookupRecord Source)} {n : ℕ} (all : LooksAll members lookups)
    (run : Run AggregateLookup.Step n (.start lookups) (.ended items)) :
    Looks (.resolvers members) (.ok items)
  | failed {members : List (Resolver Source Error)}
    {lookups : List (PendingLookup Source (ResolversError Error))}
    {errors : List (Name × ResolversError Error)} {n : ℕ} (all : LooksAll members lookups)
    (run : Run AggregateLookup.Step n (.start lookups) (.failed errors)) :
    Looks (.resolvers members) (.error (.resolvers errors))

/-- What the lookups of several resolvers may come to, with their labels. -/
inductive LooksAll :
    List (Resolver Source Error) → List (PendingLookup Source (ResolversError Error)) → Prop
  | nil : LooksAll [] []
  | cons {member : Resolver Source Error} {members : List (Resolver Source Error)}
    {result : Except (ResolversError Error) (List (LookupRecord Source))}
    {lookups : List (PendingLookup Source (ResolversError Error))}
    (first : Looks member result) (rest : LooksAll members lookups) :
    LooksAll (member :: members) ((member.display, result) :: lookups)

end

end Lookups

section Merging

open AggregateLookup

/-- The result has the records of all that answer, or the errors of all when none does. -/
structure MergesTo (label : Name) (leaves : List (PendingLookup Source Error))
    (result : Except (ResolversError Error) (List (LookupRecord Source))) : Prop where
  answered : (∃ items, result = .ok items) ↔ AnyOk leaves
  records : ∀ items, result = .ok items → ∀ record, record ∈ items ↔ Answers leaves record
  errors : ∀ error, result = .error error → (failures (error.sources label)).Perm leaves

/-- The same of several lookups before their answers are merged. -/
structure MergesAll (leaves : List (PendingLookup Source Error))
    (lookups : List (PendingLookup Source (ResolversError Error))) : Prop where
  answered : AnyOk lookups ↔ AnyOk leaves
  records : ∀ record, Answers lookups record ↔ Answers leaves record
  errors : ∀ errors, (failures errors).Perm lookups →
    (failures (ResolversError.sourcesAll errors)).Perm leaves

variable {leaves leaves' : List (PendingLookup Source Error)}
  {lookups : List (PendingLookup Source (ResolversError Error))}

theorem resolverSources_eq (errors : List (Name × ResolversError Error)) :
    ResolversError.sourcesAll errors = errors.flatMap fun entry => entry.2.sources entry.1 := by
  induction errors with
  | nil => rfl
  | cons entry errors ih => rw [ResolversError.sourcesAll, ih, List.flatMap_cons]

theorem resolverSources_perm {errors errors' : List (Name × ResolversError Error)}
    (h : errors.Perm errors') :
    (ResolversError.sourcesAll errors).Perm (ResolversError.sourcesAll errors') := by
  rw [resolverSources_eq, resolverSources_eq]
  exact h.flatMap_right _

/-- An error that is reported is one of those in the list, wherever it stands. -/
theorem failures_perm_cons {errors : List (Name × Error)} {lookup : PendingLookup Source Error}
    {lookups : List (PendingLookup Source Error)} (h : (failures errors).Perm (lookup :: lookups)) :
    ∃ label error rest, lookup = (label, .error error) ∧ errors.Perm ((label, error) :: rest) ∧
      (failures rest).Perm lookups := by
  obtain ⟨⟨label, error⟩, hmem, rfl⟩ :=
    List.mem_map.mp (h.mem_iff.mpr List.mem_cons_self : lookup ∈ failures errors)
  obtain ⟨before, after, rfl⟩ := List.append_of_mem hmem
  have hperm : (before ++ (label, error) :: after).Perm ((label, error) :: (before ++ after)) :=
    List.perm_middle
  refine ⟨label, error, before ++ after, rfl, hperm, ?_⟩
  exact ((hperm.map _).symm.trans h).cons_inv

theorem anyOk_append (leaves leaves' : List (PendingLookup Source Error)) :
    AnyOk (leaves ++ leaves') ↔ AnyOk leaves ∨ AnyOk leaves' := by
  simp only [AnyOk, List.mem_append, exists_or]

theorem answers_append (leaves leaves' : List (PendingLookup Source Error))
    (record : LookupRecord Source) :
    Answers (leaves ++ leaves') record ↔ Answers leaves record ∨ Answers leaves' record := by
  simp only [Answers, List.mem_append, or_and_right, exists_or]

theorem anyOk_of_answers {record : LookupRecord Source} (h : Answers leaves record) :
    AnyOk leaves := by
  obtain ⟨label, records, hmem, _⟩ := h
  exact ⟨label, records, hmem⟩

theorem mergesTo_single (label : Name) (answer : Except Error (List (LookupRecord Source))) :
    MergesTo label [(label, answer)] (answer.mapError .single) := by
  cases answer with
  | error error =>
    refine ⟨?_, ?_, ?_⟩
    · constructor
      · rintro ⟨items, hitems⟩
        cases hitems
      · rintro ⟨label', records, hrecords⟩
        cases List.mem_singleton.mp hrecords
    · intro items hitems
      cases hitems
    · intro error' herror
      cases herror
      exact .refl _
  | ok records =>
    refine ⟨?_, ?_, ?_⟩
    · exact ⟨fun _ => ⟨label, records, List.mem_singleton.mpr rfl⟩, fun _ => ⟨records, rfl⟩⟩
    · intro items hitems record
      cases hitems
      constructor
      · intro hrecord
        exact ⟨label, records, List.mem_singleton.mpr rfl, hrecord⟩
      · rintro ⟨label', other, hother, hrecord⟩
        cases List.mem_singleton.mp hother
        exact hrecord
    · intro error herror
      cases herror

theorem mergesAll_nil : @MergesAll Source Error [] [] := by
  refine ⟨?_, ?_, ?_⟩
  · simp [AnyOk]
  · simp [Answers]
  · intro errors h
    have hnil : errors = [] := List.map_eq_nil_iff.mp h.eq_nil
    subst hnil
    exact .refl _

theorem mergesAll_cons {result : Except (ResolversError Error) (List (LookupRecord Source))}
    {label : Name} (hfirst : MergesTo label leaves result) (hrest : MergesAll leaves' lookups) :
    MergesAll (leaves ++ leaves') ((label, result) :: lookups) := by
  refine ⟨?_, ?_, ?_⟩
  · rw [anyOk_append, ← hfirst.answered, ← hrest.answered]
    constructor
    · rintro ⟨label', records, hmem⟩
      rcases List.mem_cons.mp hmem with heq | hmem
      · cases heq
        exact Or.inl ⟨records, rfl⟩
      · exact Or.inr ⟨label', records, hmem⟩
    · rintro (⟨items, rfl⟩ | ⟨label', records, hmem⟩)
      · exact ⟨label, items, List.mem_cons_self⟩
      · exact ⟨label', records, List.mem_cons_of_mem _ hmem⟩
  · intro record
    rw [answers_append, ← hrest.records]
    constructor
    · rintro ⟨label', records, hmem, hrecord⟩
      rcases List.mem_cons.mp hmem with heq | hmem
      · cases heq
        exact Or.inl ((hfirst.records records rfl record).mp hrecord)
      · exact Or.inr ⟨label', records, hmem, hrecord⟩
    · rintro (hanswers | ⟨label', records, hmem, hrecord⟩)
      · obtain ⟨items, rfl⟩ := hfirst.answered.mpr (anyOk_of_answers hanswers)
        exact ⟨label, items, List.mem_cons_self, (hfirst.records items rfl record).mpr hanswers⟩
      · exact ⟨label', records, List.mem_cons_of_mem _ hmem, hrecord⟩
  · intro errors h
    obtain ⟨label', error, rest, heq, herrors, hlookups⟩ := failures_perm_cons h
    cases heq
    have hsources : (ResolversError.sourcesAll errors).Perm
        (error.sources label ++ ResolversError.sourcesAll rest) := resolverSources_perm herrors
    refine (hsources.map _).trans ?_
    rw [List.map_append]
    exact (hfirst.errors error rfl).append (hrest.errors rest hlookups)

variable [DecidableEq Source]

theorem right_of_start {n : ℕ} {final : AggregateLookup Source (ResolversError Error)}
    (h : Run AggregateLookup.Step n (.start lookups) final) : Right lookups final :=
  right_of_invariant (h.invariant (fun _ _ => invariant_step) invariant_start)

theorem mergesTo_answered {items : List (LookupRecord Source)} {n : ℕ} (label : Name)
    (hall : MergesAll leaves lookups)
    (h : Run AggregateLookup.Step n (.start lookups) (.ended items)) :
    MergesTo label leaves (.ok items) ∧ items.Nodup := by
  obtain ⟨hany, hnodup, hitems⟩ := right_of_start h
  refine ⟨⟨?_, ?_, ?_⟩, hnodup⟩
  · exact ⟨fun _ => hall.answered.mp hany, fun _ => ⟨items, rfl⟩⟩
  · intro items' heq record
    cases heq
    exact (hitems record).trans (hall.records record)
  · intro error heq
    cases heq

theorem mergesTo_failed {errors : List (Name × ResolversError Error)} {n : ℕ} (label : Name)
    (hall : MergesAll leaves lookups)
    (h : Run AggregateLookup.Step n (.start lookups) (.failed errors)) :
    MergesTo label leaves (.error (.resolvers errors)) := by
  obtain ⟨hnone, hperm⟩ := right_of_start h
  refine ⟨?_, ?_, ?_⟩
  · constructor
    · rintro ⟨items, heq⟩
      cases heq
    · intro hanswered
      exact absurd (hall.answered.mpr hanswered) hnone
  · intro items heq
    cases heq
  · intro error heq
    cases heq
    exact hall.errors errors hperm

mutual

theorem mergesTo_of_looks {resolver : Resolver Source Error}
    {result : Except (ResolversError Error) (List (LookupRecord Source))}
    (h : Looks resolver result) : MergesTo resolver.display resolver.leaves result := by
  cases h with
  | single => exact mergesTo_single _ _
  | answered hall hrun => exact (mergesTo_answered _ (mergesAll_of_looksAll hall) hrun).1
  | failed hall hrun => exact mergesTo_failed _ (mergesAll_of_looksAll hall) hrun

theorem mergesAll_of_looksAll {members : List (Resolver Source Error)}
    {lookups : List (PendingLookup Source (ResolversError Error))} (h : LooksAll members lookups) :
    MergesAll (Resolver.leavesAll members) lookups := by
  cases h with
  | nil => exact mergesAll_nil
  | cons hfirst hrest =>
    exact mergesAll_cons (mergesTo_of_looks hfirst) (mergesAll_of_looksAll hrest)

end

/-- A lookup goes on until it has failed or its stream has ended. -/
theorem exists_end {s : AggregateLookup Source (ResolversError Error)} {n : ℕ}
    (h : Run AggregateLookup.Step n (.start lookups) s) :
    ∃ m final, Run AggregateLookup.Step m (.start lookups) final ∧
      ((∃ errors, final = .failed errors) ∨ ∃ items, final = .ended items) := by
  induction hmeasure : s.measure using Nat.strong_induction_on generalizing s n with
  | _ measure ih =>
  have hmore : ∀ t, AggregateLookup.Step s t → ∃ m final,
      Run AggregateLookup.Step m (.start lookups) final ∧
        ((∃ errors, final = .failed errors) ∨ ∃ items, final = .ended items) := by
    intro t hstep
    exact ih _ (hmeasure ▸ AggregateLookup.measure_step hstep) (h.tail hstep) rfl
  have hright := right_of_start h
  cases s with
  | waiting state errors =>
    obtain ⟨t, hstep⟩ := hright
    exact hmore t hstep
  | failed errors => exact ⟨n, _, h, Or.inl ⟨errors, rfl⟩⟩
  | streaming state items =>
    obtain ⟨_, _, _, t, hstep⟩ := hright
    exact hmore t hstep
  | ended items => exact ⟨n, _, h, Or.inr ⟨items, rfl⟩⟩

mutual

theorem exists_looks (resolver : Resolver Source Error) : ∃ result, Looks resolver result := by
  cases resolver with
  | single label answer => exact ⟨_, .single⟩
  | resolvers members =>
    obtain ⟨lookups, hall⟩ := exists_looksAll members
    obtain ⟨n, final, hrun, ⟨errors, rfl⟩ | ⟨items, rfl⟩⟩ :=
      exists_end (.refl (AggregateLookup.start lookups))
    · exact ⟨_, .failed hall hrun⟩
    · exact ⟨_, .answered hall hrun⟩

theorem exists_looksAll (members : List (Resolver Source Error)) :
    ∃ lookups, LooksAll members lookups := by
  cases members with
  | nil => exact ⟨[], .nil⟩
  | cons member members =>
    obtain ⟨result, hfirst⟩ := exists_looks member
    obtain ⟨lookups, hrest⟩ := exists_looksAll members
    exact ⟨_, .cons hfirst hrest⟩

end

/-- However resolvers are nested, and in whatever order answers and records come: a lookup can come
to an end, it has a stream exactly when one of the single resolvers answers, the stream has the
records of all that answer, each once, and an error has the error of each single resolver once,
next to its label. -/
theorem nested_lookup_merges_answers (members : List (Resolver Source Error)) :
    (∃ result, Looks (.resolvers members) result) ∧
    ∀ result, Looks (.resolvers members) result →
      ((∃ items, result = .ok items) ↔ AnyOk (Resolver.leavesAll members)) ∧
      (∀ items, result = .ok items →
        items.Nodup ∧ ∀ record, record ∈ items ↔ Answers (Resolver.leavesAll members) record) ∧
      ∀ error, result = .error error → ∃ errors, error = .resolvers errors ∧
        (failures (ResolversError.sourcesAll errors)).Perm (Resolver.leavesAll members) := by
  refine ⟨exists_looks _, ?_⟩
  intro result hlooks
  have hmerges := mergesTo_of_looks hlooks
  refine ⟨hmerges.answered, ?_, ?_⟩
  · intro items hitems
    refine ⟨?_, hmerges.records items hitems⟩
    cases hlooks with
    | answered hall hrun =>
      cases hitems
      exact (mergesTo_answered [] (mergesAll_of_looksAll hall) hrun).2
    | failed hall hrun => cases hitems
  · intro error herror
    cases hlooks with
    | answered hall hrun => cases herror
    | failed hall hrun =>
      cases herror
      exact ⟨_, rfl, hmerges.errors _ rfl⟩

end Merging

end Ddns
