import Ddns.Library.Transition
import Ddns.Mdns.Holding

/-! Who answers for an instance: the map, a call that is still going on, or nobody any more. -/
namespace Ddns

open Transition

namespace MdnsSystem

variable {s t u : MdnsSystem}

structure Invariant (s : MdnsSystem) : Prop where
  numbered : s.set.Numbered
  keyed : s.set.Keyed
  account : (s.set.values ++ (s.operations.flatMap Operation.held ++ s.set.down)).Perm s.set.bound
  wellBound : ∀ operation ∈ s.operations, operation.WellBound
  stored : ∀ call, Operation.shutdown call ∈ s.operations → call ≠ .started → s.set.closed = true

theorem invariant_initial (serviceName : Name) : (initial serviceName).Invariant where
  numbered := rfl
  keyed := fun _ hentry => absurd hentry List.not_mem_nil
  account := List.Perm.refl _
  wellBound := fun _ hmem => absurd hmem List.not_mem_nil
  stored := fun _ hmem => absurd hmem List.not_mem_nil

/-- A call that begins holds nothing. -/
theorem held_of_starts {operation : Operation} (h : operation.Starts) : operation.held = [] := by
  cases operation with
  | reconcile desired call =>
    obtain ⟨_, rfl⟩ := h
    rfl
  | _ =>
    obtain rfl := h
    rfl

/-- The flag is set by the first step of a shutdown. -/
theorem closed_of_stored {set set' : MdnsResolverSet} {ok : Bool} {order : List MdnsInstance}
    {operation : Operation} {call' : Shutdown}
    (h : operation.step set ok order = some (set', .shutdown call')) :
    ∃ call, operation = .shutdown call ∧ (call = .started → set'.closed = true) := by
  cases Operation.stepped h with
  | @shutdown call _ _ hcall =>
    refine ⟨call, rfl, ?_⟩
    rintro rfl
    cases hcall
    rfl

theorem acting_mem {before after : List Operation} {operation : Operation}
    (h : s.operations = before ++ operation :: after) : operation ∈ s.operations := by
  rw [h]
  exact List.mem_append_right _ List.mem_cons_self

theorem flatMap_held_perm (before after : List Operation) (operation : Operation) :
    ((before ++ operation :: after).flatMap Operation.held).Perm
      (operation.held ++ (before.flatMap Operation.held ++ after.flatMap Operation.held)) := by
  rw [List.flatMap_append, List.flatMap_cons]
  exact List.perm_append_comm_assoc _ _ _

/-- Where an operation of the next state comes from. -/
theorem mem_replaced {before after : List Operation} {operation operation' other : Operation}
    (h : other ∈ before ++ operation' :: after) :
    other = operation' ∨ other ∈ before ++ operation :: after := by
  rcases List.mem_append.mp h with h | h
  · exact Or.inr (List.mem_append_left _ h)
  · rcases List.mem_cons.mp h with h | h
    · exact Or.inl h
    · exact Or.inr (List.mem_append_right _ (List.mem_cons_of_mem _ h))

theorem invariant_step (h : Step s t) (hs : s.Invariant) : t.Invariant := by
  cases h with
  | @call operation hstarts =>
    have hheld := held_of_starts hstarts
    refine ⟨hs.numbered, hs.keyed, ?_, ?_, ?_⟩
    · have hsame : (s.operations ++ [operation]).flatMap Operation.held =
          s.operations.flatMap Operation.held := by
        rw [List.flatMap_append, List.flatMap_singleton, hheld, List.append_nil]
      rw [hsame]
      exact hs.account
    · intro other hother
      rcases List.mem_append.mp hother with hother | hother
      · exact hs.wellBound other hother
      · rw [List.mem_singleton.mp hother]
        exact Operation.wellBound_of_held hheld
    · intro call hcall hne
      rcases List.mem_append.mp hcall with hcall | hcall
      · exact hs.stored call hcall hne
      · obtain rfl := List.mem_singleton.mp hcall
        exact absurd hstarts hne
  | @act before after operation operation' set ok order hoperation hstep =>
    have hmem := acting_mem hoperation
    obtain ⟨hmoved, hbound⟩ := Operation.moved hstep (hs.wellBound operation hmem)
    refine ⟨hmoved.numbered hs.numbered, hmoved.keyed hs.keyed, ?_, ?_, ?_⟩
    · have hbefore := hs.account
      rw [hoperation] at hbefore
      have hafter := hmoved.account
        ((((flatMap_held_perm before after operation).append_right _).append_left _).symm.trans
          hbefore)
      exact (((flatMap_held_perm before after operation').append_right _).append_left _).trans hafter
    · intro other hother
      rcases mem_replaced hother with rfl | hother
      · exact hbound
      · rw [← hoperation] at hother
        exact hs.wellBound other hother
    · intro call hcall hne
      rcases mem_replaced hcall with rfl | hcall
      · obtain ⟨earlier, rfl, hstore⟩ := closed_of_stored hstep
        by_cases hearlier : earlier = .started
        · exact hstore hearlier
        · exact hmoved.closed (hs.stored earlier hmem hearlier)
      · rw [← hoperation] at hcall
        exact hmoved.closed (hs.stored call hcall hne)

theorem invariant_run {serviceName : Name} {n : ℕ} (h : Run Step n (initial serviceName) s) :
    s.Invariant :=
  h.invariant (fun _ _ => invariant_step) (invariant_initial serviceName)

/-- The call can go on, and every step that it takes puts the instance into the map, shuts it
down or comes nearer to it. -/
def WillPutAway (set : MdnsResolverSet) (operation : Operation) (resolver : MdnsInstance) : Prop :=
  (∃ ok order out, operation.step set ok order = some out) ∧
    ∀ ok order set' operation', operation.step set ok order = some (set', operation') →
      PutAway set' resolver operation'.held operation'.toRelease operation.toRelease

/-- Every instance is in the care of the map or of one call, or is shut down. -/
structure Custody (s : MdnsSystem) : Prop where
  owned : ∀ resolver ∈ s.set.bound, s.set.resolvers.lookup resolver.binding = some resolver ∨
    (∃ operation ∈ s.operations, resolver ∈ operation.held ∧
      WillPutAway s.set operation resolver) ∨ resolver ∈ s.set.down
  once : (s.set.values ++ (s.operations.flatMap Operation.held ++ s.set.down)).Nodup
  quiet : (∀ operation ∈ s.operations, operation.Returned) →
    ∀ resolver, resolver ∈ s.set.bound ∧ resolver ∉ s.set.down ↔ resolver ∈ s.set.values
  oneEach : (s.set.values.map MdnsInstance.binding).Nodup

theorem Invariant.bound_nodup (h : s.Invariant) : s.set.bound.Nodup := by
  refine List.Nodup.of_map MdnsInstance.id ?_
  rw [show s.set.bound.map MdnsInstance.id = _ from h.numbered]
  exact List.nodup_range

theorem Invariant.lookup_of_mem (h : s.Invariant) {resolver : MdnsInstance}
    (hmem : resolver ∈ s.set.values) :
    s.set.resolvers.lookup resolver.binding = some resolver := by
  obtain ⟨entry, hentry, rfl⟩ := List.mem_map.mp hmem
  rw [h.keyed entry hentry]
  exact AList.mem_lookup_iff.mpr hentry

theorem Invariant.map_binding_values (h : s.Invariant) :
    s.set.values.map MdnsInstance.binding = s.set.resolvers.keys := by
  rw [MdnsResolverSet.values, List.map_map]
  exact List.map_congr_left h.keyed

theorem Invariant.custody (h : s.Invariant) : s.Custody where
  owned := by
    intro resolver hresolver
    have hplace := h.account.mem_iff.mpr hresolver
    rw [List.mem_append, List.mem_append, List.mem_flatMap] at hplace
    rcases hplace with hmap | ⟨operation, hoperation, hheld⟩ | hdown
    · exact Or.inl (h.lookup_of_mem hmap)
    · refine Or.inr (Or.inl ⟨operation, hoperation, hheld, ?_, ?_⟩)
      · have hgoing : ¬ operation.Returned := by
          intro hreturned
          rw [hreturned.held] at hheld
          exact List.not_mem_nil hheld
        exact ⟨true, Operation.exists_step hgoing⟩
      · intro ok order set' operation' hstep
        exact Operation.putAway hstep (h.wellBound operation hoperation) hheld
    · exact Or.inr (Or.inr hdown)
  once := h.account.nodup_iff.mpr h.bound_nodup
  quiet := by
    intro hreturned resolver
    have hnone : s.operations.flatMap Operation.held = [] := by
      rw [List.flatMap_eq_nil_iff]
      intro operation hoperation
      exact (hreturned operation hoperation).held
    have hplaces := h.account
    rw [hnone, List.nil_append] at hplaces
    have hnodup := hplaces.nodup_iff.mpr h.bound_nodup
    rw [← hplaces.mem_iff, List.mem_append]
    constructor
    · rintro ⟨hplace, hup⟩
      exact hplace.resolve_right hup
    · intro hmap
      exact ⟨Or.inl hmap, fun hdown => List.disjoint_of_nodup_append hnodup hmap hdown⟩
  oneEach := by
    rw [h.map_binding_values]
    exact s.set.resolvers.keys_nodup

/-- A shutdown that has set the flag takes everything out of the map. -/
def Drains (s t : MdnsSystem) : Prop :=
  ∃ before after ok order set call, s.operations = before ++ .shutdown .stored :: after ∧
    Shutdown.step s.set ok order .stored = some (set, call) ∧
    t = ⟨set, before ++ .shutdown call :: after⟩

/-- An `upsert`, also one within `reconcile`, that has not begun or was refused. -/
def Refused : Operation → Prop
  | .upsert _ call => call = .started ∨ call = .returned (.error .closed)
  | .reconcile _ (.upsertingOne _ call _ _) => call = .started ∨ call = .returned (.error .closed)
  | _ => True

theorem refused_of_starts {operation : Operation} (h : operation.Starts) : Refused operation := by
  cases operation with
  | upsert binding call => exact Or.inl h
  | reconcile desired call =>
    obtain ⟨_, rfl⟩ := h
    trivial
  | _ => trivial

/-- The first step of `upsert` on a closed set is its last one. -/
theorem upsert_closed {set : MdnsResolverSet} (hclosed : set.closed = true) (binding : MdnsBinding)
    (ok : Bool) : Upsert.started.step binding set ok = some (set, .returned (.error .closed)) := by
  rw [Upsert.step, if_pos hclosed]

theorem refused_step {set set' : MdnsResolverSet} {ok : Bool} {order : List MdnsInstance}
    {operation operation' : Operation} (hclosed : set.closed = true)
    (h : operation.step set ok order = some (set', operation')) (hrefused : Refused operation) :
    Refused operation' := by
  cases Operation.stepped h with
  | upsert hcall =>
    rcases hrefused with rfl | rfl
    · rw [upsert_closed hclosed] at hcall
      cases hcall
      exact Or.inr rfl
    · cases hcall
  | remove hcall => trivial
  | shutdown hcall => trivial
  | @reconcile desired call call' _ hcall =>
    cases Reconcile.stepped hcall with
    | loop _ _ hfirst =>
      cases call' with
      | upsertingOne binding inner rest errors => exact Or.inl (hfirst _ _ _ _ rfl)
      | _ => trivial
    | removing hinner => trivial
    | upserting hinner =>
      rcases hrefused with rfl | rfl
      · rw [upsert_closed hclosed] at hinner
        cases hinner
        exact Or.inr rfl
      · cases hinner

/-- The set stays closed and empty, and the calls from the given one on find it so. -/
structure ClosedSince (count : ℕ) (s : MdnsSystem) : Prop where
  closed : s.set.closed = true
  empty : s.set.resolvers = ∅
  later : count ≤ s.operations.length
  refused : ∀ operation ∈ s.operations.drop count, Refused operation

theorem mem_drop_replaced {count : ℕ} {before after : List Operation}
    {operation operation' other : Operation}
    (h : other ∈ (before ++ operation' :: after).drop count) :
    other ∈ (before ++ operation :: after).drop count ∨
      (other = operation' ∧ operation ∈ (before ++ operation :: after).drop count) := by
  by_cases hcount : count ≤ before.length
  · rw [List.drop_append_of_le_length hcount, List.mem_append, List.mem_cons] at h ⊢
    rw [List.mem_append, List.mem_cons]
    rcases h with h | rfl | h
    · exact Or.inl (Or.inl h)
    · exact Or.inr ⟨rfl, Or.inr (Or.inl rfl)⟩
    · exact Or.inl (Or.inr (Or.inr h))
  · obtain ⟨rest, rfl⟩ : ∃ rest, count = before.length + (rest + 1) :=
      ⟨count - before.length - 1, by omega⟩
    rw [List.drop_length_add_append] at h ⊢
    exact Or.inl h

theorem closedSince_step {count : ℕ} (h : Step s t) (hs : s.Invariant ∧ s.ClosedSince count) :
    t.Invariant ∧ t.ClosedSince count := by
  obtain ⟨hinvariant, hs⟩ := hs
  refine ⟨invariant_step h hinvariant, ?_⟩
  cases h with
  | @call operation hstarts =>
    refine ⟨hs.closed, hs.empty, ?_, ?_⟩
    · rw [List.length_append]
      exact Nat.le_add_right_of_le hs.later
    · intro other hother
      rw [List.drop_append_of_le_length hs.later, List.mem_append] at hother
      rcases hother with hother | hother
      · exact hs.refused other hother
      · rw [List.mem_singleton.mp hother]
        exact refused_of_starts hstarts
  | @act before after operation operation' set ok order hoperation hstep =>
    obtain ⟨hmoved, _⟩ :=
      Operation.moved hstep (hinvariant.wellBound operation (acting_mem hoperation))
    have hlater := hs.later
    have hrefused := hs.refused
    rw [hoperation] at hlater hrefused
    refine ⟨hmoved.closed hs.closed, hmoved.empty hs.closed hs.empty, ?_, ?_⟩
    · rw [List.length_append, List.length_cons] at hlater ⊢
      exact hlater
    · intro other hother
      rcases mem_drop_replaced hother with hother | ⟨rfl, hsame⟩
      · exact hrefused other hother
      · exact refused_step hs.closed hstep (hrefused operation hsame)

theorem Drains.step (h : Drains s t) : Step s t := by
  obtain ⟨before, after, ok, order, set, call, hoperations, hstep, rfl⟩ := h
  exact .act hoperations (Option.map_eq_some_iff.mpr ⟨(set, call), hstep, rfl⟩)

/-- The flag was set before the map is drained. -/
theorem Drains.closedSince (h : Drains s t) (hs : s.Invariant) :
    t.ClosedSince t.operations.length := by
  obtain ⟨before, after, ok, order, set, call, hoperations, hstep, rfl⟩ := h
  have hclosed := hs.stored .stored (acting_mem hoperations) (by simp)
  rw [Shutdown.step] at hstep
  split at hstep
  · cases hstep
    refine ⟨hclosed, rfl, Nat.le_refl _, ?_⟩
    intro operation hoperation
    rw [List.drop_length] at hoperation
    exact absurd hoperation List.not_mem_nil
  · cases hstep

/-- In every state that any calls in any order lead to, no instance is lost. Once a shutdown has
drained the map it stays empty, and every `upsert` that begins later is refused. -/
theorem resolverSet_keeps_custody (serviceName : Name) {n : ℕ}
    (h : Run Step n (initial serviceName) s) :
    s.Custody ∧ ∀ t, Drains s t → ∀ m u, Run Step m t u → u.set.resolvers = ∅ ∧
      (∀ binding ok,
        Upsert.started.step binding u.set ok = some (u.set, .returned (.error .closed))) ∧
      ∀ operation ∈ u.operations.drop t.operations.length, Refused operation := by
  have hs := invariant_run h
  refine ⟨hs.custody, ?_⟩
  intro t hdrains m u hrun
  have hu := (hrun.invariant (fun _ _ => closedSince_step)
    ⟨invariant_step hdrains.step hs, hdrains.closedSince hs⟩).2
  exact ⟨hu.empty, upsert_closed hu.closed, hu.refused⟩

section Sample

/-- `a.local` -/
def sampleService : Name := ['a', '.', 'l', 'o', 'c', 'a', 'l']

def sampleBinding : MdnsBinding := ⟨['e'], .v4 1⟩

def sampleInstance : MdnsInstance := ⟨0, ['e'], .v4 1⟩

/-- An `upsert` has bound its candidate. -/
theorem candidate_run : Run Step 4 (initial sampleService)
    ⟨⟨sampleService, ∅, false, [sampleInstance], []⟩,
      [.upsert sampleBinding (.bound sampleInstance)]⟩ := by
  have hcall : Step (initial sampleService)
      ⟨.new sampleService, [.upsert sampleBinding .started]⟩ := .call rfl
  have hload : Step ⟨.new sampleService, [.upsert sampleBinding .started]⟩
      ⟨.new sampleService, [.upsert sampleBinding .checking]⟩ :=
    @Step.act _ [] [] _ _ _ true [] rfl rfl
  have hcheck : Step ⟨.new sampleService, [.upsert sampleBinding .checking]⟩
      ⟨.new sampleService, [.upsert sampleBinding .missing]⟩ :=
    @Step.act _ [] [] _ _ _ true [] rfl rfl
  have hbind : Step ⟨.new sampleService, [.upsert sampleBinding .missing]⟩
      ⟨⟨sampleService, ∅, false, [sampleInstance], []⟩,
        [.upsert sampleBinding (.bound sampleInstance)]⟩ :=
    @Step.act _ [] [] _ _ _ true [] rfl rfl
  exact .tail (.tail (.tail (.tail (.refl _) hcall) hload) hcheck) hbind

/-- An `upsert` has bound its candidate when a shutdown sets the flag. -/
def racing : MdnsSystem :=
  ⟨⟨sampleService, ∅, true, [sampleInstance], []⟩,
    [.upsert sampleBinding (.bound sampleInstance), .shutdown .stored]⟩

def drained : MdnsSystem :=
  ⟨⟨sampleService, ∅, true, [sampleInstance], []⟩,
    [.upsert sampleBinding (.bound sampleInstance), .shutdown (.closing [] none)]⟩

/-- The candidate is still in the care of the `upsert`, and will not get into the map. -/
theorem racing_keeps_custody :
    Run Step 6 (initial sampleService) racing ∧ racing.Custody ∧ Drains racing drained ∧
      drained.set.resolvers = ∅ := by
  have hcall : Step
      ⟨⟨sampleService, ∅, false, [sampleInstance], []⟩,
        [.upsert sampleBinding (.bound sampleInstance)]⟩
      ⟨⟨sampleService, ∅, false, [sampleInstance], []⟩,
        [.upsert sampleBinding (.bound sampleInstance), .shutdown .started]⟩ := .call rfl
  have hstore : Step
      ⟨⟨sampleService, ∅, false, [sampleInstance], []⟩,
        [.upsert sampleBinding (.bound sampleInstance), .shutdown .started]⟩ racing :=
    @Step.act _ [.upsert sampleBinding (.bound sampleInstance)] [] _ _ _ true [] rfl rfl
  have hrun : Run Step 6 (initial sampleService) racing :=
    .tail (.tail candidate_run hcall) hstore
  have hdrains : Drains racing drained :=
    ⟨[.upsert sampleBinding (.bound sampleInstance)], [], true, [], _, _, rfl, rfl, rfl⟩
  obtain ⟨hcustody, hclosed⟩ := resolverSet_keeps_custody sampleService hrun
  exact ⟨hrun, hcustody, hdrains, (hclosed drained hdrains 0 drained (.refl _)).1⟩

end Sample

end MdnsSystem

end Ddns
