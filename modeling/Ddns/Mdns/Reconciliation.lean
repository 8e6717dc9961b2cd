import Ddns.Mdns.Custody
import Ddns.Mdns.ReconcileLoops

/-! After a `reconcile` the set has the desired bindings, with the instances that it had. -/
namespace Ddns

open Relation

namespace MdnsSystem

open Transition

variable {s t : MdnsSystem}

theorem upsert_step_closed {binding : MdnsBinding} {set set' : MdnsResolverSet} {ok : Bool}
    {call call' : Upsert} (h : call.step binding set ok = some (set', call')) :
    set'.closed = set.closed := by
  cases call with
  | started =>
    cases h
    rfl
  | checking =>
    rw [Upsert.step] at h
    split at h <;> cases h <;> rfl
  | missing =>
    rw [Upsert.step] at h
    split at h <;> cases h <;> rfl
  | bound candidate =>
    rw [Upsert.step] at h
    split at h
    · cases h
      rfl
    · split at h <;> cases h <;> rfl
  | lost candidate race => cases ok <;> cases race <;> cases h <;> rfl
  | returned result => cases h

theorem remove_step_closed {binding : MdnsBinding} {set set' : MdnsResolverSet} {ok : Bool}
    {call call' : Remove} (h : call.step binding set ok = some (set', call')) :
    set'.closed = set.closed := by
  cases call with
  | started =>
    rw [Remove.step] at h
    split at h <;> cases h <;> rfl
  | taken resolver =>
    cases h
    rfl
  | returned result => cases h

theorem drained_set {set set' : MdnsResolverSet} {ok : Bool} {order : List MdnsInstance}
    {call' : Shutdown} (h : Shutdown.stored.step set ok order = some (set', call')) :
    set' = { set with resolvers := ∅ } := by
  rw [Shutdown.step] at h
  split at h
  · cases h
    rfl
  · cases h

/-- The flag is set by a shutdown that will drain the map next. -/
theorem operation_step_closed {set set' : MdnsResolverSet} {ok : Bool} {order : List MdnsInstance}
    {operation operation' : Operation} (h : operation.step set ok order = some (set', operation')) :
    set'.closed = set.closed ∨ operation' = .shutdown .stored := by
  cases Operation.stepped h with
  | upsert hcall => exact Or.inl (upsert_step_closed hcall)
  | remove hcall => exact Or.inl (remove_step_closed hcall)
  | @shutdown call call' _ hcall =>
    cases call with
    | started =>
      cases hcall
      exact Or.inr rfl
    | stored =>
      rw [drained_set hcall]
      exact Or.inl rfl
    | closing resolvers error => cases resolvers <;> cases hcall <;> exact Or.inl rfl
    | returned result => cases hcall
  | reconcile hcall =>
    cases Reconcile.stepped hcall with
    | loop _ _ _ => exact Or.inl rfl
    | removing hinner => exact Or.inl (remove_step_closed hinner)
    | upserting hinner => exact Or.inl (upsert_step_closed hinner)

/-- A closed set is empty, unless the shutdown has yet to drain it. -/
def ClosedEmpty (s : MdnsSystem) : Prop :=
  s.set.closed = true → s.set.resolvers = ∅ ∨ .shutdown .stored ∈ s.operations

theorem closedEmpty_step (h : Step s t) (hs : s.Invariant ∧ s.ClosedEmpty) :
    t.Invariant ∧ t.ClosedEmpty := by
  obtain ⟨hinvariant, hs⟩ := hs
  refine ⟨invariant_step h hinvariant, ?_⟩
  cases h with
  | call hstarts =>
    intro hclosed
    exact (hs hclosed).imp id fun hstored => List.mem_append_left _ hstored
  | @act before after operation operation' set ok order hoperation hstep =>
    intro hclosed
    rcases operation_step_closed hstep with hsame | rfl
    · obtain ⟨hmoved, _⟩ :=
        Operation.moved hstep (hinvariant.wellBound operation (acting_mem hoperation))
      have hbefore : s.set.closed = true := hsame.symm.trans hclosed
      rcases hs hbefore with hnone | hstored
      · exact Or.inl (hmoved.empty hbefore hnone)
      · rw [hoperation] at hstored
        rcases mem_replaced hstored with rfl | hstored
        · cases Operation.stepped hstep with
          | shutdown hcall => exact Or.inl (congrArg MdnsResolverSet.resolvers (drained_set hcall))
        · exact Or.inr hstored
    · exact Or.inr (List.mem_append_right _ List.mem_cons_self)

/-- No call goes on. -/
def Quiet (s : MdnsSystem) : Prop := ∀ operation ∈ s.operations, operation.Returned

theorem empty_of_closed {serviceName : Name} {n : ℕ} (h : Run Step n (initial serviceName) s)
    (hquiet : s.Quiet) (hclosed : s.set.closed = true) : s.set.resolvers = ∅ := by
  have hempty := (h.invariant (fun _ _ => closedEmpty_step)
    ⟨invariant_initial serviceName, fun _ => Or.inl rfl⟩).2
  refine (hempty hclosed).resolve_right ?_
  intro hstored
  obtain ⟨result, heq⟩ := hquiet _ hstored
  cases heq

/-- The steps of a `reconcile` alone are steps of the system. -/
theorem step_of_alone {desired : List MdnsBinding} {binds shuts : MdnsBinding → Bool}
    {order : List MdnsInstance} (operations : List Operation)
    {before after : MdnsResolverSet × Reconcile}
    (h : ReflTransGen (Reconcile.Alone desired binds shuts order) before after) :
    ReflTransGen Step ⟨before.1, operations ++ [.reconcile desired before.2]⟩
      ⟨after.1, operations ++ [.reconcile desired after.2]⟩ := by
  refine h.lift (fun state => (⟨state.1, operations ++ [.reconcile desired state.2]⟩ : MdnsSystem)) ?_
  intro state next hstep
  exact .act rfl (Option.map_eq_some_iff.mpr ⟨next, hstep, rfl⟩)

/-- The bindings of the obsolete instances are those in the map that are not desired. -/
theorem obsolete_bindings (desired : List MdnsBinding) (resolvers : List MdnsInstance) :
    (obsolete desired resolvers).map MdnsInstance.binding =
      (resolvers.map MdnsInstance.binding).filter fun binding => binding ∉ desired := by
  rw [List.filter_map]
  rfl

theorem Invariant.order_keys (h : s.Invariant) {order : List MdnsInstance}
    (horder : order.Perm s.set.values) :
    (order.map MdnsInstance.binding).Perm s.set.resolvers.keys := by
  rw [← h.map_binding_values]
  exact horder.map _

section Reconciles

variable {bindings desired : List MdnsBinding} {binds shuts : MdnsBinding → Bool}
  {order : List MdnsInstance}

theorem Invariant.removed (h : s.Invariant) (horder : order.Perm s.set.values) :
    Removed desired shuts order s.set (removeLoop desired shuts order s.set) := by
  refine removed_removeLoop ?_ ?_
  · exact (h.order_keys horder).nodup_iff.mpr s.set.resolvers.keys_nodup
  · intro resolver hresolver
    exact h.lookup_of_mem (horder.mem_iff.mp hresolver)

/-- The first loop leaves the desired bindings as they are, and no other ones. -/
theorem Invariant.removed_lookup (h : s.Invariant) (horder : order.Perm s.set.values)
    (binding : MdnsBinding) :
    (removeLoop desired shuts order s.set).1.resolvers.lookup binding =
      if binding ∈ desired then s.set.resolvers.lookup binding else none := by
  have hkeys : binding ∈ (obsolete desired order).map MdnsInstance.binding ↔
      binding ∈ s.set.resolvers ∧ binding ∉ desired := by
    rw [obsolete_bindings, List.mem_filter, (h.order_keys horder).mem_iff, decide_eq_true_iff,
      AList.mem_keys]
  rw [(h.removed horder).lookup]
  by_cases hdesired : binding ∈ desired
  · rw [if_pos hdesired, if_neg fun hobsolete => (hkeys.mp hobsolete).2 hdesired]
  · rw [if_neg hdesired]
    split
    · rfl
    · rename_i hpresent
      rw [AList.lookup_eq_none]
      exact fun hmem => hpresent (hkeys.mpr ⟨hmem, hdesired⟩)

theorem Invariant.removed_mem (h : s.Invariant) (horder : order.Perm s.set.values)
    (binding : MdnsBinding) :
    binding ∈ (removeLoop desired shuts order s.set).1.resolvers ↔
      binding ∈ desired ∧ binding ∈ s.set.resolvers := by
  rw [← AList.lookup_isSome, h.removed_lookup horder, ← AList.lookup_isSome]
  by_cases hdesired : binding ∈ desired
  · simp [hdesired]
  · simp [hdesired]

theorem Invariant.upserted (h : s.Invariant)
    (hempty : s.set.closed = true → s.set.resolvers = ∅) (horder : order.Perm s.set.values)
    (hnodup : desired.Nodup) :
    Upserted binds desired (removeLoop desired shuts order s.set).1
      (upsertLoop binds desired (removeLoop desired shuts order s.set).1) := by
  refine upserted_upsertLoop hnodup ?_
  intro hclosed
  rw [(h.removed horder).closed] at hclosed
  have hnone : order = [] := by
    refine List.Perm.eq_nil (horder.trans ?_)
    rw [MdnsResolverSet.values, hempty hclosed]
    exact List.Perm.refl _
  rw [hnone]
  exact hempty hclosed

/-- What can be bound is not changed by the first loop. -/
theorem Invariant.removed_accepts (h : s.Invariant) (horder : order.Perm s.set.values) (ok : Bool) :
    (removeLoop desired shuts order s.set).1.Accepts ok ↔ s.set.Accepts ok := by
  unfold MdnsResolverSet.Accepts
  rw [(h.removed horder).closed, (h.removed horder).serviceName]

theorem Invariant.removals (h : s.Invariant) (horder : order.Perm s.set.values) :
    (removeLoop desired shuts order s.set).2.Perm
      ((s.set.resolvers.keys.filter fun binding => binding ∉ desired ∧ ¬ shuts binding).map
        fun binding => .remove binding .taskFailed) := by
  have herrors : (removeLoop desired shuts order s.set).2 =
      ((order.map MdnsInstance.binding).filter fun binding =>
        binding ∉ desired ∧ ¬ shuts binding).map fun binding => .remove binding .taskFailed := by
    rw [(h.removed horder).errors, obsolete, List.filter_filter, List.filter_map, List.map_map]
    refine congrArg _ (List.filter_congr ?_)
    intro resolver _
    simp [and_comm]
  rw [herrors]
  exact ((h.order_keys horder).filter _).map _

theorem Invariant.reconcile_bound (h : s.Invariant)
    (hempty : s.set.closed = true → s.set.resolvers = ∅) (horder : order.Perm s.set.values)
    (hnodup : desired.Nodup) (binding : MdnsBinding) :
    binding ∈ (s.set.reconcile desired binds shuts order).1.resolvers ↔
      binding ∈ desired ∧ (binding ∈ s.set.resolvers ∨ s.set.Accepts (binds binding)) := by
  refine ((h.upserted hempty horder hnodup).bound binding).trans ?_
  rw [h.removed_mem horder, h.removed_accepts horder]
  exact and_or_left.symm

/-- There is an error for each desired binding that is not in the set at the end. -/
theorem Invariant.failures (h : s.Invariant)
    (hempty : s.set.closed = true → s.set.resolvers = ∅) (horder : order.Perm s.set.values)
    (hnodup : desired.Nodup) :
    (upsertLoop binds desired (removeLoop desired shuts order s.set).1).2 =
      (desired.filter fun binding =>
        binding ∉ (s.set.reconcile desired binds shuts order).1.resolvers).map
          fun binding => .bind binding (s.set.refusal binding) := by
  have hrefusal : (removeLoop desired shuts order s.set).1.refusal = s.set.refusal := by
    funext binding
    unfold MdnsResolverSet.refusal
    rw [(h.removed horder).closed, (h.removed horder).serviceName]
  rw [(h.upserted hempty horder hnodup).errors, hrefusal]
  refine congrArg _ (List.filter_congr ?_)
  intro binding hbinding
  rw [decide_eq_decide, h.reconcile_bound hempty horder hnodup, h.removed_mem horder,
    h.removed_accepts horder]
  tauto

/-- The set has what is desired as far as it could be had, the errors say what could not, and the
instances that are desired are the only ones that are not shut down. -/
structure Reconciled (bindings : List MdnsBinding) (binds shuts : MdnsBinding → Bool)
    (set set' : MdnsResolverSet) (errors : List MdnsReconcileError) : Prop where
  bound : ∀ binding, binding ∈ set'.resolvers ↔
    binding ∈ bindings ∧ (binding ∈ set.resolvers ∨ set.Accepts (binds binding))
  kept : ∀ binding ∈ bindings, ∀ resolver, set.resolvers.lookup binding = some resolver →
    set'.resolvers.lookup binding = some resolver
  down : ∀ resolver ∈ set.bound,
    resolver ∈ set'.down ↔ ¬ (resolver ∈ set.values ∧ resolver.binding ∈ bindings)
  errors : ∃ removals failures, errors = removals ++ failures ∧
    removals.Perm ((set.resolvers.keys.filter fun binding =>
      binding ∉ bindings ∧ ¬ shuts binding).map fun binding => .remove binding .taskFailed) ∧
    failures.Perm ((bindings.dedup.filter fun binding => binding ∉ set'.resolvers).map
      fun binding => .bind binding (set.refusal binding))

theorem Invariant.reconciled (h : s.Invariant) (hquiet : s.Quiet)
    (hempty : s.set.closed = true → s.set.resolvers = ∅)
    (hdesired : desired.Perm bindings.dedup) (horder : order.Perm s.set.values) :
    Reconciled bindings binds shuts s.set (s.set.reconcile desired binds shuts order).1
      (s.set.reconcile desired binds shuts order).2 := by
  have hmem : ∀ binding, binding ∈ desired ↔ binding ∈ bindings := by
    intro binding
    rw [hdesired.mem_iff, List.mem_dedup]
  have hnodup : desired.Nodup := hdesired.nodup_iff.mpr (List.nodup_dedup _)
  refine ⟨?_, ?_, ?_, _, _, rfl, ?_, ?_⟩
  · intro binding
    rw [h.reconcile_bound hempty horder hnodup, hmem]
  · intro binding hbinding resolver hresolver
    refine (h.upserted hempty horder hnodup).kept binding resolver ?_
    rw [h.removed_lookup horder, if_pos ((hmem binding).mpr hbinding)]
    exact hresolver
  · intro resolver hresolver
    have hlive := h.custody.quiet hquiet resolver
    have hdown : (s.set.reconcile desired binds shuts order).1.down =
        s.set.down ++ obsolete desired order :=
      (h.upserted hempty horder hnodup).down.trans (h.removed horder).down
    rw [hdown, List.mem_append, obsolete, List.mem_filter, horder.mem_iff, decide_eq_true_iff,
      hmem, ← hlive]
    tauto
  · simp only [← hmem]
    exact h.removals horder
  · rw [h.failures hempty horder hnodup]
    exact (hdesired.filter _).map _

/-- A set that has all that is desired, and nothing else, is left as it is. -/
theorem Invariant.reconcile_again (h : s.Invariant)
    (hempty : s.set.closed = true → s.set.resolvers = ∅) (horder : order.Perm s.set.values)
    (hbound : ∀ binding, binding ∈ s.set.resolvers ↔ binding ∈ desired) :
    s.set.reconcile desired binds shuts order = (s.set, []) := by
  have hkept : removeLoop desired shuts order s.set = (s.set, []) := by
    refine removeLoop_of_desired ?_
    intro resolver hresolver
    rw [← hbound, ← AList.lookup_isSome, h.lookup_of_mem (horder.mem_iff.mp hresolver)]
    rfl
  have hadded : upsertLoop binds desired s.set = (s.set, []) :=
    upsertLoop_of_bound hempty fun binding hbinding => (hbound binding).mpr hbinding
  rw [MdnsResolverSet.reconcile, hkept, hadded]
  rfl

/-- Where nothing has failed, all that is desired is there. -/
theorem Reconciled.all_bound {set set' : MdnsResolverSet}
    (h : Reconciled bindings binds shuts set set' []) (binding : MdnsBinding) :
    binding ∈ set'.resolvers ↔ binding ∈ bindings := by
  constructor
  · intro hmem
    exact ((h.bound binding).mp hmem).1
  · intro hmem
    obtain ⟨removals, failures, hnil, _, hfailures⟩ := h.errors
    rw [(List.append_eq_nil_iff.mp hnil.symm).2, List.nil_perm, List.map_eq_nil_iff,
      List.filter_eq_nil_iff] at hfailures
    have hbound := hfailures binding (List.mem_dedup.mpr hmem)
    simpa using hbound

end Reconciles

/-- A `reconcile` that is the only call on the set, in any state that earlier calls have left,
brings it to the desired bindings. After one without errors the next one changes nothing. -/
theorem reconcile_reaches_desired (serviceName : Name) {n : ℕ}
    (h : Run Step n (initial serviceName) s) (hquiet : s.Quiet) (bindings : List MdnsBinding)
    (binds shuts : MdnsBinding → Bool) {desired : List MdnsBinding} {order : List MdnsInstance}
    (hdesired : desired.Perm bindings.dedup) (horder : order.Perm s.set.values) :
    ∃ set errors, ReconcilesTo desired binds shuts order s.set set errors ∧
      Reconciled bindings binds shuts s.set set errors ∧
      (errors = [] → ∀ desired' order', desired'.Perm bindings.dedup → order'.Perm set.values →
        ReconcilesTo desired' binds shuts order' set set []) := by
  have hempty := empty_of_closed h hquiet
  have hreconciled := @Invariant.reconciled s bindings desired binds shuts order (invariant_run h)
    hquiet hempty hdesired horder
  refine ⟨_, _, reconcilesTo_reconcile horder, hreconciled, ?_⟩
  intro hnone desired' order' hdesired' horder'
  -- the state in which the first call has returned is again one that calls lead to
  have hcall : Step s ⟨s.set, s.operations ++ [.reconcile desired .started]⟩ :=
    .call ⟨hdesired.nodup_iff.mpr (List.nodup_dedup _), rfl⟩
  obtain ⟨m, hrun⟩ := (h.tail hcall).extend
    (step_of_alone s.operations (@alone_reconcile desired binds shuts order s.set horder))
  have hquiet' : ∀ operation ∈ s.operations ++ [.reconcile desired
      (.returned (s.set.reconcile desired binds shuts order).2)], operation.Returned := by
    intro operation hoperation
    rcases List.mem_append.mp hoperation with hoperation | hoperation
    · exact hquiet operation hoperation
    · rw [List.mem_singleton.mp hoperation]
      exact ⟨_, rfl⟩
  rw [hnone] at hreconciled
  have hagain := @Invariant.reconcile_again _ desired' binds shuts order' (invariant_run hrun)
    (empty_of_closed hrun hquiet') horder' fun binding => by
      rw [hdesired'.mem_iff, List.mem_dedup]
      exact hreconciled.all_bound binding
  have hresult := @reconcilesTo_reconcile desired' binds shuts order' _ horder'
  rw [hagain] at hresult
  exact hresult

section Sample

def otherBinding : MdnsBinding := ⟨['f'], .v4 2⟩

/-- One `upsert` has returned. -/
def settled : MdnsSystem :=
  ⟨⟨sampleService, (∅ : AList fun _ : MdnsBinding => MdnsInstance).insert sampleBinding
      sampleInstance, false, [sampleInstance], []⟩,
    [.upsert sampleBinding (.returned (.ok sampleInstance))]⟩

theorem settled_run : Run Step 5 (initial sampleService) settled := by
  have hinsert : Step
      ⟨⟨sampleService, ∅, false, [sampleInstance], []⟩,
        [.upsert sampleBinding (.bound sampleInstance)]⟩ settled :=
    @Step.act _ [] [] _ _ _ true [] rfl rfl
  exact .tail candidate_run hinsert

theorem settled_quiet : settled.Quiet := by
  intro operation hoperation
  rw [List.mem_singleton.mp hoperation]
  exact ⟨_, rfl⟩

/-- The one instance is replaced by one for another binding that is given twice, although its
shutdown fails. -/
theorem settled_reaches_other :
    Run Step 5 (initial sampleService) settled ∧ settled.Quiet ∧
      ∃ set errors, ReconcilesTo [otherBinding] (fun _ => true) (fun _ => false) [sampleInstance]
        settled.set set errors ∧
        Reconciled [otherBinding, otherBinding] (fun _ => true) (fun _ => false) settled.set set
          errors := by
  have hdesired : [otherBinding].Perm [otherBinding, otherBinding].dedup :=
    List.Perm.of_eq (by decide)
  have horder : [sampleInstance].Perm settled.set.values := List.Perm.refl _
  obtain ⟨set, errors, hend, hreconciled, _⟩ := reconcile_reaches_desired sampleService settled_run
    settled_quiet [otherBinding, otherBinding] (fun _ => true) (fun _ => false) hdesired horder
  exact ⟨settled_run, settled_quiet, set, errors, hend, hreconciled⟩

end Sample

end MdnsSystem

end Ddns
