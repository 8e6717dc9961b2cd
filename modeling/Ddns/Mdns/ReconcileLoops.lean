import Ddns.Library.Transition
import Ddns.Mdns.ResolverSet

/-! A `reconcile` that no other call disturbs: its steps come to what its two loops do one
binding after the other. -/
namespace Ddns

open Relation

/-- Whether the bind or the shutdown that comes next succeeds. -/
def Reconcile.outcome (binds shuts : MdnsBinding → Bool) : Reconcile → Bool
  | .removingOne binding _ _ _ => shuts binding
  | .upsertingOne binding (.lost _ _) _ _ => shuts binding
  | .upsertingOne binding _ _ _ => binds binding
  | _ => true

/-- A step of a `reconcile` while it is the only call that goes on. -/
def Reconcile.Alone (desired : List MdnsBinding) (binds shuts : MdnsBinding → Bool)
    (order : List MdnsInstance) (s t : MdnsResolverSet × Reconcile) : Prop :=
  s.2.step desired s.1 (s.2.outcome binds shuts) order = some t

namespace MdnsResolverSet

/-- All that `remove` does. -/
def remove (set : MdnsResolverSet) (binding : MdnsBinding) (ok : Bool) :
    MdnsResolverSet × Except MdnsShutdownError Bool :=
  match set.resolvers.lookup binding with
  | none => (set, .ok false)
  | some resolver =>
    ({ set with resolvers := set.resolvers.erase binding }.shutDown resolver,
      if ok then .ok true else .error .taskFailed)

/-- All that `upsert` does when nobody else comes between its steps. -/
def upsert (set : MdnsResolverSet) (binding : MdnsBinding) (ok : Bool) :
    MdnsResolverSet × Except MdnsBindError MdnsInstance :=
  if set.closed then (set, .error .closed)
  else
    match set.resolvers.lookup binding with
    | some resolver => (set, .ok resolver)
    | none =>
      match set.bind binding ok with
      | .error error => (set, .error error)
      | .ok candidate =>
        ({ set with
            resolvers := set.resolvers.insert binding candidate
            bound := set.bound ++ [candidate] }, .ok candidate)

end MdnsResolverSet

def removeErrors (binding : MdnsBinding) : Except MdnsShutdownError Bool → List MdnsReconcileError
  | .ok _ => []
  | .error source => [.remove binding source]

def bindErrors (binding : MdnsBinding) : Except MdnsBindError MdnsInstance → List MdnsReconcileError
  | .ok _ => []
  | .error source => [.bind binding source]

def removeLoop (desired : List MdnsBinding) (shuts : MdnsBinding → Bool) :
    List MdnsInstance → MdnsResolverSet → MdnsResolverSet × List MdnsReconcileError
  | [], set => (set, [])
  | resolver :: rest, set =>
    if resolver.binding ∈ desired then removeLoop desired shuts rest set
    else
      let out := set.remove resolver.binding (shuts resolver.binding)
      let more := removeLoop desired shuts rest out.1
      (more.1, removeErrors resolver.binding out.2 ++ more.2)

def upsertLoop (binds : MdnsBinding → Bool) :
    List MdnsBinding → MdnsResolverSet → MdnsResolverSet × List MdnsReconcileError
  | [], set => (set, [])
  | binding :: rest, set =>
    let out := set.upsert binding (binds binding)
    let more := upsertLoop binds rest out.1
    (more.1, bindErrors binding out.2 ++ more.2)

/-- The set and the errors after both loops. -/
def MdnsResolverSet.reconcile (set : MdnsResolverSet) (desired : List MdnsBinding)
    (binds shuts : MdnsBinding → Bool) (order : List MdnsInstance) :
    MdnsResolverSet × List MdnsReconcileError :=
  let removed := removeLoop desired shuts order set
  let upserted := upsertLoop binds desired removed.1
  (upserted.1, removed.2 ++ upserted.2)

section Steps

variable {desired : List MdnsBinding} {binds shuts : MdnsBinding → Bool}
  {order : List MdnsInstance}

theorem Reconcile.alone_rightUnique :
    Relator.RightUnique (Reconcile.Alone desired binds shuts order) := by
  intro s t u ht hu
  exact Option.some.inj (ht.symm.trans hu)

theorem Reconcile.alone_returned (set : MdnsResolverSet) (errors : List MdnsReconcileError)
    (t : MdnsResolverSet × Reconcile) :
    ¬ Reconcile.Alone desired binds shuts order (set, .returned errors) t := by
  intro h
  cases h

/-- The call of `remove` within `reconcile` does all that `remove` does. -/
theorem alone_remove (set : MdnsResolverSet) (binding : MdnsBinding) (rest : List MdnsInstance)
    (errors : List MdnsReconcileError) :
    ReflTransGen (Reconcile.Alone desired binds shuts order)
      (set, .removingOne binding .started rest errors)
      ((set.remove binding (shuts binding)).1,
        .removing rest (errors ++ removeErrors binding (set.remove binding (shuts binding)).2)) := by
  cases hlookup : set.resolvers.lookup binding with
  | none =>
    have hfirst : Reconcile.Alone desired binds shuts order
        (set, .removingOne binding .started rest errors)
        (set, .removingOne binding (.returned (.ok false)) rest errors) := by
      simp [Reconcile.Alone, Reconcile.step, Remove.step, hlookup]
    have hlast : Reconcile.Alone desired binds shuts order
        (set, .removingOne binding (.returned (.ok false)) rest errors)
        (set, .removing rest errors) := rfl
    have hout : set.remove binding (shuts binding) = (set, .ok false) := by
      simp [MdnsResolverSet.remove, hlookup]
    rw [hout, removeErrors, List.append_nil]
    exact (ReflTransGen.single hfirst).tail hlast
  | some resolver =>
    have hfirst : Reconcile.Alone desired binds shuts order
        (set, .removingOne binding .started rest errors)
        ({ set with resolvers := set.resolvers.erase binding },
          .removingOne binding (.taken resolver) rest errors) := by
      simp [Reconcile.Alone, Reconcile.step, Remove.step, hlookup]
    have hdown : Reconcile.Alone desired binds shuts order
        ({ set with resolvers := set.resolvers.erase binding },
          .removingOne binding (.taken resolver) rest errors)
        ({ set with resolvers := set.resolvers.erase binding }.shutDown resolver,
          .removingOne binding (.returned (if shuts binding then .ok true else .error .taskFailed))
            rest errors) := rfl
    have hout : set.remove binding (shuts binding) =
        ({ set with resolvers := set.resolvers.erase binding }.shutDown resolver,
          if shuts binding then .ok true else .error .taskFailed) := by
      simp [MdnsResolverSet.remove, hlookup]
    rw [hout]
    refine ((ReflTransGen.single hfirst).tail hdown).tail ?_
    cases shuts binding with
    | false => exact rfl
    | true =>
      rw [if_pos rfl, removeErrors, List.append_nil]
      exact rfl

theorem alone_removeLoop (resolvers : List MdnsInstance) (set : MdnsResolverSet)
    (errors : List MdnsReconcileError) :
    ReflTransGen (Reconcile.Alone desired binds shuts order) (set, .removing resolvers errors)
      ((removeLoop desired shuts resolvers set).1,
        .removing [] (errors ++ (removeLoop desired shuts resolvers set).2)) := by
  induction resolvers generalizing set errors with
  | nil =>
    rw [removeLoop, List.append_nil]
  | cons resolver rest ih =>
    rw [removeLoop]
    by_cases hdesired : resolver.binding ∈ desired
    · rw [if_pos hdesired]
      refine ReflTransGen.head ?_ (ih set errors)
      simp [Reconcile.Alone, Reconcile.step, hdesired]
    · rw [if_neg hdesired]
      dsimp only
      rw [← List.append_assoc]
      refine ReflTransGen.head ?_ ((alone_remove set resolver.binding rest errors).trans (ih _ _))
      simp [Reconcile.Alone, Reconcile.step, hdesired]

/-- The call of `upsert` within `reconcile` loses no race. -/
theorem alone_upsert (set : MdnsResolverSet) (binding : MdnsBinding) (rest : List MdnsBinding)
    (errors : List MdnsReconcileError) :
    ReflTransGen (Reconcile.Alone desired binds shuts order)
      (set, .upsertingOne binding .started rest errors)
      ((set.upsert binding (binds binding)).1,
        .upserting rest (errors ++ bindErrors binding (set.upsert binding (binds binding)).2)) := by
  have hlast : ∀ set result, Reconcile.Alone desired binds shuts order
      (set, .upsertingOne binding (.returned result) rest errors)
      (set, .upserting rest (errors ++ bindErrors binding result)) := by
    intro set result
    cases result with
    | error source => exact rfl
    | ok resolver =>
      rw [bindErrors, List.append_nil]
      exact rfl
  refine ReflTransGen.tail ?_ (hlast _ _)
  by_cases hclosed : set.closed = true
  · refine ReflTransGen.single ?_
    simp [Reconcile.Alone, Reconcile.step, Upsert.step, MdnsResolverSet.upsert, hclosed]
  have hstart : Reconcile.Alone desired binds shuts order
      (set, .upsertingOne binding .started rest errors)
      (set, .upsertingOne binding .checking rest errors) := by
    simp [Reconcile.Alone, Reconcile.step, Upsert.step, hclosed]
  refine ReflTransGen.head hstart ?_
  cases hlookup : set.resolvers.lookup binding with
  | some resolver =>
    refine ReflTransGen.single ?_
    simp [Reconcile.Alone, Reconcile.step, Upsert.step, MdnsResolverSet.upsert, hclosed, hlookup]
  | none =>
    have hmissing : Reconcile.Alone desired binds shuts order
        (set, .upsertingOne binding .checking rest errors)
        (set, .upsertingOne binding .missing rest errors) := by
      simp [Reconcile.Alone, Reconcile.step, Upsert.step, hlookup]
    refine ReflTransGen.head hmissing ?_
    cases hbind : set.bind binding (binds binding) with
    | error error =>
      refine ReflTransGen.single ?_
      simp [Reconcile.Alone, Reconcile.step, Reconcile.outcome, Upsert.step,
        MdnsResolverSet.upsert, hclosed, hlookup, hbind]
    | ok candidate =>
      have hbound : Reconcile.Alone desired binds shuts order
          (set, .upsertingOne binding .missing rest errors)
          ({ set with bound := set.bound ++ [candidate] },
            .upsertingOne binding (.bound candidate) rest errors) := by
        simp [Reconcile.Alone, Reconcile.step, Reconcile.outcome, Upsert.step, hbind]
      refine ReflTransGen.head hbound (ReflTransGen.single ?_)
      simp [Reconcile.Alone, Reconcile.step, Upsert.step, MdnsResolverSet.upsert, hclosed, hlookup,
        hbind]

theorem alone_upsertLoop (bindings : List MdnsBinding) (set : MdnsResolverSet)
    (errors : List MdnsReconcileError) :
    ReflTransGen (Reconcile.Alone desired binds shuts order) (set, .upserting bindings errors)
      ((upsertLoop binds bindings set).1,
        .upserting [] (errors ++ (upsertLoop binds bindings set).2)) := by
  induction bindings generalizing set errors with
  | nil =>
    rw [upsertLoop, List.append_nil]
  | cons binding rest ih =>
    rw [upsertLoop]
    dsimp only
    rw [← List.append_assoc]
    have hfirst : Reconcile.Alone desired binds shuts order
        (set, .upserting (binding :: rest) errors)
        (set, .upsertingOne binding .started rest errors) := rfl
    exact ReflTransGen.head hfirst ((alone_upsert set binding rest errors).trans (ih _ _))

/-- The steps of a `reconcile` lead to what its loops come to. -/
theorem alone_reconcile {set : MdnsResolverSet} (horder : order.Perm set.values) :
    ReflTransGen (Reconcile.Alone desired binds shuts order) (set, .started)
      ((set.reconcile desired binds shuts order).1,
        .returned (set.reconcile desired binds shuts order).2) := by
  have hstart : Reconcile.Alone desired binds shuts order (set, .started)
      (set, .removing order []) := if_pos horder
  have hturn : ∀ set errors, Reconcile.Alone desired binds shuts order
      (set, .removing [] errors) (set, .upserting desired errors) := fun _ _ => rfl
  have hlast : ∀ set errors, Reconcile.Alone desired binds shuts order
      (set, .upserting [] errors) (set, .returned errors) := fun _ _ => rfl
  have hremoved := ReflTransGen.head hstart (alone_removeLoop order set [])
  exact ((hremoved.tail (hturn _ _)).trans (alone_upsertLoop desired _ _)).tail (hlast _ _)

end Steps

/-- The instances that are bound to what is not desired. -/
def obsolete (desired : List MdnsBinding) (resolvers : List MdnsInstance) : List MdnsInstance :=
  resolvers.filter fun resolver => resolver.binding ∉ desired

/-- What the first loop does to a set that has the given resolvers. -/
structure Removed (desired : List MdnsBinding) (shuts : MdnsBinding → Bool)
    (resolvers : List MdnsInstance) (set : MdnsResolverSet)
    (out : MdnsResolverSet × List MdnsReconcileError) : Prop where
  serviceName : out.1.serviceName = set.serviceName
  closed : out.1.closed = set.closed
  down : out.1.down = set.down ++ obsolete desired resolvers
  lookup : ∀ binding, out.1.resolvers.lookup binding =
    if binding ∈ (obsolete desired resolvers).map MdnsInstance.binding then none
    else set.resolvers.lookup binding
  errors : out.2 = ((obsolete desired resolvers).filter fun resolver =>
    ¬ shuts resolver.binding).map fun resolver => .remove resolver.binding .taskFailed

section Removing

variable {desired : List MdnsBinding} {shuts : MdnsBinding → Bool} {resolver : MdnsInstance}
  {rest : List MdnsInstance} {set : MdnsResolverSet}
  {out : MdnsResolverSet × List MdnsReconcileError}

theorem Removed.keep (h : Removed desired shuts rest set out)
    (hdesired : resolver.binding ∈ desired) : Removed desired shuts (resolver :: rest) set out := by
  have hsame : obsolete desired (resolver :: rest) = obsolete desired rest :=
    List.filter_cons_of_neg (by simpa using hdesired)
  obtain ⟨hserviceName, hclosed, hdown, hlookup, herrors⟩ := h
  rw [← hsame] at hdown hlookup herrors
  exact ⟨hserviceName, hclosed, hdown, hlookup, herrors⟩

/-- An instance that is taken out of the set is shut down before the others. -/
theorem Removed.take
    (h : Removed desired shuts rest
      ({ set with resolvers := set.resolvers.erase resolver.binding }.shutDown resolver) out)
    (hobsolete : resolver.binding ∉ desired) :
    Removed desired shuts (resolver :: rest) set (out.1, removeErrors resolver.binding
      (if shuts resolver.binding then .ok true else .error .taskFailed) ++ out.2) := by
  have hmore : obsolete desired (resolver :: rest) = resolver :: obsolete desired rest :=
    List.filter_cons_of_pos (by simpa using hobsolete)
  refine ⟨h.serviceName, h.closed, ?_, ?_, ?_⟩
  · rw [hmore]
    refine h.down.trans ?_
    rw [MdnsResolverSet.shutDown, List.append_assoc, List.singleton_append]
  · intro binding
    rw [hmore, List.map_cons]
    refine (h.lookup binding).trans ?_
    by_cases heq : binding = resolver.binding
    · subst heq
      rw [if_pos List.mem_cons_self]
      split
      · rfl
      · exact AList.lookup_erase _ _
    · rw [MdnsResolverSet.shutDown, AList.lookup_erase_ne heq]
      simp [heq]
  · rw [hmore]
    cases hshuts : shuts resolver.binding <;> simp [hshuts, removeErrors, h.errors]

end Removing

theorem removed_removeLoop {desired : List MdnsBinding} {shuts : MdnsBinding → Bool}
    {resolvers : List MdnsInstance} {set : MdnsResolverSet}
    (hnodup : (resolvers.map MdnsInstance.binding).Nodup)
    (hlookup : ∀ resolver ∈ resolvers, set.resolvers.lookup resolver.binding = some resolver) :
    Removed desired shuts resolvers set (removeLoop desired shuts resolvers set) := by
  induction resolvers generalizing set with
  | nil => exact ⟨rfl, rfl, (List.append_nil _).symm, fun _ => rfl, rfl⟩
  | cons resolver rest ih =>
    obtain ⟨hfresh, hrest⟩ := List.nodup_cons.mp hnodup
    have hothers : ∀ other ∈ rest, set.resolvers.lookup other.binding = some other :=
      fun other hother => hlookup other (List.mem_cons_of_mem _ hother)
    rw [removeLoop]
    by_cases hdesired : resolver.binding ∈ desired
    · rw [if_pos hdesired]
      exact (ih hrest hothers).keep hdesired
    · have hremove : set.remove resolver.binding (shuts resolver.binding) =
          ({ set with resolvers := set.resolvers.erase resolver.binding }.shutDown resolver,
            if shuts resolver.binding then .ok true else .error .taskFailed) := by
        simp [MdnsResolverSet.remove, hlookup resolver List.mem_cons_self]
      rw [if_neg hdesired, hremove]
      refine Removed.take (ih hrest ?_) hdesired
      intro other hother
      have hne : other.binding ≠ resolver.binding := by
        intro heq
        exact hfresh (heq ▸ List.mem_map_of_mem hother)
      rw [← hothers other hother]
      exact AList.lookup_erase_ne hne

/-- Nothing is removed when everything is desired. -/
theorem removeLoop_of_desired {desired : List MdnsBinding} {shuts : MdnsBinding → Bool}
    {resolvers : List MdnsInstance} {set : MdnsResolverSet}
    (h : ∀ resolver ∈ resolvers, resolver.binding ∈ desired) :
    removeLoop desired shuts resolvers set = (set, []) := by
  induction resolvers with
  | nil => rfl
  | cons resolver rest ih =>
    rw [removeLoop, if_pos (h resolver List.mem_cons_self)]
    exact ih fun other hother => h other (List.mem_cons_of_mem _ hother)

namespace MdnsResolverSet

/-- A resolver for a new binding can be had. -/
def Accepts (set : MdnsResolverSet) (ok : Bool) : Prop :=
  set.closed = false ∧ validServiceName set.serviceName ∧ ok = true

instance (set : MdnsResolverSet) (ok : Bool) : Decidable (set.Accepts ok) :=
  inferInstanceAs (Decidable (_ ∧ _))

/-- Why a new binding is refused. -/
def refusal (set : MdnsResolverSet) (binding : MdnsBinding) : MdnsBindError :=
  if set.closed then .closed
  else if ¬ validServiceName set.serviceName then .invalidServiceName
  else .bind binding.device binding.ip

variable {set : MdnsResolverSet} {binding : MdnsBinding} {ok : Bool}

theorem upsert_present (hempty : set.closed = true → set.resolvers = ∅) {resolver : MdnsInstance}
    (h : set.resolvers.lookup binding = some resolver) :
    set.upsert binding ok = (set, .ok resolver) := by
  have hopen : set.closed = false := by
    rw [Bool.eq_false_iff]
    intro hclosed
    rw [hempty hclosed] at h
    cases h
  simp [upsert, hopen, h]

theorem upsert_refused (h : set.resolvers.lookup binding = none) (hrefuses : ¬ set.Accepts ok) :
    set.upsert binding ok = (set, .error (set.refusal binding)) := by
  unfold upsert refusal
  by_cases hclosed : set.closed = true
  · simp [hclosed]
  · by_cases hvalid : validServiceName set.serviceName
    · have hok : ok = false := by
        rw [Bool.eq_false_iff]
        intro hok
        exact hrefuses ⟨Bool.eq_false_iff.mpr hclosed, hvalid, hok⟩
      simp [hclosed, h, MdnsResolverSet.bind, hvalid, hok]
    · simp [hclosed, h, MdnsResolverSet.bind, hvalid]

theorem upsert_accepted (h : set.resolvers.lookup binding = none) (haccepts : set.Accepts ok) :
    ∃ candidate, set.upsert binding ok =
      ({ set with
          resolvers := set.resolvers.insert binding candidate
          bound := set.bound ++ [candidate] }, .ok candidate) := by
  obtain ⟨hopen, hvalid, rfl⟩ := haccepts
  refine ⟨⟨set.bound.length, binding.device, binding.ip⟩, ?_⟩
  simp [upsert, hopen, h, MdnsResolverSet.bind, hvalid]

end MdnsResolverSet

/-- What the second loop does to a set. -/
structure Upserted (binds : MdnsBinding → Bool) (bindings : List MdnsBinding)
    (set : MdnsResolverSet) (out : MdnsResolverSet × List MdnsReconcileError) : Prop where
  down : out.1.down = set.down
  kept : ∀ binding resolver, set.resolvers.lookup binding = some resolver →
    out.1.resolvers.lookup binding = some resolver
  bound : ∀ binding, binding ∈ out.1.resolvers ↔
    binding ∈ set.resolvers ∨ (binding ∈ bindings ∧ set.Accepts (binds binding))
  errors : out.2 = (bindings.filter fun binding =>
    binding ∉ set.resolvers ∧ ¬ set.Accepts (binds binding)).map fun binding =>
      .bind binding (set.refusal binding)

section Upserting

variable {binds : MdnsBinding → Bool} {binding : MdnsBinding} {rest : List MdnsBinding}
  {set : MdnsResolverSet} {out : MdnsResolverSet × List MdnsReconcileError}

/-- A binding that is there or is refused does not change the set. -/
theorem Upserted.skip (h : Upserted binds rest set out)
    (hskip : binding ∈ set.resolvers ∨ ¬ set.Accepts (binds binding))
    {errors : List MdnsReconcileError}
    (herrors : errors = ([binding].filter fun binding =>
      binding ∉ set.resolvers ∧ ¬ set.Accepts (binds binding)).map fun binding =>
        .bind binding (set.refusal binding)) :
    Upserted binds (binding :: rest) set (out.1, errors ++ out.2) := by
  refine ⟨h.down, h.kept, ?_, ?_⟩
  · intro other
    rw [h.bound, List.mem_cons]
    constructor
    · rintro (hmem | ⟨hmem, haccepts⟩)
      · exact Or.inl hmem
      · exact Or.inr ⟨Or.inr hmem, haccepts⟩
    · rintro (hmem | ⟨rfl | hmem, haccepts⟩)
      · exact Or.inl hmem
      · exact Or.inl (hskip.resolve_right (not_not.mpr haccepts))
      · exact Or.inr ⟨hmem, haccepts⟩
  · rw [herrors, h.errors, ← List.map_append, ← List.filter_append]
    rfl

/-- A binding that is accepted is there for the rest of the loop. -/
theorem Upserted.insert {candidate : MdnsInstance} {bound : List MdnsInstance}
    (h : Upserted binds rest
      { set with resolvers := set.resolvers.insert binding candidate, bound := bound } out)
    (hfree : set.resolvers.lookup binding = none) (haccepts : set.Accepts (binds binding))
    (hfresh : binding ∉ rest) : Upserted binds (binding :: rest) set out := by
  refine ⟨h.down, ?_, ?_, ?_⟩
  · intro other resolver hresolver
    refine h.kept other resolver ?_
    rw [← hresolver]
    refine AList.lookup_insert_ne ?_
    rintro rfl
    rw [hfree] at hresolver
    cases hresolver
  · intro other
    refine (h.bound other).trans ?_
    rw [AList.mem_insert, List.mem_cons]
    constructor
    · rintro ((rfl | hmem) | ⟨hmem, hother⟩)
      · exact Or.inr ⟨Or.inl rfl, haccepts⟩
      · exact Or.inl hmem
      · exact Or.inr ⟨Or.inr hmem, hother⟩
    · rintro (hmem | ⟨rfl | hmem, hother⟩)
      · exact Or.inl (Or.inr hmem)
      · exact Or.inl (Or.inl rfl)
      · exact Or.inr ⟨hmem, hother⟩
  · rw [List.filter_cons_of_neg (by simp [haccepts])]
    refine h.errors.trans (congrArg _ (List.filter_congr ?_))
    intro other hrest
    have hne : other ≠ binding := by
      rintro rfl
      exact hfresh hrest
    have hsame : other ∈ set.resolvers.insert binding candidate ↔ other ∈ set.resolvers := by
      simp [AList.mem_insert, hne]
    exact decide_eq_decide.mpr (and_congr_left' (not_congr hsame))

end Upserting

theorem upserted_upsertLoop {binds : MdnsBinding → Bool} {bindings : List MdnsBinding}
    {set : MdnsResolverSet} (hnodup : bindings.Nodup)
    (hempty : set.closed = true → set.resolvers = ∅) :
    Upserted binds bindings set (upsertLoop binds bindings set) := by
  induction bindings generalizing set with
  | nil => exact ⟨rfl, fun _ _ h => h, by simp [upsertLoop], rfl⟩
  | cons binding rest ih =>
    obtain ⟨hfresh, hrest⟩ := List.nodup_cons.mp hnodup
    rw [upsertLoop]
    cases hlookup : set.resolvers.lookup binding with
    | some resolver =>
      have hmem : binding ∈ set.resolvers := AList.lookup_isSome.mp (by rw [hlookup]; rfl)
      rw [MdnsResolverSet.upsert_present hempty hlookup]
      exact (ih hrest hempty).skip (Or.inl hmem) (by simp [bindErrors, hmem])
    | none =>
      have hmem : binding ∉ set.resolvers := AList.lookup_eq_none.mp hlookup
      by_cases haccepts : set.Accepts (binds binding)
      · obtain ⟨candidate, hupsert⟩ := MdnsResolverSet.upsert_accepted hlookup haccepts
        rw [hupsert]
        refine Upserted.insert (ih hrest ?_) hlookup haccepts hfresh
        intro hclosed
        rw [haccepts.1] at hclosed
        cases hclosed
      · rw [MdnsResolverSet.upsert_refused hlookup haccepts]
        exact (ih hrest hempty).skip (Or.inr haccepts) (by simp [bindErrors, hmem, haccepts])

/-- Nothing is bound when everything is there. -/
theorem upsertLoop_of_bound {binds : MdnsBinding → Bool} {bindings : List MdnsBinding}
    {set : MdnsResolverSet} (hempty : set.closed = true → set.resolvers = ∅)
    (h : ∀ binding ∈ bindings, binding ∈ set.resolvers) :
    upsertLoop binds bindings set = (set, []) := by
  induction bindings with
  | nil => rfl
  | cons binding rest ih =>
    obtain ⟨resolver, hlookup⟩ :=
      Option.isSome_iff_exists.mp (AList.lookup_isSome.mpr (h binding List.mem_cons_self))
    have hrest := ih fun other hother => h other (List.mem_cons_of_mem _ hother)
    rw [upsertLoop, MdnsResolverSet.upsert_present hempty hlookup, hrest]
    rfl

/-- A `reconcile` comes to this end, and to no other. -/
def ReconcilesTo (desired : List MdnsBinding) (binds shuts : MdnsBinding → Bool)
    (order : List MdnsInstance) (set set' : MdnsResolverSet) (errors : List MdnsReconcileError) :
    Prop :=
  ReflTransGen (Reconcile.Alone desired binds shuts order) (set, .started)
      (set', .returned errors) ∧
    ∀ other others, ReflTransGen (Reconcile.Alone desired binds shuts order) (set, .started)
      (other, .returned others) → other = set' ∧ others = errors

theorem reconcilesTo_reconcile {desired : List MdnsBinding} {binds shuts : MdnsBinding → Bool}
    {order : List MdnsInstance} {set : MdnsResolverSet} (horder : order.Perm set.values) :
    ReconcilesTo desired binds shuts order set (set.reconcile desired binds shuts order).1
      (set.reconcile desired binds shuts order).2 := by
  refine ⟨alone_reconcile horder, ?_⟩
  intro other others hother
  have heq := Transition.end_unique Reconcile.alone_rightUnique hother (alone_reconcile horder)
    (Reconcile.alone_returned _ _) (Reconcile.alone_returned _ _)
  cases heq
  exact ⟨rfl, rfl⟩

end Ddns
