import Ddns.Mdns.ResolverSet

/-! What a call on the set holds in its hands, and what each of its steps does with it. -/
namespace Ddns

def Upsert.held : Upsert → List MdnsInstance
  | .bound candidate => [candidate]
  | .lost candidate _ => [candidate]
  | _ => []

def Remove.held : Remove → List MdnsInstance
  | .taken resolver => [resolver]
  | _ => []

def Shutdown.held : Shutdown → List MdnsInstance
  | .closing resolvers _ => resolvers
  | _ => []

def Reconcile.held : Reconcile → List MdnsInstance
  | .removingOne _ call _ _ => call.held
  | .upsertingOne _ call _ _ => call.held
  | _ => []

/-- The instances that a call has taken or bound and not yet put away. -/
def Operation.held : Operation → List MdnsInstance
  | .upsert _ call => call.held
  | .remove _ call => call.held
  | .shutdown call => call.held
  | .reconcile _ call => call.held

/-- What `upsert` holds is bound to what it was asked for. -/
def Operation.WellBound : Operation → Prop
  | .upsert binding call => ∀ resolver ∈ call.held, resolver.binding = binding
  | .reconcile _ (.upsertingOne binding call _ _) =>
    ∀ resolver ∈ call.held, resolver.binding = binding
  | _ => True

/-- What a step does to the set and to what its call holds. -/
inductive Moved (set : MdnsResolverSet) (held : List MdnsInstance) :
    MdnsResolverSet → List MdnsInstance → Prop
  | nothing : Moved set held set held
  | store : Moved set held { set with closed := true } held
  | bind (binding : MdnsBinding) (hheld : held = []) :
    Moved set held
      { set with bound := set.bound ++ [⟨set.bound.length, binding.device, binding.ip⟩] }
      [⟨set.bound.length, binding.device, binding.ip⟩]
  | insert (candidate : MdnsInstance) (hheld : held = [candidate]) (hopen : set.closed = false)
    (hfree : set.resolvers.lookup candidate.binding = none) :
    Moved set held
      { set with resolvers := set.resolvers.insert candidate.binding candidate } []
  | take {binding : MdnsBinding} {resolver : MdnsInstance} (hheld : held = [])
    (hfound : set.resolvers.lookup binding = some resolver) :
    Moved set held { set with resolvers := set.resolvers.erase binding } [resolver]
  | drain {order : List MdnsInstance} (hheld : held = []) (horder : order.Perm set.values) :
    Moved set held { set with resolvers := ∅ } order
  | shutDown {resolver : MdnsInstance} {rest : List MdnsInstance} (hheld : held = resolver :: rest) :
    Moved set held (set.shutDown resolver) rest

section Steps

variable {set set' : MdnsResolverSet} {ok : Bool} {order : List MdnsInstance}
  {binding : MdnsBinding}

theorem bind_ok {candidate : MdnsInstance} (h : set.bind binding ok = .ok candidate) :
    candidate = ⟨set.bound.length, binding.device, binding.ip⟩ := by
  unfold MdnsResolverSet.bind at h
  split at h
  · cases h
  split at h
  · exact (Except.ok.inj h).symm
  · cases h

theorem Upsert.moved {call call' : Upsert} (h : call.step binding set ok = some (set', call'))
    (hbound : ∀ resolver ∈ call.held, resolver.binding = binding) :
    Moved set call.held set' call'.held ∧
      ∀ resolver ∈ call'.held, resolver.binding = binding := by
  cases call with
  | started =>
    cases h
    split
    · exact ⟨.nothing, hbound⟩
    · exact ⟨.nothing, hbound⟩
  | checking =>
    rw [Upsert.step] at h
    split at h
    · cases h
      exact ⟨.nothing, hbound⟩
    · cases h
      exact ⟨.nothing, hbound⟩
  | missing =>
    rw [Upsert.step] at h
    split at h
    · cases h
      exact ⟨.nothing, hbound⟩
    · rename_i candidate hbind
      obtain rfl := bind_ok hbind
      cases h
      refine ⟨.bind binding rfl, ?_⟩
      intro resolver hresolver
      rw [List.mem_singleton.mp hresolver]
      rfl
  | bound candidate =>
    have hcandidate : candidate.binding = binding := hbound candidate (List.mem_singleton_self _)
    rw [Upsert.step] at h
    split at h
    · cases h
      exact ⟨.nothing, hbound⟩
    rename_i hopen
    split at h
    · cases h
      exact ⟨.nothing, hbound⟩
    · rename_i hfree
      cases h
      rw [← hcandidate] at hfree ⊢
      refine ⟨.insert candidate rfl (Bool.eq_false_iff.mpr hopen) hfree, ?_⟩
      intro resolver hresolver
      exact absurd hresolver List.not_mem_nil
  | lost candidate race =>
    have hreturned : ∃ result, (set', call') = (set.shutDown candidate, .returned result) := by
      cases ok with
      | false => exact ⟨_, (Option.some_inj.mp h).symm⟩
      | true => cases race <;> exact ⟨_, (Option.some_inj.mp h).symm⟩
    obtain ⟨result, heq⟩ := hreturned
    cases heq
    refine ⟨.shutDown rfl, ?_⟩
    intro resolver hresolver
    exact absurd hresolver List.not_mem_nil
  | returned result => cases h

theorem Remove.moved {call call' : Remove} (h : call.step binding set ok = some (set', call')) :
    Moved set call.held set' call'.held := by
  cases call with
  | started =>
    rw [Remove.step] at h
    split at h
    · cases h
      exact .nothing
    · rename_i resolver hfound
      cases h
      exact .take rfl hfound
  | taken resolver =>
    cases h
    exact .shutDown rfl
  | returned result => cases h

theorem Shutdown.moved {call call' : Shutdown} (h : call.step set ok order = some (set', call')) :
    Moved set call.held set' call'.held := by
  cases call with
  | started =>
    cases h
    exact .store
  | stored =>
    rw [Shutdown.step] at h
    split at h
    · rename_i horder
      cases h
      exact .drain rfl horder
    · cases h
  | closing resolvers error =>
    cases resolvers with
    | nil =>
      cases h
      exact .nothing
    | cons resolver rest =>
      cases h
      exact .shutDown rfl
  | returned result => cases h

/-- A call within `reconcile` that has not returned takes its own steps. -/
theorem Reconcile.step_removingOne {desired : List MdnsBinding} {call : Remove}
    {rest : List MdnsInstance} {errors : List MdnsReconcileError}
    (hcall : ∀ result, call ≠ .returned result) :
    Reconcile.step desired set ok order (.removingOne binding call rest errors) =
      (call.step binding set ok).map fun out => (out.1, .removingOne binding out.2 rest errors) := by
  cases call with
  | returned result => exact absurd rfl (hcall result)
  | _ => rfl

theorem Reconcile.step_upsertingOne {desired : List MdnsBinding} {call : Upsert}
    {rest : List MdnsBinding} {errors : List MdnsReconcileError}
    (hcall : ∀ result, call ≠ .returned result) :
    Reconcile.step desired set ok order (.upsertingOne binding call rest errors) =
      (call.step binding set ok).map fun out => (out.1, .upsertingOne binding out.2 rest errors) := by
  cases call with
  | returned result => exact absurd rfl (hcall result)
  | _ => rfl

/-- A step of `reconcile`: one of its loops, with nothing in its hands, or of the call in it. -/
inductive Reconcile.Stepped (set : MdnsResolverSet) (ok : Bool) :
    Reconcile → MdnsResolverSet → Reconcile → Prop
  | loop {call call' : Reconcile} (hheld : call.held = []) (hheld' : call'.held = [])
    (hfirst : ∀ binding inner rest errors,
      call' = .upsertingOne binding inner rest errors → inner = .started) :
    Stepped set ok call set call'
  | removing {binding : MdnsBinding} {inner inner' : Remove} {set' : MdnsResolverSet}
    {rest : List MdnsInstance} {errors : List MdnsReconcileError}
    (hinner : inner.step binding set ok = some (set', inner')) :
    Stepped set ok (.removingOne binding inner rest errors) set'
      (.removingOne binding inner' rest errors)
  | upserting {binding : MdnsBinding} {inner inner' : Upsert} {set' : MdnsResolverSet}
    {rest : List MdnsBinding} {errors : List MdnsReconcileError}
    (hinner : inner.step binding set ok = some (set', inner')) :
    Stepped set ok (.upsertingOne binding inner rest errors) set'
      (.upsertingOne binding inner' rest errors)

theorem Reconcile.stepped {desired : List MdnsBinding} {call call' : Reconcile}
    (h : call.step desired set ok order = some (set', call')) :
    Reconcile.Stepped set ok call set' call' := by
  cases call with
  | started =>
    rw [Reconcile.step] at h
    split at h
    · cases h
      exact .loop rfl rfl (by simp)
    · cases h
  | removing resolvers errors =>
    cases resolvers with
    | nil =>
      cases h
      exact .loop rfl rfl (by simp)
    | cons resolver rest =>
      rw [Reconcile.step] at h
      split at h
      · cases h
        exact .loop rfl rfl (by simp)
      · cases h
        exact .loop rfl rfl (by simp)
  | removingOne binding inner rest errors =>
    by_cases hreturned : ∃ result, inner = .returned result
    · obtain ⟨result, rfl⟩ := hreturned
      cases result <;> cases h <;> exact .loop rfl rfl (by simp)
    · rw [Reconcile.step_removingOne fun result heq => hreturned ⟨result, heq⟩] at h
      obtain ⟨out, hout, heq⟩ := Option.map_eq_some_iff.mp h
      cases heq
      exact .removing hout
  | upserting bindings errors =>
    cases bindings with
    | nil =>
      cases h
      exact .loop rfl rfl (by simp)
    | cons binding rest =>
      cases h
      refine .loop rfl rfl ?_
      rintro binding' inner rest' errors' heq
      cases heq
      rfl
  | upsertingOne binding inner rest errors =>
    by_cases hreturned : ∃ result, inner = .returned result
    · obtain ⟨result, rfl⟩ := hreturned
      cases result <;> cases h <;> exact .loop rfl rfl (by simp)
    · rw [Reconcile.step_upsertingOne fun result heq => hreturned ⟨result, heq⟩] at h
      obtain ⟨out, hout, heq⟩ := Option.map_eq_some_iff.mp h
      cases heq
      exact .upserting hout
  | returned errors => cases h

/-- A step of a call is one of its kind. -/
inductive Operation.Stepped (set : MdnsResolverSet) (ok : Bool) (order : List MdnsInstance) :
    Operation → MdnsResolverSet → Operation → Prop
  | upsert {binding : MdnsBinding} {call call' : Upsert} {set' : MdnsResolverSet}
    (hcall : call.step binding set ok = some (set', call')) :
    Stepped set ok order (.upsert binding call) set' (.upsert binding call')
  | remove {binding : MdnsBinding} {call call' : Remove} {set' : MdnsResolverSet}
    (hcall : call.step binding set ok = some (set', call')) :
    Stepped set ok order (.remove binding call) set' (.remove binding call')
  | shutdown {call call' : Shutdown} {set' : MdnsResolverSet}
    (hcall : call.step set ok order = some (set', call')) :
    Stepped set ok order (.shutdown call) set' (.shutdown call')
  | reconcile {desired : List MdnsBinding} {call call' : Reconcile} {set' : MdnsResolverSet}
    (hcall : call.step desired set ok order = some (set', call')) :
    Stepped set ok order (.reconcile desired call) set' (.reconcile desired call')

theorem Operation.stepped {operation operation' : Operation}
    (h : operation.step set ok order = some (set', operation')) :
    Operation.Stepped set ok order operation set' operation' := by
  cases operation <;> obtain ⟨out, hcall, heq⟩ := Option.map_eq_some_iff.mp h <;> cases heq
  · exact .upsert hcall
  · exact .remove hcall
  · exact .shutdown hcall
  · exact .reconcile hcall

/-- A call that holds nothing is bound to nothing. -/
theorem Operation.wellBound_of_held {operation : Operation} (h : operation.held = []) :
    operation.WellBound := by
  cases operation with
  | upsert binding call =>
    intro resolver hresolver
    rw [show call.held = [] from h] at hresolver
    exact absurd hresolver List.not_mem_nil
  | reconcile desired call =>
    cases call with
    | upsertingOne binding inner rest errors =>
      intro resolver hresolver
      rw [show inner.held = [] from h] at hresolver
      exact absurd hresolver List.not_mem_nil
    | _ => trivial
  | _ => trivial

/-- One step of any call moves instances in one of these ways. -/
theorem Operation.moved {operation operation' : Operation}
    (h : operation.step set ok order = some (set', operation')) (hbound : operation.WellBound) :
    Moved set operation.held set' operation'.held ∧ operation'.WellBound := by
  cases Operation.stepped h with
  | upsert hcall => exact Upsert.moved hcall hbound
  | remove hcall => exact ⟨Remove.moved hcall, trivial⟩
  | shutdown hcall => exact ⟨Shutdown.moved hcall, trivial⟩
  | reconcile hcall =>
    cases Reconcile.stepped hcall with
    | loop hheld hheld' _ =>
      refine ⟨?_, Operation.wellBound_of_held hheld'⟩
      rw [Operation.held, hheld, Operation.held, hheld']
      exact .nothing
    | removing hinner => exact ⟨Remove.moved hinner, trivial⟩
    | upserting hinner => exact Upsert.moved hinner hbound

end Steps

section Moves

variable {set set' : MdnsResolverSet} {held held' : List MdnsInstance} {binding : MdnsBinding}

theorem values_insert {candidate : MdnsInstance} (hfree : set.resolvers.lookup binding = none) :
    { set with resolvers := set.resolvers.insert binding candidate }.values =
      candidate :: set.values := by
  rw [MdnsResolverSet.values, AList.entries_insert_of_notMem (AList.lookup_eq_none.mp hfree),
    List.map_cons]
  rfl

theorem values_erase {resolver : MdnsInstance}
    (hfound : set.resolvers.lookup binding = some resolver) :
    set.values.Perm
      (resolver :: { set with resolvers := set.resolvers.erase binding }.values) := by
  have hentry : (⟨binding, resolver⟩ : Sigma fun _ : MdnsBinding => MdnsInstance) ∈
      set.resolvers.entries := AList.mem_lookup_iff.mp hfound
  obtain ⟨other, before, after, _, hentries, herase⟩ :=
    List.exists_of_kerase (List.mem_keys_of_mem hentry)
  -- there is one entry for the key
  have hother : other = resolver := by
    have hmem : (⟨binding, other⟩ : Sigma fun _ : MdnsBinding => MdnsInstance) ∈
        set.resolvers.entries := by
      rw [hentries]
      exact List.mem_append_right _ List.mem_cons_self
    have hlookup : set.resolvers.lookup binding = some other := AList.mem_lookup_iff.mpr hmem
    exact Option.some_inj.mp (hlookup.symm.trans hfound)
  have hrest : { set with resolvers := set.resolvers.erase binding }.values =
      (before ++ after).map Sigma.snd := by
    rw [← herase]
    rfl
  rw [hrest, MdnsResolverSet.values, hentries, hother, List.map_append, List.map_append,
    List.map_cons]
  exact List.perm_middle

theorem Moved.closed (h : Moved set held set' held') (hclosed : set.closed = true) :
    set'.closed = true := by
  cases h with
  | store => rfl
  | _ => exact hclosed

/-- Nothing gets into a closed set. -/
theorem Moved.empty (h : Moved set held set' held') (hclosed : set.closed = true)
    (hempty : set.resolvers = ∅) : set'.resolvers = ∅ := by
  cases h with
  | insert candidate hheld hopen hfree =>
    rw [hopen] at hclosed
    cases hclosed
  | take hheld hfound =>
    rw [hempty] at hfound
    cases hfound
  | drain hheld horder => rfl
  | _ => exact hempty

/-- The instances are numbered in the order in which they were bound. -/
def MdnsResolverSet.Numbered (set : MdnsResolverSet) : Prop :=
  set.bound.map MdnsInstance.id = List.range set.bound.length

/-- The map has each resolver under what it is bound to. -/
def MdnsResolverSet.Keyed (set : MdnsResolverSet) : Prop :=
  ∀ entry ∈ set.resolvers.entries, entry.2.binding = entry.1

theorem Moved.numbered (h : Moved set held set' held') (hs : set.Numbered) : set'.Numbered := by
  cases h with
  | bind binding hheld =>
    rw [MdnsResolverSet.Numbered, List.map_append, hs, List.length_append, List.length_singleton,
      List.range_succ]
    rfl
  | _ => exact hs

theorem Moved.keyed (h : Moved set held set' held') (hs : set.Keyed) : set'.Keyed := by
  cases h with
  | insert candidate hheld hopen hfree =>
    intro entry hentry
    rw [AList.entries_insert_of_notMem (AList.lookup_eq_none.mp hfree)] at hentry
    rcases List.mem_cons.mp hentry with rfl | hentry
    · rfl
    · exact hs entry hentry
  | take hheld hfound =>
    intro entry hentry
    exact hs entry ((List.kerase_sublist _ _).subset hentry)
  | drain hheld horder =>
    intro entry hentry
    exact absurd hentry List.not_mem_nil
  | _ => exact hs

/-- Whatever others hold, a step loses no instance and makes none twice. -/
theorem Moved.account (h : Moved set held set' held') {others : List MdnsInstance}
    (hs : (set.values ++ (held ++ others ++ set.down)).Perm set.bound) :
    (set'.values ++ (held' ++ others ++ set'.down)).Perm set'.bound := by
  rw [List.perm_iff_count] at hs ⊢
  intro resolver
  have hcount := hs resolver
  cases h with
  | nothing => exact hcount
  | store => exact hcount
  | bind binding hheld =>
    subst hheld
    simp only [List.count_append, List.count_nil, MdnsResolverSet.values] at hcount ⊢
    omega
  | insert candidate hheld hopen hfree =>
    subst hheld
    rw [values_insert hfree]
    simp only [List.count_append, List.count_nil, List.count_cons] at hcount ⊢
    omega
  | take hheld hfound =>
    subst hheld
    have hvalues := (values_erase hfound).count_eq resolver
    simp only [List.count_append, List.count_nil, List.count_cons] at hcount hvalues ⊢
    omega
  | drain hheld horder =>
    subst hheld
    have hvalues := horder.count_eq resolver
    have hnone : { set with resolvers := ∅ }.values = [] := rfl
    rw [hnone]
    simp only [List.count_append, List.count_nil] at hcount ⊢
    omega
  | shutDown hheld =>
    subst hheld
    simp only [List.count_append, List.count_nil, List.count_cons, MdnsResolverSet.values,
      MdnsResolverSet.shutDown] at hcount ⊢
    omega

end Moves

section Calls

variable {set set' : MdnsResolverSet} {ok : Bool} {order : List MdnsInstance}
  {binding : MdnsBinding} {resolver : MdnsInstance}

/-- The call has come to its end. -/
def Operation.Returned : Operation → Prop
  | .upsert _ call => ∃ result, call = .returned result
  | .remove _ call => ∃ result, call = .returned result
  | .shutdown call => ∃ result, call = .returned result
  | .reconcile _ call => ∃ errors, call = .returned errors

theorem Operation.Returned.held {operation : Operation} (h : operation.Returned) :
    operation.held = [] := by
  cases operation <;> obtain ⟨result, rfl⟩ := h <;> rfl

theorem Upsert.exists_step {call : Upsert} (hcall : ∀ result, call ≠ .returned result) :
    ∃ out, call.step binding set ok = some out := by
  cases call with
  | started => exact ⟨_, rfl⟩
  | checking =>
    rw [Upsert.step]
    split <;> exact ⟨_, rfl⟩
  | missing =>
    rw [Upsert.step]
    split <;> exact ⟨_, rfl⟩
  | bound candidate =>
    rw [Upsert.step]
    split
    · exact ⟨_, rfl⟩
    · split <;> exact ⟨_, rfl⟩
  | lost candidate race => cases ok <;> cases race <;> exact ⟨_, rfl⟩
  | returned result => exact absurd rfl (hcall result)

theorem Remove.exists_step {call : Remove} (hcall : ∀ result, call ≠ .returned result) :
    ∃ out, call.step binding set ok = some out := by
  cases call with
  | started =>
    rw [Remove.step]
    split <;> exact ⟨_, rfl⟩
  | taken resolver => exact ⟨_, rfl⟩
  | returned result => exact absurd rfl (hcall result)

/-- A call that has not returned is never stuck. -/
theorem Operation.exists_step {operation : Operation} (h : ¬ operation.Returned) :
    ∃ order out, operation.step set ok order = some out := by
  cases operation with
  | upsert binding call =>
    obtain ⟨out, hout⟩ := Upsert.exists_step fun result heq => h ⟨result, heq⟩
    exact ⟨[], _, Option.map_eq_some_iff.mpr ⟨out, hout, rfl⟩⟩
  | remove binding call =>
    obtain ⟨out, hout⟩ := Remove.exists_step fun result heq => h ⟨result, heq⟩
    exact ⟨[], _, Option.map_eq_some_iff.mpr ⟨out, hout, rfl⟩⟩
  | shutdown call =>
    have hcall : ∃ out, call.step set ok set.values = some out := by
      cases call with
      | started => exact ⟨_, rfl⟩
      | stored => exact ⟨_, if_pos (List.Perm.refl _)⟩
      | closing resolvers error => cases resolvers <;> exact ⟨_, rfl⟩
      | returned result => exact absurd ⟨result, rfl⟩ h
    obtain ⟨out, hout⟩ := hcall
    exact ⟨set.values, _, Option.map_eq_some_iff.mpr ⟨out, hout, rfl⟩⟩
  | reconcile desired call =>
    have hcall : ∃ out, call.step desired set ok set.values = some out := by
      cases call with
      | started => exact ⟨_, if_pos (List.Perm.refl _)⟩
      | removing resolvers errors =>
        cases resolvers with
        | nil => exact ⟨_, rfl⟩
        | cons resolver rest =>
          rw [Reconcile.step]
          split <;> exact ⟨_, rfl⟩
      | removingOne binding call rest errors =>
        by_cases hreturned : ∃ result, call = .returned result
        · obtain ⟨result, rfl⟩ := hreturned
          cases result <;> exact ⟨_, rfl⟩
        · have hcall : ∀ result, call ≠ .returned result := fun result heq => hreturned ⟨result, heq⟩
          obtain ⟨out, hout⟩ := Remove.exists_step hcall
          rw [Reconcile.step_removingOne hcall]
          exact ⟨_, Option.map_eq_some_iff.mpr ⟨out, hout, rfl⟩⟩
      | upserting bindings errors => cases bindings <;> exact ⟨_, rfl⟩
      | upsertingOne binding call rest errors =>
        by_cases hreturned : ∃ result, call = .returned result
        · obtain ⟨result, rfl⟩ := hreturned
          cases result <;> exact ⟨_, rfl⟩
        · have hcall : ∀ result, call ≠ .returned result := fun result heq => hreturned ⟨result, heq⟩
          obtain ⟨out, hout⟩ := Upsert.exists_step hcall
          rw [Reconcile.step_upsertingOne hcall]
          exact ⟨_, Option.map_eq_some_iff.mpr ⟨out, hout, rfl⟩⟩
      | returned errors => exact absurd ⟨errors, rfl⟩ h
    obtain ⟨out, hout⟩ := hcall
    exact ⟨set.values, _, Option.map_eq_some_iff.mpr ⟨out, hout, rfl⟩⟩

def Upsert.toRelease : Upsert → ℕ
  | .bound _ => 2
  | .lost _ _ => 1
  | _ => 0

def Remove.toRelease : Remove → ℕ
  | .taken _ => 1
  | _ => 0

def Shutdown.toRelease : Shutdown → ℕ
  | .closing resolvers _ => resolvers.length
  | _ => 0

def Reconcile.toRelease : Reconcile → ℕ
  | .removingOne _ call _ _ => call.toRelease
  | .upsertingOne _ call _ _ => call.toRelease
  | _ => 0

/-- In how many of its own steps a call has put away all that it holds. -/
def Operation.toRelease : Operation → ℕ
  | .upsert _ call => call.toRelease
  | .remove _ call => call.toRelease
  | .shutdown call => call.toRelease
  | .reconcile _ call => call.toRelease

/-- The instance is in the map, is shut down, or is held for fewer steps than before. -/
def PutAway (set : MdnsResolverSet) (resolver : MdnsInstance) (held : List MdnsInstance)
    (left before : ℕ) : Prop :=
  set.resolvers.lookup resolver.binding = some resolver ∨ resolver ∈ set.down ∨
    (resolver ∈ held ∧ left < before)

theorem shutDown_putAway (set : MdnsResolverSet) (resolver : MdnsInstance)
    (held : List MdnsInstance) (left before : ℕ) :
    PutAway (set.shutDown resolver) resolver held left before :=
  Or.inr (Or.inl (List.mem_append_right _ (List.mem_singleton_self resolver)))

theorem Upsert.putAway {call call' : Upsert} (h : call.step binding set ok = some (set', call'))
    (hbound : ∀ resolver ∈ call.held, resolver.binding = binding) (hheld : resolver ∈ call.held) :
    PutAway set' resolver call'.held call'.toRelease call.toRelease := by
  have hbinding := hbound resolver hheld
  cases call with
  | bound candidate =>
    obtain rfl := List.mem_singleton.mp hheld
    rw [Upsert.step] at h
    split at h
    · cases h
      exact Or.inr (Or.inr ⟨hheld, Nat.one_lt_two⟩)
    split at h
    · cases h
      exact Or.inr (Or.inr ⟨hheld, Nat.one_lt_two⟩)
    · cases h
      rw [← hbinding]
      exact Or.inl (AList.lookup_insert _)
  | lost candidate race =>
    obtain rfl := List.mem_singleton.mp hheld
    cases ok with
    | false =>
      cases h
      exact shutDown_putAway set resolver _ _ _
    | true =>
      cases race <;> cases h <;> exact shutDown_putAway set resolver _ _ _
  | _ => exact absurd hheld List.not_mem_nil

theorem Remove.putAway {call call' : Remove} (h : call.step binding set ok = some (set', call'))
    (hheld : resolver ∈ call.held) :
    PutAway set' resolver call'.held call'.toRelease call.toRelease := by
  cases call with
  | taken taken =>
    obtain rfl := List.mem_singleton.mp hheld
    cases h
    exact shutDown_putAway set resolver _ _ _
  | _ => exact absurd hheld List.not_mem_nil

theorem Shutdown.putAway {call call' : Shutdown} (h : call.step set ok order = some (set', call'))
    (hheld : resolver ∈ call.held) :
    PutAway set' resolver call'.held call'.toRelease call.toRelease := by
  cases call with
  | closing resolvers error =>
    cases resolvers with
    | nil => exact absurd hheld List.not_mem_nil
    | cons first rest =>
      cases h
      rcases List.mem_cons.mp hheld with rfl | hrest
      · exact shutDown_putAway set resolver _ _ _
      · exact Or.inr (Or.inr ⟨hrest, Nat.lt_succ_self _⟩)
  | _ => exact absurd hheld List.not_mem_nil

/-- A step of a call puts an instance away that it holds, or comes nearer to it. -/
theorem Operation.putAway {operation operation' : Operation}
    (h : operation.step set ok order = some (set', operation')) (hbound : operation.WellBound)
    (hheld : resolver ∈ operation.held) :
    PutAway set' resolver operation'.held operation'.toRelease operation.toRelease := by
  cases Operation.stepped h with
  | upsert hcall => exact Upsert.putAway hcall hbound hheld
  | remove hcall => exact Remove.putAway hcall hheld
  | shutdown hcall => exact Shutdown.putAway hcall hheld
  | reconcile hcall =>
    cases Reconcile.stepped hcall with
    | loop hheld' _ _ =>
      rw [Operation.held, hheld'] at hheld
      exact absurd hheld List.not_mem_nil
    | removing hinner => exact Remove.putAway hinner hheld
    | upserting hinner => exact Upsert.putAway hinner hbound hheld

end Calls

end Ddns
