import Ddns.Mdns.Reconciliation

/-! Calls on the set whose futures are dropped before they have returned. -/
namespace Ddns

open Transition

/-- What a future leaves behind when it is dropped before its first poll or while it waits for the
tasks of an instance, which it has then aborted: that instance, and those that it only lets go. -/
def Upsert.drop : Upsert → Option (List MdnsInstance × List MdnsInstance)
  | .started => some ([], [])
  | .lost candidate _ => some ([candidate], [])
  | _ => none

def Remove.drop : Remove → Option (List MdnsInstance × List MdnsInstance)
  | .started => some ([], [])
  | .taken resolver => some ([resolver], [])
  | _ => none

/-- The instances that are still to come are in the hands of the future only. -/
def Shutdown.drop : Shutdown → Option (List MdnsInstance × List MdnsInstance)
  | .started => some ([], [])
  | .closing (resolver :: rest) _ => some ([resolver], rest)
  | _ => none

def Reconcile.drop : Reconcile → Option (List MdnsInstance × List MdnsInstance)
  | .started => some ([], [])
  | .removingOne _ (.taken resolver) _ _ => some ([resolver], [])
  | .upsertingOne _ (.lost candidate _) _ _ => some ([candidate], [])
  | _ => none

def Operation.drop : Operation → Option (List MdnsInstance × List MdnsInstance)
  | .upsert _ call => call.drop
  | .remove _ call => call.drop
  | .shutdown call => call.drop
  | .reconcile _ call => call.drop

/-- All that a call holds is left behind, and only a shutdown of the whole set lets any of it go. -/
theorem Operation.drop_spec {operation : Operation} {aborted letGo : List MdnsInstance}
    (h : operation.drop = some (aborted, letGo)) :
    operation.held = aborted ++ letGo ∧
      (letGo = [] ∨ ∃ resolver error, operation = .shutdown (.closing (resolver :: letGo) error)) := by
  cases operation with
  | upsert binding call => cases call <;> cases h <;> exact ⟨rfl, Or.inl rfl⟩
  | remove binding call => cases call <;> cases h <;> exact ⟨rfl, Or.inl rfl⟩
  | shutdown call =>
    cases call with
    | started =>
      cases h
      exact ⟨rfl, Or.inl rfl⟩
    | closing resolvers error =>
      cases resolvers with
      | nil => cases h
      | cons resolver rest =>
        cases h
        exact ⟨rfl, Or.inr ⟨resolver, error, rfl⟩⟩
    | stored => cases h
    | returned result => cases h
  | reconcile desired call =>
    cases call with
    | started =>
      cases h
      exact ⟨rfl, Or.inl rfl⟩
    | removingOne binding inner rest errors =>
      cases inner with
      | taken resolver =>
        cases h
        exact ⟨rfl, Or.inl rfl⟩
      | _ => cases h
    | upsertingOne binding inner rest errors =>
      cases inner with
      | lost candidate race =>
        cases h
        exact ⟨rfl, Or.inl rfl⟩
      | _ => cases h
    | _ => cases h

/-- What was shut down stays so. -/
theorem Moved.down {set set' : MdnsResolverSet} {held held' : List MdnsInstance}
    (h : Moved set held set' held') {resolver : MdnsInstance} (hdown : resolver ∈ set.down) :
    resolver ∈ set'.down := by
  cases h with
  | shutDown hheld => exact List.mem_append_left _ hdown
  | _ => exact hdown

/-- The set and the calls that were not dropped. What a dropped call had in its hands is counted
as down. What it only let go is kept apart, which is not in the program: the tasks of such an
instance end with the last handle that a caller of `upsert` or `snapshot` has to it. -/
structure DroppingSystem where
  system : MdnsSystem
  letGo : List MdnsInstance

namespace DroppingSystem

variable {s t u : DroppingSystem}

def initial (serviceName : Name) : DroppingSystem := ⟨.initial serviceName, []⟩

/-- The state after a call was dropped. -/
def without (s : DroppingSystem) (before after : List Operation)
    (aborted letGo : List MdnsInstance) : DroppingSystem :=
  ⟨⟨{ s.system.set with down := s.system.set.down ++ (aborted ++ letGo) }, before ++ after⟩,
    s.letGo ++ letGo⟩

inductive Step (s : DroppingSystem) : DroppingSystem → Prop
  | call {system : MdnsSystem} (hstep : MdnsSystem.Step s.system system) :
    Step s { s with system := system }
  | drop {before after : List Operation} {operation : Operation}
    {aborted letGo : List MdnsInstance}
    (hoperation : s.system.operations = before ++ operation :: after)
    (hdrop : operation.drop = some (aborted, letGo)) : Step s (s.without before after aborted letGo)

/-- The tasks of the instance were aborted by a call. -/
def Stopped (s : DroppingSystem) (resolver : MdnsInstance) : Prop :=
  resolver ∈ s.system.set.down ∧ resolver ∉ s.letGo

structure Invariant (s : DroppingSystem) : Prop where
  system : s.system.Invariant
  down : ∀ resolver ∈ s.letGo, resolver ∈ s.system.set.down
  closed : s.letGo ≠ [] → s.system.set.closed = true

theorem mem_kept {before after : List Operation} {operation other : Operation}
    (h : other ∈ before ++ after) : other ∈ before ++ operation :: after := by
  rcases List.mem_append.mp h with h | h
  · exact List.mem_append_left _ h
  · exact List.mem_append_right _ (List.mem_cons_of_mem _ h)

/-- What is dropped is put away. -/
theorem invariant_drop {before after : List Operation} {operation : Operation}
    {aborted letGo : List MdnsInstance} (hs : s.system.Invariant)
    (hoperation : s.system.operations = before ++ operation :: after)
    (hdrop : operation.drop = some (aborted, letGo)) :
    (s.without before after aborted letGo).system.Invariant := by
  have hkept : ∀ other ∈ before ++ after, other ∈ s.system.operations := by
    intro other hother
    rw [hoperation]
    exact mem_kept hother
  refine ⟨hs.numbered, hs.keyed, ?_, ?_, ?_⟩
  · have haccount := hs.account
    rw [hoperation] at haccount
    refine List.Perm.trans (List.Perm.append_left _ ?_) haccount
    have hheld := (MdnsSystem.flatMap_held_perm before after operation).append_right s.system.set.down
    rw [(Operation.drop_spec hdrop).1] at hheld
    refine List.Perm.trans ?_ hheld.symm
    change ((before ++ after).flatMap Operation.held ++
      (s.system.set.down ++ (aborted ++ letGo))).Perm _
    rw [List.flatMap_append, ← List.append_assoc]
    exact List.perm_append_comm.trans (List.Perm.of_eq (List.append_assoc _ _ _).symm)
  · intro other hother
    exact hs.wellBound other (hkept other hother)
  · intro call hcall hne
    exact hs.stored call (hkept _ hcall) hne

theorem invariant_step (h : Step s t) (hs : s.Invariant) : t.Invariant := by
  cases h with
  | @call system hstep =>
    have hset : (∀ resolver ∈ s.system.set.down, resolver ∈ system.set.down) ∧
        (s.system.set.closed = true → system.set.closed = true) := by
      cases hstep with
      | call hstarts => exact ⟨fun _ hdown => hdown, fun hclosed => hclosed⟩
      | @act before after operation operation' set ok order hoperation hact =>
        obtain ⟨hmoved, _⟩ := Operation.moved hact
          (hs.system.wellBound operation (MdnsSystem.acting_mem hoperation))
        exact ⟨fun _ hdown => hmoved.down hdown, hmoved.closed⟩
    refine ⟨MdnsSystem.invariant_step hstep hs.system, ?_, ?_⟩
    · intro resolver hletGo
      exact hset.1 resolver (hs.down resolver hletGo)
    · intro hne
      exact hset.2 (hs.closed hne)
  | @drop before after operation aborted letGo hoperation hdrop =>
    refine ⟨invariant_drop hs.system hoperation hdrop, ?_, ?_⟩
    · intro resolver hletGo
      rcases List.mem_append.mp hletGo with hold | hnew
      · exact List.mem_append_left _ (hs.down resolver hold)
      · exact List.mem_append_right _ (List.mem_append_right _ hnew)
    · intro hne
      rcases (Operation.drop_spec hdrop).2 with rfl | ⟨resolver, error, rfl⟩
      · exact hs.closed fun hnil => hne ((List.append_nil _).trans hnil)
      · exact hs.system.stored _ (MdnsSystem.acting_mem hoperation) (by simp)

theorem invariant_run {serviceName : Name} {n : ℕ} (h : Run Step n (initial serviceName) s) :
    s.Invariant := by
  refine h.invariant (fun _ _ => invariant_step) ⟨MdnsSystem.invariant_initial serviceName, ?_, ?_⟩
  · intro resolver hletGo
    exact absurd hletGo List.not_mem_nil
  · intro hne
    exact absurd rfl hne

/-- Only the drop of a shutdown that has more than one instance to go adds to what was let go. -/
theorem letGo_step (h : Step s t) :
    t.letGo = s.letGo ∨ ∃ before after resolver rest error,
      s.system.operations = before ++ .shutdown (.closing (resolver :: rest) error) :: after ∧
      t = s.without before after [resolver] rest := by
  cases h with
  | call hstep => exact Or.inl rfl
  | @drop before after operation aborted letGo hoperation hdrop =>
    rcases (Operation.drop_spec hdrop).2 with rfl | ⟨resolver, error, rfl⟩
    · exact Or.inl (List.append_nil _)
    · cases hdrop
      exact Or.inr ⟨before, after, resolver, letGo, error, hoperation, rfl⟩

theorem letGo_run {m : ℕ} (h : Run Step m s t) {resolver : MdnsInstance}
    (hletGo : resolver ∈ s.letGo) : resolver ∈ t.letGo := by
  refine h.invariant (P := fun t => resolver ∈ t.letGo) ?_ hletGo
  intro t u hstep ht
  rcases letGo_step hstep with heq | ⟨before, after, first, rest, error, _, rfl⟩
  · rw [heq]
    exact ht
  · exact List.mem_append_left _ ht

/-- What was let go is neither in the map nor in the hands of a call. -/
theorem Invariant.lost (hs : s.Invariant) {resolver : MdnsInstance} (hletGo : resolver ∈ s.letGo) :
    resolver ∉ s.system.set.values ∧
      ∀ operation ∈ s.system.operations, resolver ∉ operation.held := by
  have hdown := hs.down resolver hletGo
  obtain ⟨_, hothers, hvalues⟩ := List.nodup_append.mp hs.system.custody.once
  obtain ⟨_, _, hheld⟩ := List.nodup_append.mp hothers
  refine ⟨?_, ?_⟩
  · intro hmem
    exact hvalues resolver hmem resolver (List.mem_append_right _ hdown) rfl
  · intro operation hoperation hmem
    exact hheld resolver (List.mem_flatMap.mpr ⟨operation, hoperation, hmem⟩) resolver hdown rfl

/-- With calls that may be dropped at any point at which they wait, every instance stays in the
care of the map or of one call until its tasks are aborted, except for those that a dropped
shutdown of the set had yet to come to. These no call will ever find again. -/
theorem only_dropped_shutdowns_let_go (serviceName : Name) {n : ℕ}
    (h : Run Step n (initial serviceName) s) :
    s.system.Custody ∧
    (s.system.Quiet → ∀ resolver ∈ s.system.set.bound, ¬ s.Stopped resolver ↔
      resolver ∈ s.system.set.values ∨ resolver ∈ s.letGo) ∧
    (∀ t, Step s t → t.letGo = s.letGo ∨ ∃ before after resolver rest error,
      s.system.operations = before ++ .shutdown (.closing (resolver :: rest) error) :: after ∧
      t = s.without before after [resolver] rest) ∧
    ∀ resolver ∈ s.letGo, ∀ m t, Run Step m s t →
      resolver ∈ t.letGo ∧ t.system.set.closed = true ∧ resolver ∉ t.system.set.values ∧
        ∀ operation ∈ t.system.operations, resolver ∉ operation.held := by
  have hs := invariant_run h
  refine ⟨hs.system.custody, ?_, fun t => letGo_step, ?_⟩
  · intro hquiet resolver hbound
    have hlive := hs.system.custody.quiet hquiet resolver
    have hdown := hs.down resolver
    unfold Stopped
    tauto
  · intro resolver hletGo m t hrun
    have hmem := letGo_run hrun hletGo
    have ht := hrun.invariant (fun _ _ => invariant_step) hs
    exact ⟨hmem, ht.closed (List.ne_nil_of_mem hmem), ht.lost hmem⟩

section Sample

open MdnsSystem

def otherInstance : MdnsInstance := ⟨1, ['f'], .v4 2⟩

def twoResolvers : AList fun _ : MdnsBinding => MdnsInstance :=
  ((∅ : AList fun _ : MdnsBinding => MdnsInstance).insert sampleBinding sampleInstance).insert
    otherBinding otherInstance

/-- The calls that have put two instances into the set. -/
def twoUpserts : List Operation :=
  [.upsert sampleBinding (.returned (.ok sampleInstance)),
    .upsert otherBinding (.returned (.ok otherInstance))]

/-- A shutdown waits for the first of two instances. -/
def closingTwo : MdnsSystem :=
  ⟨⟨sampleService, ∅, true, [sampleInstance, otherInstance], []⟩,
    twoUpserts ++ [.shutdown (.closing [sampleInstance, otherInstance] none)]⟩

theorem closingTwo_run : Run MdnsSystem.Step 13 (MdnsSystem.initial sampleService) closingTwo := by
  let first : Operation := .upsert sampleBinding (.returned (.ok sampleInstance))
  have hcall : MdnsSystem.Step settled
      ⟨settled.set, [first, .upsert otherBinding .started]⟩ := .call rfl
  have hload : MdnsSystem.Step ⟨settled.set, [first, .upsert otherBinding .started]⟩
      ⟨settled.set, [first, .upsert otherBinding .checking]⟩ :=
    @MdnsSystem.Step.act _ [first] [] _ _ _ true [] rfl rfl
  have hcheck : MdnsSystem.Step ⟨settled.set, [first, .upsert otherBinding .checking]⟩
      ⟨settled.set, [first, .upsert otherBinding .missing]⟩ :=
    @MdnsSystem.Step.act _ [first] [] _ _ _ true [] rfl rfl
  have hbind : MdnsSystem.Step ⟨settled.set, [first, .upsert otherBinding .missing]⟩
      ⟨{ settled.set with bound := [sampleInstance, otherInstance] },
        [first, .upsert otherBinding (.bound otherInstance)]⟩ :=
    @MdnsSystem.Step.act _ [first] [] _ _ _ true [] rfl rfl
  have hinsert : MdnsSystem.Step
      ⟨{ settled.set with bound := [sampleInstance, otherInstance] },
        [first, .upsert otherBinding (.bound otherInstance)]⟩
      ⟨⟨sampleService, twoResolvers, false, [sampleInstance, otherInstance], []⟩, twoUpserts⟩ :=
    @MdnsSystem.Step.act _ [first] [] _ _ _ true [] rfl rfl
  have hshutdown : MdnsSystem.Step
      ⟨⟨sampleService, twoResolvers, false, [sampleInstance, otherInstance], []⟩, twoUpserts⟩
      ⟨⟨sampleService, twoResolvers, false, [sampleInstance, otherInstance], []⟩,
        twoUpserts ++ [.shutdown .started]⟩ := .call rfl
  have hstore : MdnsSystem.Step
      ⟨⟨sampleService, twoResolvers, false, [sampleInstance, otherInstance], []⟩,
        twoUpserts ++ [.shutdown .started]⟩
      ⟨⟨sampleService, twoResolvers, true, [sampleInstance, otherInstance], []⟩,
        twoUpserts ++ [.shutdown .stored]⟩ :=
    @MdnsSystem.Step.act _ twoUpserts [] _ _ _ true [] rfl rfl
  have hdrain : MdnsSystem.Step
      ⟨⟨sampleService, twoResolvers, true, [sampleInstance, otherInstance], []⟩,
        twoUpserts ++ [.shutdown .stored]⟩ closingTwo :=
    @MdnsSystem.Step.act _ twoUpserts [] _ _ _ true [sampleInstance, otherInstance] rfl rfl
  exact ((((((((settled_run.tail hcall).tail hload).tail hcheck).tail hbind).tail hinsert).tail
    hshutdown).tail hstore).tail hdrain)

theorem run_of_system {n : ℕ} {system system' : MdnsSystem}
    (h : Run MdnsSystem.Step n system system') : Run Step n ⟨system, []⟩ ⟨system', []⟩ := by
  induction h with
  | refl => exact .refl _
  | tail _ hlast ih => exact ih.tail (.call hlast)

/-- The second instance is let go when the shutdown is dropped. -/
def letGoTwo : DroppingSystem :=
  ⟨⟨⟨sampleService, ∅, true, [sampleInstance, otherInstance], [sampleInstance, otherInstance]⟩,
    twoUpserts⟩, [otherInstance]⟩

theorem only_dropped_shutdowns_let_go_letGoTwo :
    Run Step 14 (initial sampleService) letGoTwo ∧ letGoTwo.system.Quiet ∧
      ¬ letGoTwo.Stopped otherInstance ∧ otherInstance ∉ letGoTwo.system.set.values := by
  have hdrop : Step ⟨closingTwo, []⟩ letGoTwo :=
    @Step.drop ⟨closingTwo, []⟩ twoUpserts [] _ [sampleInstance] [otherInstance] rfl rfl
  have hrun : Run Step 14 (initial sampleService) letGoTwo := (run_of_system closingTwo_run).tail hdrop
  have hquiet : letGoTwo.system.Quiet := by
    intro operation hoperation
    rcases List.mem_cons.mp hoperation with rfl | hoperation
    · exact ⟨_, rfl⟩
    · rw [List.mem_singleton.mp hoperation]
      exact ⟨_, rfl⟩
  obtain ⟨_, hstopped, _, hlost⟩ := only_dropped_shutdowns_let_go sampleService hrun
  have hmem : otherInstance ∈ letGoTwo.letGo := List.mem_cons_self
  refine ⟨hrun, hquiet, ?_, (hlost _ hmem 0 _ (.refl _)).2.2.1⟩
  exact (hstopped hquiet otherInstance (List.mem_cons_of_mem _ List.mem_cons_self)).mpr (Or.inr hmem)

end Sample

end DroppingSystem

end Ddns
