import Ddns.Mdns.Maintain

/-! What becomes of the tasks when the set is closed, whatever else is called on it. -/
namespace Ddns

open Relation Transition

/-- The elements of a list after one of them was replaced. -/
theorem getElem?_replaced {α : Type} {before after : List α} {x z : α} {i : ℕ} (y : α)
    (h : (before ++ x :: after)[i]? = some z) :
    (before ++ y :: after)[i]? = some z ∨ (z = x ∧ (before ++ y :: after)[i]? = some y) := by
  rcases Nat.lt_trichotomy i before.length with hlt | rfl | hgt
  · refine Or.inl ?_
    rw [List.getElem?_append_left hlt] at h ⊢
    exact h
  · refine Or.inr ?_
    rw [List.getElem?_append_right (Nat.le_refl _), Nat.sub_self] at h ⊢
    cases h
    exact ⟨rfl, rfl⟩
  · obtain ⟨k, rfl⟩ := Nat.exists_eq_add_of_lt hgt
    have hk : before.length + k + 1 - before.length = k + 1 := by omega
    refine Or.inl ?_
    rw [List.getElem?_append_right (by omega), hk] at h ⊢
    exact h

def Upsert.stepsLeft : Upsert → ℕ
  | .started => 5
  | .checking => 4
  | .missing => 3
  | .bound _ => 2
  | .lost _ _ => 1
  | .returned _ => 0

def Remove.stepsLeft : Remove → ℕ
  | .started => 2
  | .taken _ => 1
  | .returned _ => 0

/-- A bound on the steps of a `reconcile` while no other call changes the set. -/
def Reconcile.stepsLeft (desired : List MdnsBinding) (set : MdnsResolverSet) : Reconcile → ℕ
  | .started => 8 * desired.length + 5 * set.values.length + 3
  | .removing resolvers _ => 8 * desired.length + 5 * resolvers.length + 2
  | .removingOne _ call rest _ => call.stepsLeft + 8 * desired.length + 5 * rest.length + 3
  | .upserting bindings _ => 8 * bindings.length + 1
  | .upsertingOne _ call rest _ => call.stepsLeft + 8 * rest.length + 2
  | .returned _ => 0

section StepsLeft

variable {binding : MdnsBinding} {set set' : MdnsResolverSet} {ok : Bool}

theorem Upsert.stepsLeft_step {call call' : Upsert}
    (h : call.step binding set ok = some (set', call')) : call'.stepsLeft < call.stepsLeft := by
  cases call with
  | started =>
    cases h
    by_cases hclosed : set.closed = true <;> simp [stepsLeft, hclosed]
  | checking =>
    rw [Upsert.step] at h
    split at h <;> cases h <;> simp [stepsLeft]
  | missing =>
    rw [Upsert.step] at h
    split at h <;> cases h <;> simp [stepsLeft]
  | bound candidate =>
    rw [Upsert.step] at h
    split at h
    · cases h
      simp [stepsLeft]
    · split at h <;> cases h <;> simp [stepsLeft]
  | lost candidate race => cases ok <;> cases race <;> cases h <;> simp [stepsLeft]
  | returned result => cases h

theorem Remove.stepsLeft_step {call call' : Remove}
    (h : call.step binding set ok = some (set', call')) : call'.stepsLeft < call.stepsLeft := by
  cases call with
  | started =>
    rw [Remove.step] at h
    split at h <;> cases h <;> simp [stepsLeft]
  | taken resolver =>
    cases h
    simp [stepsLeft]
  | returned result => cases h

theorem Reconcile.stepsLeft_step {desired : List MdnsBinding} {order : List MdnsInstance}
    {call call' : Reconcile} (h : call.step desired set ok order = some (set', call')) :
    call'.stepsLeft desired set' < call.stepsLeft desired set := by
  cases call with
  | started =>
    rw [Reconcile.step] at h
    split at h
    · rename_i horder
      cases h
      simp [stepsLeft, horder.length_eq]
    · cases h
  | removing resolvers errors =>
    cases resolvers with
    | nil =>
      cases h
      simp [stepsLeft]
    | cons resolver rest =>
      rw [Reconcile.step] at h
      split at h
      · cases h
        simp [stepsLeft]
      · cases h
        simp only [stepsLeft, Remove.stepsLeft, List.length_cons]
        omega
  | removingOne binding inner rest errors =>
    by_cases hreturned : ∃ result, inner = .returned result
    · obtain ⟨result, rfl⟩ := hreturned
      cases result <;> cases h <;> simp [stepsLeft, Remove.stepsLeft]
    · rw [Reconcile.step_removingOne fun result heq => hreturned ⟨result, heq⟩] at h
      obtain ⟨out, hinner, heq⟩ := Option.map_eq_some_iff.mp h
      cases heq
      have hless := Remove.stepsLeft_step hinner
      simp only [stepsLeft]
      omega
  | upserting bindings errors =>
    cases bindings with
    | nil =>
      cases h
      simp [stepsLeft]
    | cons binding rest =>
      cases h
      simp only [stepsLeft, Upsert.stepsLeft, List.length_cons]
      omega
  | upsertingOne binding inner rest errors =>
    by_cases hreturned : ∃ result, inner = .returned result
    · obtain ⟨result, rfl⟩ := hreturned
      cases result <;> cases h <;> simp [stepsLeft, Upsert.stepsLeft]
    · rw [Reconcile.step_upsertingOne fun result heq => hreturned ⟨result, heq⟩] at h
      obtain ⟨out, hinner, heq⟩ := Option.map_eq_some_iff.mp h
      cases heq
      have hless := Upsert.stepsLeft_step hinner
      simp only [stepsLeft]
      omega
  | returned errors => cases h

end StepsLeft

/-- A `reconcile` that goes on can be brought to its end. -/
theorem reconcile_can_return {system : MdnsSystem} {before after : List Operation}
    {desired : List MdnsBinding} {state : Reconcile}
    (h : system.operations = before ++ .reconcile desired state :: after) :
    ∃ set errors, ReflTransGen MdnsSystem.Step system
      ⟨set, before ++ .reconcile desired (.returned errors) :: after⟩ := by
  induction hleft : state.stepsLeft desired system.set using Nat.strong_induction_on
    generalizing system state with
  | _ left ih =>
  by_cases hreturned : ∃ errors, state = .returned errors
  · obtain ⟨errors, rfl⟩ := hreturned
    refine ⟨system.set, errors, ?_⟩
    rw [← h]
  · have hgoing : ¬ (Operation.reconcile desired state).Returned := hreturned
    obtain ⟨order, ⟨set, next⟩, hstep⟩ := @Operation.exists_step system.set true _ hgoing
    cases Operation.stepped hstep with
    | @reconcile _ _ state' _ hcall =>
      have hless := Reconcile.stepsLeft_step hcall
      obtain ⟨set', errors, hrest⟩ := @ih _ (hleft ▸ hless)
        ⟨set, before ++ .reconcile desired state' :: after⟩ state' rfl rfl
      exact ⟨set', errors, .head (.act h hstep) hrest⟩

namespace Maintenance

variable {E : Type} {system system' : MdnsSystem} {reply : Except E (List MdnsBinding)}
  {desired : List MdnsBinding} {task task' : Maintenance E}

/-- How often the snapshot may still be taken once the set is closed. -/
def snapshotsLeft (task : Maintenance E) : ℕ :=
  match task.phase with
  | .started => 1
  | .live => 1
  | _ => 0

/-- How many steps the task has left once the set is closed. -/
def stepsLeft (task : Maintenance E) : ℕ :=
  match task.phase with
  | .started => 4
  | .live => 4
  | .beginning _ => 3
  | .reconciling _ => 3
  | .waiting => 2
  | .ticked => 1
  | .refused _ => 0
  | .stopped => 0

/-- A task that was waiting for a `reconcile` has the next tick and the check before it. -/
theorem enter_waiting_less {call : ℕ} (hawaits : task.awaits = some call) :
    (task.enter .waiting).stepsLeft < task.stepsLeft ∧
      (task.enter .waiting).snapshots + (task.enter .waiting).snapshotsLeft ≤
        task.snapshots + task.snapshotsLeft := by
  unfold awaits at hawaits
  split at hawaits
  case h_1 hphase => simp [stepsLeft, snapshotsLeft, enter, hphase]
  case h_2 hphase => simp [stepsLeft, snapshotsLeft, enter, hphase]
  case h_3 => cases hawaits

/-- On a closed set every step brings the task nearer to its end. -/
theorem Stepped.winds_up (h : Stepped system reply desired task system' task')
    (hclosed : system.set.closed = true) :
    task'.stepsLeft < task.stepsLeft ∧
      task'.snapshots + task'.snapshotsLeft ≤ task.snapshots + task.snapshotsLeft := by
  cases h with
  | resumed hawaits _ => exact enter_waiting_less hawaits
  | checked hphase => simp [stepsLeft, snapshotsLeft, enter, hphase, hclosed]
  | rejected hphase => simp [stepsLeft, snapshotsLeft, enter, hphase]
  | failed hphase => simp [stepsLeft, snapshotsLeft, enter, took, hphase]
  | begun hphase => simp [stepsLeft, snapshotsLeft, enter, took, hphase]
  | tick hphase => simp [stepsLeft, snapshotsLeft, enter, hphase]
  | kept hphase => simp [stepsLeft, snapshotsLeft, enter, took, hphase]
  | round hphase => simp [stepsLeft, snapshotsLeft, enter, took, hphase]

/-- A task that has an end to come can go on, unless it waits for a `reconcile`. -/
theorem exists_step (hmore : task.stepsLeft ≠ 0) :
    (∃ call, task.awaits = some call) ∨
      ∃ (reply : Except E (List MdnsBinding)) (out : MdnsSystem × Maintenance E),
        task.step system reply [] = some out := by
  cases hphase : task.phase with
  | started =>
    by_cases hperiod : task.period = 0
    · exact Or.inr ⟨.ok [], by simp [step, hphase, hperiod]⟩
    · exact Or.inr ⟨.ok [], by simp [step, hphase, hperiod]⟩
  | beginning call => exact Or.inl ⟨call, by simp [awaits, hphase]⟩
  | refused error => exact absurd (by simp [stepsLeft, hphase]) hmore
  | waiting => exact Or.inr ⟨.ok [], by simp [step, hphase]⟩
  | ticked => exact Or.inr ⟨.ok [], by simp [step, hphase]⟩
  | live => exact Or.inr ⟨.ok [], by simp [step, hphase]⟩
  | reconciling call => exact Or.inl ⟨call, by simp [awaits, hphase]⟩
  | stopped => exact absurd (by simp [stepsLeft, hphase]) hmore

end Maintenance

namespace MaintainedSet

variable {E : Type} {s t : MaintainedSet E} {i : ℕ} {task : Maintenance E}

/-- Where a call is made or goes on, the calls of `reconcile` stay in their places. -/
theorem reconcile_stays {system system' : MdnsSystem} (h : MdnsSystem.Step system system')
    {call : ℕ} {desired : List MdnsBinding} {state : Reconcile}
    (hcall : system.operations[call]? = some (.reconcile desired state)) :
    ∃ state', system'.operations[call]? = some (.reconcile desired state') := by
  cases h with
  | call hstarts =>
    obtain ⟨hlt, _⟩ := List.getElem?_eq_some_iff.mp hcall
    exact ⟨state, (List.getElem?_append_left hlt).trans hcall⟩
  | @act before after operation operation' set ok order hoperation hstep =>
    rw [hoperation] at hcall
    rcases getElem?_replaced operation' hcall with hsame | ⟨rfl, hlast⟩
    · exact ⟨state, hsame⟩
    · cases Operation.stepped hstep with
      | reconcile => exact ⟨_, hlast⟩

/-- What a task waits for is a `reconcile`. -/
def AwaitsReconcile (s : MaintainedSet E) : Prop :=
  ∀ task ∈ s.tasks, ∀ call, task.awaits = some call →
    ∃ desired state, s.system.operations[call]? = some (.reconcile desired state)

theorem calling_last (system : MdnsSystem) (desired : List MdnsBinding) :
    (system.calling desired).operations[system.operations.length]? =
      some (.reconcile desired .started) :=
  List.getElem?_concat_length

theorem awaitsReconcile_step (h : Step s t) (hs : s.AwaitsReconcile) : t.AwaitsReconcile := by
  have hold : ∀ task ∈ s.tasks, ∀ call, task.awaits = some call →
      ∃ desired state, t.system.operations[call]? = some (.reconcile desired state) := by
    intro task htask call hawaits
    obtain ⟨desired, state, hcall⟩ := hs task htask call hawaits
    rcases h.calls with heq | hstep
    · rw [heq]
      exact ⟨desired, state, hcall⟩
    · exact ⟨desired, reconcile_stays hstep hcall⟩
  cases h with
  | system hstep => exact hold
  | maintain period =>
    intro task htask call hawaits
    rcases List.mem_append.mp htask with htask | htask
    · exact hold task htask call hawaits
    · rw [List.mem_singleton.mp htask] at hawaits
      cases hawaits
  | @task before after task task' system reply desired htasks hstep =>
    intro other hother call hawaits
    rw [htasks] at hold
    rcases List.mem_append.mp hother with hother | hother
    · exact hold other (List.mem_append_left _ hother) call hawaits
    rcases List.mem_cons.mp hother with rfl | hother
    · cases Maintenance.stepped hstep with
      | begun hphase =>
        cases hawaits
        exact ⟨_, _, calling_last _ _⟩
      | round hphase =>
        cases hawaits
        exact ⟨_, _, calling_last _ _⟩
      | checked hphase =>
        unfold Maintenance.awaits Maintenance.enter at hawaits
        cases hclosed : s.system.set.closed <;> simp [hclosed] at hawaits
      | _ => cases hawaits
    · exact hold other (List.mem_append_right _ (List.mem_cons_of_mem _ hother)) call hawaits

theorem awaitsReconcile_run {serviceName : Name} {n : ℕ}
    (h : Run Step n (initial serviceName) s) : s.AwaitsReconcile :=
  h.invariant (fun _ _ => awaitsReconcile_step) fun _ htask => absurd htask List.not_mem_nil

/-- What is left in the map of a closed set was there before. -/
theorem lookup_of_closed {set set' : MdnsResolverSet} {held held' : List MdnsInstance}
    (h : Moved set held set' held') (hclosed : set.closed = true) {binding : MdnsBinding}
    {resolver : MdnsInstance} (hlookup : set'.resolvers.lookup binding = some resolver) :
    set.resolvers.lookup binding = some resolver := by
  cases h with
  | insert candidate hheld hopen hfree =>
    rw [hopen] at hclosed
    cases hclosed
  | @take other _ hheld hfound =>
    by_cases heq : binding = other
    · subst heq
      rw [AList.lookup_erase] at hlookup
      cases hlookup
    · exact (AList.lookup_erase_ne heq).symm.trans hlookup
  | drain hheld horder => cases hlookup
  | _ => exact hlookup

/-- The set is closed and has lost at most what it had. -/
def Closing (set set' : MdnsResolverSet) : Prop :=
  set'.closed = true ∧ ∀ binding resolver, set'.resolvers.lookup binding = some resolver →
    set.resolvers.lookup binding = some resolver

theorem closing_step {set : MdnsResolverSet} {system system' : MdnsSystem}
    (h : MdnsSystem.Step system system') (hinvariant : system.Invariant)
    (hs : Closing set system.set) : Closing set system'.set := by
  cases h with
  | call hstarts => exact hs
  | @act before after operation operation' set' ok order hoperation hstep =>
    obtain ⟨hmoved, _⟩ :=
      Operation.moved hstep (hinvariant.wellBound operation (MdnsSystem.acting_mem hoperation))
    refine ⟨hmoved.closed hs.1, ?_⟩
    intro binding resolver hlookup
    exact hs.2 binding resolver (lookup_of_closed hmoved hs.1 hlookup)

/-- A step on a closed set leaves a task as it is or brings it nearer to its end. -/
theorem Step.winds_up (h : Step s t) (hclosed : s.system.set.closed = true)
    (htask : s.tasks[i]? = some task) :
    t.tasks[i]? = some task ∨ ∃ task', t.tasks[i]? = some task' ∧
      task'.stepsLeft < task.stepsLeft ∧
      task'.snapshots + task'.snapshotsLeft ≤ task.snapshots + task.snapshotsLeft := by
  cases h with
  | system hstep => exact Or.inl htask
  | maintain period =>
    obtain ⟨hlt, _⟩ := List.getElem?_eq_some_iff.mp htask
    exact Or.inl ((List.getElem?_append_left hlt).trans htask)
  | @task before after acting acting' system reply desired htasks hstep =>
    rw [htasks] at htask
    rcases getElem?_replaced acting' htask with hsame | ⟨rfl, hlast⟩
    · exact Or.inl hsame
    · exact Or.inr ⟨acting', hlast, (Maintenance.stepped hstep).winds_up hclosed⟩

/-- What holds from the moment at which the set is closed. -/
structure WindsUp (s t : MaintainedSet E) : Prop where
  invariant : t.system.Invariant
  closing : Closing s.system.set t.system.set
  tasks : ∀ (i : ℕ) (task : Maintenance E), s.tasks[i]? = some task →
    ∃ task' : Maintenance E, t.tasks[i]? = some task' ∧
      task'.snapshots + task'.snapshotsLeft ≤ task.snapshots + task.snapshotsLeft

theorem windsUp_step {u : MaintainedSet E} (h : Step t u) (hs : WindsUp s t) : WindsUp s u := by
  have hsystem : u.system.Invariant ∧ Closing s.system.set u.system.set := by
    rcases h.calls with heq | hstep
    · rw [heq]
      exact ⟨hs.invariant, hs.closing⟩
    · exact ⟨MdnsSystem.invariant_step hstep hs.invariant,
        closing_step hstep hs.invariant hs.closing⟩
  refine ⟨hsystem.1, hsystem.2, ?_⟩
  intro i task htask
  obtain ⟨task', htask', hleft⟩ := hs.tasks i task htask
  rcases h.winds_up hs.closing.1 htask' with hsame | ⟨task'', hnext, _, hless⟩
  · exact ⟨task', hsame, hleft⟩
  · exact ⟨task'', hnext, by omega⟩

theorem windsUp_run {serviceName : Name} {n m : ℕ} (h : Run Step n (initial serviceName) s)
    (hclosed : s.system.set.closed = true) (hrun : Run Step m s t) : WindsUp s t := by
  obtain ⟨k, hsystem⟩ := exists_run h
  refine hrun.invariant (fun _ _ => windsUp_step) ⟨MdnsSystem.invariant_run hsystem, ?_, ?_⟩
  · exact ⟨hclosed, fun _ _ hlookup => hlookup⟩
  · intro i task htask
    exact ⟨task, htask, Nat.le_refl _⟩

theorem system_steps {system : MdnsSystem} (h : ReflTransGen MdnsSystem.Step s.system system) :
    ReflTransGen Step s { s with system := system } := by
  induction h with
  | refl => exact .refl
  | tail _ hlast ih => exact ih.tail (.system hlast)

theorem exists_split {α : Type} {l : List α} {x : α} (h : l[i]? = some x) :
    ∃ before after, l = before ++ x :: after ∧ before.length = i := by
  obtain ⟨hlt, rfl⟩ := List.getElem?_eq_some_iff.mp h
  refine ⟨l.take i, l.drop (i + 1), ?_, ?_⟩
  · rw [← List.drop_eq_getElem_cons hlt, List.take_append_drop]
  · rw [List.length_take]
    omega

/-- A task that waits for a `reconcile` can be brought to wait for the next tick. -/
theorem can_resume (hs : s.AwaitsReconcile) (htask : s.tasks[i]? = some task) {call : ℕ}
    (hawaits : task.awaits = some call) :
    ∃ t, ReflTransGen Step s t ∧ t.tasks[i]? = some (task.enter .waiting) := by
  obtain ⟨desired, state, hcall⟩ := hs task (List.mem_of_getElem? htask) call hawaits
  obtain ⟨before, after, hoperations, rfl⟩ := exists_split hcall
  obtain ⟨set, errors, hsteps⟩ := reconcile_can_return hoperations
  obtain ⟨earlier, later, htasks, rfl⟩ := exists_split htask
  have hreturned : (before ++ Operation.reconcile desired (.returned errors) :: after)[before.length]? =
      some (.reconcile desired (.returned errors)) := by simp
  have hstep := @Maintenance.step_of_returned E
    ⟨set, before ++ .reconcile desired (.returned errors) :: after⟩ (.ok []) desired task _ errors
    hawaits hreturned
  exact ⟨_, (system_steps hsteps).tail (.task htasks hstep), by simp⟩

/-- A task can be brought to its end once the set is closed. -/
theorem can_end {serviceName : Name} {n : ℕ} (h : Run Step n (initial serviceName) s)
    (hclosed : s.system.set.closed = true) (htask : s.tasks[i]? = some task) :
    ∃ (t : MaintainedSet E) (ended : Maintenance E), ReflTransGen Step s t ∧
      t.tasks[i]? = some ended ∧ ended.stepsLeft = 0 := by
  induction hleft : task.stepsLeft using Nat.strong_induction_on
    generalizing n s task with
  | _ left ih =>
  by_cases hend : task.stepsLeft = 0
  · exact ⟨s, task, .refl, htask, hend⟩
  · -- one more step of the task, after which there is less to do
    have hnext : ∃ t task', ReflTransGen Step s t ∧ t.tasks[i]? = some task' ∧
        task'.stepsLeft < task.stepsLeft := by
      rcases @Maintenance.exists_step E s.system task hend with ⟨call, hawaits⟩ | ⟨reply, out, hstep⟩
      · obtain ⟨t, hsteps, hresumed⟩ := can_resume (awaitsReconcile_run h) htask hawaits
        exact ⟨t, _, hsteps, hresumed, (Maintenance.enter_waiting_less hawaits).1⟩
      · obtain ⟨earlier, later, htasks, rfl⟩ := exists_split htask
        exact ⟨_, out.2, .single (.task htasks hstep), by simp,
          ((Maintenance.stepped hstep).winds_up hclosed).1⟩
    obtain ⟨t, task', hsteps, htask', hless⟩ := hnext
    obtain ⟨m, hrun⟩ := h.extend hsteps
    obtain ⟨k, hclosing⟩ := (Run.refl s).extend hsteps
    obtain ⟨u, ended, hmore, hended⟩ :=
      ih _ (hleft ▸ hless) hrun (windsUp_run h hclosed hclosing).closing.1 htask' rfl
    exact ⟨u, ended, hsteps.trans hmore, hended⟩

/-- Once the flag of the set is stored, whatever else is called: nothing is put into the map, a
task takes at most the snapshot that it was about to take, each of its steps brings it nearer to
its end and it can always come there. -/
theorem closing_stops_maintenance (serviceName : Name) {n m : ℕ}
    (h : Run Step n (initial serviceName) s) (hclosed : s.system.set.closed = true)
    (hrun : Run Step m s t) :
    (∀ binding resolver, t.system.set.resolvers.lookup binding = some resolver →
      s.system.set.resolvers.lookup binding = some resolver) ∧
    ∀ (i : ℕ) (task : Maintenance E), s.tasks[i]? = some task →
      ∃ task' : Maintenance E, t.tasks[i]? = some task' ∧
      task'.snapshots ≤ task.snapshots + task.snapshotsLeft ∧
      (∀ u, Step t u → u.tasks[i]? = some task' ∨
        ∃ next : Maintenance E, u.tasks[i]? = some next ∧ next.stepsLeft < task'.stepsLeft) ∧
      ∃ (u : MaintainedSet E) (ended : Maintenance E), ReflTransGen Step t u ∧
        u.tasks[i]? = some ended ∧ ended.stepsLeft = 0 := by
  have hwinds := windsUp_run h hclosed hrun
  refine ⟨hwinds.closing.2, ?_⟩
  intro i task htask
  obtain ⟨task', htask', hleft⟩ := hwinds.tasks i task htask
  obtain ⟨k, hreached⟩ := h.extend hrun.reflTransGen
  refine ⟨task', htask', by omega, ?_, can_end hreached hwinds.closing.1 htask'⟩
  intro u hstep
  rcases hstep.winds_up hwinds.closing.1 htask' with hsame | ⟨next, hnext, hless, _⟩
  · exact Or.inl hsame
  · exact Or.inr ⟨next, hnext, hless⟩

section Sample

/-- `maintain` was called, and a `shutdown` has stored the flag before it went on. -/
def closingSet : MaintainedSet Unit :=
  ⟨⟨⟨MdnsSystem.sampleService, ∅, true, [], []⟩, [.shutdown .stored]⟩, [⟨1, .started, 0⟩]⟩

theorem closingSet_run : Run Step 3 (initial MdnsSystem.sampleService) closingSet := by
  have hmaintain : Step (E := Unit) (initial MdnsSystem.sampleService)
      ⟨.initial MdnsSystem.sampleService, [⟨1, .started, 0⟩]⟩ := .maintain 1
  have hcall : Step (E := Unit) ⟨.initial MdnsSystem.sampleService, [⟨1, .started, 0⟩]⟩
      ⟨⟨.new MdnsSystem.sampleService, [.shutdown .started]⟩, [⟨1, .started, 0⟩]⟩ :=
    .system (.call rfl)
  have hstore : Step
      ⟨⟨.new MdnsSystem.sampleService, [.shutdown .started]⟩, [⟨1, .started, 0⟩]⟩ closingSet :=
    .system (@MdnsSystem.Step.act _ [] [] _ _ _ true [] rfl rfl)
  exact (((Run.refl _).tail hmaintain).tail hcall).tail hstore

/-- The task still takes its first snapshot, and no other one. -/
theorem closing_stops_maintenance_closingSet :
    Run Step 3 (initial MdnsSystem.sampleService) closingSet ∧
      closingSet.system.set.closed = true ∧
      ∀ t m, Run Step m closingSet t →
        ∃ task : Maintenance Unit, t.tasks[0]? = some task ∧ task.snapshots ≤ 1 := by
  refine ⟨closingSet_run, rfl, ?_⟩
  intro t m hrun
  obtain ⟨_, htasks⟩ := closing_stops_maintenance MdnsSystem.sampleService closingSet_run rfl hrun
  obtain ⟨task, htask, hsnapshots, _⟩ := htasks 0 _ rfl
  exact ⟨task, htask, hsnapshots⟩

end Sample

end MaintainedSet

end Ddns
