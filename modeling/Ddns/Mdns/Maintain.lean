import Ddns.Mdns.Reconciliation

/-! The tasks that keep the set of resolvers at what their snapshots say, beside all other calls
on the set. -/
namespace Ddns

open Transition

/-- Why `maintain` returns no task; `E` is what a snapshot fails with. -/
inductive MaintainError (E : Type) where
  | zeroInterval
  | snapshot (error : E)

/-- Where a call of `maintain` stands, and later its task. The call of `reconcile` that is awaited
is given by its place among all calls. -/
inductive MaintainPhase (E : Type) where
  | started
  | beginning (call : ℕ)
  | refused (error : MaintainError E)
  | waiting
  | ticked
  | live
  | reconciling (call : ℕ)
  | stopped

/-- The last field is not in the program: how often the snapshot was taken. -/
structure Maintenance (E : Type) where
  period : ℕ
  phase : MaintainPhase E
  snapshots : ℕ

/-- The state after `reconcile` was called. -/
def MdnsSystem.calling (system : MdnsSystem) (desired : List MdnsBinding) : MdnsSystem :=
  { system with operations := system.operations ++ [.reconcile desired .started] }

/-- The set with all its calls, and the tasks in the order in which `maintain` was called. -/
structure MaintainedSet (E : Type) where
  system : MdnsSystem
  tasks : List (Maintenance E)

namespace Maintenance

variable {E : Type}

def enter (task : Maintenance E) (phase : MaintainPhase E) : Maintenance E :=
  { task with phase := phase }

def took (task : Maintenance E) : Maintenance E := { task with snapshots := task.snapshots + 1 }

/-- The loop goes on when the awaited `reconcile` has returned, whatever its errors are. -/
def resume (task : Maintenance E) (system : MdnsSystem) (call : ℕ) :
    Option (MdnsSystem × Maintenance E) :=
  match system.operations[call]? with
  | some (.reconcile _ (.returned _)) => some (system, task.enter .waiting)
  | _ => none

/-- A step of `maintain` or of its task; `reply` is what the snapshot says and `desired` lists the
set that `reconcile` collects from it. -/
def step (system : MdnsSystem) (reply : Except E (List MdnsBinding)) (desired : List MdnsBinding)
    (task : Maintenance E) : Option (MdnsSystem × Maintenance E) :=
  match task.phase with
  | .started =>
    if task.period = 0 then some (system, task.enter (.refused .zeroInterval))
    else
      match reply with
      | .error error => some (system, task.took.enter (.refused (.snapshot error)))
      | .ok bindings =>
        if desired.Perm bindings.dedup then
          some (system.calling desired, task.took.enter (.beginning system.operations.length))
        else none
  | .beginning call => task.resume system call
  | .refused _ => none
  | .waiting => some (system, task.enter .ticked)
  | .ticked => some (system, task.enter (if system.set.closed then .stopped else .live))
  | .live =>
    match reply with
    | .error _ => some (system, task.took.enter .waiting)
    | .ok bindings =>
      if desired.Perm bindings.dedup then
        some (system.calling desired, task.took.enter (.reconciling system.operations.length))
      else none
  | .reconciling call => task.resume system call
  | .stopped => none

/-- The call of `reconcile` that the task is waiting for. -/
def awaits (task : Maintenance E) : Option ℕ :=
  match task.phase with
  | .beginning call => some call
  | .reconciling call => some call
  | _ => none

/-- What a step of a task can do. -/
inductive Stepped (system : MdnsSystem) (reply : Except E (List MdnsBinding))
    (desired : List MdnsBinding) (task : Maintenance E) : MdnsSystem → Maintenance E → Prop
  | rejected (hphase : task.phase = .started) (hperiod : task.period = 0) :
    Stepped system reply desired task system (task.enter (.refused .zeroInterval))
  | failed {error : E} (hphase : task.phase = .started) (hreply : reply = .error error) :
    Stepped system reply desired task system (task.took.enter (.refused (.snapshot error)))
  | begun {bindings : List MdnsBinding} (hphase : task.phase = .started)
    (hreply : reply = .ok bindings) (hdesired : desired.Perm bindings.dedup) :
    Stepped system reply desired task (system.calling desired)
      (task.took.enter (.beginning system.operations.length))
  | resumed {call : ℕ} {desired' : List MdnsBinding} {errors : List MdnsReconcileError}
    (hphase : task.awaits = some call)
    (hreturned : system.operations[call]? = some (.reconcile desired' (.returned errors))) :
    Stepped system reply desired task system (task.enter .waiting)
  | tick (hphase : task.phase = .waiting) :
    Stepped system reply desired task system (task.enter .ticked)
  | checked (hphase : task.phase = .ticked) :
    Stepped system reply desired task system
      (task.enter (if system.set.closed then .stopped else .live))
  | kept {error : E} (hphase : task.phase = .live) (hreply : reply = .error error) :
    Stepped system reply desired task system (task.took.enter .waiting)
  | round {bindings : List MdnsBinding} (hphase : task.phase = .live)
    (hreply : reply = .ok bindings) (hdesired : desired.Perm bindings.dedup) :
    Stepped system reply desired task (system.calling desired)
      (task.took.enter (.reconciling system.operations.length))

variable {system system' : MdnsSystem} {reply : Except E (List MdnsBinding)}
  {desired : List MdnsBinding} {task task' : Maintenance E} {call : ℕ}

theorem resumed_of_resume (hawaits : task.awaits = some call)
    (h : task.resume system call = some (system', task')) :
    Stepped system reply desired task system' task' := by
  unfold resume at h
  split at h
  · cases h
    exact .resumed hawaits ‹_›
  · cases h

theorem stepped (h : task.step system reply desired = some (system', task')) :
    Stepped system reply desired task system' task' := by
  unfold step at h
  split at h
  case h_1 hphase =>
    split at h
    · cases h
      exact .rejected hphase ‹_›
    · split at h
      · cases h
        exact .failed hphase rfl
      · split at h
        · cases h
          exact .begun hphase rfl ‹_›
        · cases h
  case h_2 call hphase =>
    exact resumed_of_resume (by simp [awaits, hphase]) h
  case h_3 => cases h
  case h_4 hphase =>
    cases h
    exact .tick hphase
  case h_5 hphase =>
    cases h
    exact .checked hphase
  case h_6 hphase =>
    split at h
    · cases h
      exact .kept hphase rfl
    · split at h
      · cases h
        exact .round hphase rfl ‹_›
      · cases h
  case h_7 call hphase =>
    exact resumed_of_resume (by simp [awaits, hphase]) h
  case h_8 => cases h

/-- On the set a task does nothing but call `reconcile`. -/
theorem Stepped.calls (h : Stepped system reply desired task system' task') :
    system' = system ∨ MdnsSystem.Step system system' := by
  have hcall : ∀ bindings : List MdnsBinding, desired.Perm bindings.dedup →
      MdnsSystem.Step system (system.calling desired) := by
    intro bindings hdesired
    exact .call ⟨hdesired.nodup_iff.mpr (List.nodup_dedup _), rfl⟩
  cases h with
  | begun _ _ hdesired => exact Or.inr (hcall _ hdesired)
  | round _ _ hdesired => exact Or.inr (hcall _ hdesired)
  | _ => exact Or.inl rfl

/-- A task goes on as soon as the `reconcile` that it awaits has returned. -/
theorem step_of_returned {errors : List MdnsReconcileError} (hawaits : task.awaits = some call)
    (hreturned : system.operations[call]? = some (.reconcile desired (.returned errors))) :
    task.step system reply [] = some (system, task.enter .waiting) := by
  have hresume : task.resume system call = some (system, task.enter .waiting) := by
    simp [resume, hreturned]
  unfold awaits at hawaits
  split at hawaits
  case h_1 hphase =>
    cases hawaits
    simpa [step, hphase] using hresume
  case h_2 hphase =>
    cases hawaits
    simpa [step, hphase] using hresume
  case h_3 => cases hawaits

end Maintenance

namespace MaintainedSet

variable {E : Type} {s t : MaintainedSet E}

def initial (serviceName : Name) : MaintainedSet E := ⟨.initial serviceName, []⟩

inductive Step (s : MaintainedSet E) : MaintainedSet E → Prop
  | system {system : MdnsSystem} (hstep : MdnsSystem.Step s.system system) :
    Step s { s with system := system }
  | maintain (period : ℕ) : Step s { s with tasks := s.tasks ++ [⟨period, .started, 0⟩] }
  | task {before after : List (Maintenance E)} {task task' : Maintenance E} {system : MdnsSystem}
    {reply : Except E (List MdnsBinding)} {desired : List MdnsBinding}
    (htasks : s.tasks = before ++ task :: after)
    (hstep : task.step s.system reply desired = some (system, task')) :
    Step s ⟨system, before ++ task' :: after⟩

/-- For the set the tasks are callers like all others. -/
theorem Step.calls (h : Step s t) :
    t.system = s.system ∨ MdnsSystem.Step s.system t.system := by
  cases h with
  | system hstep => exact Or.inr hstep
  | maintain period => exact Or.inl rfl
  | task htasks hstep => exact (Maintenance.stepped hstep).calls

theorem exists_run {serviceName : Name} {n : ℕ} (h : Run Step n (initial serviceName) s) :
    ∃ m, Run MdnsSystem.Step m (.initial serviceName) s.system := by
  refine h.invariant (P := fun s => ∃ m, Run MdnsSystem.Step m (.initial serviceName) s.system) ?_
    ⟨0, .refl _⟩
  rintro s t hstep ⟨m, hrun⟩
  rcases hstep.calls with heq | hcall
  · rw [heq]
    exact ⟨m, hrun⟩
  · exact ⟨m + 1, hrun.tail hcall⟩

end MaintainedSet

end Ddns
