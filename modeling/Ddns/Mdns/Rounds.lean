import Ddns.Library.History
import Ddns.Mdns.Maintain

/-! The rounds of a task that is the only one to call on the set. -/
namespace Ddns

open Relation Transition

/-- What a round of a task finds: the snapshot, and which binds and shutdowns succeed. -/
structure Round (E : Type) where
  snapshot : Except E (List MdnsBinding)
  binds : MdnsBinding → Bool
  shuts : MdnsBinding → Bool

variable {E : Type}

/-- The snapshot of the round was had and has the binding, or it was not had. -/
def Round.Wants (round : Round E) (binding : MdnsBinding) : Prop :=
  ∀ bindings, round.snapshot = .ok bindings → binding ∈ bindings

/-- The snapshot of the round has the binding, and an instance can be bound to it. -/
def Round.Binds (round : Round E) (serviceName : Name) (binding : MdnsBinding) : Prop :=
  (∃ bindings, round.snapshot = .ok bindings ∧ binding ∈ bindings) ∧
    validServiceName serviceName ∧ round.binds binding = true

theorem Round.Binds.wants {round : Round E} {serviceName : Name} {binding : MdnsBinding}
    (h : round.Binds serviceName binding) : round.Wants binding := by
  obtain ⟨⟨bindings, hsnapshot, hmem⟩, _⟩ := h
  intro other hother
  cases hsnapshot.symm.trans hother
  exact hmem

/-- A step of a task, or of the `reconcile` that was called last, before the next tick. -/
inductive Round.Goes (round : Round E) :
    MdnsSystem × Maintenance E → MdnsSystem × Maintenance E → Prop
  | task {system system' : MdnsSystem} {task task' : Maintenance E} {desired : List MdnsBinding}
    (hbusy : task.phase ≠ .waiting)
    (hstep : task.step system round.snapshot desired = some (system', task')) :
    Goes round (system, task) (system', task')
  | reconcile {set set' : MdnsResolverSet} {operations : List Operation}
    {desired : List MdnsBinding} {call call' : Reconcile} {order : List MdnsInstance}
    {task : Maintenance E}
    (hstep : Reconcile.Alone desired round.binds round.shuts order (set, call) (set', call')) :
    Goes round (⟨set, operations ++ [.reconcile desired call]⟩, task)
      (⟨set', operations ++ [.reconcile desired call']⟩, task)

/-- From one tick to the wait for the next one. -/
def Round.Turn (round : Round E) (s t : MdnsSystem × Maintenance E) : Prop :=
  s.2.phase = .waiting ∧ t.2.phase = .waiting ∧
    ReflTransGen round.Goes (s.1, s.2.enter .ticked) t

/-- All rounds in a row. -/
inductive Turns : List (Round E) → MdnsSystem × Maintenance E → MdnsSystem × Maintenance E → Prop
  | nil (s : MdnsSystem × Maintenance E) : Turns [] s s
  | snoc {rounds : List (Round E)} {round : Round E} {s t u : MdnsSystem × Maintenance E}
    (hturns : Turns rounds s t) (hturn : round.Turn t u) : Turns (rounds ++ [round]) s u

/-- The order in which the map is read matters to the first step only. -/
theorem Reconcile.alone_order {desired : List MdnsBinding} {binds shuts : MdnsBinding → Bool}
    {order order' : List MdnsInstance} {set : MdnsResolverSet} {call : Reconcile}
    {out : MdnsResolverSet × Reconcile}
    (h : Reconcile.Alone desired binds shuts order (set, call) out) (hcall : call ≠ .started) :
    Reconcile.Alone desired binds shuts order' (set, call) out := by
  cases call with
  | started => exact absurd rfl hcall
  | removing resolvers errors => cases resolvers <;> exact h
  | removingOne binding inner rest errors =>
    cases inner with
    | returned result => cases result <;> exact h
    | _ => exact h
  | upserting bindings errors => cases bindings <;> exact h
  | upsertingOne binding inner rest errors =>
    cases inner with
    | returned result => cases result <;> exact h
    | _ => exact h
  | returned errors => exact h

theorem Reconcile.alone_started {desired : List MdnsBinding} {binds shuts : MdnsBinding → Bool}
    {order : List MdnsInstance} {set set' : MdnsResolverSet} {call : Reconcile}
    (h : Reconcile.Alone desired binds shuts order (set, .started) (set', call)) :
    order.Perm set.values := by
  by_contra horder
  have hnone : Reconcile.started.step desired set true order = none := if_neg horder
  exact absurd (hnone.symm.trans h) (by simp)

/-- A call does not begin twice. -/
theorem Reconcile.step_ne_started {desired : List MdnsBinding} {set set' : MdnsResolverSet}
    {ok : Bool} {order : List MdnsInstance} {call : Reconcile} :
    call.step desired set ok order ≠ some (set', .started) := by
  intro h
  cases call with
  | started =>
    rw [Reconcile.step] at h
    split at h <;> cases h
  | removing resolvers errors =>
    cases resolvers with
    | nil => cases h
    | cons resolver rest =>
      rw [Reconcile.step] at h
      split at h <;> cases h
  | removingOne binding inner rest errors =>
    by_cases hreturned : ∃ result, inner = .returned result
    · obtain ⟨result, rfl⟩ := hreturned
      cases result <;> cases h
    · rw [Reconcile.step_removingOne fun result heq => hreturned ⟨result, heq⟩] at h
      obtain ⟨out, _, heq⟩ := Option.map_eq_some_iff.mp h
      cases heq
  | upserting bindings errors => cases bindings <;> cases h
  | upsertingOne binding inner rest errors =>
    by_cases hreturned : ∃ result, inner = .returned result
    · obtain ⟨result, rfl⟩ := hreturned
      cases result <;> cases h
    · rw [Reconcile.step_upsertingOne fun result heq => hreturned ⟨result, heq⟩] at h
      obtain ⟨out, _, heq⟩ := Option.map_eq_some_iff.mp h
      cases heq
  | returned errors => cases h

namespace Round

variable {round : Round E} {system : MdnsSystem} {s t : MdnsSystem × Maintenance E}

/-- Where a round that began in the given state can stand. -/
inductive During (round : Round E) (system : MdnsSystem) : MdnsSystem × Maintenance E → Prop
  | ticked {task : Maintenance E} (hphase : task.phase = .ticked) : During round system (system, task)
  | stopped {task : Maintenance E} (hphase : task.phase = .stopped) :
    During round system (system, task)
  | live {task : Maintenance E} (hphase : task.phase = .live) (hopen : system.set.closed = false) :
    During round system (system, task)
  | kept {task : Maintenance E} {error : E} (hphase : task.phase = .waiting)
    (hopen : system.set.closed = false) (hsnapshot : round.snapshot = .error error) :
    During round system (system, task)
  | called {task : Maintenance E} {bindings desired : List MdnsBinding}
    (hphase : task.phase = .reconciling system.operations.length)
    (hopen : system.set.closed = false) (hsnapshot : round.snapshot = .ok bindings)
    (hdesired : desired.Perm bindings.dedup) : During round system (system.calling desired, task)
  | going {task : Maintenance E} {bindings desired : List MdnsBinding} {order : List MdnsInstance}
    {set : MdnsResolverSet} {call : Reconcile}
    (hphase : task.phase = .reconciling system.operations.length)
    (hopen : system.set.closed = false) (hsnapshot : round.snapshot = .ok bindings)
    (hdesired : desired.Perm bindings.dedup) (horder : order.Perm system.set.values)
    (hcall : call ≠ .started)
    (hsteps : ReflTransGen (Reconcile.Alone desired round.binds round.shuts order)
      (system.set, .started) (set, call)) :
    During round system (⟨set, system.operations ++ [.reconcile desired call]⟩, task)
  | done {task : Maintenance E} {bindings desired : List MdnsBinding} {order : List MdnsInstance}
    (hphase : task.phase = .waiting) (hopen : system.set.closed = false)
    (hsnapshot : round.snapshot = .ok bindings) (hdesired : desired.Perm bindings.dedup)
    (horder : order.Perm system.set.values) :
    During round system
      (⟨(system.set.reconcile desired round.binds round.shuts order).1,
        system.operations ++ [.reconcile desired
          (.returned (system.set.reconcile desired round.binds round.shuts order).2)]⟩, task)

/-- A step of a round is one of the task or of the call that was made last. -/
theorem Goes.inv (h : round.Goes s t) :
    (s.2.phase ≠ .waiting ∧ ∃ desired, s.2.step s.1 round.snapshot desired = some t) ∨
      ∃ operations desired call call' order,
        s.1.operations = operations ++ [.reconcile desired call] ∧
        Reconcile.Alone desired round.binds round.shuts order (s.1.set, call) (t.1.set, call') ∧
        t = (⟨t.1.set, operations ++ [.reconcile desired call']⟩, s.2) := by
  cases h with
  | task hbusy hstep => exact Or.inl ⟨hbusy, _, hstep⟩
  | reconcile hstep => exact Or.inr ⟨_, _, _, _, _, rfl, hstep, rfl⟩

/-- Calls that have returned take no step. -/
theorem not_alone_of_quiet (hquiet : system.Quiet) {operations : List Operation}
    {desired : List MdnsBinding} {call : Reconcile} {order : List MdnsInstance}
    {out : MdnsResolverSet × Reconcile}
    (hoperations : system.operations = operations ++ [.reconcile desired call]) :
    ¬ Reconcile.Alone desired round.binds round.shuts order (system.set, call) out := by
  obtain ⟨errors, rfl⟩ := hquiet (.reconcile desired call) (by simp [hoperations])
  exact Reconcile.alone_returned _ _ _

/-- A task that waits for a call goes on when that call has returned. -/
theorem resumes {task : Maintenance E} {set : MdnsResolverSet} {operations : List Operation}
    {operation : Operation} {desired : List MdnsBinding}
    (hphase : task.phase = .reconciling operations.length)
    (h : task.step ⟨set, operations ++ [operation]⟩ round.snapshot desired = some t) :
    ∃ desired' errors, operation = .reconcile desired' (.returned errors) ∧
      t = (⟨set, operations ++ [operation]⟩, task.enter .waiting) := by
  have hlast : (operations ++ [operation])[operations.length]? = some operation :=
    List.getElem?_concat_length
  simp only [Maintenance.step, hphase, Maintenance.resume, hlast] at h
  split at h
  · rename_i heq
    cases heq
    cases h
    exact ⟨_, _, rfl, rfl⟩
  · cases h

/-- The operation that a list ends with. -/
theorem eq_of_snoc_eq {operations operations' : List Operation} {operation operation' : Operation}
    (h : operations ++ [operation] = operations' ++ [operation']) :
    operations' = operations ∧ operation' = operation := by
  obtain ⟨hinit, hlast⟩ := List.append_inj' h rfl
  exact ⟨hinit.symm, (List.cons.inj hlast).1.symm⟩

theorem during_step (hquiet : system.Quiet) (h : round.Goes s t) (hs : During round system s) :
    During round system t := by
  -- where no call goes on, it is the task that takes the step
  have hidle : ∀ task : Maintenance E, s = (system, task) →
      (∀ desired, task.step system round.snapshot desired = some t → task.phase ≠ .waiting →
        During round system t) → During round system t := by
    rintro task rfl hnext
    rcases h.inv with ⟨hbusy, desired, hstep⟩ | ⟨_, _, _, _, _, hoperations, halone, _⟩
    · exact hnext desired hstep hbusy
    · exact absurd halone (not_alone_of_quiet hquiet hoperations)
  cases hs with
  | ticked hphase =>
    refine hidle _ rfl fun desired hstep _ => ?_
    simp only [Maintenance.step, hphase, Option.some.injEq] at hstep
    subst hstep
    by_cases hclosed : system.set.closed = true
    · exact .stopped (by simp [Maintenance.enter, hclosed])
    · exact .live (by simp [Maintenance.enter, hclosed]) (Bool.eq_false_iff.mpr hclosed)
  | stopped hphase =>
    refine hidle _ rfl fun desired hstep _ => ?_
    simp [Maintenance.step, hphase] at hstep
  | live hphase hopen =>
    refine hidle _ rfl fun desired hstep _ => ?_
    simp only [Maintenance.step, hphase] at hstep
    split at hstep
    · rename_i error hsnapshot
      cases hstep
      exact .kept rfl hopen hsnapshot
    · rename_i bindings hsnapshot
      split at hstep
      · cases hstep
        exact .called rfl hopen hsnapshot ‹_›
      · cases hstep
  | kept hphase hopen hsnapshot =>
    exact hidle _ rfl fun desired _ hbusy => absurd hphase hbusy
  | @called task bindings desired hphase hopen hsnapshot hdesired =>
    rcases h.inv with ⟨_, _, hstep⟩ | ⟨_, _, _, call', order, hoperations, halone, ht⟩
    · obtain ⟨_, _, heq, _⟩ := resumes hphase hstep
      cases heq
    · obtain ⟨rfl, heq⟩ := eq_of_snoc_eq hoperations
      cases heq
      rw [ht]
      exact .going hphase hopen hsnapshot hdesired (Reconcile.alone_started halone)
        (fun heq => Reconcile.step_ne_started (heq ▸ halone)) (.single halone)
  | @going task bindings desired order set call hphase hopen hsnapshot hdesired horder hcall hsteps =>
    rcases h.inv with ⟨_, _, hstep⟩ | ⟨_, _, _, call', order', hoperations, halone, ht⟩
    · obtain ⟨_, errors, heq, rfl⟩ := resumes hphase hstep
      cases heq
      obtain ⟨rfl, rfl⟩ := (reconcilesTo_reconcile horder).2 set errors hsteps
      exact .done rfl hopen hsnapshot hdesired horder
    · obtain ⟨rfl, heq⟩ := eq_of_snoc_eq hoperations
      cases heq
      rw [ht]
      exact .going hphase hopen hsnapshot hdesired horder
        (fun heq => Reconcile.step_ne_started (heq ▸ halone))
        (hsteps.tail (Reconcile.alone_order halone hcall))
  | done hphase hopen hsnapshot hdesired horder =>
    rcases h.inv with ⟨hbusy, _, _⟩ | ⟨_, _, _, _, _, hoperations, halone, _⟩
    · exact absurd hphase hbusy
    · obtain ⟨_, heq⟩ := eq_of_snoc_eq hoperations
      cases heq
      exact absurd halone (Reconcile.alone_returned _ _ _)

theorem during_turn (hquiet : s.1.Quiet) (h : round.Turn s t) : During round s.1 t := by
  have hsteps := h.2.2
  clear h
  induction hsteps with
  | refl => exact .ticked rfl
  | tail _ hlast ih => exact during_step hquiet hlast ih

/-- On the set a round does nothing but a `reconcile`. -/
theorem Goes.calls (h : round.Goes s t) :
    (t.1 = s.1 ∨ MdnsSystem.Step s.1 t.1) ∧ t.1.set.closed = s.1.set.closed := by
  cases h with
  | task hbusy hstep =>
    have hstepped := Maintenance.stepped hstep
    refine ⟨hstepped.calls, ?_⟩
    cases hstepped <;> rfl
  | @reconcile set set' operations desired call call' order task hstep =>
    have hoperation : (Operation.reconcile desired call).step set
        (call.outcome round.binds round.shuts) order = some (set', .reconcile desired call') :=
      Option.map_eq_some_iff.mpr ⟨(set', call'), hstep, rfl⟩
    refine ⟨Or.inr (.act rfl hoperation), ?_⟩
    rcases MdnsSystem.operation_step_closed hoperation with hclosed | heq
    · exact hclosed
    · cases heq

/-- A round is a part of a run of the system with all its tasks. -/
theorem Goes.steps (h : round.Goes s t) (before after : List (Maintenance E)) :
    ReflTransGen MaintainedSet.Step ⟨s.1, before ++ s.2 :: after⟩ ⟨t.1, before ++ t.2 :: after⟩ := by
  have hcalls := h.calls.1
  cases h with
  | task hbusy hstep => exact .single (.task rfl hstep)
  | reconcile hstep =>
    rcases hcalls with heq | hcall
    · dsimp only at heq ⊢
      rw [heq]
    · exact .single (.system hcall)

theorem Turn.steps (h : round.Turn s t) (before after : List (Maintenance E)) :
    ReflTransGen MaintainedSet.Step ⟨s.1, before ++ s.2 :: after⟩ ⟨t.1, before ++ t.2 :: after⟩ := by
  obtain ⟨hwaiting, hend, hsteps⟩ := h
  clear hend
  have htick : s.2.step s.1 round.snapshot [] = some (s.1, s.2.enter .ticked) := by
    simp [Maintenance.step, hwaiting]
  refine ReflTransGen.head (.task rfl htick) ?_
  induction hsteps with
  | refl => exact .refl
  | tail _ hlast ih => exact ih.trans (hlast.steps before after)

theorem Turn.closed (h : round.Turn s t) : t.1.set.closed = s.1.set.closed := by
  have hsteps := h.2.2
  clear h
  induction hsteps with
  | refl => rfl
  | tail _ hlast ih => exact hlast.calls.2.trans ih

/-- A round is completed only on a set that is not closed. -/
theorem Turn.opened (hquiet : s.1.Quiet) (h : round.Turn s t) : t.1.set.closed = false := by
  rw [h.closed]
  have hwaiting := h.2.1
  cases during_turn hquiet h with
  | kept _ hopen => exact hopen
  | done _ hopen => exact hopen
  | ticked hphase => cases hphase.symm.trans hwaiting
  | stopped hphase => cases hphase.symm.trans hwaiting
  | live hphase => cases hphase.symm.trans hwaiting
  | called hphase => cases hphase.symm.trans hwaiting
  | going hphase => cases hphase.symm.trans hwaiting

theorem Turn.run {serviceName : Name} {n : ℕ}
    (hrun : Run MdnsSystem.Step n (.initial serviceName) s.1) (h : round.Turn s t) :
    ∃ m, Run MdnsSystem.Step m (.initial serviceName) t.1 := by
  have hsteps := h.2.2
  clear h
  induction hsteps with
  | refl => exact ⟨n, hrun⟩
  | tail _ hlast ih =>
    obtain ⟨m, hrun'⟩ := ih
    rcases hlast.calls.1 with heq | hcall
    · rw [heq]
      exact ⟨m, hrun'⟩
    · exact ⟨m + 1, hrun'.tail hcall⟩

/-- What a round makes of the set. -/
structure Result (round : Round E) (serviceName : Name) (set set' : MdnsResolverSet) : Prop where
  bound : ∀ binding, binding ∈ set'.resolvers ↔
    round.Wants binding ∧ (binding ∈ set.resolvers ∨ round.Binds serviceName binding)
  kept : ∀ binding resolver, set.resolvers.lookup binding = some resolver →
    round.Wants binding → set'.resolvers.lookup binding = some resolver

theorem result_kept {error : E} (hsnapshot : round.snapshot = .error error) (serviceName : Name)
    (set : MdnsResolverSet) : round.Result serviceName set set := by
  have hnone : ∀ bindings, round.snapshot ≠ .ok bindings := by
    intro bindings heq
    cases hsnapshot.symm.trans heq
  refine ⟨?_, fun _ _ hlookup _ => hlookup⟩
  intro binding
  constructor
  · intro hmem
    exact ⟨fun bindings heq => absurd heq (hnone bindings), Or.inl hmem⟩
  · rintro ⟨_, hmem | ⟨⟨bindings, heq, _⟩, _⟩⟩
    · exact hmem
    · exact absurd heq (hnone bindings)

theorem result_done {bindings desired : List MdnsBinding} {order : List MdnsInstance}
    (hinvariant : system.Invariant) (hquiet : system.Quiet)
    (hopen : system.set.closed = false) (hsnapshot : round.snapshot = .ok bindings)
    (hdesired : desired.Perm bindings.dedup) (horder : order.Perm system.set.values) :
    round.Result system.set.serviceName system.set
      (system.set.reconcile desired round.binds round.shuts order).1 := by
  have hempty : system.set.closed = true → system.set.resolvers = ∅ := by
    intro hclosed
    rw [hopen] at hclosed
    cases hclosed
  have hreconciled := @MdnsSystem.Invariant.reconciled system bindings desired round.binds
    round.shuts order hinvariant hquiet hempty hdesired horder
  have hwants : ∀ binding, round.Wants binding ↔ binding ∈ bindings := by
    intro binding
    constructor
    · intro h
      exact h bindings hsnapshot
    · intro hmem other hother
      cases hsnapshot.symm.trans hother
      exact hmem
  refine ⟨?_, ?_⟩
  · intro binding
    rw [hreconciled.bound, hwants]
    refine and_congr_right fun hmem => or_congr_right ?_
    constructor
    · rintro ⟨_, hvalid, hok⟩
      exact ⟨⟨bindings, hsnapshot, hmem⟩, hvalid, hok⟩
    · rintro ⟨_, hvalid, hok⟩
      exact ⟨hopen, hvalid, hok⟩
  · intro binding resolver hlookup hwanted
    exact hreconciled.kept binding ((hwants binding).mp hwanted) resolver hlookup

/-- The set after a round, which finds no other call and leaves none. -/
theorem turn_spec (hinvariant : s.1.Invariant) (hquiet : s.1.Quiet) (h : round.Turn s t) :
    t.1.Quiet ∧ round.Result s.1.set.serviceName s.1.set t.1.set := by
  have hwaiting := h.2.1
  cases during_turn hquiet h with
  | ticked hphase => cases hphase.symm.trans hwaiting
  | stopped hphase => cases hphase.symm.trans hwaiting
  | live hphase hopen => cases hphase.symm.trans hwaiting
  | kept hphase hopen hsnapshot => exact ⟨hquiet, result_kept hsnapshot _ _⟩
  | called hphase => cases hphase.symm.trans hwaiting
  | going hphase => cases hphase.symm.trans hwaiting
  | done hphase hopen hsnapshot hdesired horder =>
    refine ⟨?_, result_done hinvariant hquiet hopen hsnapshot hdesired horder⟩
    intro operation hoperation
    rcases List.mem_append.mp hoperation with hoperation | hoperation
    · exact hquiet operation hoperation
    · rw [List.mem_singleton.mp hoperation]
      exact ⟨_, rfl⟩

/-- On a set that is not closed a task that waits can take every round. -/
theorem exists_turn (round : Round E) (hopen : s.1.set.closed = false)
    (hwaiting : s.2.phase = .waiting) : ∃ t, round.Turn s t := by
  obtain ⟨system, task⟩ := s
  have hticked : round.Goes (system, task.enter .ticked) (system, task.enter .live) := by
    refine @Goes.task E round _ _ _ _ [] (by simp [Maintenance.enter]) ?_
    simp [Maintenance.step, Maintenance.enter, show system.set.closed = false from hopen]
  cases hsnapshot : round.snapshot with
  | error error =>
    have hlive : round.Goes (system, task.enter .live) (system, task.took.enter .waiting) := by
      refine @Goes.task E round _ _ _ _ [] (by simp [Maintenance.enter]) ?_
      simp [Maintenance.step, Maintenance.enter, Maintenance.took, hsnapshot]
    exact ⟨_, hwaiting, rfl, (ReflTransGen.single hticked).tail hlive⟩
  | ok bindings =>
    let waits := task.took.enter (.reconciling system.operations.length)
    let after := system.set.reconcile bindings.dedup round.binds round.shuts system.set.values
    have hlive : round.Goes (system, task.enter .live) (system.calling bindings.dedup, waits) := by
      refine @Goes.task E round _ _ _ _ bindings.dedup (by simp [Maintenance.enter]) ?_
      simp [Maintenance.step, Maintenance.enter, Maintenance.took, hsnapshot, waits]
    have hreconcile : ReflTransGen round.Goes (system.calling bindings.dedup, waits)
        (⟨after.1, system.operations ++ [.reconcile bindings.dedup (.returned after.2)]⟩, waits) :=
      (alone_reconcile (List.Perm.refl _)).lift
        (fun state : MdnsResolverSet × Reconcile =>
          ((⟨state.1, system.operations ++ [.reconcile bindings.dedup state.2]⟩, waits) :
            MdnsSystem × Maintenance E)) fun _ _ hstep => .reconcile hstep
    have hlast : round.Goes
        (⟨after.1, system.operations ++ [.reconcile bindings.dedup (.returned after.2)]⟩, waits)
        (⟨after.1, system.operations ++ [.reconcile bindings.dedup (.returned after.2)]⟩,
          waits.enter .waiting) := by
      refine @Goes.task E round _ _ _ _ [] (by simp [waits, Maintenance.enter]) ?_
      exact Maintenance.step_of_returned rfl List.getElem?_concat_length
    exact ⟨_, hwaiting, rfl,
      (((ReflTransGen.single hticked).tail hlive).trans hreconcile).tail hlast⟩

end Round

theorem Moved.serviceName {set set' : MdnsResolverSet} {held held' : List MdnsInstance}
    (h : Moved set held set' held') : set'.serviceName = set.serviceName := by
  cases h <;> rfl

namespace MdnsSystem

theorem serviceName_step {s t : MdnsSystem} (h : Step s t) (hs : s.Invariant) :
    t.set.serviceName = s.set.serviceName := by
  cases h with
  | call hstarts => rfl
  | @act before after operation operation' set ok order hoperation hstep =>
    exact (Operation.moved hstep (hs.wellBound operation (acting_mem hoperation))).1.serviceName

theorem serviceName_run {serviceName : Name} {s : MdnsSystem} {n : ℕ}
    (h : Run Step n (initial serviceName) s) : s.set.serviceName = serviceName := by
  induction n generalizing s with
  | zero =>
    cases h
    rfl
  | succ n ih =>
    cases h with
    | tail hrun hlast => exact (serviceName_step hlast (invariant_run hrun)).trans (ih hrun)

end MdnsSystem

namespace Turns

variable {serviceName : Name} {rounds : List (Round E)} {s t : MdnsSystem × Maintenance E}

/-- What the rounds so far have made of the set. -/
structure Tracks (serviceName : Name) (rounds : List (Round E))
    (s t : MdnsSystem × Maintenance E) : Prop where
  run : ∃ m, Run MdnsSystem.Step m (.initial serviceName) t.1
  quiet : t.1.Quiet
  bound : ∀ binding, binding ∈ t.1.set.resolvers ↔
    History.Latched (binding ∈ s.1.set.resolvers) (fun round : Round E => round.Wants binding)
      (fun round => round.Binds serviceName binding) rounds
  kept : ∀ binding resolver, s.1.set.resolvers.lookup binding = some resolver →
    (∀ round ∈ rounds, round.Wants binding) →
      t.1.set.resolvers.lookup binding = some resolver

theorem tracks {n : ℕ} (hrun : Run MdnsSystem.Step n (.initial serviceName) s.1)
    (hquiet : s.1.Quiet) (h : Turns rounds s t) : Tracks serviceName rounds s t := by
  induction h with
  | nil s =>
    exact ⟨⟨n, hrun⟩, hquiet, fun binding => History.latched_nil.symm, fun _ _ hlookup _ => hlookup⟩
  | @snoc rounds round s t u hturns hturn ih =>
    obtain ⟨⟨m, hrun'⟩, hquiet', hbound, hkept⟩ := ih hrun hquiet
    obtain ⟨hend, hresult⟩ := Round.turn_spec (MdnsSystem.invariant_run hrun') hquiet' hturn
    rw [MdnsSystem.serviceName_run hrun'] at hresult
    refine ⟨hturn.run hrun', hend, ?_, ?_⟩
    · intro binding
      rw [hresult.bound, hbound, History.latched_snoc fun _ => Round.Binds.wants]
    · intro binding resolver hlookup hwants
      refine hresult.kept binding resolver (hkept binding resolver hlookup ?_) (hwants round (by simp))
      intro earlier hearlier
      exact hwants earlier (List.mem_append_left _ hearlier)

/-- After a completed round the task waits for the next one. -/
theorem ready {n : ℕ} (hrun : Run MdnsSystem.Step n (.initial serviceName) s.1)
    (hquiet : s.1.Quiet) (h : Turns rounds s t) (hne : rounds ≠ []) :
    t.2.phase = .waiting ∧ t.1.set.closed = false := by
  cases h with
  | nil => exact absurd rfl hne
  | snoc hturns hturn => exact ⟨hturn.2.1, hturn.opened (tracks hrun hquiet hturns).quiet⟩

theorem steps (h : Turns rounds s t) (before after : List (Maintenance E)) :
    ReflTransGen MaintainedSet.Step ⟨s.1, before ++ s.2 :: after⟩ ⟨t.1, before ++ t.2 :: after⟩ := by
  induction h with
  | nil s => exact .refl
  | snoc _ hturn ih => exact ih.trans (hturn.steps before after)

/-- The rounds of a task, while nobody else calls, are steps of the system. After them a binding
is in the set exactly when it could be bound in one of them, or was there before, and every later
snapshot that was had has it; its instance is the one from then. What is not in the set is shut
down, and after a completed round, or when it waits on a set that is not closed, the task can
complete any other. -/
theorem maintenance_tracks_snapshots (serviceName : Name) {n : ℕ} {system system' : MdnsSystem}
    {task task' : Maintenance E} {before after : List (Maintenance E)}
    (h : Run MaintainedSet.Step n (.initial serviceName) ⟨system, before ++ task :: after⟩)
    (hquiet : system.Quiet) (hturns : Turns rounds (system, task) (system', task')) :
    ReflTransGen MaintainedSet.Step ⟨system, before ++ task :: after⟩
      ⟨system', before ++ task' :: after⟩ ∧
    (∀ binding, binding ∈ system'.set.resolvers ↔
      (binding ∈ system.set.resolvers ∧ ∀ round ∈ rounds, round.Wants binding) ∨
        ∃ earlier round later, rounds = earlier ++ round :: later ∧
          round.Binds serviceName binding ∧ ∀ round ∈ later, round.Wants binding) ∧
    (∀ binding resolver, system.set.resolvers.lookup binding = some resolver →
      (∀ round ∈ rounds, round.Wants binding) →
        system'.set.resolvers.lookup binding = some resolver) ∧
    (∀ resolver ∈ system'.set.bound,
      resolver ∈ system'.set.down ↔ resolver ∉ system'.set.values) ∧
    (rounds ≠ [] ∨ task'.phase = .waiting ∧ system'.set.closed = false →
      ∀ round : Round E, ∃ next, round.Turn (system', task') next) := by
  obtain ⟨m, hrun⟩ := MaintainedSet.exists_run h
  obtain ⟨⟨k, hrun'⟩, hquiet', hbound, hkept⟩ := hturns.tracks hrun hquiet
  refine ⟨hturns.steps before after, hbound, hkept, ?_, ?_⟩
  · intro resolver hresolver
    have hlive := (MdnsSystem.invariant_run hrun').custody.quiet hquiet' resolver
    tauto
  · intro hgoes round
    have hready : task'.phase = .waiting ∧ system'.set.closed = false := by
      rcases hgoes with hne | hready
      · exact hturns.ready hrun hquiet hne
      · exact hready
    exact Round.exists_turn round hready.2 hready.1

section Sample

/-- `maintain` has found nothing to bind, and its task waits for the first tick. -/
def waitingTask : Maintenance Unit := ⟨1, .waiting, 1⟩

def waitingSystem : MdnsSystem :=
  ⟨.new MdnsSystem.sampleService, [.reconcile [] (.returned [])]⟩

/-- The sample binding comes up, and everything succeeds. -/
def sampleRound : Round Unit := ⟨.ok [MdnsSystem.sampleBinding], fun _ => true, fun _ => true⟩

theorem waitingSystem_run :
    Run MaintainedSet.Step 6 (.initial MdnsSystem.sampleService)
      ⟨waitingSystem, [] ++ waitingTask :: []⟩ := by
  let set := MdnsResolverSet.new MdnsSystem.sampleService
  let awaiting : Maintenance Unit := ⟨1, .beginning 0, 1⟩
  have hmaintain : MaintainedSet.Step (E := Unit) (.initial MdnsSystem.sampleService)
      ⟨⟨set, []⟩, [⟨1, .started, 0⟩]⟩ := .maintain 1
  have hbegin : MaintainedSet.Step (E := Unit) ⟨⟨set, []⟩, [⟨1, .started, 0⟩]⟩
      ⟨⟨set, [.reconcile [] .started]⟩, [awaiting]⟩ := by
    have hstep : Maintenance.step (E := Unit) ⟨set, []⟩ (.ok []) [] ⟨1, .started, 0⟩ =
        some (⟨set, [.reconcile [] .started]⟩, awaiting) := by
      simp [Maintenance.step, Maintenance.took, Maintenance.enter, MdnsSystem.calling, awaiting]
    exact @MaintainedSet.Step.task Unit _ [] [] _ _ _ _ _ rfl hstep
  have hsnapshot : MaintainedSet.Step ⟨⟨set, [.reconcile [] .started]⟩, [awaiting]⟩
      ⟨⟨set, [.reconcile [] (.removing [] [])]⟩, [awaiting]⟩ :=
    .system (@MdnsSystem.Step.act _ [] [] _ _ _ true [] rfl rfl)
  have hremove : MaintainedSet.Step ⟨⟨set, [.reconcile [] (.removing [] [])]⟩, [awaiting]⟩
      ⟨⟨set, [.reconcile [] (.upserting [] [])]⟩, [awaiting]⟩ :=
    .system (@MdnsSystem.Step.act _ [] [] _ _ _ true [] rfl rfl)
  have hupsert : MaintainedSet.Step ⟨⟨set, [.reconcile [] (.upserting [] [])]⟩, [awaiting]⟩
      ⟨waitingSystem, [awaiting]⟩ :=
    .system (@MdnsSystem.Step.act _ [] [] _ _ _ true [] rfl rfl)
  have hresume : MaintainedSet.Step ⟨waitingSystem, [awaiting]⟩
      ⟨waitingSystem, [] ++ waitingTask :: []⟩ :=
    @MaintainedSet.Step.task Unit _ [] [] _ _ _ (.ok []) [] rfl rfl
  exact ((((((Run.refl _).tail hmaintain).tail hbegin).tail hsnapshot).tail hremove).tail
    hupsert).tail hresume

theorem waitingSystem_quiet : waitingSystem.Quiet := by
  intro operation hoperation
  rw [List.mem_singleton.mp hoperation]
  exact ⟨_, rfl⟩

theorem maintenance_tracks_snapshots_sampleRound :
    Run MaintainedSet.Step 6 (.initial MdnsSystem.sampleService)
        ⟨waitingSystem, [] ++ waitingTask :: []⟩ ∧
      waitingSystem.Quiet ∧
      ∃ (system : MdnsSystem) (task : Maintenance Unit),
        Turns [sampleRound] (waitingSystem, waitingTask) (system, task) ∧
          MdnsSystem.sampleBinding ∈ system.set.resolvers := by
  obtain ⟨⟨system, task⟩, hturn⟩ :=
    @Round.exists_turn Unit (waitingSystem, waitingTask) sampleRound rfl rfl
  have hturns : Turns [sampleRound] (waitingSystem, waitingTask) (system, task) :=
    .snoc (.nil _) hturn
  obtain ⟨_, hbound, _⟩ := maintenance_tracks_snapshots MdnsSystem.sampleService waitingSystem_run
    waitingSystem_quiet hturns
  have hbinds : sampleRound.Binds MdnsSystem.sampleService MdnsSystem.sampleBinding :=
    ⟨⟨_, rfl, List.mem_cons_self⟩, by decide, rfl⟩
  exact ⟨waitingSystem_run, waitingSystem_quiet, system, task, hturns,
    (hbound _).mpr (Or.inr ⟨[], sampleRound, [], rfl, hbinds, by simp⟩)⟩

end Sample

end Turns

end Ddns
