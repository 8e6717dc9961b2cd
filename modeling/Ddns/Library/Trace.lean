import Mathlib.Data.List.Induction

/-! Runs of a system whose steps are named by events, and what their whole past says about them. -/
namespace Trace

variable {σ ε : Type} {step : σ → ε → Option σ} {start s t : σ} {events : List ε} {event : ε}

/-- All events in a row, if each is possible where it stands. -/
def run (step : σ → ε → Option σ) : σ → List ε → Option σ
  | s, [] => some s
  | s, event :: events => (step s event).bind fun t => run step t events

theorem run_append (events events' : List ε) :
    run step start (events ++ events') = (run step start events).bind fun s => run step s events' := by
  induction events generalizing start with
  | nil => rfl
  | cons event events ih =>
    rw [List.cons_append, run, run]
    cases step start event with
    | none => rfl
    | some t => exact ih

theorem run_snoc :
    run step start (events ++ [event]) = (run step start events).bind fun s => step s event := by
  rw [run_append]
  cases run step start events with
  | none => rfl
  | some s =>
    show (step s event).bind (fun t => some t) = step s event
    exact Option.bind_fun_some _

/-- A run up to its last event. -/
theorem run_snoc_eq_some (h : run step start (events ++ [event]) = some t) :
    ∃ s, run step start events = some s ∧ step s event = some t := by
  rw [run_snoc] at h
  exact Option.bind_eq_some_iff.mp h

/-- What holds at the beginning, and after one more event whenever it held before, holds of every
run. -/
theorem run_induction {P : List ε → σ → Prop} (hstart : P [] start)
    (hstep : ∀ events s event t, run step start events = some s → step s event = some t →
      P events s → P (events ++ [event]) t) (h : run step start events = some s) : P events s := by
  induction events using List.reverseRecOn generalizing s with
  | nil =>
    obtain rfl := Option.some.inj h
    exact hstart
  | append_singleton events event ih =>
    obtain ⟨before, hbefore, hlast⟩ := run_snoc_eq_some h
    exact hstep events before event s hbefore hlast (ih hbefore)

/-- An event of the run happened in a state of the run, and what follows it satisfies `Q`. -/
def Since (step : σ → ε → Option σ) (start : σ) (events : List ε) (P : σ → ε → Prop)
    (Q : List ε → Prop) : Prop :=
  ∃ before event after s, events = before ++ event :: after ∧ run step start before = some s ∧
    P s event ∧ Q after

/-- The event that has just happened. -/
theorem since_last {P : σ → ε → Prop} {Q : List ε → Prop} (hrun : run step start events = some s)
    (hP : P s event) (hQ : Q []) : Since step start (events ++ [event]) P Q :=
  ⟨events, event, [], s, rfl, hrun, hP, hQ⟩

/-- What happened stays in the past. -/
theorem Since.snoc {P : σ → ε → Prop} {Q : List ε → Prop} (h : Since step start events P Q)
    (hQ : ∀ after, Q after → Q (after ++ [event])) : Since step start (events ++ [event]) P Q := by
  obtain ⟨before, first, after, s, rfl, hrun, hP, hafter⟩ := h
  refine ⟨before, first, after ++ [event], s, ?_, hrun, hP, hQ after hafter⟩
  rw [List.append_assoc, List.cons_append]

/-- The events of a run, each with the state in which it happened. -/
def trail (step : σ → ε → Option σ) : σ → List ε → List (σ × ε)
  | _, [] => []
  | s, event :: events => (s, event) :: ((step s event).elim [] fun t => trail step t events)

theorem trail_snoc (h : run step start events = some s) (event : ε) :
    trail step start (events ++ [event]) = trail step start events ++ [(s, event)] := by
  induction events generalizing start with
  | nil =>
    obtain rfl := Option.some.inj h
    rw [List.nil_append, trail, trail]
    cases step start event <;> rfl
  | cons first events ih =>
    rw [run] at h
    obtain ⟨t, hstep, hrest⟩ := Option.bind_eq_some_iff.mp h
    rw [List.cons_append, trail, trail, hstep, Option.elim_some, Option.elim_some, ih hrest,
      List.cons_append]

/-- A quantity that every step changes by an effect on it is what the effects of the run make of
it. -/
theorem eq_foldl_trail {α : Type} {value : σ → α} {effect : α → σ × ε → α}
    (hstep : ∀ s event t, step s event = some t → value t = effect (value s) (s, event))
    (h : run step start events = some s) :
    value s = (trail step start events).foldl effect (value start) := by
  refine run_induction (P := fun events s =>
    value s = (trail step start events).foldl effect (value start)) rfl ?_ h
  intro events s event t hrun hlast ih
  rw [trail_snoc hrun, List.foldl_append, ← ih]
  exact hstep s event t hlast

end Trace
