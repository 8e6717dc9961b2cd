import Mathlib.Data.List.Perm.Basic
import Mathlib.Data.Nat.Notation

/-! Collections of futures and of streams that are awaited together, in whatever order their
events come. -/
namespace Futures

variable {α : Type}

/-- Waiting for one of several futures takes away any one of them with its result, and gives
nothing when there is none. -/
inductive UnorderedNext : List α → Option α → List α → Prop
  | empty : UnorderedNext [] none []
  | taken (before : List α) (x : α) (after : List α) :
    UnorderedNext (before ++ x :: after) (some x) (before ++ after)

/-- A loop that awaits one future after another until there is none, and takes in each result. -/
inductive Drains {σ : Type} (take : σ → α → σ) : List α → σ → σ → Prop
  | done {futures futures' : List α} {s : σ} (next : UnorderedNext futures none futures') :
    Drains take futures s s
  | step {futures futures' : List α} {x : α} {s t : σ}
    (next : UnorderedNext futures (some x) futures') (rest : Drains take futures' (take s x) t) :
    Drains take futures s t

/-- Polling several streams forgets any of those that have ended. -/
inductive Dropped : List (List α) → List (List α) → Prop
  | refl (streams : List (List α)) : Dropped streams streams
  | ended (before after : List (List α)) {streams : List (List α)}
    (rest : Dropped (before ++ after) streams) : Dropped (before ++ [] :: after) streams

/-- Waiting for an item of several streams takes away the first one of any of them, and gives
nothing when all have ended. -/
inductive SelectNext : List (List α) → Option α → List (List α) → Prop
  | exhausted {streams : List (List α)} (dropped : Dropped streams []) : SelectNext streams none []
  | item {streams : List (List α)} (before : List (List α)) (x : α) (rest : List α)
    (after : List (List α)) (dropped : Dropped streams (before ++ (x :: rest) :: after)) :
    SelectNext streams (some x) (before ++ rest :: after)

/-- How many events the streams have before them, their ends included. -/
def weight : List (List α) → ℕ
  | [] => 0
  | stream :: streams => stream.length + 1 + weight streams

theorem weight_append (streams streams' : List (List α)) :
    weight (streams ++ streams') = weight streams + weight streams' := by
  induction streams with
  | nil => exact (Nat.zero_add _).symm
  | cons stream streams ih =>
    rw [List.cons_append, weight, weight, ih]
    omega

section Unordered

variable {futures futures' : List α} {x : α}

theorem unorderedNext_some (h : UnorderedNext futures (some x) futures') :
    ∃ before after, futures = before ++ x :: after ∧ futures' = before ++ after := by
  cases h with
  | taken before _ after => exact ⟨before, after, rfl, rfl⟩

theorem UnorderedNext.perm (h : UnorderedNext futures (some x) futures') :
    futures.Perm (x :: futures') := by
  obtain ⟨before, after, rfl, rfl⟩ := unorderedNext_some h
  exact List.perm_middle

theorem unorderedNext_none (h : UnorderedNext futures none futures') :
    futures = [] ∧ futures' = [] := by
  cases h with
  | empty => exact ⟨rfl, rfl⟩

/-- Any of the futures may be the next one. -/
theorem exists_unorderedNext (hne : futures ≠ []) :
    ∃ x futures', UnorderedNext futures (some x) futures' := by
  obtain ⟨x, rest, rfl⟩ := List.exists_cons_of_ne_nil hne
  exact ⟨x, rest, .taken [] x rest⟩

/-- The loop takes in the results in one order, and may do so in any. -/
theorem drains_iff {σ : Type} {take : σ → α → σ} {s t : σ} :
    Drains take futures s t ↔ ∃ order : List α, order.Perm futures ∧ t = order.foldl take s := by
  constructor
  · intro h
    induction h with
    | done hnext =>
      obtain ⟨rfl, _⟩ := unorderedNext_none hnext
      exact ⟨[], List.Perm.refl [], rfl⟩
    | @step futures futures' x s t hnext _ ih =>
      obtain ⟨order, hperm, rfl⟩ := ih
      exact ⟨x :: order, (hperm.cons x).trans hnext.perm.symm, rfl⟩
  · rintro ⟨order, hperm, rfl⟩
    induction order generalizing futures s with
    | nil =>
      obtain rfl := hperm.nil_eq
      exact .done .empty
    | cons x order ih =>
      obtain ⟨before, after, rfl⟩ := List.append_of_mem (hperm.subset List.mem_cons_self)
      have hrest : order.Perm (before ++ after) := (hperm.trans List.perm_middle).cons_inv
      exact .step (.taken before x after) (ih hrest)

end Unordered

section Select

variable {streams streams' : List (List α)} {x : α}

/-- Forgetting ended streams loses no item. -/
theorem Dropped.flatten_eq (h : Dropped streams streams') :
    streams.flatten = streams'.flatten := by
  induction h with
  | refl => rfl
  | ended before after _ ih =>
    rw [← ih]
    simp only [List.flatten_append, List.flatten_cons, List.nil_append]

theorem Dropped.weight_le (h : Dropped streams streams') : weight streams' ≤ weight streams := by
  induction h with
  | refl => exact Nat.le_refl _
  | ended before after _ ih =>
    rw [weight_append] at ih
    rw [weight_append, weight]
    omega

theorem SelectNext.perm (h : SelectNext streams (some x) streams') :
    streams.flatten.Perm (x :: streams'.flatten) := by
  cases h with
  | item before _ rest after hdropped =>
    rw [hdropped.flatten_eq]
    simp only [List.flatten_append, List.flatten_cons, List.cons_append]
    exact List.perm_middle

theorem SelectNext.weight_lt (h : SelectNext streams (some x) streams') :
    weight streams' < weight streams := by
  cases h with
  | item before _ rest after hdropped =>
    have hle := hdropped.weight_le
    rw [weight_append, weight, List.length_cons] at hle
    rw [weight_append, weight]
    omega

theorem selectNext_none (h : SelectNext streams none streams') :
    streams.flatten = [] ∧ streams' = [] := by
  cases h with
  | exhausted hdropped => exact ⟨hdropped.flatten_eq, rfl⟩

theorem weight_pos (hne : streams ≠ []) : 0 < weight streams := by
  obtain ⟨stream, rest, rfl⟩ := List.exists_cons_of_ne_nil hne
  rw [weight]
  omega

/-- Streams always have a next event. -/
theorem exists_selectNext (streams : List (List α)) :
    ∃ x streams', SelectNext streams x streams' := by
  induction streams with
  | nil => exact ⟨none, [], .exhausted (.refl [])⟩
  | cons stream streams ih =>
    cases stream with
    | cons x rest => exact ⟨some x, rest :: streams, .item [] x rest streams (.refl _)⟩
    | nil =>
      obtain ⟨x, streams', h⟩ := ih
      refine ⟨x, streams', ?_⟩
      cases h with
      | exhausted hdropped => exact .exhausted (.ended [] streams hdropped)
      | item before x rest after hdropped =>
        exact .item before x rest after (.ended [] streams hdropped)

end Select

end Futures
