import Ddns.Library.Futures

/-! Lists whose items come in turns from several streams. -/
namespace Interleaving

open Futures

variable {α : Type} {streams streams' : List (List α)} {items stream : List α}

/-- The items of the streams, each taken from the front of one of them. -/
inductive Interleaves : List (List α) → List α → Prop
  | nil {streams : List (List α)} (h : ∀ stream ∈ streams, stream = []) : Interleaves streams []
  | cons {items : List α} (before : List (List α)) (x : α) (rest : List α) (after : List (List α))
    (h : Interleaves (before ++ rest :: after) items) :
    Interleaves (before ++ (x :: rest) :: after) (x :: items)

/-- Nothing is lost and nothing is repeated. -/
theorem Interleaves.perm (h : Interleaves streams items) : items.Perm streams.flatten := by
  induction h with
  | nil h => rw [List.flatten_eq_nil_iff.mpr h]
  | cons before x rest after _ ih =>
    refine (ih.cons x).trans ?_
    simp only [List.flatten_append, List.flatten_cons, List.cons_append]
    exact List.perm_middle.symm

/-- The items of one stream stay in order. -/
theorem Interleaves.sublist (h : Interleaves streams items) (hmem : stream ∈ streams) :
    stream.Sublist items := by
  induction h generalizing stream with
  | nil h => rw [h stream hmem]
  | cons before x rest after _ ih =>
    rcases List.mem_append.mp hmem with hmem | hmem
    · exact (ih (List.mem_append_left _ hmem)).cons x
    · rcases List.mem_cons.mp hmem with rfl | hmem
      · exact (ih (List.mem_append_right _ List.mem_cons_self)).cons_cons x
      · exact (ih (List.mem_append_right _ (List.mem_cons_of_mem _ hmem))).cons x

/-- An empty stream anywhere makes no difference. -/
theorem Interleaves.insert_nil {before after : List (List α)}
    (h : Interleaves (before ++ after) items) : Interleaves (before ++ [] :: after) items := by
  generalize hstreams : before ++ after = streams at h
  induction h generalizing before after with
  | nil h =>
    refine .nil ?_
    subst hstreams
    intro stream hstream
    rcases List.mem_append.mp hstream with hstream | hstream
    · exact h stream (List.mem_append_left _ hstream)
    · rcases List.mem_cons.mp hstream with rfl | hstream
      · rfl
      · exact h stream (List.mem_append_right _ hstream)
  | cons before' x rest after' _ ih =>
    -- the stream that is read stands before or behind the place of the empty one
    rcases List.append_eq_append_iff.mp hstreams with ⟨middle, rfl, rfl⟩ | ⟨middle, rfl, htail⟩
    · have hrest := @ih before (middle ++ rest :: after') (List.append_assoc ..).symm
      have hcons := Interleaves.cons (before ++ [] :: middle) x rest after' (by simpa using hrest)
      simpa using hcons
    · cases middle with
      | nil =>
        obtain rfl : after = (x :: rest) :: after' := htail.symm
        have hrest := @ih before' (rest :: after') rfl
        have hcons := Interleaves.cons (before' ++ [[]]) x rest after' (by simpa using hrest)
        simpa using hcons
      | cons first middle =>
        obtain ⟨rfl, rfl⟩ := List.cons.inj htail
        have hrest := @ih (before' ++ rest :: middle) after (by simp)
        have hcons := Interleaves.cons before' x rest (middle ++ [] :: after) (by simpa using hrest)
        simpa using hcons

/-- Nor do streams that a poll has dropped. -/
theorem Interleaves.of_dropped {first last : List (List α)} (hdropped : Dropped streams streams')
    (h : Interleaves (first ++ (streams' ++ last)) items) :
    Interleaves (first ++ (streams ++ last)) items := by
  induction hdropped with
  | refl => exact h
  | ended before after _ ih =>
    have hinsert := @Interleaves.insert_nil _ _ (first ++ before) (after ++ last)
      (by simpa using ih h)
    simpa using hinsert

end Interleaving
