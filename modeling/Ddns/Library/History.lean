import Mathlib.Data.List.Induction

/-! Histories of operations on a map: the last one that affects a key decides its value. -/
namespace History

variable {α ω κ ν : Type}

/-- How a list with one more element at its end is taken apart. -/
theorem snoc_eq_append_cons {l before after : List α} {last x : α} :
    l ++ [last] = before ++ x :: after ↔
      (after = [] ∧ before = l ∧ x = last) ∨
        ∃ init, after = init ++ [last] ∧ l = before ++ x :: init := by
  rcases List.eq_nil_or_concat after with rfl | ⟨init, final, rfl⟩
  · constructor
    · intro h
      obtain ⟨rfl, hlast⟩ := List.append_inj' h rfl
      exact Or.inl ⟨rfl, rfl, (List.cons.inj hlast).1.symm⟩
    · rintro (⟨_, rfl, rfl⟩ | ⟨init, hnil, _⟩)
      · rfl
      · simp at hnil
  · rw [List.concat_eq_append]
    constructor
    · intro h
      rw [← List.cons_append, ← List.append_assoc] at h
      obtain ⟨rfl, hlast⟩ := List.append_inj' h rfl
      exact Or.inr ⟨init, by rw [(List.cons.inj hlast).1], rfl⟩
    · rintro (⟨hnil, _⟩ | ⟨init', hinit, rfl⟩)
      · simp at hnil
      · rw [hinit, List.append_assoc]
        rfl

/-- What is left behind under a key. An operation leaves the key alone (`none`), empties it
(`some none`) or gives it a value. -/
def final (effect : ω → κ → Option (Option ν)) (history : List ω) (key : κ) : Option ν :=
  history.foldl (fun value op => (effect op key).getD value) none

variable {effect : ω → κ → Option (Option ν)} {history : List ω} {key : κ}

theorem final_snoc (op : ω) :
    final effect (history ++ [op]) key = (effect op key).getD (final effect history key) :=
  List.foldl_append

/-- A value is there exactly when the last operation that affects the key gave it. -/
theorem final_eq_some_iff {value : ν} :
    final effect history key = some value ↔
      ∃ before op after, history = before ++ op :: after ∧ effect op key = some (some value) ∧
        ∀ later ∈ after, effect later key = none := by
  induction history using List.reverseRecOn with
  | nil => simp [final]
  | append_singleton history last ih =>
    rw [final_snoc]
    constructor
    · intro h
      cases heffect : effect last key with
      | some outcome =>
        rw [heffect, Option.getD_some] at h
        exact ⟨history, last, [], rfl, by rw [heffect, h], by simp⟩
      | none =>
        rw [heffect, Option.getD_none] at h
        obtain ⟨before, op, after, rfl, hop, hlater⟩ := ih.mp h
        refine ⟨before, op, after ++ [last], by simp, hop, ?_⟩
        intro later hmem
        rcases List.mem_append.mp hmem with hmem | hmem
        · exact hlater later hmem
        · rw [List.mem_singleton.mp hmem, heffect]
    · rintro ⟨before, op, after, hsplit, hop, hlater⟩
      rcases snoc_eq_append_cons.mp hsplit with ⟨rfl, rfl, rfl⟩ | ⟨init, rfl, rfl⟩
      · rw [hop, Option.getD_some]
      · rw [hlater last (by simp), Option.getD_none]
        refine ih.mpr ⟨before, op, init, rfl, hop, ?_⟩
        intro later hmem
        exact hlater later (List.mem_append_left _ hmem)

section Latch

variable {start : Prop} {keeps sets : ω → Prop}

/-- A latch was set by an operation, or at the beginning, and every later one has kept it. -/
def Latched (start : Prop) (keeps sets : ω → Prop) (history : List ω) : Prop :=
  (start ∧ ∀ op ∈ history, keeps op) ∨
    ∃ before op after, history = before ++ op :: after ∧ sets op ∧ ∀ later ∈ after, keeps later

theorem latched_nil : Latched start keeps sets [] ↔ start := by
  simp [Latched]

/-- One more operation keeps the latch or sets it. -/
theorem latched_snoc (hsets : ∀ op, sets op → keeps op) (last : ω) :
    Latched start keeps sets (history ++ [last]) ↔
      keeps last ∧ (Latched start keeps sets history ∨ sets last) := by
  constructor
  · rintro (⟨hstart, hkeeps⟩ | ⟨before, op, after, hsplit, hop, hlater⟩)
    · refine ⟨hkeeps last (by simp), Or.inl (Or.inl ⟨hstart, ?_⟩)⟩
      intro op hop
      exact hkeeps op (List.mem_append_left _ hop)
    · rcases snoc_eq_append_cons.mp hsplit with ⟨rfl, rfl, rfl⟩ | ⟨init, rfl, rfl⟩
      · exact ⟨hsets op hop, Or.inr hop⟩
      · refine ⟨hlater last (by simp), Or.inl (Or.inr ⟨before, op, init, rfl, hop, ?_⟩)⟩
        intro later hmem
        exact hlater later (List.mem_append_left _ hmem)
  · have hsnoc : ∀ ops : List ω, (∀ op ∈ ops, keeps op) → keeps last →
        ∀ op ∈ ops ++ [last], keeps op := by
      intro ops hops hlast op hop
      rcases List.mem_append.mp hop with hop | hop
      · exact hops op hop
      · rw [List.mem_singleton.mp hop]
        exact hlast
    rintro ⟨hlast, (⟨hstart, hkeeps⟩ | ⟨before, op, after, rfl, hop, hlater⟩) | hset⟩
    · exact Or.inl ⟨hstart, hsnoc history hkeeps hlast⟩
    · exact Or.inr ⟨before, op, after ++ [last], by simp, hop, hsnoc after hlater hlast⟩
    · exact Or.inr ⟨history, last, [], rfl, hset, by simp⟩

end Latch

end History
