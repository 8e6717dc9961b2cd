import Mathlib.Data.List.Basic
import Mathlib.Data.Nat.Notation

/-! Collecting what is new, up to a limit. -/
namespace Distinct

variable {β : Type} [DecidableEq β] {limit : Option ℕ} {acc xs : List β}

/-- Taken in when it is new and there is room. -/
def addNew (limit : Option ℕ) (acc : List β) (x : β) : List β :=
  if x ∉ acc ∧ ∀ n ∈ limit, acc.length < n then acc ++ [x] else acc

/-- The first ones, or all without a limit. -/
def upTo (limit : Option ℕ) (xs : List β) : List β := limit.elim xs fun n => xs.take n

omit [DecidableEq β] in
theorem upTo_append_of_full {n : ℕ} (h : acc.length = n) (xs : List β) :
    upTo (some n) (acc ++ xs) = acc :=
  List.take_left' h

/-- What is collected are the first occurrences, the first ones of them. -/
theorem foldl_addNew (hacc : ∀ n ∈ limit, acc.length ≤ n) (xs : List β) :
    xs.foldl (addNew limit) acc =
      upTo limit (acc ++ (xs.filter fun x => decide (x ∉ acc)).eraseDups) := by
  induction xs generalizing acc with
  | nil =>
    cases limit with
    | none => simp [upTo]
    | some n => simp [upTo, List.take_of_length_le (hacc n rfl)]
  | cons x xs ih =>
    rw [List.foldl_cons, addNew]
    by_cases hold : x ∈ acc
    · rw [if_neg (by simp [hold]), ih hacc, List.filter_cons_of_neg (by simp [hold])]
    by_cases hroom : ∀ n ∈ limit, acc.length < n
    · have hnext : ∀ n ∈ limit, (acc ++ [x]).length ≤ n := by
        intro n hn
        have := hroom n hn
        rw [List.length_append, List.length_singleton]
        omega
      have hfilter : (xs.filter fun y => decide (y ∉ acc)).filter (fun y => !y == x) =
          xs.filter fun y => decide (y ∉ acc ++ [x]) := by
        rw [List.filter_filter]
        congr 1
        funext y
        by_cases hy : y = x <;> simp [hy]
      rw [if_pos ⟨hold, hroom⟩, ih hnext, List.filter_cons_of_pos (by simp [hold]),
        List.eraseDups_cons, hfilter, List.append_assoc, List.singleton_append]
    · -- the limit is reached
      rw [if_neg (fun hnew => hroom hnew.2), ih hacc]
      cases limit with
      | none => simp at hroom
      | some n =>
        have hfull : acc.length = n := by
          have hle := hacc n rfl
          simp only [Option.mem_def, Option.some.injEq, forall_eq'] at hroom
          omega
        rw [upTo_append_of_full hfull, upTo_append_of_full hfull]

theorem foldl_addNew_nil (limit : Option ℕ) (xs : List β) :
    xs.foldl (addNew limit) [] = upTo limit xs.eraseDups := by
  rw [foldl_addNew (by simp)]
  simp

end Distinct
