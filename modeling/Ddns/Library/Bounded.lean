import Mathlib.Data.Nat.Notation

/-! Collecting the pieces of a source into a buffer that may not grow beyond a limit. -/
namespace Bounded

variable {α ε : Type}

/-- What has come of it so far. -/
inductive Outcome (ε α : Type) where
  | pending (buffer : List α)
  | full
  | failed (error : ε)
  | complete (buffer : List α)
  deriving DecidableEq

/-- The loop over the pieces; `ended` says whether the source has come to its end after them. -/
def collect (limit : ℕ) (ended : Bool) : List (Except ε (List α)) → List α → Outcome ε α
  | [], buffer => if ended then .complete buffer else .pending buffer
  | .error error :: _, _ => .failed error
  | .ok piece :: pieces, buffer =>
    if limit - buffer.length < piece.length then .full
    else collect limit ended pieces (buffer ++ piece)

/-- The pieces before the first failure. -/
def sound : List (Except ε (List α)) → List (List α)
  | [] => []
  | .error _ :: _ => []
  | .ok piece :: pieces => piece :: sound pieces

/-- The first failure. -/
def failure : List (Except ε (List α)) → Option ε
  | [] => none
  | .error error :: _ => some error
  | .ok _ :: pieces => failure pieces

/-- Only what comes before the first failure counts, and not how it is cut into pieces: too much of
it fills the buffer, and else the failure decides. -/
theorem collect_eq {limit : ℕ} {ended : Bool} (pieces : List (Except ε (List α)))
    {buffer : List α} (hbuffer : buffer.length ≤ limit) :
    collect limit ended pieces buffer =
      if limit < (buffer ++ (sound pieces).flatten).length then .full
      else
        match failure pieces with
        | some error => .failed error
        | none =>
          if ended then .complete (buffer ++ (sound pieces).flatten)
          else .pending (buffer ++ (sound pieces).flatten) := by
  induction pieces generalizing buffer with
  | nil =>
    rw [sound, List.flatten_nil, List.append_nil, if_neg (Nat.not_lt.mpr hbuffer)]
    rfl
  | cons piece pieces ih =>
    cases piece with
    | error error =>
      rw [sound, List.flatten_nil, List.append_nil, if_neg (Nat.not_lt.mpr hbuffer)]
      rfl
    | ok piece =>
      rw [collect, sound, failure, List.flatten_cons, ← List.append_assoc]
      by_cases hfull : limit - buffer.length < piece.length
      · have hlong : limit < ((buffer ++ piece) ++ (sound pieces).flatten).length := by
          simp only [List.length_append]
          omega
        rw [if_pos hfull, if_pos hlong]
      · have hfits : (buffer ++ piece).length ≤ limit := by
          rw [List.length_append]
          omega
        rw [if_neg hfull, ih hfits]

end Bounded
