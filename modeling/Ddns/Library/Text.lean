import Mathlib.Algebra.Group.Nat.Defs
import Mathlib.Data.List.DropRight
import Mathlib.Data.Nat.Basic

/-! Operations of the standard library on text, as lists of Unicode scalar values. -/
namespace Text

/-- The Unicode property White_Space. -/
def isWhitespace (c : Char) : Bool :=
  c.toNat ∈ [0x20, 0x85, 0xA0, 0x1680, 0x2028, 0x2029, 0x202F, 0x205F, 0x3000] ∨
    (0x09 ≤ c.toNat ∧ c.toNat ≤ 0x0D) ∨ (0x2000 ≤ c.toNat ∧ c.toNat ≤ 0x200A)

/-- `trim_end_matches` -/
def trimEndMatches (p : Char → Bool) (s : List Char) : List Char := s.rdropWhile p

/-- `trim_matches` -/
def trimMatches (p : Char → Bool) (s : List Char) : List Char := trimEndMatches p (s.dropWhile p)

def trim (s : List Char) : List Char := trimMatches isWhitespace s

def toAsciiLowercase (s : List Char) : List Char := s.map Char.toLower

def eqIgnoreAsciiCase (s t : List Char) : Bool := toAsciiLowercase s = toAsciiLowercase t

/-- Lower case letters are kept. -/
theorem toLower_toLower (c : Char) : c.toLower.toLower = c.toLower := by
  by_cases h : c.val ≥ 'A'.val ∧ c.val ≤ 'Z'.val
  · have hval : c.toLower.val = c.val + ('a'.val - 'A'.val) := congrArg Char.val (dif_pos h)
    have hupper : ¬ (c.toLower.val ≥ 'A'.val ∧ c.toLower.val ≤ 'Z'.val) := by
      rw [hval]
      rintro ⟨_, hle⟩
      obtain ⟨hlow, hhigh⟩ := h
      simp only [ge_iff_le, UInt32.le_iff_toNat_le, UInt32.toNat_add, Char.reduceVal,
        UInt32.reduceToNat, UInt32.reduceSub] at hlow hhigh hle
      omega
    exact dif_neg hupper
  · have hsame : c.toLower = c := dif_neg h
    rw [hsame, hsame]

theorem toAsciiLowercase_idem (s : List Char) :
    toAsciiLowercase (toAsciiLowercase s) = toAsciiLowercase s := by
  unfold toAsciiLowercase
  rw [List.map_map]
  exact List.map_congr_left fun c _ => toLower_toLower c

/-- The text before and after the first `sep`. -/
def splitOnce (sep : Char) (s : List Char) : Option (List Char × List Char) :=
  if sep ∈ s then some (s.takeWhile (· ≠ sep), (s.dropWhile (· ≠ sep)).tail) else none

/-- The text before and after the last `sep`. -/
def rsplitOnce (sep : Char) (s : List Char) : Option (List Char × List Char) :=
  (splitOnce sep s.reverse).map fun parts => (parts.2.reverse, parts.1.reverse)

/-- `is_ascii_digit` on every character -/
def allDigits (s : List Char) : Bool := s.all Char.isDigit

/-- `parse::<u64>()`: an optional plus sign, and then at least one digit. -/
def parseU64 (s : List Char) : Option ℕ :=
  let digits := if s.head? = some '+' then s.tail else s
  if digits ≠ [] ∧ allDigits digits ∧ Nat.ofDigitChars 10 digits 0 < 2 ^ 64 then
    some (Nat.ofDigitChars 10 digits 0)
  else none

/-- `to_string` of an unsigned integer -/
def decimal (n : ℕ) : List Char := Nat.toDigits 10 n

theorem decimal_ne_nil (n : ℕ) : decimal n ≠ [] := Nat.toDigits_ne_nil

theorem decimal_injective : Function.Injective decimal := by
  intro m n h
  have hvalue := congrArg (Nat.ofDigitChars 10 · 0) h
  simpa [decimal, Nat.ofDigitChars_ten_toDigits] using hvalue

theorem isDigit_of_mem_decimal {n : ℕ} {c : Char} (h : c ∈ decimal n) : c.isDigit :=
  Nat.isDigit_of_mem_toDigits (by decide) (by decide) h

/-- A written integer is parsed back. -/
theorem parseU64_decimal {n : ℕ} (h : n < 2 ^ 64) : parseU64 (decimal n) = some n := by
  have hplus : (decimal n).head? ≠ some '+' := by
    intro hp
    have hmem : '+' ∈ decimal n := List.mem_of_mem_head? hp
    exact absurd (isDigit_of_mem_decimal hmem) (by decide)
  have hdigits : allDigits (decimal n) = true :=
    List.all_eq_true.mpr fun c hc => isDigit_of_mem_decimal hc
  have hval : Nat.ofDigitChars 10 (decimal n) 0 = n := Nat.ofDigitChars_ten_toDigits
  unfold parseU64
  rw [if_neg hplus]
  dsimp only
  rw [if_pos ⟨decimal_ne_nil n, hdigits, by rw [hval]; exact h⟩, hval]

/-- The first separator tells where a text ends. -/
theorem append_cons_inj {sep : Char} {s s' t t' : List Char} (hs : sep ∉ s) (hs' : sep ∉ s')
    (h : s ++ sep :: t = s' ++ sep :: t') : s = s' ∧ t = t' := by
  induction s generalizing s' with
  | nil =>
    cases s' with
    | nil => exact ⟨rfl, (List.cons.inj h).2⟩
    | cons c s' =>
      obtain ⟨rfl, _⟩ := List.cons.inj h
      exact absurd List.mem_cons_self hs'
  | cons c s ih =>
    cases s' with
    | nil =>
      obtain ⟨rfl, _⟩ := List.cons.inj h
      exact absurd List.mem_cons_self hs
    | cons c' s' =>
      obtain ⟨rfl, htail⟩ := List.cons.inj h
      obtain ⟨rfl, rfl⟩ := ih (fun hc => hs (List.mem_cons_of_mem _ hc))
        (fun hc => hs' (List.mem_cons_of_mem _ hc)) htail
      exact ⟨rfl, rfl⟩

theorem splitOnce_append {sep : Char} {s : List Char} (h : sep ∉ s) (t : List Char) :
    splitOnce sep (s ++ sep :: t) = some (s, t) := by
  have hother : ∀ c ∈ s, decide (c ≠ sep) = true := by
    intro c hc
    refine decide_eq_true ?_
    rintro rfl
    exact h hc
  rw [splitOnce, if_pos (by simp), List.takeWhile_append_of_pos hother,
    List.dropWhile_append_of_pos hother]
  simp

/-- A text is split where its first separator is. -/
theorem splitOnce_eq_some {sep : Char} {s before after : List Char} :
    splitOnce sep s = some (before, after) ↔ s = before ++ sep :: after ∧ sep ∉ before := by
  constructor
  · intro h
    have hmem : sep ∈ s := by
      unfold splitOnce at h
      split at h
      · assumption
      · cases h
    obtain ⟨start, rest, rfl, hstart⟩ := List.eq_append_cons_of_mem hmem
    rw [splitOnce_append hstart] at h
    cases h
    exact ⟨rfl, hstart⟩
  · rintro ⟨rfl, hbefore⟩
    exact splitOnce_append hbefore after

/-- A text is split from the right where its last separator is. -/
theorem rsplitOnce_eq_some {sep : Char} {s before after : List Char} :
    rsplitOnce sep s = some (before, after) ↔ s = before ++ sep :: after ∧ sep ∉ after := by
  unfold rsplitOnce
  rw [Option.map_eq_some_iff]
  constructor
  · rintro ⟨⟨start, rest⟩, hsplit, heq⟩
    obtain ⟨hreverse, hstart⟩ := splitOnce_eq_some.mp hsplit
    cases heq
    refine ⟨?_, by simpa using hstart⟩
    rw [← List.reverse_reverse s, hreverse]
    simp
  · rintro ⟨rfl, hafter⟩
    refine ⟨(after.reverse, before.reverse), splitOnce_eq_some.mpr ⟨by simp, by simpa using hafter⟩, ?_⟩
    simp

/-- A run of digits has no sign. -/
theorem parseU64_digits {s : List Char} (hne : s ≠ []) (hdigits : allDigits s = true) :
    parseU64 s = if Nat.ofDigitChars 10 s 0 < 2 ^ 64 then some (Nat.ofDigitChars 10 s 0) else none := by
  have hplus : s.head? ≠ some '+' := by
    intro hp
    exact absurd (List.all_eq_true.mp hdigits '+' (List.mem_of_mem_head? hp)) (by decide)
  unfold parseU64
  rw [if_neg hplus]
  simp only [hne, hdigits, ne_eq, not_false_eq_true, true_and]

/-- The parts of a text do not contain what separates them. -/
theorem not_mem_of_mem_splitOn {sep : Char} {s part : List Char} (h : part ∈ s.splitOn sep) :
    sep ∉ part := by
  induction s generalizing part with
  | nil =>
    rw [List.splitOn_nil] at h
    rw [List.mem_singleton.mp h]
    exact List.not_mem_nil
  | cons c s ih =>
    rw [List.splitOn_cons_eq_if_modifyHead] at h
    obtain ⟨first, parts, hparts⟩ := List.exists_cons_of_ne_nil (List.splitOn_ne_nil sep s)
    rw [hparts] at h ih
    split at h
    · rcases List.mem_cons.mp h with rfl | h
      · exact List.not_mem_nil
      · exact ih h
    · rename_i hc
      rw [List.modifyHead_cons] at h
      rcases List.mem_cons.mp h with rfl | h
      · intro hmem
        rcases List.mem_cons.mp hmem with rfl | hmem
        · exact hc (beq_self_eq_true _)
        · exact ih List.mem_cons_self hmem
      · exact ih (List.mem_cons_of_mem _ h)

end Text
