import Ddns.Library.Utf8

/-! Base64 with the standard alphabet and canonical padding. -/
namespace Base64

open Utf8 (ofNat_eq_of_toNat)

def alphabet : List Char :=
  ['A', 'B', 'C', 'D', 'E', 'F', 'G', 'H', 'I', 'J', 'K', 'L', 'M', 'N', 'O', 'P',
   'Q', 'R', 'S', 'T', 'U', 'V', 'W', 'X', 'Y', 'Z', 'a', 'b', 'c', 'd', 'e', 'f',
   'g', 'h', 'i', 'j', 'k', 'l', 'm', 'n', 'o', 'p', 'q', 'r', 's', 't', 'u', 'v',
   'w', 'x', 'y', 'z', '0', '1', '2', '3', '4', '5', '6', '7', '8', '9', '+', '/']

def digit (n : ℕ) : Char := alphabet.getD n '='

def value (c : Char) : Option ℕ := alphabet.idxOf? c

/-- Three bytes make four digits; a shorter end is padded. -/
def encode : List UInt8 → List Char
  | [] => []
  | [a] => [digit (a.toNat / 4), digit (a.toNat % 4 * 16), '=', '=']
  | [a, b] =>
    [digit (a.toNat / 4), digit (a.toNat % 4 * 16 + b.toNat / 16), digit (b.toNat % 16 * 4), '=']
  | a :: b :: c :: rest =>
    digit (a.toNat / 4) :: digit (a.toNat % 4 * 16 + b.toNat / 16) ::
      digit (b.toNat % 16 * 4 + c.toNat / 64) :: digit (c.toNat % 64) :: encode rest

/-- Padding stands at the end only, and the bits that it leaves over are zero. -/
def decode : List Char → Option (List UInt8)
  | [] => some []
  | w :: x :: y :: z :: rest =>
    (value w).bind fun w => (value x).bind fun x =>
      let first := UInt8.ofNat (w * 4 + x / 16)
      if y = '=' ∧ z = '=' ∧ rest = [] then if x % 16 = 0 then some [first] else none
      else
        (value y).bind fun y =>
          let second := UInt8.ofNat (x % 16 * 16 + y / 4)
          if z = '=' ∧ rest = [] then if y % 4 = 0 then some [first, second] else none
          else
            (value z).bind fun z =>
              (decode rest).map fun bytes =>
                first :: second :: UInt8.ofNat (y % 4 * 64 + z) :: bytes
  | _ => none

theorem value_digit {n : ℕ} (h : n < 64) : value (digit n) = some n := by
  have hall : ∀ n < 64, value (digit n) = some n := by decide +kernel
  exact hall n h

theorem digit_ne_pad {n : ℕ} (h : n < 64) : digit n ≠ '=' := by
  have hall : ∀ n < 64, digit n ≠ '=' := by decide +kernel
  exact hall n h

/-- Decoding inverts encoding. -/
theorem decode_encode (bytes : List UInt8) : decode (encode bytes) = some bytes := by
  induction bytes using encode.induct with
  | case1 => rfl
  | case2 a =>
    have ha := a.toNat_lt
    rw [encode, decode, value_digit (by omega), Option.bind_some, value_digit (by omega),
      Option.bind_some]
    dsimp only
    rw [if_pos ⟨rfl, rfl, rfl⟩, if_pos (by omega), ofNat_eq_of_toNat (b := a) (by omega)]
  | case3 a b =>
    have ha := a.toNat_lt
    have hb := b.toNat_lt
    rw [encode, decode, value_digit (by omega), Option.bind_some, value_digit (by omega),
      Option.bind_some]
    dsimp only
    rw [if_neg (fun h => digit_ne_pad (by omega) h.1), value_digit (by omega), Option.bind_some,
      if_pos ⟨rfl, rfl⟩, if_pos (by omega), ofNat_eq_of_toNat (b := a) (by omega),
      ofNat_eq_of_toNat (b := b) (by omega)]
  | case4 a b c rest ih =>
    have ha := a.toNat_lt
    have hb := b.toNat_lt
    have hc := c.toNat_lt
    rw [encode, decode, value_digit (by omega), Option.bind_some, value_digit (by omega),
      Option.bind_some]
    dsimp only
    rw [if_neg (fun h => digit_ne_pad (by omega) h.1), value_digit (by omega), Option.bind_some,
      if_neg (fun h => digit_ne_pad (by omega) h.1), value_digit (by omega), Option.bind_some, ih,
      Option.map_some, ofNat_eq_of_toNat (b := a) (by omega),
      ofNat_eq_of_toNat (b := b) (by omega), ofNat_eq_of_toNat (b := c) (by omega)]

theorem mem_alphabet_of_value {c : Char} {n : ℕ} (h : value c = some n) : c ∈ alphabet := by
  by_contra hmem
  rw [value, List.idxOf?_eq_none_iff.mpr hmem] at h
  cases h

/-- What is decoded has no other characters. -/
theorem mem_of_decode {text : List Char} {bytes : List UInt8} (h : decode text = some bytes) :
    ∀ c ∈ text, c ∈ alphabet ∨ c = '=' := by
  induction text using decode.induct generalizing bytes with
  | case1 =>
    intro c hc
    exact absurd hc List.not_mem_nil
  | case2 w x y z rest ih =>
    rw [decode] at h
    obtain ⟨w', hw, h⟩ := Option.bind_eq_some_iff.mp h
    obtain ⟨x', hx, h⟩ := Option.bind_eq_some_iff.mp h
    have hw := mem_alphabet_of_value hw
    have hx := mem_alphabet_of_value hx
    simp only [List.forall_mem_cons]
    refine ⟨Or.inl hw, Or.inl hx, ?_⟩
    dsimp only at h
    split at h
    · rename_i hpad
      obtain ⟨rfl, rfl, rfl⟩ := hpad
      exact ⟨Or.inr rfl, Or.inr rfl, fun c hc => absurd hc List.not_mem_nil⟩
    · obtain ⟨y', hy, h⟩ := Option.bind_eq_some_iff.mp h
      have hy := mem_alphabet_of_value hy
      refine ⟨Or.inl hy, ?_⟩
      split at h
      · rename_i hpad
        obtain ⟨rfl, rfl⟩ := hpad
        exact ⟨Or.inr rfl, fun c hc => absurd hc List.not_mem_nil⟩
      · obtain ⟨z', hz, h⟩ := Option.bind_eq_some_iff.mp h
        obtain ⟨rest', hrest, _⟩ := Option.map_eq_some_iff.mp h
        exact ⟨Or.inl (mem_alphabet_of_value hz), ih hrest⟩
  | case3 text hnil hlong =>
    -- fewer than four characters are left
    unfold decode at h
    split at h
    · exact absurd rfl hnil
    · exact absurd rfl (hlong _ _ _ _ _)
    · cases h

end Base64
