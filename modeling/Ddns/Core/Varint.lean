import Ddns.Library.Slice

/-! QUIC variable-length integers. -/
namespace Ddns

open Nom BigEndian

/-- An integer below `2 ^ 62`. -/
structure VarInt where
  val : ℕ
  lt : val < 2 ^ 62
  deriving DecidableEq

/-- The value of an encoding of `len` bytes that starts with `first`: the two tag bits are
cleared, and the padding to eight bytes is shifted out. -/
def varintValue (first : UInt8) (rest : List UInt8) (len : ℕ) : ℕ :=
  ofBE ((first &&& 0x3F) :: rest ++ List.replicate (8 - len) 0) >>> (8 * (8 - len))

theorem varintValue_eq (first : UInt8) (rest : List UInt8) (len : ℕ) :
    varintValue first rest len = first.toNat % 64 * 256 ^ rest.length + ofBE rest := by
  have hshift := ofBE_append_shiftRight ((first &&& 0x3F) :: rest) (List.replicate (8 - len) 0)
  have hlow : (first &&& 0x3F).toNat = first.toNat % 64 := by
    rw [UInt8.toNat_and]
    exact Nat.and_two_pow_sub_one_eq_mod first.toNat 6
  rw [List.length_replicate] at hshift
  rw [varintValue, hshift, ofBE, hlow]

/-- Clearing the tag bits leaves a value that fits. -/
theorem varintValue_lt {first : UInt8} {rest : List UInt8} (h : rest.length ≤ 7) (len : ℕ) :
    varintValue first rest len < 2 ^ 62 := by
  have hrest := ofBE_lt rest
  have hfirst : first.toNat % 64 + 1 ≤ 64 := by omega
  have hpow : 256 ^ rest.length ≤ 256 ^ 7 := Nat.pow_le_pow_right (by omega) h
  rw [varintValue_eq]
  calc first.toNat % 64 * 256 ^ rest.length + ofBE rest
      < (first.toNat % 64 + 1) * 256 ^ rest.length := by rw [Nat.add_mul]; omega
    _ ≤ 64 * 256 ^ 7 := Nat.mul_le_mul hfirst hpow

/-- The number of bytes that the tag of a first byte announces. -/
def varintLen (first : UInt8) : ℕ := 2 ^ (first >>> 6).toNat

theorem shiftRight_six (first : UInt8) : (first >>> 6).toNat = first.toNat / 64 := by
  rw [UInt8.toNat_shiftRight]
  simp [Nat.shiftRight_eq_div_pow]

theorem varintLen_pos (first : UInt8) : 1 ≤ varintLen first := Nat.one_le_two_pow

theorem varintLen_le (first : UInt8) : varintLen first ≤ 8 := by
  have hlt := first.toNat_lt
  have htag : (first >>> 6).toNat ≤ 3 := by
    rw [shiftRight_six]
    omega
  exact Nat.pow_le_pow_right (by omega) htag

def beVarint (input : Slice) : IResult VarInt :=
  (beU8 input).andThen fun remain first =>
    let len := varintLen first
    if remain.len + 1 < len then .err (.incomplete (len - (remain.len + 1)))
    else
      have hshort : (remain.bytes.take (len - 1)).length ≤ 7 := by
        have := varintLen_le first
        rw [List.length_take]
        omega
      .ok (remain.drop (len - 1))
        ⟨varintValue first (remain.bytes.take (len - 1)) len, varintValue_lt hshort len⟩

namespace VarInt

/-- `VarInt::from_u32` -/
def fromU32 (x : UInt32) : VarInt := ⟨x.toNat, by have := x.toNat_lt; omega⟩

/-- `VarInt::try_from` of a length -/
def tryFrom (value : ℕ) : Option VarInt := if h : value < 2 ^ 62 then some ⟨value, h⟩ else none

def encodingSize (x : VarInt) : ℕ :=
  if x.val < 1 <<< 6 then 1
  else if x.val < 1 <<< 14 then 2
  else if x.val < 1 <<< 30 then 4
  else 8

end VarInt

/-- The bytes that `put_varint` appends. -/
def putVarint (x : VarInt) : List UInt8 :=
  if x.val < 1 <<< 6 then [UInt8.ofNat x.val]
  else if x.val < 1 <<< 14 then putWord (((0b01 : UInt16) <<< 14) ||| UInt16.ofNat x.val)
  else if x.val < 1 <<< 30 then putWord (((0b10 : UInt32) <<< 30) ||| UInt32.ofNat x.val)
  else putWord (((0b11 : UInt64) <<< 62) ||| UInt64.ofNat x.val)

theorem putVarint_length (x : VarInt) : (putVarint x).length = x.encodingSize := by
  unfold putVarint VarInt.encodingSize
  split
  · rfl
  split
  · exact putWord_length _
  split
  · exact putWord_length _
  · exact putWord_length _

theorem encodingSize_le (x : VarInt) : x.encodingSize ≤ 8 := by
  unfold VarInt.encodingSize
  split
  · omega
  split
  · omega
  split <;> omega

/-- Every width is a tag above a value of the remaining bits. -/
theorem putVarint_eq (x : VarInt) : ∃ tag m, tag < 4 ∧ 2 ^ tag = m + 1 ∧
    x.val < 2 ^ (8 * m + 6) ∧ putVarint x = toBE (m + 1) (tag * 2 ^ (8 * m + 6) + x.val) := by
  have hlt := x.lt
  unfold putVarint
  by_cases h6 : x.val < 1 <<< 6
  · rw [if_pos h6]
    refine ⟨0, 0, by omega, rfl, h6, ?_⟩
    simp [toBE]
  rw [if_neg h6]
  by_cases h14 : x.val < 1 <<< 14
  · rw [if_pos h14]
    have ho := Nat.two_pow_add_eq_or_of_lt (i := 14) h14 1
    refine ⟨1, 1, by omega, rfl, h14, ?_⟩
    have hx : (UInt16.ofNat x.val).toNat = x.val := by
      rw [UInt16.toNat_ofNat']
      omega
    simp only [putWord, Word.toNat, UInt16.toNat_or, hx]
    exact congrArg (toBE 2) ho.symm
  rw [if_neg h14]
  by_cases h30 : x.val < 1 <<< 30
  · rw [if_pos h30]
    have ho := Nat.two_pow_add_eq_or_of_lt (i := 30) h30 2
    refine ⟨2, 3, by omega, rfl, h30, ?_⟩
    have hx : (UInt32.ofNat x.val).toNat = x.val := by
      rw [UInt32.toNat_ofNat']
      omega
    simp only [putWord, Word.toNat, UInt32.toNat_or, hx]
    exact congrArg (toBE 4) ho.symm
  rw [if_neg h30]
  have ho := Nat.two_pow_add_eq_or_of_lt (i := 62) hlt 3
  refine ⟨3, 7, by omega, rfl, hlt, ?_⟩
  have hx : (UInt64.ofNat x.val).toNat = x.val := by
    rw [UInt64.toNat_ofNat']
    omega
  simp only [putWord, Word.toNat, UInt64.toNat_or, hx]
  exact congrArg (toBE 8) ho.symm

/-- The first byte of a tagged value carries the tag and the top bits of the value. -/
theorem toBE_tagged {tag m x : ℕ} (htag : tag < 4) (hx : x < 2 ^ (8 * m + 6)) :
    ∃ first, toBE (m + 1) (tag * 2 ^ (8 * m + 6) + x) = first :: toBE m x ∧
      first.toNat = tag * 64 + x / 256 ^ m ∧ x / 256 ^ m < 64 := by
  have hpow : 2 ^ (8 * m + 6) = 64 * 256 ^ m := by
    rw [Nat.pow_add, Nat.pow_mul, Nat.mul_comm]
  have hsplit : tag * 2 ^ (8 * m + 6) + x = tag * 64 * 256 ^ m + x := by
    rw [hpow, Nat.mul_assoc]
  have htop : x / 256 ^ m < 64 := by
    rw [Nat.div_lt_iff_lt_mul (by positivity), ← hpow]
    exact hx
  refine ⟨UInt8.ofNat (tag * 64 + x / 256 ^ m), ?_, ?_, htop⟩
  · rw [hsplit, toBE, toBE_add_mul, Nat.add_comm, Nat.add_mul_div_right _ _ (by positivity),
      Nat.add_comm]
  · rw [UInt8.toNat_ofNat']
    generalize x / 256 ^ m = top at htop ⊢
    omega

/-- The bytes `w` spell `x`, in the shortest way or not. -/
def VarintForm (w : List UInt8) (x : VarInt) : Prop :=
  ∃ first rest, w = first :: rest ∧ w.length = varintLen first ∧
    x.val = varintValue first rest w.length

/-- Every form is read, with what follows it untouched. -/
theorem VarintForm.recognises {w : List UInt8} {x : VarInt} (h : VarintForm w x) :
    Recognises beVarint w x := by
  obtain ⟨first, rest, rfl, hlen, hval⟩ := h
  intro p t
  have hrest : rest.length = varintLen first - 1 := by
    rw [← hlen]
    rfl
  have htake : (rest ++ t).take (varintLen first - 1) = rest := by
    rw [← hrest, List.take_left]
  have hdrop : (rest ++ t).drop (varintLen first - 1) = t := by
    rw [← hrest, List.drop_left]
  have hfits : ¬ (⟨p + 1, rest ++ t⟩ : Slice).len + 1 < varintLen first := by
    rw [Slice.len, List.length_append]
    omega
  have hpos : p + 1 + (varintLen first - 1) = p + (first :: rest).length := by
    rw [List.length_cons, hrest]
    omega
  rw [List.cons_append, beVarint, beU8_cons, andThen_ok]
  dsimp only
  rw [if_neg hfits]
  rw [hlen] at hval
  simp only [Slice.drop, htake, hdrop, hpos, ← hval]

/-- What is read is a form of the result. -/
theorem beVarint_form {s r : Slice} {x : VarInt} (h : beVarint s = .ok r x) :
    ∃ w, VarintForm w x ∧ s.bytes = w ++ r.bytes := by
  obtain ⟨remain, first, hfirst, h⟩ := andThen_eq_ok.mp h
  obtain ⟨hbytes, rfl, hlen⟩ := beU8_ok hfirst
  have hpos := varintLen_pos first
  dsimp only at h
  split at h
  · cases h
  · rename_i hfits
    cases h
    have hsize : (first :: ((s.drop 1).bytes.take (varintLen first - 1))).length =
        varintLen first := by
      rw [List.length_cons, List.length_take]
      unfold Slice.len at hfits
      omega
    refine ⟨_, ⟨first, _, rfl, hsize, ?_⟩, ?_⟩
    · rw [hsize]
    · rw [hbytes]
      exact congrArg (first :: ·) (List.take_append_drop _ _).symm

/-- A written integer is one of its forms. -/
theorem varintForm_put (x : VarInt) : VarintForm (putVarint x) x := by
  obtain ⟨tag, m, htag, hm, hx, hput⟩ := putVarint_eq x
  obtain ⟨first, hbytes, hfirst, htop⟩ := toBE_tagged htag hx
  have hlen : varintLen first = m + 1 := by
    rw [varintLen, shiftRight_six, hfirst, ← hm]
    congr 1
    generalize x.val / 256 ^ m = top at htop ⊢
    omega
  have hval : varintValue first (toBE m x.val) (m + 1) = x.val := by
    rw [varintValue_eq, toBE_length, ofBE_toBE, hfirst]
    have hmod : (tag * 64 + x.val / 256 ^ m) % 64 = x.val / 256 ^ m := by
      rw [Nat.add_comm, Nat.add_mul_mod_self_right, Nat.mod_eq_of_lt htop]
    rw [hmod]
    exact Nat.div_add_mod' x.val (256 ^ m)
  have hsize : (putVarint x).length = m + 1 := by rw [hput, toBE_length]
  refine ⟨first, toBE m x.val, hput.trans hbytes, hsize.trans hlen.symm, ?_⟩
  rw [hsize, hval]

/-- The four lengths, with the values that each of them can hold. -/
theorem VarintForm.fits {w : List UInt8} {x : VarInt} (h : VarintForm w x) :
    ∃ tag m, tag < 4 ∧ 2 ^ tag = m + 1 ∧ x.val < 2 ^ (8 * m + 6) ∧
      w = toBE (m + 1) (tag * 2 ^ (8 * m + 6) + x.val) := by
  obtain ⟨first, rest, rfl, hlen, hval⟩ := h
  have hlt := first.toNat_lt
  have hrest := ofBE_lt rest
  have hpow : 2 ^ (8 * rest.length + 6) = 64 * 256 ^ rest.length := by
    rw [Nat.pow_add, Nat.pow_mul, Nat.mul_comm]
  rw [varintValue_eq] at hval
  rw [List.length_cons, varintLen, shiftRight_six] at hlen
  refine ⟨first.toNat / 64, rest.length, by omega, hlen.symm, ?_, ?_⟩
  · rw [hval, hpow]
    calc first.toNat % 64 * 256 ^ rest.length + ofBE rest
        < (first.toNat % 64 + 1) * 256 ^ rest.length := by rw [Nat.add_mul]; omega
      _ ≤ 64 * 256 ^ rest.length := Nat.mul_le_mul_right _ (by omega)
  · -- tag and value together are the number that all the bytes spell
    have hall : first.toNat / 64 * 2 ^ (8 * rest.length + 6) + x.val = ofBE (first :: rest) := by
      rw [hval, hpow, ← Nat.add_assoc, ← Nat.mul_assoc, ← Nat.add_mul, Nat.div_add_mod', ofBE]
    rw [hall]
    exact (toBE_ofBE (first :: rest)).symm

/-- No form is shorter than the written one. -/
theorem VarintForm.size_le {w : List UInt8} {x : VarInt} (h : VarintForm w x) :
    x.encodingSize ≤ w.length := by
  obtain ⟨tag, m, htag, hm, hx, rfl⟩ := h.fits
  rw [toBE_length, ← hm]
  unfold VarInt.encodingSize
  match tag, htag with
  | 0, _ =>
    obtain rfl : m = 0 := by omega
    rw [if_pos (show x.val < 1 <<< 6 from hx)]
    exact le_rfl
  | 1, _ =>
    obtain rfl : m = 1 := by omega
    rw [if_pos (show x.val < 1 <<< 14 from hx)]
    split <;> omega
  | 2, _ =>
    obtain rfl : m = 3 := by omega
    rw [if_pos (show x.val < 1 <<< 30 from hx)]
    split
    · omega
    split <;> omega
  | 3, _ => exact encodingSize_le x

/-- A form of the length of the written one is the written one. -/
theorem VarintForm.eq_put {w : List UInt8} {x : VarInt} (h : VarintForm w x)
    (hlen : w.length = x.encodingSize) : w = putVarint x := by
  obtain ⟨tag, m, _, hm, _, hw⟩ := h.fits
  obtain ⟨tag', m', _, hm', _, hput⟩ := putVarint_eq x
  have hsame : m = m' := by
    have hput' := congrArg List.length hput
    rw [putVarint_length, ← hlen, hw, toBE_length, toBE_length] at hput'
    omega
  subst hsame
  have htag : tag = tag' := Nat.pow_right_injective le_rfl (hm.trans hm'.symm)
  subst htag
  exact hw.trans hput.symm

/-- No other form of the same integer is shorter. -/
def ShortestForm (w : List UInt8) : Prop :=
  ∀ v x, VarintForm w x → VarintForm v x → w.length ≤ v.length

theorem VarintForm.shortest_iff {w : List UInt8} {x : VarInt} (h : VarintForm w x) :
    ShortestForm w ↔ w = putVarint x := by
  constructor
  · intro hshort
    have hle := hshort (putVarint x) x h (varintForm_put x)
    rw [putVarint_length] at hle
    exact h.eq_put (Nat.le_antisymm hle h.size_le)
  · rintro rfl v y hy hv
    have hsize := hv.size_le
    have hxy : x = y := by
      have hboth := (h.recognises 0 []).symm.trans (hy.recognises 0 [])
      cases hboth
      rfl
    rw [putVarint_length, hxy]
    exact hsize

theorem beVarint_ok {s r : Slice} {x : VarInt} (h : beVarint s = .ok r x) :
    ∃ n, 1 ≤ n ∧ n ≤ s.len ∧ r = s.drop n := by
  obtain ⟨remain, first, hfirst, h⟩ := andThen_eq_ok.mp h
  obtain ⟨_, rfl, hlen⟩ := beU8_ok hfirst
  have hpos := varintLen_pos first
  dsimp only at h
  rw [Slice.drop_len] at h
  split at h
  · cases h
  · cases h
    refine ⟨varintLen first, hpos, by omega, ?_⟩
    rw [Slice.drop_drop]
    congr 1
    omega

theorem beVarint_error {s : Slice} {e : Err} (h : beVarint s = .err e) : Incomplete e := by
  rcases andThen_eq_err.mp h with h | ⟨remain, first, _, h⟩
  · exact ⟨1, (beU8_error h).2⟩
  · dsimp only at h
    split at h
    · cases h
      exact ⟨_, rfl⟩
    · cases h

theorem local_varint : Local beVarint := by
  intro s
  refine ⟨?_, fun e h => .of_incomplete (beVarint_error h)⟩
  intro r x h
  obtain ⟨n, _, hn, rfl⟩ := beVarint_ok h
  exact Slice.Suffix.drop hn

end Ddns
