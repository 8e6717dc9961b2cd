import Ddns.Core.Varint

/-! Varints as the code keeps them: a machine word, with branches that must not be reached. -/
namespace Ddns

open Nom BigEndian

/-- `VarInt::encoding_size` on the word; `none` is its `unreachable!`. -/
def encodingSizeWord (x : UInt64) : Option ℕ :=
  if x < (1 : UInt64) <<< 6 then some 1
  else if x < (1 : UInt64) <<< 14 then some 2
  else if x < (1 : UInt64) <<< 30 then some 4
  else if x < (1 : UInt64) <<< 62 then some 8
  else none

/-- `put_varint` on the word; `none` is its `unreachable!`. -/
def putVarintWord (x : UInt64) : Option (List UInt8) :=
  if x < (1 : UInt64) <<< 6 then some [x.toUInt8]
  else if x < (1 : UInt64) <<< 14 then some (putWord (((0b01 : UInt16) <<< 14) ||| x.toUInt16))
  else if x < (1 : UInt64) <<< 30 then some (putWord (((0b10 : UInt32) <<< 30) ||| x.toUInt32))
  else if x < (1 : UInt64) <<< 62 then some (putWord (((0b11 : UInt64) <<< 62) ||| x))
  else none

/-- `be_varint`; the buffer of eight bytes is padded with zeros. -/
def beVarintWord (input : Slice) : IResult UInt64 :=
  (beU8 input).andThen fun remain first =>
    let len := 2 ^ (first >>> 6).toNat
    if remain.len + 1 < len then .err (.incomplete (len - (remain.len + 1)))
    else
      let buf := (first &&& 0x3F) :: remain.bytes.take (len - 1) ++ List.replicate (8 - len) 0
      .ok (remain.drop (len - 1)) ((getWord buf : UInt64) >>> UInt64.ofNat (8 * (8 - len)))

/-- The length that the top two bits of a first byte stand for. -/
def taggedLength (first : UInt8) : ℕ :=
  if first < 64 then 1
  else if first < 128 then 2
  else if first < 192 then 4
  else 8

theorem varintLen_eq (first : UInt8) : varintLen first = taggedLength first := by
  have hlt := first.toNat_lt
  rw [varintLen, shiftRight_six, taggedLength]
  simp only [UInt8.lt_iff_toNat_lt, UInt8.reduceToNat]
  split
  · rw [Nat.div_eq_of_lt (by assumption)]
    rfl
  split
  · have htag : first.toNat / 64 = 1 := by omega
    rw [htag]
    rfl
  split
  · have htag : first.toNat / 64 = 2 := by omega
    rw [htag]
    rfl
  · have htag : first.toNat / 64 = 3 := by omega
    rw [htag]
    rfl

/-- The word of an integer. -/
def VarInt.word (x : VarInt) : UInt64 := UInt64.ofNat x.val

theorem VarInt.toNat_word (x : VarInt) : x.word.toNat = x.val := by
  have hlt := x.lt
  rw [VarInt.word, UInt64.toNat_ofNat']
  omega

theorem VarInt.word_injective : Function.Injective VarInt.word := by
  intro x y h
  have hval := congrArg UInt64.toNat h
  rw [x.toNat_word, y.toNat_word] at hval
  cases x
  cases y
  simp_all

/-- The bounds of the four sizes are the same on words. -/
theorem VarInt.word_lt (x : VarInt) :
    (x.word < (1 : UInt64) <<< 6 ↔ x.val < 1 <<< 6) ∧
      (x.word < (1 : UInt64) <<< 14 ↔ x.val < 1 <<< 14) ∧
      (x.word < (1 : UInt64) <<< 30 ↔ x.val < 1 <<< 30) ∧ x.word < (1 : UInt64) <<< 62 := by
  simp only [UInt64.lt_iff_toNat_lt, x.toNat_word]
  exact ⟨Iff.rfl, Iff.rfl, Iff.rfl, x.lt⟩

theorem encodingSizeWord_word (x : VarInt) : encodingSizeWord x.word = some x.encodingSize := by
  obtain ⟨h6, h14, h30, h62⟩ := x.word_lt
  unfold encodingSizeWord VarInt.encodingSize
  simp only [h6, h14, h30, if_pos h62]
  split_ifs <;> rfl

theorem putVarintWord_word (x : VarInt) : putVarintWord x.word = some (putVarint x) := by
  obtain ⟨h6, h14, h30, h62⟩ := x.word_lt
  have h8 : x.word.toUInt8 = UInt8.ofNat x.val := by
    rw [← x.toNat_word]
    rfl
  have h16 : x.word.toUInt16 = UInt16.ofNat x.val := by
    rw [← x.toNat_word]
    rfl
  have h32 : x.word.toUInt32 = UInt32.ofNat x.val := by
    rw [← x.toNat_word]
    rfl
  unfold putVarintWord putVarint
  simp only [h6, h14, h30, if_pos h62, h8, h16, h32]
  split_ifs <;> rfl

/-- Shifting the padded buffer is done on numbers below `2 ^ 64`. -/
theorem getWord_shiftRight {buf : List UInt8} {k : ℕ} (hbuf : buf.length = 8) (hk : k < 64) :
    ((getWord buf : UInt64) >>> UInt64.ofNat k).toNat = ofBE buf >>> k := by
  have hlt := ofBE_lt buf
  rw [hbuf] at hlt
  have hget : (getWord buf : UInt64).toNat = ofBE buf := by
    rw [getWord]
    exact Word.toNat_ofNat (α := UInt64) _ hlt
  have hshift : (UInt64.ofNat k).toNat % 64 = k := by
    rw [UInt64.toNat_ofNat']
    omega
  rw [UInt64.toNat_shiftRight, hget, hshift]

/-- The parser on words is that of the model, so its result is in range. -/
theorem beVarintWord_eq (s : Slice) : beVarintWord s = (beVarint s).map VarInt.word := by
  unfold beVarintWord beVarint
  cases beU8 s with
  | err e => rfl
  | ok remain first =>
    have hle := varintLen_le first
    have hpos := varintLen_pos first
    simp only [andThen_ok]
    change (if remain.len + 1 < varintLen first then _ else _) = _
    by_cases hfits : remain.len + 1 < varintLen first
    · rw [if_pos hfits, if_pos hfits]
      rfl
    · have hbuf : ((first &&& 0x3F) :: remain.bytes.take (varintLen first - 1) ++
          List.replicate (8 - varintLen first) 0).length = 8 := by
        simp only [List.length_append, List.length_cons, List.length_take, List.length_replicate]
        unfold Slice.len at hfits
        omega
      have hword := getWord_shiftRight hbuf (show 8 * (8 - varintLen first) < 64 by omega)
      rw [if_neg hfits, if_neg hfits, map_ok]
      congr 1
      apply UInt64.toNat_inj.mp
      rw [VarInt.toNat_word]
      exact hword

/-- The first byte decides how much is read, and whether there is enough. -/
theorem beVarint_cases {s : Slice} {first : UInt8} (h : s.bytes.head? = some first) :
    if s.len < taggedLength first then
      beVarint s = .err (.incomplete (taggedLength first - s.len))
    else ∃ x, beVarint s = .ok (s.drop (taggedLength first)) x := by
  obtain ⟨p, bytes⟩ := s
  cases bytes with
  | nil => cases h
  | cons b rest =>
    obtain rfl := Option.some_inj.mp h
    have hpos := varintLen_pos b
    have hlen : (⟨p, b :: rest⟩ : Slice).len = (⟨p + 1, rest⟩ : Slice).len + 1 := rfl
    rw [← varintLen_eq, hlen, beVarint, beU8_cons, andThen_ok]
    dsimp only
    split
    · rfl
    · refine ⟨_, congrArg (fun r => IResult.ok r _) ?_⟩
      have hdrop : (⟨p + 1, rest⟩ : Slice) = Slice.drop ⟨p, b :: rest⟩ 1 := rfl
      rw [hdrop, Slice.drop_drop]
      congr 1
      omega

theorem beVarint_drop {s r : Slice} {x : VarInt} (h : beVarint s = .ok r x) :
    ∃ first ∈ s.bytes.head?, taggedLength first ≤ s.len ∧ r = s.drop (taggedLength first) := by
  cases hhead : s.bytes.head? with
  | none =>
    obtain ⟨p, bytes⟩ := s
    obtain rfl := List.head?_eq_none_iff.mp hhead
    cases h
  | some first =>
    have hcases := beVarint_cases hhead
    split at hcases
    · rw [hcases] at h
      cases h
    · obtain ⟨x, hok⟩ := hcases
      rw [hok] at h
      cases h
      exact ⟨first, rfl, by omega, rfl⟩

theorem beVarint_incomplete_iff (s : Slice) : (∃ needed, beVarint s = .err (.incomplete needed)) ↔
    ∀ first ∈ s.bytes.head?, s.len < taggedLength first := by
  cases hhead : s.bytes.head? with
  | none =>
    obtain ⟨p, bytes⟩ := s
    obtain rfl := List.head?_eq_none_iff.mp hhead
    exact iff_of_true ⟨1, rfl⟩ (by simp)
  | some first =>
    have hcases := beVarint_cases hhead
    split at hcases
    · refine iff_of_true ⟨_, hcases⟩ ?_
      rintro _ ⟨⟩
      assumption
    · rename_i hfits
      obtain ⟨x, hok⟩ := hcases
      refine iff_of_false ?_ fun h => hfits (h first rfl)
      rintro ⟨needed, herr⟩
      rw [hok] at herr
      cases herr

/-- Varints are read back as they were written, none can be written shorter, and what is read is
in range, whatever the bytes. -/
theorem varint_words :
    (∀ x : UInt64, x.toNat < 2 ^ 62 → ∃ bytes size,
      putVarintWord x = some bytes ∧ encodingSizeWord x = some size ∧ bytes.length = size ∧
      (∀ p rest, beVarintWord ⟨p, bytes ++ rest⟩ = .ok ⟨p + size, rest⟩ x) ∧
      ∀ s r, beVarintWord s = .ok r x → r.len + size ≤ s.len) ∧
    (∀ s r v, beVarintWord s = .ok r v →
      v.toNat < 2 ^ 62 ∧ (encodingSizeWord v).isSome = true ∧ (putVarintWord v).isSome = true ∧
      ∃ first ∈ s.bytes.head?, taggedLength first ≤ s.len ∧ r = s.drop (taggedLength first)) ∧
    ∀ s, (∃ needed, beVarintWord s = .err (.incomplete needed)) ↔
      ∀ first ∈ s.bytes.head?, s.len < taggedLength first := by
  refine ⟨?_, ?_, ?_⟩
  · intro w hw
    obtain ⟨x, rfl⟩ : ∃ x : VarInt, w = x.word := ⟨⟨w.toNat, hw⟩, UInt64.ofNat_toNat.symm⟩
    have hlen := putVarint_length x
    refine ⟨putVarint x, x.encodingSize, putVarintWord_word x, encodingSizeWord_word x, hlen, ?_, ?_⟩
    · intro p rest
      rw [beVarintWord_eq, (varintForm_put x).recognises p rest, hlen]
      rfl
    · intro s r h
      rw [beVarintWord_eq] at h
      obtain ⟨y, hy, hword⟩ := map_eq_ok.mp h
      obtain ⟨form, hform, hbytes⟩ := beVarint_form hy
      have hsame := VarInt.word_injective hword
      have hsize := hform.size_le
      rw [hsame] at hsize
      rw [Slice.len, Slice.len, hbytes, List.length_append]
      omega
  · intro s r v h
    rw [beVarintWord_eq] at h
    obtain ⟨x, hx, rfl⟩ := map_eq_ok.mp h
    refine ⟨?_, ?_, ?_, beVarint_drop hx⟩
    · rw [x.toNat_word]
      exact x.lt
    · rw [encodingSizeWord_word]
      rfl
    · rw [putVarintWord_word]
      rfl
  · intro s
    rw [← beVarint_incomplete_iff]
    refine exists_congr fun needed => ?_
    rw [beVarintWord_eq]
    exact map_eq_err

end Ddns
