import Mathlib.Data.List.Basic
import Mathlib.Data.Nat.Notation

/-! UTF-8 with lossy decoding: one replacement per maximal invalid chunk. -/
namespace Utf8

/-- The bytes of a text. -/
def encode (s : List Char) : List UInt8 := s.flatMap String.utf8EncodeChar

/-- A byte of the form `10xxxxxx`. -/
abbrev Cont (c : ℕ) : Prop := 0x80 ≤ c ∧ c ≤ 0xBF

/-- The second bytes that a three-byte lead admits. -/
abbrev Second3 (b c : ℕ) : Prop :=
  (b = 0xE0 ∧ 0xA0 ≤ c ∧ c ≤ 0xBF) ∨ (0xE1 ≤ b ∧ b ≤ 0xEC ∧ Cont c) ∨
    (b = 0xED ∧ 0x80 ≤ c ∧ c ≤ 0x9F) ∨ (0xEE ≤ b ∧ b ≤ 0xEF ∧ Cont c)

/-- The second bytes that a four-byte lead admits. -/
abbrev Second4 (b c : ℕ) : Prop :=
  (b = 0xF0 ∧ 0x90 ≤ c ∧ c ≤ 0xBF) ∨ (0xF1 ≤ b ∧ b ≤ 0xF3 ∧ Cont c) ∨
    (b = 0xF4 ∧ 0x80 ≤ c ∧ c ≤ 0x8F)

/-- The character that starts at byte `b` and goes on with the bytes `c₁ c₂ c₃`, or `none`
for an invalid chunk; and how many bytes it takes after `b`. -/
def chunkOf (b c₁ c₂ c₃ : ℕ) : Option Char × ℕ :=
  if b < 0x80 then (some (Char.ofNat b), 0)
  else if 0xC2 ≤ b ∧ b ≤ 0xDF then
    if Cont c₁ then (some (Char.ofNat (b % 32 * 64 + c₁ % 64)), 1) else (none, 0)
  else if 0xE0 ≤ b ∧ b ≤ 0xEF then
    if Second3 b c₁ then
      if Cont c₂ then (some (Char.ofNat ((b % 16 * 64 + c₁ % 64) * 64 + c₂ % 64)), 2)
      else (none, 1)
    else (none, 0)
  else if 0xF0 ≤ b ∧ b ≤ 0xF4 then
    if Second4 b c₁ then
      if Cont c₂ then
        if Cont c₃ then
          (some (Char.ofNat (((b % 8 * 64 + c₁ % 64) * 64 + c₂ % 64) * 64 + c₃ % 64)), 3)
        else (none, 2)
      else (none, 1)
    else (none, 0)
  else (none, 0)

/-- The first chunk of `b :: rest`. Bytes past the end read as zero. -/
def chunk (b : UInt8) (rest : List UInt8) : Option Char × ℕ :=
  chunkOf b.toNat (rest.getD 0 0).toNat (rest.getD 1 0).toNat (rest.getD 2 0).toNat

def chunksAux : ℕ → List UInt8 → List (Option Char)
  | 0, _ => []
  | _ + 1, [] => []
  | n + 1, b :: rest => (chunk b rest).1 :: chunksAux n (rest.drop (chunk b rest).2)

/-- The characters and invalid chunks of a byte string, in order. -/
def chunks (bs : List UInt8) : List (Option Char) := chunksAux bs.length bs

/-- Each invalid chunk becomes U+FFFD. -/
def fromUtf8Lossy (bs : List UInt8) : List Char := (chunks bs).map (·.getD '\uFFFD')

/-- The text of a byte string without invalid chunks. -/
def fromUtf8 (bs : List UInt8) : Option (List Char) := (chunks bs).mapM id

@[simp] theorem encode_nil : encode [] = [] := rfl

@[simp] theorem encode_cons (c : Char) (s : List Char) :
    encode (c :: s) = String.utf8EncodeChar c ++ encode s := rfl

@[simp] theorem encode_append (s t : List Char) : encode (s ++ t) = encode s ++ encode t := by
  simp [encode]

theorem char_range (c : Char) : c.toNat < 0xD800 ∨ (0xDFFF < c.toNat ∧ c.toNat < 0x110000) :=
  c.valid

theorem toNat_ofNat_of_lt {n : ℕ} (h : n < 256) : (UInt8.ofNat n).toNat = n := by
  rw [UInt8.toNat_ofNat']
  exact Nat.mod_eq_of_lt h

/-- The first chunk of an encoded character is that character. -/
theorem chunk_utf8EncodeChar (c : Char) (rest : List UInt8) :
    ∃ b cs, String.utf8EncodeChar c = b :: cs ∧ chunk b (cs ++ rest) = (some c, cs.length) := by
  have hc : Char.ofNat c.toNat = c := Char.ofNat_toNat c
  have hr := char_range c
  have hv : c.val.toNat = c.toNat := rfl
  unfold String.utf8EncodeChar
  simp only [hv]
  generalize c.toNat = v at hc hr
  -- one case per encoded length
  split
  · refine ⟨_, [], rfl, ?_⟩
    rw [chunk, toNat_ofNat_of_lt (by omega), chunkOf, if_pos (by omega), hc]
    rfl
  split
  · refine ⟨_, [_], rfl, ?_⟩
    simp only [chunk, List.cons_append, List.getD_cons_zero]
    rw [toNat_ofNat_of_lt (by omega), toNat_ofNat_of_lt (by omega), chunkOf,
      if_neg (by omega), if_pos (by omega), if_pos (by omega)]
    rw [show (v / 64 % 32 + 192) % 32 * 64 + (v % 64 + 128) % 64 = v by omega, hc]
    rfl
  split
  · refine ⟨_, [_, _], rfl, ?_⟩
    simp only [chunk, List.cons_append, List.getD_cons_zero, List.getD_cons_succ]
    rw [toNat_ofNat_of_lt (by omega), toNat_ofNat_of_lt (by omega),
      toNat_ofNat_of_lt (by omega), chunkOf, if_neg (by omega), if_neg (by omega),
      if_pos (by omega), if_pos (by omega), if_pos (by omega)]
    rw [show ((v / 4096 % 16 + 224) % 16 * 64 + (v / 64 % 64 + 128) % 64) * 64 +
      (v % 64 + 128) % 64 = v by omega, hc]
    rfl
  · refine ⟨_, [_, _, _], rfl, ?_⟩
    simp only [chunk, List.cons_append, List.getD_cons_zero, List.getD_cons_succ]
    rw [toNat_ofNat_of_lt (by omega), toNat_ofNat_of_lt (by omega),
      toNat_ofNat_of_lt (by omega), toNat_ofNat_of_lt (by omega), chunkOf,
      if_neg (by omega), if_neg (by omega), if_neg (by omega), if_pos (by omega),
      if_pos (by omega), if_pos (by omega), if_pos (by omega)]
    rw [show (((v / 262144 % 8 + 240) % 8 * 64 + (v / 4096 % 64 + 128) % 64) * 64 +
      (v / 64 % 64 + 128) % 64) * 64 + (v % 64 + 128) % 64 = v by omega, hc]
    rfl

theorem chunksAux_encode (s : List Char) (n : ℕ) (h : (encode s).length ≤ n) :
    chunksAux n (encode s) = s.map some := by
  induction s generalizing n with
  | nil => cases n <;> rfl
  | cons c s ih =>
    obtain ⟨b, cs, he, hk⟩ := chunk_utf8EncodeChar c (encode s)
    rw [encode_cons, he, List.cons_append] at h ⊢
    obtain ⟨m, rfl⟩ : ∃ m, n = m + 1 := ⟨n - 1, by simp at h; omega⟩
    simp only [chunksAux, hk, List.map_cons, List.drop_left]
    rw [ih m (by simp at h; omega)]

theorem chunks_encode (s : List Char) : chunks (encode s) = s.map some :=
  chunksAux_encode s _ (Nat.le_refl _)

@[simp] theorem fromUtf8Lossy_encode (s : List Char) : fromUtf8Lossy (encode s) = s := by
  rw [fromUtf8Lossy, chunks_encode, List.map_map]
  exact List.map_id s

@[simp] theorem fromUtf8_encode (s : List Char) : fromUtf8 (encode s) = some s := by
  rw [fromUtf8, chunks_encode]
  induction s with
  | nil => rfl
  | cons c s ih => simp [ih]

theorem encode_injective : Function.Injective encode := by
  intro s t h
  rw [← fromUtf8Lossy_encode s, h, fromUtf8Lossy_encode]

theorem encode_eq_nil {s : List Char} : encode s = [] ↔ s = [] := by
  constructor
  · intro h
    exact encode_injective h
  · rintro rfl
    rfl

theorem chunksAux_length_le (n : ℕ) (bs : List UInt8) : (chunksAux n bs).length ≤ bs.length := by
  induction n generalizing bs with
  | zero => exact Nat.zero_le _
  | succ n ih =>
    cases bs with
    | nil => exact Nat.le_refl _
    | cons b rest =>
      have hrest := ih (rest.drop (chunk b rest).2)
      rw [List.length_drop] at hrest
      rw [chunksAux, List.length_cons, List.length_cons]
      omega

/-- Lossy decoding makes a text of at most one character for each byte. -/
theorem fromUtf8Lossy_length_le (bs : List UInt8) : (fromUtf8Lossy bs).length ≤ bs.length := by
  rw [fromUtf8Lossy, List.length_map]
  exact chunksAux_length_le _ bs

theorem fromUtf8Lossy_ne_nil {bs : List UInt8} (h : bs ≠ []) : fromUtf8Lossy bs ≠ [] := by
  cases bs with
  | nil => exact absurd rfl h
  | cons b rest =>
    rw [fromUtf8Lossy, chunks, List.length_cons, chunksAux]
    exact List.cons_ne_nil _ _

theorem toNat_ofNat_char {v : ℕ} (h : v < 0xD800 ∨ (0xDFFF < v ∧ v < 0x110000)) :
    (Char.ofNat v).val.toNat = v := by
  have hv : v.isValidChar := h
  rw [Char.ofNat, dif_pos hv]
  rfl

/-- The encoding of a code point, by its length. -/
theorem utf8EncodeChar_ofNat {v : ℕ} (h : v < 0xD800 ∨ (0xDFFF < v ∧ v < 0x110000)) :
    String.utf8EncodeChar (Char.ofNat v) =
      if v ≤ 0x7F then [UInt8.ofNat v]
      else if v ≤ 0x7FF then [UInt8.ofNat (v / 64 % 32 + 192), UInt8.ofNat (v % 64 + 128)]
      else if v ≤ 0xFFFF then
        [UInt8.ofNat (v / 4096 % 16 + 224), UInt8.ofNat (v / 64 % 64 + 128),
          UInt8.ofNat (v % 64 + 128)]
      else
        [UInt8.ofNat (v / 262144 % 8 + 240), UInt8.ofNat (v / 4096 % 64 + 128),
          UInt8.ofNat (v / 64 % 64 + 128), UInt8.ofNat (v % 64 + 128)] := by
  unfold String.utf8EncodeChar
  rw [toNat_ofNat_char h]

theorem ofNat_eq_of_toNat {n : ℕ} {b : UInt8} (h : n = b.toNat) : UInt8.ofNat n = b := by
  rw [h, UInt8.ofNat_toNat]

/-- A byte other than zero was not read past the end. -/
theorem exists_cons_of_getD (bs : List UInt8) (h : 0 < (bs.getD 0 0).toNat) :
    ∃ b cs, bs = b :: cs := by
  cases bs with
  | nil => cases h
  | cons b cs => exact ⟨b, cs, rfl⟩

/-- A valid chunk is the encoding of its character. -/
theorem utf8EncodeChar_of_chunk {b : UInt8} {rest : List UInt8} {c : Char} {k : ℕ}
    (h : chunk b rest = (some c, k)) :
    ∃ cs, rest = cs ++ rest.drop k ∧ String.utf8EncodeChar c = b :: cs := by
  have hb := b.toNat_lt
  unfold chunk chunkOf at h
  -- one case per encoded length
  split at h
  · cases h
    refine ⟨[], rfl, ?_⟩
    rw [utf8EncodeChar_ofNat (by omega), if_pos (by omega), ofNat_eq_of_toNat rfl]
  split at h
  · split at h
    · rename_i hc₁
      cases h
      obtain ⟨c₁, rest, rfl⟩ := exists_cons_of_getD rest (by omega)
      rw [List.getD_cons_zero] at *
      refine ⟨[c₁], rfl, ?_⟩
      rw [utf8EncodeChar_ofNat (by omega), if_neg (by omega), if_pos (by omega),
        ofNat_eq_of_toNat (b := b) (by omega), ofNat_eq_of_toNat (b := c₁) (by omega)]
    · cases h
  split at h
  · split at h
    · split at h
      · rename_i hs hc₂
        cases h
        obtain ⟨c₁, rest, rfl⟩ := exists_cons_of_getD rest (by omega)
        rw [List.getD_cons_succ] at *
        obtain ⟨c₂, rest, rfl⟩ := exists_cons_of_getD rest (by omega)
        simp only [List.getD_cons_zero] at hs hc₂ ⊢
        refine ⟨[c₁, c₂], rfl, ?_⟩
        rw [utf8EncodeChar_ofNat (by omega), if_neg (by omega), if_neg (by omega),
          if_pos (by omega), ofNat_eq_of_toNat (b := b) (by omega),
          ofNat_eq_of_toNat (b := c₁) (by omega), ofNat_eq_of_toNat (b := c₂) (by omega)]
      · cases h
    · cases h
  split at h
  · split at h
    · split at h
      · split at h
        · rename_i hs hc₂ hc₃
          cases h
          obtain ⟨c₁, rest, rfl⟩ := exists_cons_of_getD rest (by omega)
          simp only [List.getD_cons_succ] at *
          obtain ⟨c₂, rest, rfl⟩ := exists_cons_of_getD rest (by omega)
          simp only [List.getD_cons_succ] at *
          obtain ⟨c₃, rest, rfl⟩ := exists_cons_of_getD rest (by omega)
          simp only [List.getD_cons_zero] at *
          refine ⟨[c₁, c₂, c₃], rfl, ?_⟩
          rw [utf8EncodeChar_ofNat (by omega), if_neg (by omega), if_neg (by omega),
            if_neg (by omega), ofNat_eq_of_toNat (b := b) (by omega),
            ofNat_eq_of_toNat (b := c₁) (by omega), ofNat_eq_of_toNat (b := c₂) (by omega),
            ofNat_eq_of_toNat (b := c₃) (by omega)]
        · cases h
      · cases h
    · cases h
  · cases h

theorem encode_of_chunksAux {n : ℕ} {bs : List UInt8} {s : List Char} (hn : bs.length ≤ n)
    (h : chunksAux n bs = s.map some) : encode s = bs := by
  induction n generalizing bs s with
  | zero =>
    rw [List.length_eq_zero_iff.mp (Nat.le_zero.mp hn), List.map_eq_nil_iff.mp h.symm]
    rfl
  | succ n ih =>
    cases bs with
    | nil =>
      rw [List.map_eq_nil_iff.mp h.symm]
      rfl
    | cons b rest =>
      cases s with
      | nil => cases h
      | cons c s =>
        obtain ⟨hc, hs⟩ := List.cons.inj h
        obtain ⟨cs, hrest, hbytes⟩ := utf8EncodeChar_of_chunk (Prod.ext hc rfl)
        have hdrop : (rest.drop (chunk b rest).2).length ≤ n := by
          rw [List.length_drop]
          rw [List.length_cons] at hn
          omega
        rw [encode_cons, hbytes, ih hdrop hs, List.cons_append, ← hrest]

theorem eq_map_some_of_mapM {os : List (Option Char)} {s : List Char} (h : os.mapM id = some s) :
    os = s.map some := by
  induction os generalizing s with
  | nil =>
    cases h
    rfl
  | cons o os ih =>
    rw [List.mapM_cons] at h
    obtain ⟨c, hc, h⟩ := Option.bind_eq_some_iff.mp h
    obtain ⟨s', hs, h⟩ := Option.bind_eq_some_iff.mp h
    cases h
    rw [ih hs, List.map_cons]
    exact congrArg (· :: s'.map some) hc

/-- Only its own encoding is decoded to a text. -/
theorem encode_of_fromUtf8 {bs : List UInt8} {s : List Char} (h : fromUtf8 bs = some s) :
    encode s = bs :=
  encode_of_chunksAux (Nat.le_refl _) (eq_map_some_of_mapM h)

/-- An ASCII text has one byte for each character. -/
theorem encode_length_le (text : List Char) : (encode text).length ≤ 4 * text.length := by
  induction text with
  | nil => simp
  | cons c text ih =>
    have hc := c.utf8Size_le_four
    simp only [encode_cons, List.length_append, List.length_cons,
      String.length_utf8EncodeChar]
    omega

theorem encode_length_of_ascii {s : List Char} (h : ∀ c ∈ s, c.toNat < 128) :
    (encode s).length = s.length := by
  induction s with
  | nil => rfl
  | cons c s ih =>
    have hc : c.toNat ≤ 127 := Nat.lt_succ_iff.mp (h c List.mem_cons_self)
    have hbyte : (String.utf8EncodeChar c).length = 1 := by
      simp [String.utf8EncodeChar, hc]
    rw [encode_cons, List.length_append, hbyte, List.length_cons,
      ih fun c' hc' => h c' (List.mem_cons_of_mem _ hc'), Nat.add_comm]

end Utf8
