import Mathlib.Data.List.Basic
import Mathlib.Tactic.Positivity
import Mathlib.Tactic.Ring

/-! Fixed-width big-endian numbers as byte lists. -/
namespace BigEndian

/-- The low `k` bytes of `n`, most significant first. -/
def toBE : ℕ → ℕ → List UInt8
  | 0, _ => []
  | k + 1, n => UInt8.ofNat (n / 256 ^ k) :: toBE k n

/-- The number that a byte list spells, most significant byte first. -/
def ofBE : List UInt8 → ℕ
  | [] => 0
  | b :: bs => b.toNat * 256 ^ bs.length + ofBE bs

@[simp] theorem toBE_length (k n : ℕ) : (toBE k n).length = k := by
  induction k with
  | zero => rfl
  | succ k ih => simp [toBE, ih]

theorem ofBE_lt (bs : List UInt8) : ofBE bs < 256 ^ bs.length := by
  induction bs with
  | nil => simp [ofBE]
  | cons b bs ih =>
    have hb : b.toNat + 1 ≤ 256 := b.toNat_lt
    calc ofBE (b :: bs) < b.toNat * 256 ^ bs.length + 256 ^ bs.length := by
          simp only [ofBE]; omega
      _ = (b.toNat + 1) * 256 ^ bs.length := by ring
      _ ≤ 256 * 256 ^ bs.length := Nat.mul_le_mul_right _ hb
      _ = 256 ^ (b :: bs).length := by simp [Nat.pow_succ, Nat.mul_comm]

theorem ofBE_toBE (k n : ℕ) : ofBE (toBE k n) = n % 256 ^ k := by
  induction k with
  | zero => simp [toBE, ofBE, Nat.mod_one]
  | succ k ih =>
    have hbyte : (UInt8.ofNat (n / 256 ^ k)).toNat = n / 256 ^ k % 256 := by simp
    rw [toBE, ofBE, toBE_length, ih, hbyte, Nat.pow_succ, Nat.mod_mul]
    ring

theorem ofBE_toBE_of_lt {k n : ℕ} (h : n < 256 ^ k) : ofBE (toBE k n) = n := by
  rw [ofBE_toBE, Nat.mod_eq_of_lt h]

/-- Digits above position `k` do not show in the low `k` bytes. -/
theorem toBE_add_mul (k m n : ℕ) : toBE k (m * 256 ^ k + n) = toBE k n := by
  induction k generalizing m with
  | zero => rfl
  | succ k ih =>
    have hsplit : m * 256 ^ (k + 1) + n = m * 256 * 256 ^ k + n := by ring
    have hdiv : (m * 256 * 256 ^ k + n) / 256 ^ k = m * 256 + n / 256 ^ k := by
      rw [Nat.add_comm, Nat.add_mul_div_right _ _ (by positivity), Nat.add_comm]
    simp only [toBE, hsplit, hdiv, ih]
    congr 1
    apply UInt8.toNat_inj.mp
    simp

theorem ofBE_append (bs cs : List UInt8) :
    ofBE (bs ++ cs) = ofBE bs * 256 ^ cs.length + ofBE cs := by
  induction bs with
  | nil => simp [ofBE]
  | cons b bs ih =>
    simp only [List.cons_append, ofBE, List.length_append, ih]
    ring

/-- Padding on the right is shifted out again. -/
theorem ofBE_append_shiftRight (bs cs : List UInt8) :
    ofBE (bs ++ cs) >>> (8 * cs.length) = ofBE bs := by
  have hpow : 2 ^ (8 * cs.length) = 256 ^ cs.length := by rw [Nat.pow_mul]
  rw [Nat.shiftRight_eq_div_pow, hpow, ofBE_append, Nat.add_comm,
    Nat.add_mul_div_right _ _ (by positivity), Nat.div_eq_of_lt (ofBE_lt cs), Nat.zero_add]

theorem toBE_ofBE (bs : List UInt8) : toBE bs.length (ofBE bs) = bs := by
  induction bs with
  | nil => rfl
  | cons b bs ih =>
    have hdiv : (b.toNat * 256 ^ bs.length + ofBE bs) / 256 ^ bs.length = b.toNat := by
      rw [Nat.add_comm, Nat.add_mul_div_right _ _ (by positivity),
        Nat.div_eq_of_lt (ofBE_lt bs), Nat.zero_add]
    simp only [List.length_cons, toBE, ofBE, hdiv, toBE_add_mul, ih]
    simp

/-- A machine word of a fixed number of bytes. -/
class Word (α : Type) where
  size : ℕ
  toNat : α → ℕ
  ofNat : ℕ → α
  toNat_lt : ∀ x, toNat x < 256 ^ size
  ofNat_toNat : ∀ x, ofNat (toNat x) = x
  toNat_ofNat : ∀ n, n < 256 ^ size → toNat (ofNat n) = n

instance : Word UInt16 where
  size := 2
  toNat := UInt16.toNat
  ofNat := UInt16.ofNat
  toNat_lt x := x.toNat_lt
  ofNat_toNat x := by simp
  toNat_ofNat n h := by simpa using h

instance : Word UInt32 where
  size := 4
  toNat := UInt32.toNat
  ofNat := UInt32.ofNat
  toNat_lt x := x.toNat_lt
  ofNat_toNat x := by simp
  toNat_ofNat n h := by simpa using h

instance : Word UInt64 where
  size := 8
  toNat := UInt64.toNat
  ofNat := UInt64.ofNat
  toNat_lt x := x.toNat_lt
  ofNat_toNat x := by simp
  toNat_ofNat n h := by simpa using h

instance : Word (BitVec 128) where
  size := 16
  toNat := BitVec.toNat
  ofNat := BitVec.ofNat 128
  toNat_lt x := x.isLt
  ofNat_toNat x := by simp
  toNat_ofNat n h := by
    rw [BitVec.toNat_ofNat]
    exact Nat.mod_eq_of_lt h

variable {α : Type} [Word α]

/-- The bytes of a word, as they are written. -/
def putWord (x : α) : List UInt8 := toBE (Word.size α) (Word.toNat x)

/-- The word that as many bytes spell. -/
def getWord (bs : List UInt8) : α := Word.ofNat (ofBE bs)

@[simp] theorem putWord_length (x : α) : (putWord x).length = Word.size α := toBE_length _ _

@[simp] theorem getWord_putWord (x : α) : (getWord (putWord x) : α) = x := by
  rw [getWord, putWord, ofBE_toBE_of_lt (Word.toNat_lt x), Word.ofNat_toNat]

theorem putWord_getWord {bs : List UInt8} (h : bs.length = Word.size α) :
    putWord (getWord bs : α) = bs := by
  have hlt := ofBE_lt bs
  rw [h] at hlt
  rw [putWord, getWord, Word.toNat_ofNat _ hlt, ← h, toBE_ofBE]

end BigEndian
