import Ddns.Library.Text
import Ddns.Library.Utf8

/-! The `application/x-www-form-urlencoded` form of a list of pairs, as the URL standard has it. -/
namespace FormUrlencoded

/-- The bytes that stand for themselves: letters, digits and `*-._`. -/
def isPlain (b : UInt8) : Bool :=
  (48 ≤ b && b ≤ 57) || (65 ≤ b && b ≤ 90) || (97 ≤ b && b ≤ 122) ||
    b = 42 || b = 45 || b = 46 || b = 95

/-- Capital letters for the digits above nine. -/
def hexDigit (n : ℕ) : Char := if n < 10 then Char.ofNat (48 + n) else Char.ofNat (55 + n)

def hexValue (c : Char) : Option ℕ :=
  if '0' ≤ c ∧ c ≤ '9' then some (c.toNat - 48)
  else if 'A' ≤ c ∧ c ≤ 'F' then some (c.toNat - 55)
  else if 'a' ≤ c ∧ c ≤ 'f' then some (c.toNat - 87)
  else none

def encodeByte (b : UInt8) : List Char :=
  if isPlain b then [Char.ofNat b.toNat]
  else if b = 32 then ['+']
  else ['%', hexDigit (b.toNat / 16), hexDigit (b.toNat % 16)]

def encode (text : List Char) : List Char := (Utf8.encode text).flatMap encodeByte

/-- A `%` that no two digits follow stands for itself. -/
def decode : List Char → List UInt8
  | [] => []
  | '+' :: s => 32 :: decode s
  | '%' :: a :: b :: s =>
    match hexValue a, hexValue b with
    | some high, some low => UInt8.ofNat (16 * high + low) :: decode s
    | _, _ => 37 :: decode (a :: b :: s)
  | c :: s => String.utf8EncodeChar c ++ decode s

/-- Behind a query that is not empty stands a `&`. -/
def appendPair (query name value : List Char) : List Char :=
  let pair := encode name ++ '=' :: encode value
  if query.isEmpty then pair else query ++ '&' :: pair

def serialize (pairs : List (List Char × List Char)) : List Char :=
  pairs.foldl (fun query pair => appendPair query pair.1 pair.2) []

def parsePair (part : List Char) : List Char × List Char :=
  let pair := (Text.splitOnce '=' part).getD (part, [])
  (Utf8.fromUtf8Lossy (decode pair.1), Utf8.fromUtf8Lossy (decode pair.2))

def parse (query : List Char) : List (List Char × List Char) :=
  ((query.splitOn '&').filter fun part => !part.isEmpty).map parsePair

theorem hexValue_hexDigit {n : ℕ} (h : n < 16) : hexValue (hexDigit n) = some n := by
  have hall : ∀ n < 16, hexValue (hexDigit n) = some n := by decide +kernel
  exact hall n h

theorem forall_byte {P : UInt8 → Prop} (h : ∀ n < 256, P (UInt8.ofNat n)) (b : UInt8) : P b := by
  have hb := h b.toNat b.toNat_lt
  rwa [UInt8.ofNat_toNat] at hb

theorem encodeByte_plain {b : UInt8} (h : isPlain b = true) :
    ∃ c, encodeByte b = [c] ∧ String.utf8EncodeChar c = [b] ∧ c ≠ '+' ∧ c ≠ '%' := by
  have hall : ∀ b, isPlain b = true → String.utf8EncodeChar (Char.ofNat b.toNat) = [b] ∧
      Char.ofNat b.toNat ≠ '+' ∧ Char.ofNat b.toNat ≠ '%' := forall_byte (by decide +kernel)
  exact ⟨Char.ofNat b.toNat, if_pos h, hall b h⟩

/-- One byte is read back whatever follows it. -/
theorem decode_encodeByte (b : UInt8) (s : List Char) :
    decode (encodeByte b ++ s) = b :: decode s := by
  by_cases hplain : isPlain b = true
  · obtain ⟨c, hc, hutf8, hplus, hpercent⟩ := encodeByte_plain hplain
    rw [hc, List.singleton_append, decode.eq_4 _ _ hplus, hutf8, List.singleton_append]
    intro a b s hc'
    exact absurd hc' hpercent
  · by_cases hspace : b = 32
    · subst hspace
      rfl
    · have hb := b.toNat_lt
      rw [encodeByte, if_neg hplain, if_neg hspace]
      show decode ('%' :: _ :: _ :: s) = _
      rw [decode, hexValue_hexDigit (by omega), hexValue_hexDigit (by omega)]
      simp [Nat.div_add_mod]

theorem decode_flatMap (bs : List UInt8) : decode (bs.flatMap encodeByte) = bs := by
  induction bs with
  | nil => rfl
  | cons b bs ih => rw [List.flatMap_cons, decode_encodeByte, ih]

@[simp] theorem decode_encode (text : List Char) : decode (encode text) = Utf8.encode text :=
  decode_flatMap _

theorem not_mem_encodeByte {c : Char} (hc : c = '&' ∨ c = '=' ∨ c = '#') (b : UInt8) :
    c ∉ encodeByte b := by
  have hall : ∀ b, '&' ∉ encodeByte b ∧ '=' ∉ encodeByte b ∧ '#' ∉ encodeByte b :=
    forall_byte (by decide +kernel)
  obtain ⟨hand, heq, hhash⟩ := hall b
  rcases hc with rfl | rfl | rfl
  · exact hand
  · exact heq
  · exact hhash

/-- The separators of a query do not occur in what is written into it. -/
theorem not_mem_encode {c : Char} (hc : c = '&' ∨ c = '=' ∨ c = '#') (text : List Char) :
    c ∉ encode text := by
  intro hmem
  obtain ⟨b, _, hb⟩ := List.mem_flatMap.mp hmem
  exact not_mem_encodeByte hc b hb

theorem parsePair_encode (name value : List Char) :
    parsePair (encode name ++ '=' :: encode value) = (name, value) := by
  rw [parsePair, Text.splitOnce_append (not_mem_encode (by simp) name)]
  simp

/-- One more pair is read behind those that the query had, whatever it was. -/
theorem parse_appendPair (query name value : List Char) :
    parse (appendPair query name value) = parse query ++ [(name, value)] := by
  have hno : '&' ∉ encode name ++ '=' :: encode value := by
    simp [not_mem_encode]
  have hpair : (encode name ++ '=' :: encode value).isEmpty = false := by simp
  rw [appendPair]
  split
  · rename_i hempty
    rw [List.isEmpty_iff.mp hempty, parse, List.splitOn_eq_singleton hno]
    simp [parse, hpair, parsePair_encode]
  · rw [parse, List.splitOn_append_cons_self, List.splitOn_eq_singleton hno]
    simp [parse, hpair, parsePair_encode]

/-- What was written is what is read. -/
@[simp] theorem parse_serialize (pairs : List (List Char × List Char)) :
    parse (serialize pairs) = pairs := by
  induction pairs using List.reverseRecOn with
  | nil => rfl
  | append_singleton pairs pair ih =>
    rw [serialize, List.foldl_append, List.foldl_cons, List.foldl_nil, parse_appendPair, ← serialize,
      ih]

end FormUrlencoded
