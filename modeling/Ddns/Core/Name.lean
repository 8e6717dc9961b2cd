import Mathlib.Data.List.Sublists
import Ddns.Library.Slice
import Ddns.Library.Utf8

/-! Domain names: the compressing writer and the decoder with its visited offsets. -/
namespace Ddns

open Nom BigEndian

/-- A `String` as its sequence of Unicode scalar values. -/
abbrev Name := List Char

/-- `parts.join(".")` -/
def dotJoin (labels : List Name) : Name := ['.'].intercalate labels

/-- The suffixes already written, each with its offset in the message. The first entry of a
suffix is the one that counts. -/
structure NameCompression where
  suffixOffsets : List (Name × UInt16)

namespace NameCompression

def new : NameCompression := ⟨[]⟩

def getSuffixOffset (ctx : NameCompression) (suffix : Name) : Option UInt16 :=
  ctx.suffixOffsets.lookup suffix

/-- `entry(suffix).or_insert(offset)` -/
def rememberSuffix (ctx : NameCompression) (suffix : Name) (offset : UInt16) :
    NameCompression :=
  ⟨ctx.suffixOffsets ++ [(suffix, offset)]⟩

end NameCompression

/-- The non-empty parts of a name that are written as labels. -/
def nameLabels (trimmed : Name) : List Name := (trimmed.splitOn '.').filter (· ≠ [])

/-- The suffix of the name at each label, built from the last label backwards. -/
def nameSuffixes : List Name → List Name
  | [] => []
  | label :: labels =>
    match nameSuffixes labels with
    | [] => [label]
    | current :: suffixes => (label ++ '.' :: current) :: current :: suffixes

/-- The loop of `put_name` over labels and their suffixes. -/
def putLabels (buf : List UInt8) (ctx : NameCompression) :
    List (Name × Name) → List UInt8 × NameCompression
  | [] => (buf ++ [0], ctx)
  | (label, suffix) :: rest =>
    match ctx.getSuffixOffset suffix with
    | some offset => (buf ++ putWord (0xC000 ||| (offset &&& 0x3FFF)), ctx)
    | none =>
      let ctx :=
        if buf.length ≤ 0x3FFF then ctx.rememberSuffix suffix (UInt16.ofNat buf.length) else ctx
      putLabels
        (buf ++ UInt8.ofNat (Utf8.encode label).length :: Utf8.encode label) ctx rest

/-- Appends `name` and returns the number of bytes appended. -/
def putName (buf : List UInt8) (name : Name) (ctx : NameCompression) :
    List UInt8 × NameCompression × ℕ :=
  let done (out : List UInt8 × NameCompression) := (out.1, out.2, out.1.length - buf.length)
  if name = ['.'] then done (buf ++ [0], ctx)
  else
    let trimmed := if name.getLast? = some '.' then name.dropLast else name
    if trimmed = [] then done (buf ++ [0], ctx)
    else
      let labels := nameLabels trimmed
      if labels = [] then done (buf ++ [0], ctx)
      else done (putLabels buf ctx (labels.zip (nameSuffixes labels)))

/-- The 14-bit offset of a compression pointer. -/
def pointerOffset (hi lo : UInt8) : ℕ := (hi &&& 0x3F).toNat <<< 8 ||| lo.toNat

/-- The loop of one `be_name_labels` call. `jump` is the recursive call at an offset; `none`
means that the fuel of the loop or of the recursion ran out. -/
def beNameLoop (origin : Slice) (visited : List ℕ) (jump : ℕ → Option (IResult (List Name))) :
    ℕ → Slice → Option (IResult (List Name))
  | 0, _ => none
  | fuel + 1, input =>
    match beU8 input with
    | .err e => some (.err e)
    | .ok remain len =>
      if len = 0 then some (.ok remain [])
      else if len &&& 0xC0 = 0xC0 then
        match beU8 remain with
        | .err e => some (.err e)
        | .ok remain offsetByte =>
          let offset := pointerOffset len offsetByte
          if origin.len ≤ offset ∨ offset ∈ visited then some (.err (.error input .verify))
          else
            -- the remainder of the pointed-to name is dropped: the pointer ends this one
            (jump offset).map (·.andThen fun _ suffix => .ok remain suffix)
      else if 63 < len then some (.err (.error input .verify))
      else
        match take len.toNat remain with
        | .err e => some (.err e)
        | .ok remain labelBytes =>
          (beNameLoop origin visited jump fuel remain).map
            (·.map (Utf8.fromUtf8Lossy labelBytes.bytes :: ·))

/-- `be_name_labels` with at most `depth` nested calls. -/
def beNameLabels : ℕ → Slice → Slice → List ℕ → Option (IResult (List Name))
  | 0, _, _, _ => none
  | depth + 1, input, origin, visited =>
    beNameLoop origin visited
      (fun offset => beNameLabels depth (origin.drop offset) origin (offset :: visited))
      (input.len + 1) input

/-- The offsets a pointer can name in `origin`, and the outermost call. -/
def nameDepth (origin : Slice) : ℕ := min (2 ^ 14) origin.len + 1

theorem pointerOffset_eq (hi lo : UInt8) :
    pointerOffset hi lo = hi.toNat % 64 * 256 + lo.toNat := by
  have hm : (hi &&& 0x3F).toNat = hi.toNat % 64 := by
    rw [UInt8.toNat_and]
    exact Nat.and_two_pow_sub_one_eq_mod hi.toNat 6
  have ho := Nat.two_pow_add_eq_or_of_lt (i := 8) lo.toNat_lt (hi.toNat % 64)
  rw [pointerOffset, hm, Nat.shiftLeft_eq, Nat.mul_comm (hi.toNat % 64), ← ho]

theorem pointer_tag (b : UInt8) : b &&& 0xC0 = 0xC0 ↔ 192 ≤ b.toNat := by
  have h : ∀ n < 256, (n &&& 192 = 192 ↔ 192 ≤ n) := by decide +kernel
  rw [← UInt8.toNat_inj, UInt8.toNat_and]
  exact h _ b.toNat_lt

theorem pointerOffset_of_tag {hi : UInt8} (lo : UInt8) (h : 192 ≤ hi.toNat) :
    pointerOffset hi lo = (hi.toNat - 192) * 256 + lo.toNat := by
  have := hi.toNat_lt
  rw [pointerOffset_eq]
  omega

/-- What one pass of the loop comes to. -/
inductive NameTurn where
  | done (r : IResult (List Name))
  | jump (offset : ℕ) (remain : Slice)
  | label (bytes : List UInt8) (remain : Slice)

/-- How the loop goes on, with its jumps and its next pass. -/
def NameTurn.run (jump : ℕ → Option (IResult (List Name)))
    (next : Slice → Option (IResult (List Name))) : NameTurn → Option (IResult (List Name))
  | .done r => some r
  | .jump offset remain => (jump offset).map (·.andThen fun _ suffix => .ok remain suffix)
  | .label bytes remain => (next remain).map (·.map (Utf8.fromUtf8Lossy bytes :: ·))

/-- The passes that there are, by the bytes they start at. -/
inductive Turned (origin : Slice) (visited : List ℕ) (input : Slice) : NameTurn → Prop
  | empty (hb : input.bytes = []) : Turned origin visited input (.done (.err (.incomplete 1)))
  | root {rest : List UInt8} (hb : input.bytes = 0 :: rest) :
      Turned origin visited input (.done (.ok (input.drop 1) []))
  | half {hi : UInt8} (hb : input.bytes = [hi]) (hi' : 192 ≤ hi.toNat) :
      Turned origin visited input (.done (.err (.incomplete 1)))
  | refused {hi lo : UInt8} {rest : List UInt8} (hb : input.bytes = hi :: lo :: rest)
      (hi' : 192 ≤ hi.toNat) (ho : origin.len ≤ (hi.toNat - 192) * 256 + lo.toNat ∨
        (hi.toNat - 192) * 256 + lo.toNat ∈ visited) :
      Turned origin visited input (.done (.err (.error input .verify)))
  | pointer {hi lo : UInt8} {rest : List UInt8} (hb : input.bytes = hi :: lo :: rest)
      (hi' : 192 ≤ hi.toNat) (ho : (hi.toNat - 192) * 256 + lo.toNat < origin.len)
      (hv : (hi.toNat - 192) * 256 + lo.toNat ∉ visited) :
      Turned origin visited input (.jump ((hi.toNat - 192) * 256 + lo.toNat) (input.drop 2))
  | reserved {len : UInt8} {rest : List UInt8} (hb : input.bytes = len :: rest)
      (hmin : 63 < len.toNat) (htag : len.toNat < 192) :
      Turned origin visited input (.done (.err (.error input .verify)))
  | cut {len : UInt8} {rest : List UInt8} (hb : input.bytes = len :: rest) (hne : len ≠ 0)
      (hmax : len.toNat ≤ 63) (hshort : rest.length < len.toNat) :
      Turned origin visited input (.done (.err (.incomplete (len.toNat - rest.length))))
  | label {len : UInt8} {label rest : List UInt8} (hb : input.bytes = len :: (label ++ rest))
      (hlen : len.toNat = label.length) (hpos : 1 ≤ label.length) (hmax : label.length ≤ 63) :
      Turned origin visited input (.label label (input.drop (1 + label.length)))

/-- Every pass is one of these, whatever the jumps give and however much fuel is left. -/
theorem beNameLoop_turn (origin : Slice) (visited : List ℕ) (input : Slice) :
    ∃ turn, Turned origin visited input turn ∧ ∀ jump fuel,
      beNameLoop origin visited jump (fuel + 1) input =
        turn.run jump (beNameLoop origin visited jump fuel) := by
  cases hb : beU8 input with
  | err e =>
    obtain ⟨hbytes, rfl⟩ := beU8_error hb
    exact ⟨_, .empty hbytes, fun jump fuel => by rw [beNameLoop, hb]; rfl⟩
  | ok remain len =>
    obtain ⟨hbytes, rfl, hlen⟩ := beU8_ok hb
    by_cases hzero : len = 0
    · rw [hzero] at hb hbytes
      refine ⟨_, .root hbytes, fun jump fuel => ?_⟩
      simp only [beNameLoop, hb, if_true]
      rfl
    by_cases htag : len &&& 0xC0 = 0xC0
    · have hhi := (pointer_tag len).mp htag
      cases hlo : beU8 (input.drop 1) with
      | err e =>
        obtain ⟨hnil, rfl⟩ := beU8_error hlo
        rw [hnil] at hbytes
        refine ⟨_, .half hbytes hhi, fun jump fuel => ?_⟩
        simp only [beNameLoop, hb, if_neg hzero, if_pos htag, hlo]
        rfl
      | ok remain lo =>
        obtain ⟨hrest, rfl, _⟩ := beU8_ok hlo
        rw [hrest] at hbytes
        by_cases hbad : origin.len ≤ (len.toNat - 192) * 256 + lo.toNat ∨
            (len.toNat - 192) * 256 + lo.toNat ∈ visited
        · refine ⟨_, .refused hbytes hhi hbad, fun jump fuel => ?_⟩
          simp only [beNameLoop, hb, if_neg hzero, if_pos htag, hlo, pointerOffset_of_tag lo hhi,
            if_pos hbad]
          rfl
        · obtain ⟨hin, hnew⟩ := not_or.mp hbad
          refine ⟨_, .pointer hbytes hhi (by omega) hnew, fun jump fuel => ?_⟩
          simp only [beNameLoop, hb, if_neg hzero, if_pos htag, hlo, pointerOffset_of_tag lo hhi,
            if_neg hbad, Slice.drop_drop]
          rfl
    have hlow : ¬ 192 ≤ len.toNat := fun h => htag ((pointer_tag len).mpr h)
    by_cases hlong : 63 < len
    · refine ⟨_, .reserved hbytes hlong (by omega), fun jump fuel => ?_⟩
      simp only [beNameLoop, hb, if_neg hzero, if_neg htag, if_pos hlong]
      rfl
    have hmax : ¬ 63 < len.toNat := hlong
    have hpos : len.toNat ≠ 0 := fun h0 => hzero (UInt8.toNat_inj.mp h0)
    cases ht : take len.toNat (input.drop 1) with
    | err e =>
      obtain ⟨hshort, rfl⟩ := take_error ht
      refine ⟨_, .cut hbytes hzero (by omega) hshort, fun jump fuel => ?_⟩
      simp only [beNameLoop, hb, if_neg hzero, if_neg htag, if_neg hlong, ht]
      rfl
    | ok remain label =>
      obtain ⟨hl, rfl, rfl⟩ := take_ok ht
      have hlabel : len.toNat = ((input.drop 1).take len.toNat).bytes.length := by
        simp only [Slice.len] at hl
        rw [Slice.take, List.length_take]
        omega
      have hsplit : input.bytes = len :: (((input.drop 1).take len.toNat).bytes ++
          (input.drop 1).bytes.drop len.toNat) := by
        rw [Slice.take, List.take_append_drop]
        exact hbytes
      refine ⟨_, .label hsplit hlabel (by omega) (by omega), fun jump fuel => ?_⟩
      simp only [beNameLoop, hb, if_neg hzero, if_neg htag, if_neg hlong, ht, Slice.drop_drop]
      rw [← hlabel]
      rfl

/-- A loop with more fuel than input ends, provided that its jumps do. -/
theorem beNameLoop_isSome {origin : Slice} {visited : List ℕ}
    {jump : ℕ → Option (IResult (List Name))}
    (hj : ∀ offset, offset < 2 ^ 14 → offset < origin.len → offset ∉ visited →
      (jump offset).isSome)
    {fuel : ℕ} {input : Slice} (hf : input.len < fuel) :
    (beNameLoop origin visited jump fuel input).isSome := by
  induction fuel generalizing input with
  | zero => omega
  | succ fuel ih =>
    obtain ⟨turn, hturn, hrun⟩ := beNameLoop_turn origin visited input
    rw [hrun]
    cases hturn with
    | @pointer hi lo rest hb hi' ho hv =>
      have hhi := hi.toNat_lt
      have hlo := lo.toNat_lt
      rw [NameTurn.run, Option.isSome_map]
      exact hj _ (by omega) ho hv
    | @label len label rest hb hlen hpos hmax =>
      rw [NameTurn.run, Option.isSome_map]
      apply ih
      have hlong := congrArg List.length hb
      simp only [List.length_cons, List.length_append] at hlong
      rw [Slice.drop_len]
      simp only [Slice.len] at hf ⊢
      omega
    | _ => rfl

/-- The recursion uses up an unvisited offset at every level. -/
theorem beNameLabels_isSome {origin : Slice} {depth : ℕ} {input : Slice} {visited : List ℕ}
    (hn : visited.Nodup) (hv : ∀ v ∈ visited, v < min (2 ^ 14) origin.len)
    (hd : nameDepth origin ≤ depth + visited.length) :
    (beNameLabels depth input origin visited).isSome := by
  induction depth generalizing input visited with
  | zero =>
    have hsub : visited ⊆ List.range (min (2 ^ 14) origin.len) := by
      intro v hmem
      exact List.mem_range.mpr (hv v hmem)
    have := (List.subperm_of_subset hn hsub).length_le
    simp only [nameDepth, List.length_range] at hd this
    omega
  | succ depth ih =>
    apply beNameLoop_isSome _ (Nat.lt_succ_self _)
    intro offset h14 hlen hnot
    apply ih (List.nodup_cons.mpr ⟨hnot, hn⟩)
    · intro v hmem
      rcases List.mem_cons.mp hmem with rfl | hmem
      · omega
      · exact hv v hmem
    · simp only [List.length_cons]
      omega

theorem beNameLabels_start_isSome (input origin : Slice) :
    (beNameLabels (nameDepth origin) input origin []).isSome :=
  beNameLabels_isSome List.nodup_nil (by simp) (by simp)

/-- The text of a decoded label list. -/
def nameOfLabels (labels : List Name) : Name := if labels = [] then ['.'] else dotJoin labels

/-- `be_name`: the labels at `input`, within the depth that always suffices. -/
def beName (input origin : Slice) : IResult Name :=
  ((beNameLabels (nameDepth origin) input origin []).get
    (beNameLabels_start_isSome input origin)).map nameOfLabels

end Ddns
