import Ddns.Library.BigEndian

/-! Streaming parsers over slices of one buffer, with the three failure modes of nom. -/
namespace Nom

open BigEndian

/-- A borrowed slice: where it starts in its buffer, and what it holds. -/
structure Slice where
  pos : ℕ
  bytes : List UInt8
  deriving DecidableEq

namespace Slice

def len (s : Slice) : ℕ := s.bytes.length

/-- The position just past the slice. -/
def stop (s : Slice) : ℕ := s.pos + s.len

def drop (s : Slice) (n : ℕ) : Slice := ⟨s.pos + n, s.bytes.drop n⟩

def take (s : Slice) (n : ℕ) : Slice := ⟨s.pos, s.bytes.take n⟩

/-- `t` is what is left of `s` after reading some of it. -/
def Suffix (t s : Slice) : Prop := ∃ n ≤ s.len, t = s.drop n

@[simp] theorem drop_zero (s : Slice) : s.drop 0 = s := rfl

@[simp] theorem drop_pos (s : Slice) (n : ℕ) : (s.drop n).pos = s.pos + n := rfl

@[simp] theorem drop_bytes (s : Slice) (n : ℕ) : (s.drop n).bytes = s.bytes.drop n := rfl

theorem drop_drop (s : Slice) (m n : ℕ) : (s.drop m).drop n = s.drop (m + n) := by
  simp [drop, Nat.add_assoc]

theorem drop_len (s : Slice) (n : ℕ) : (s.drop n).len = s.len - n := by simp [len]

theorem drop_stop {s : Slice} {n : ℕ} (h : n ≤ s.len) : (s.drop n).stop = s.stop := by
  simp only [stop, drop_len, drop_pos]
  omega

theorem Suffix.refl (s : Slice) : Suffix s s := ⟨0, Nat.zero_le _, rfl⟩

theorem Suffix.trans {r s t : Slice} (hrs : Suffix r s) (hst : Suffix s t) : Suffix r t := by
  obtain ⟨m, hm, rfl⟩ := hrs
  obtain ⟨n, hn, rfl⟩ := hst
  rw [drop_len] at hm
  exact ⟨n + m, by omega, drop_drop t n m⟩

theorem Suffix.drop {s : Slice} {n : ℕ} (h : n ≤ s.len) : Suffix (s.drop n) s := ⟨n, h, rfl⟩

theorem Suffix.stop_eq {t s : Slice} (h : Suffix t s) : t.stop = s.stop := by
  obtain ⟨n, hn, rfl⟩ := h
  exact drop_stop hn

theorem Suffix.pos_le {t s : Slice} (h : Suffix t s) : s.pos ≤ t.pos := by
  obtain ⟨n, hn, rfl⟩ := h
  exact Nat.le_add_right _ _

/-- Two remainders of one slice are ordered by their positions. -/
theorem Suffix.of_pos_le {r t s : Slice} (hr : Suffix r s) (ht : Suffix t s)
    (h : t.pos ≤ r.pos) : Suffix r t := by
  obtain ⟨m, hm, rfl⟩ := hr
  obtain ⟨n, hn, rfl⟩ := ht
  simp only [drop_pos] at h
  refine ⟨m - n, by rw [drop_len]; omega, ?_⟩
  rw [drop_drop]
  congr 1
  omega

end Slice

/-- The error codes that the parsers raise. -/
inductive ErrorKind where
  | verify
  | alt
  | eof
  | tooLarge
  | lengthValue
  deriving DecidableEq

/-- `Incomplete` carries the missing byte count; the others the slice they were raised at. -/
inductive Err where
  | incomplete (needed : ℕ)
  | error (input : Slice) (code : ErrorKind)
  | failure (input : Slice) (code : ErrorKind)
  deriving DecidableEq

/-- Either the remaining input with a value, or an error. -/
inductive IResult (α : Type) where
  | ok (remain : Slice) (value : α)
  | err (e : Err)
  deriving DecidableEq

section Rules

variable {α β : Type}

/-- The `?` operator: an error ends the parse, a value is passed on with the remaining input. -/
def IResult.andThen (x : IResult α) (f : Slice → α → IResult β) : IResult β :=
  match x with
  | .ok remain value => f remain value
  | .err e => .err e

def IResult.map (f : α → β) (x : IResult α) : IResult β :=
  x.andThen fun remain value => .ok remain (f value)

/-- What a parse guarantees of its remainder and value, and of its error. -/
def Yields (x : IResult α) (post : Slice → α → Prop) (bad : Err → Prop) : Prop :=
  (∀ s a, x = .ok s a → post s a) ∧ ∀ e, x = .err e → bad e

@[simp] theorem andThen_ok (s : Slice) (a : α) (f : Slice → α → IResult β) :
    (IResult.ok s a).andThen f = f s a := rfl

@[simp] theorem andThen_err (e : Err) (f : Slice → α → IResult β) :
    (IResult.err e).andThen f = .err e := rfl

@[simp] theorem map_ok (g : α → β) (s : Slice) (a : α) :
    (IResult.ok s a).map g = .ok s (g a) := rfl

@[simp] theorem map_err (g : α → β) (e : Err) : (IResult.err e : IResult α).map g = .err e := rfl

theorem andThen_andThen {γ : Type} (x : IResult α) (f : Slice → α → IResult β)
    (g : Slice → β → IResult γ) :
    (x.andThen f).andThen g = x.andThen fun s a => (f s a).andThen g := by
  cases x <;> rfl

theorem andThen_eq_ok {x : IResult α} {f : Slice → α → IResult β} {r : Slice} {b : β} :
    x.andThen f = .ok r b ↔ ∃ s a, x = .ok s a ∧ f s a = .ok r b := by
  cases x <;> simp

theorem andThen_eq_err {x : IResult α} {f : Slice → α → IResult β} {e : Err} :
    x.andThen f = .err e ↔ x = .err e ∨ ∃ s a, x = .ok s a ∧ f s a = .err e := by
  cases x <;> simp

theorem map_eq_ok {g : α → β} {x : IResult α} {r : Slice} {b : β} :
    x.map g = .ok r b ↔ ∃ a, x = .ok r a ∧ g a = b := by
  cases x <;> simp [and_assoc]

theorem map_eq_err {g : α → β} {x : IResult α} {e : Err} : x.map g = .err e ↔ x = .err e := by
  cases x <;> simp

theorem Yields.ok {s : Slice} {a : α} {post : Slice → α → Prop} {bad : Err → Prop}
    (h : post s a) : Yields (.ok s a) post bad := by
  refine ⟨?_, by simp⟩
  rintro _ _ ⟨⟩
  exact h

theorem Yields.err {e : Err} {post : Slice → α → Prop} {bad : Err → Prop}
    (h : bad e) : Yields (.err e : IResult α) post bad := by
  refine ⟨by simp, ?_⟩
  rintro _ ⟨⟩
  exact h

theorem Yields.andThen {x : IResult α} {f : Slice → α → IResult β} {mid : Slice → α → Prop}
    {post : Slice → β → Prop} {bad : Err → Prop} (hx : Yields x mid bad)
    (hf : ∀ s a, mid s a → Yields (f s a) post bad) : Yields (x.andThen f) post bad := by
  cases x with
  | ok s a => exact hf s a (hx.1 s a rfl)
  | err e => exact Yields.err (hx.2 e rfl)

theorem Yields.mono {x : IResult α} {post post' : Slice → α → Prop} {bad bad' : Err → Prop}
    (h : Yields x post bad) (hp : ∀ s a, post s a → post' s a) (hb : ∀ e, bad e → bad' e) :
    Yields x post' bad' :=
  ⟨fun s a hx => hp s a (h.1 s a hx), fun e hx => hb e (h.2 e hx)⟩

end Rules

/-- Nom's streaming `be_u8`. -/
def beU8 (input : Slice) : IResult UInt8 :=
  match input.bytes with
  | [] => .err (.incomplete 1)
  | b :: rest => .ok ⟨input.pos + 1, rest⟩ b

/-- Nom's streaming `take`. -/
def take (count : ℕ) (input : Slice) : IResult Slice :=
  if input.len < count then .err (.incomplete (count - input.len))
  else .ok (input.drop count) (input.take count)

/-- Nom's streaming `be_u16`, `be_u32` and `be_u128`. -/
def beWord {α : Type} [Word α] (input : Slice) : IResult α :=
  (take (Word.size α) input).map fun bs => getWord bs.bytes

abbrev beU16 : Slice → IResult UInt16 := beWord

abbrev beU32 : Slice → IResult UInt32 := beWord

abbrev beU128 : Slice → IResult (BitVec 128) := beWord

def Incomplete (e : Err) : Prop := ∃ n, e = .incomplete n

theorem beU8_cons (p : ℕ) (b : UInt8) (t : List UInt8) :
    beU8 ⟨p, b :: t⟩ = .ok ⟨p + 1, t⟩ b := rfl

theorem beU8_ok {s r : Slice} {b : UInt8} (h : beU8 s = .ok r b) :
    s.bytes = b :: r.bytes ∧ r = s.drop 1 ∧ 1 ≤ s.len := by
  unfold beU8 at h
  split at h
  · cases h
  · rename_i c rest hs
    cases h
    simp [Slice.drop, Slice.len, hs]

theorem beU8_error {s : Slice} {e : Err} (h : beU8 s = .err e) :
    s.bytes = [] ∧ e = .incomplete 1 := by
  unfold beU8 at h
  split at h
  · rename_i hs
    cases h
    exact ⟨hs, rfl⟩
  · cases h

theorem take_append (bs : List UInt8) {n : ℕ} (h : bs.length = n) (p : ℕ) (t : List UInt8) :
    take n ⟨p, bs ++ t⟩ = .ok ⟨p + n, t⟩ ⟨p, bs⟩ := by
  subst h
  simp [take, Slice.drop, Slice.take, Slice.len]

theorem take_ok {n : ℕ} {s r bs : Slice} (h : take n s = .ok r bs) :
    n ≤ s.len ∧ r = s.drop n ∧ bs = s.take n := by
  unfold take at h
  split at h
  · cases h
  · cases h
    exact ⟨by omega, rfl, rfl⟩

theorem take_error {n : ℕ} {s : Slice} {e : Err} (h : take n s = .err e) :
    s.len < n ∧ e = .incomplete (n - s.len) := by
  unfold take at h
  split at h
  · cases h
    exact ⟨by assumption, rfl⟩
  · cases h

section Word

variable {α : Type} [Word α]

theorem beWord_put (p : ℕ) (x : α) (t : List UInt8) :
    beWord ⟨p, putWord x ++ t⟩ = .ok ⟨p + Word.size α, t⟩ x := by
  rw [beWord, take_append _ (putWord_length x), map_ok, getWord_putWord]

theorem beWord_ok {s r : Slice} {x : α} (h : beWord s = .ok r x) :
    s.bytes = putWord x ++ r.bytes ∧ r = s.drop (Word.size α) ∧ Word.size α ≤ s.len := by
  obtain ⟨bs, ht, rfl⟩ := map_eq_ok.mp h
  obtain ⟨hn, rfl, rfl⟩ := take_ok ht
  refine ⟨?_, rfl, hn⟩
  have hl : (s.bytes.take (Word.size α)).length = Word.size α := by
    simpa [Slice.len] using hn
  rw [show (s.take (Word.size α)).bytes = s.bytes.take (Word.size α) from rfl,
    putWord_getWord hl]
  exact (List.take_append_drop _ _).symm

theorem beWord_error {s : Slice} {e : Err} (h : (beWord s : IResult α) = .err e) :
    Incomplete e :=
  ⟨_, (take_error (map_eq_err.mp h)).2⟩

end Word

/-- A field that is there only when a flag says so. -/
def cond {α : Type} (present : Bool) (parser : Slice → IResult α) (input : Slice) :
    IResult (Option α) :=
  if present then (parser input).map some else .ok input none

theorem cond_ok {α : Type} {present : Bool} {parser : Slice → IResult α} {s r : Slice}
    {x : Option α} (h : cond present parser s = .ok r x) :
    (present = true ∧ ∃ a, parser s = .ok r a ∧ x = some a) ∨
      (present = false ∧ r = s ∧ x = none) := by
  cases present with
  | true =>
    obtain ⟨a, ha, rfl⟩ := map_eq_ok.mp h
    exact .inl ⟨rfl, a, ha, rfl⟩
  | false =>
    cases h
    exact .inr ⟨rfl, rfl, rfl⟩

/-- A parser that is run a given number of times. -/
def count {α : Type} (parser : Slice → IResult α) : ℕ → Slice → IResult (List α)
  | 0, input => .ok input []
  | n + 1, input =>
    (parser input).andThen fun remain value => (count parser n remain).map fun rest => value :: rest

section Recognises

variable {α β : Type} {parser : Slice → IResult α} {v w : List UInt8} {a : α} {b : β}

/-- Wherever the bytes `w` stand, the parser reads them as `a` and stops after them. -/
def Recognises (parser : Slice → IResult α) (w : List UInt8) (a : α) : Prop :=
  ∀ p t, parser ⟨p, w ++ t⟩ = .ok ⟨p + w.length, t⟩ a

theorem Recognises.andThen (h : Recognises parser v a) (next : α → Slice → IResult β)
    (hn : Recognises (next a) w b) :
    Recognises (fun s => (parser s).andThen fun r x => next x r) (v ++ w) b := by
  intro p t
  dsimp only
  rw [List.append_assoc, h, andThen_ok, hn, List.length_append, Nat.add_assoc]

theorem Recognises.map (h : Recognises parser w a) (f : α → β) :
    Recognises (fun s => (parser s).map f) w (f a) := by
  intro p t
  dsimp only
  rw [h, map_ok]

theorem recognises_u8 (x : UInt8) : Recognises beU8 [x] x := fun _ _ => rfl

theorem recognises_word [Word α] (x : α) : Recognises beWord (putWord x) x := by
  intro p t
  rw [beWord_put, putWord_length]

theorem recognises_u16 (x : UInt16) : Recognises beU16 (putWord x) x := recognises_word x

theorem recognises_u32 (x : UInt32) : Recognises beU32 (putWord x) x := recognises_word x

/-- An optional field is read back when its flag tells whether it is there. -/
theorem recognises_cond {present : Bool} {x : Option α} (put : α → List UInt8)
    (hp : present = x.isSome) (h : ∀ a ∈ x, Recognises parser (put a) a) :
    Recognises (Nom.cond present parser) (x.elim [] put) x := by
  intro p t
  subst hp
  cases x with
  | none => rfl
  | some a =>
    rw [cond, Option.isSome_some, if_pos rfl, Option.elim_some, h a rfl, map_ok]

theorem recognises_count {put : α → List UInt8} (xs : List α)
    (h : ∀ x ∈ xs, Recognises parser (put x) x) :
    Recognises (Nom.count parser xs.length) (xs.flatMap put) xs := by
  induction xs with
  | nil =>
    intro p t
    exact rfl
  | cons x xs ih =>
    intro p t
    have hrest := ih fun y hy => h y (List.mem_cons_of_mem _ hy)
    rw [List.length_cons, count, List.flatMap_cons, List.append_assoc, h x List.mem_cons_self,
      andThen_ok, hrest, map_ok, List.length_append, Nat.add_assoc]

end Recognises

section Local

variable {α β : Type}

/-- An error that carries no slice, or a non-empty rest of `s`. A failure ends the parse, so the
slice it carries is not looked at. -/
def LocalErr (s : Slice) : Err → Prop
  | .incomplete _ => True
  | .error t _ => t.Suffix s ∧ t.bytes ≠ []
  | .failure _ _ => True

/-- The parser leaves a rest of its input, also when it fails. -/
def Local (parser : Slice → IResult α) : Prop :=
  ∀ s, Yields (parser s) (fun r _ => r.Suffix s) (LocalErr s)

theorem LocalErr.mono {s t : Slice} {e : Err} (hst : t.Suffix s) (h : LocalErr t e) :
    LocalErr s e := by
  cases e with
  | incomplete n => trivial
  | error u k => exact ⟨h.1.trans hst, h.2⟩
  | failure u k => trivial

theorem LocalErr.of_incomplete {s : Slice} {e : Err} (h : Incomplete e) : LocalErr s e := by
  obtain ⟨n, rfl⟩ := h
  trivial

theorem Local.andThen {parser : Slice → IResult α} (h : Local parser)
    (next : α → Slice → IResult β) (hn : ∀ a, Local (next a)) :
    Local fun s => (parser s).andThen fun r x => next x r := by
  intro s
  refine Yields.andThen (h s) ?_
  intro r a hr
  exact (hn a r).mono (fun _ _ hs => hs.trans hr) (fun _ he => he.mono hr)

theorem Local.map {parser : Slice → IResult α} (h : Local parser) (f : α → β) :
    Local fun s => (parser s).map f := by
  intro s
  refine Yields.andThen (h s) ?_
  intro r a hr
  exact Yields.ok hr

theorem Local.cond {present : Bool} {parser : Slice → IResult α} (h : Local parser) :
    Local (Nom.cond present parser) := by
  intro s
  cases present with
  | false => exact Yields.ok (Slice.Suffix.refl s)
  | true => exact h.map some s

theorem local_u8 : Local beU8 := by
  intro s
  refine ⟨?_, ?_⟩
  · intro r b h
    obtain ⟨_, rfl, hlen⟩ := beU8_ok h
    exact Slice.Suffix.drop hlen
  · intro e h
    exact .of_incomplete ⟨1, (beU8_error h).2⟩

theorem local_take (n : ℕ) : Local (take n) := by
  intro s
  refine ⟨?_, ?_⟩
  · intro r b h
    obtain ⟨hn, rfl, _⟩ := take_ok h
    exact Slice.Suffix.drop hn
  · intro e h
    exact .of_incomplete ⟨_, (take_error h).2⟩

theorem local_word [Word α] : Local (beWord : Slice → IResult α) := (local_take _).map _

end Local

section Fixed

variable {α β : Type} {parser : Slice → IResult α} {m n : ℕ}

/-- The parser succeeds on `n` bytes or more, and takes `n` of them. -/
def Fixed (parser : Slice → IResult α) (n : ℕ) : Prop :=
  ∀ s, n ≤ s.len → ∃ a, parser s = .ok (s.drop n) a

theorem Fixed.andThen (h : Fixed parser m) (next : α → Slice → IResult β)
    (hn : ∀ a, Fixed (next a) n) :
    Fixed (fun s => (parser s).andThen fun r x => next x r) (m + n) := by
  intro s hs
  obtain ⟨a, ha⟩ := h s (by omega)
  obtain ⟨b, hb⟩ := hn a (s.drop m) (by rw [Slice.drop_len]; omega)
  refine ⟨b, ?_⟩
  dsimp only
  rw [ha, andThen_ok, hb, Slice.drop_drop]

theorem Fixed.map (h : Fixed parser n) (f : α → β) : Fixed (fun s => (parser s).map f) n := by
  intro s hs
  obtain ⟨a, ha⟩ := h s hs
  exact ⟨f a, by dsimp only; rw [ha, map_ok]⟩

theorem Fixed.cond (present : Bool) (h : Fixed parser n) :
    Fixed (Nom.cond present parser) (if present then n else 0) := by
  cases present with
  | false =>
    intro s _
    exact ⟨none, rfl⟩
  | true => exact h.map some

theorem fixed_take (n : ℕ) : Fixed (take n) n := by
  intro s hs
  exact ⟨s.take n, by rw [take, if_neg (by omega)]⟩

theorem fixed_word [BigEndian.Word α] :
    Fixed (beWord : Slice → IResult α) (BigEndian.Word.size α) := (fixed_take _).map _

end Fixed

end Nom
