import Ddns.Library.Slice

/-! Formats that are read back exactly: every byte string is the encoding of at most one value, and
a cut one is found to be incomplete. -/
namespace Nom

open BigEndian

variable {α β : Type} {parser : Slice → IResult α} {put : α → List UInt8} {domain : α → Prop}

/-- The parser reads what is written for the values of the domain, nothing else, and fails only for
want of input. -/
structure Format (parser : Slice → IResult α) (put : α → List UInt8) (domain : α → Prop) :
    Prop where
  reads : ∀ a, domain a → Recognises parser (put a) a
  writes : ∀ s r a, parser s = .ok r a → domain a ∧ s.bytes = put a ++ r.bytes
  incomplete : ∀ s e, parser s = .err e → Incomplete e

theorem Format.congr (h : Format parser put domain) {parser' : Slice → IResult α}
    {put' : α → List UInt8} {domain' : α → Prop} (hparser : ∀ s, parser' s = parser s)
    (hput : ∀ a, put' a = put a) (hdomain : ∀ a, domain' a ↔ domain a) :
    Format parser' put' domain' := by
  obtain rfl := funext hparser
  obtain rfl := funext hput
  obtain rfl : domain' = domain := funext fun a => propext (hdomain a)
  exact h

/-- One field after another. -/
theorem Format.pair {parser' : Slice → IResult β} {put' : β → List UInt8} {domain' : β → Prop}
    (h : Format parser put domain) (h' : Format parser' put' domain') :
    Format (fun s => (parser s).andThen fun r a => (parser' r).map fun b => (a, b))
      (fun x => put x.1 ++ put' x.2) (fun x => domain x.1 ∧ domain' x.2) := by
  refine ⟨?_, ?_, ?_⟩
  · rintro ⟨a, b⟩ ⟨ha, hb⟩
    exact (h.reads a ha).andThen (fun a r => (parser' r).map fun b => (a, b))
      ((h'.reads b hb).map fun b => (a, b))
  · intro s r x hx
    obtain ⟨remain, a, ha, hx⟩ := andThen_eq_ok.mp hx
    obtain ⟨b, hb, rfl⟩ := map_eq_ok.mp hx
    obtain ⟨hdomain, hbytes⟩ := h.writes _ _ _ ha
    obtain ⟨hdomain', hbytes'⟩ := h'.writes _ _ _ hb
    refine ⟨⟨hdomain, hdomain'⟩, ?_⟩
    rw [hbytes, hbytes', List.append_assoc]
  · intro s e he
    rcases andThen_eq_err.mp he with he | ⟨remain, a, _, he⟩
    · exact h.incomplete _ _ he
    · exact h'.incomplete _ _ (map_eq_err.mp he)

/-- The same bytes for another type of values. -/
theorem Format.map (h : Format parser put domain) (pack : α → β) (unpack : β → α)
    (hpack : ∀ b, pack (unpack b) = b) (hunpack : ∀ a, unpack (pack a) = a) :
    Format (fun s => (parser s).map pack) (fun b => put (unpack b)) (fun b => domain (unpack b)) := by
  refine ⟨?_, ?_, ?_⟩
  · intro b hb
    have hread := (h.reads _ hb).map pack
    rw [hpack] at hread
    exact hread
  · intro s r b hb
    obtain ⟨a, ha, rfl⟩ := map_eq_ok.mp hb
    rw [hunpack]
    exact h.writes _ _ _ ha
  · intro s e he
    exact h.incomplete _ _ (map_eq_err.mp he)

theorem count_ok (h : Format parser put domain) {n : ℕ} {s r : Slice} {xs : List α}
    (hxs : count parser n s = .ok r xs) :
    xs.length = n ∧ (∀ x ∈ xs, domain x) ∧ s.bytes = xs.flatMap put ++ r.bytes := by
  induction n generalizing s xs with
  | zero =>
    cases hxs
    simp
  | succ n ih =>
    obtain ⟨remain, x, hx, hxs⟩ := andThen_eq_ok.mp hxs
    obtain ⟨rest, hrest, rfl⟩ := map_eq_ok.mp hxs
    obtain ⟨hlength, hdomain, hbytes⟩ := ih hrest
    obtain ⟨hfirst, hfirstBytes⟩ := h.writes _ _ _ hx
    refine ⟨by simp [hlength], List.forall_mem_cons.mpr ⟨hfirst, hdomain⟩, ?_⟩
    rw [hfirstBytes, hbytes, List.flatMap_cons, List.append_assoc]

theorem count_incomplete (h : Format parser put domain) {n : ℕ} {s : Slice} {e : Err}
    (he : count parser n s = .err e) : Incomplete e := by
  induction n generalizing s with
  | zero => cases he
  | succ n ih =>
    rcases andThen_eq_err.mp he with he | ⟨remain, x, _, he⟩
    · exact h.incomplete _ _ he
    · exact ih (map_eq_err.mp he)

/-- As many values as a word before them says. -/
theorem Format.counted (β : Type) [Word β] (h : Format parser put domain) :
    Format (fun s => (beWord s).andThen fun r n => count parser (Word.toNat (n : β)) r)
      (fun xs => putWord (Word.ofNat xs.length : β) ++ xs.flatMap put)
      (fun xs => xs.length < 256 ^ Word.size β ∧ ∀ x ∈ xs, domain x) := by
  refine ⟨?_, ?_, ?_⟩
  · rintro xs ⟨hfew, hdomain⟩
    have hread := recognises_count xs fun x hx => h.reads x (hdomain x hx)
    rw [← Word.toNat_ofNat (α := β) xs.length hfew] at hread
    exact (recognises_word _).andThen (fun n r => count parser (Word.toNat (n : β)) r) hread
  · intro s r xs hxs
    obtain ⟨remain, n, hn, hxs⟩ := andThen_eq_ok.mp hxs
    obtain ⟨hcount, hdomain, hbytes⟩ := count_ok h hxs
    have hlt := Word.toNat_lt n
    refine ⟨⟨by omega, hdomain⟩, ?_⟩
    rw [(beWord_ok hn).1, hbytes, hcount, Word.ofNat_toNat, List.append_assoc]
  · intro s e he
    rcases andThen_eq_err.mp he with he | ⟨remain, n, _, he⟩
    · exact beWord_error he
    · exact count_incomplete h he

/-- As many bytes as a word before them says. -/
theorem format_sized (β : Type) [Word β] :
    Format (fun s => (beWord s).andThen fun r n =>
        (take (Word.toNat (n : β)) r).map fun value => value.bytes)
      (fun bytes => putWord (Word.ofNat bytes.length : β) ++ bytes)
      (fun bytes => bytes.length < 256 ^ Word.size β) := by
  refine ⟨?_, ?_, ?_⟩
  · intro bytes hshort
    have hlength := Word.toNat_ofNat (α := β) bytes.length hshort
    have hread : Recognises (fun r => (take (Word.toNat (Word.ofNat bytes.length : β)) r).map
        fun value => value.bytes) bytes bytes := by
      intro p t
      dsimp only
      rw [take_append bytes hlength.symm, map_ok, hlength]
    exact (recognises_word _).andThen
      (fun n r => (take (Word.toNat (n : β)) r).map fun value => value.bytes) hread
  · intro s r bytes h
    obtain ⟨remain, n, hn, h⟩ := andThen_eq_ok.mp h
    obtain ⟨value, hvalue, rfl⟩ := map_eq_ok.mp h
    obtain ⟨hfits, rfl, rfl⟩ := take_ok hvalue
    have hlength : (remain.take (Word.toNat n)).bytes.length = Word.toNat n :=
      List.length_take_of_le hfits
    have hlt := Word.toNat_lt n
    refine ⟨by omega, ?_⟩
    rw [(beWord_ok hn).1, hlength, Word.ofNat_toNat, List.append_assoc]
    exact congrArg _ (List.take_append_drop _ _).symm
  · intro s e he
    rcases andThen_eq_err.mp he with he | ⟨remain, n, _, he⟩
    · exact beWord_error he
    · exact ⟨_, (take_error (map_eq_err.mp he)).2⟩

/-- What is cut off anywhere is not read as something else. -/
theorem Format.incomplete_of_cut (h : Format parser put domain) {a : α} (ha : domain a) (p : ℕ)
    {part : List UInt8} (hpart : part <+: put a) (hne : part ≠ put a) :
    ∃ needed, parser ⟨p, part⟩ = .err (.incomplete needed) := by
  cases hread : parser ⟨p, part⟩ with
  | err e =>
    obtain ⟨needed, rfl⟩ := h.incomplete _ _ hread
    exact ⟨needed, rfl⟩
  | ok r b =>
    exfalso
    obtain ⟨rest, hrest⟩ := hpart
    obtain ⟨hb, hbytes⟩ := h.writes _ _ _ hread
    -- the whole would be read as both values
    have hwhole : put a = put b ++ (r.bytes ++ rest) := by
      rw [← hrest, ← List.append_assoc]
      exact congrArg (· ++ rest) hbytes
    have hfirst := h.reads a ha p []
    rw [List.append_nil, hwhole, h.reads b hb] at hfirst
    simp only [IResult.ok.injEq, Slice.mk.injEq] at hfirst
    have hnil := (List.append_eq_nil_iff.mp hfirst.1.2).2
    rw [hnil, List.append_nil] at hrest
    exact hne hrest

end Nom
