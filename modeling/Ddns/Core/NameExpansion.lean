import Mathlib.Logic.Relation
import Ddns.Core.Name

/-! The decoder accepts exactly the names with a finite expansion. -/
namespace Ddns

open Nom

/-- RFC 1035 names read at `input`: a zero byte ends the name, a length byte adds a label, a
pointer appends the name at its offset and ends the name in place. -/
inductive Expands (origin : Slice) : Slice → List (List UInt8) → Slice → Prop
  | root {input : Slice} {rest : List UInt8} (hb : input.bytes = 0 :: rest) :
      Expands origin input [] (input.drop 1)
  | label {input remain : Slice} {len : UInt8} {label rest : List UInt8}
      {labels : List (List UInt8)} (hb : input.bytes = len :: (label ++ rest))
      (hlen : len.toNat = label.length) (hpos : 1 ≤ label.length) (hmax : label.length ≤ 63)
      (ht : Expands origin (input.drop (1 + label.length)) labels remain) :
      Expands origin input (label :: labels) remain
  | pointer {input remain : Slice} {hi lo : UInt8} {rest : List UInt8}
      {labels : List (List UInt8)} (hb : input.bytes = hi :: lo :: rest) (hi' : 192 ≤ hi.toNat)
      (ho : (hi.toNat - 192) * 256 + lo.toNat < origin.len)
      (ht : Expands origin (origin.drop ((hi.toNat - 192) * 256 + lo.toNat)) labels remain) :
      Expands origin input labels (input.drop 2)

/-- No name can be read at `s`. -/
def Dead (origin s : Slice) : Prop := ∀ labels remain, ¬ Expands origin s labels remain

/-- Where the reading of a name goes on after its first label or pointer. -/
def readOn (origin s : Slice) : Option Slice :=
  match s.bytes with
  | [] => none
  | len :: rest =>
    if len = 0 then none
    else if len.toNat ≤ 63 then some (s.drop (1 + len.toNat))
    else if 192 ≤ len.toNat then
      rest.head?.map fun lo => origin.drop ((len.toNat - 192) * 256 + lo.toNat)
    else none

/-- `t` is read right after `s`. -/
def After (origin t s : Slice) : Prop := readOn origin s = some t

variable {origin input remain : Slice} {labels : List (List UInt8)}

theorem Expands.unique {labels' : List (List UInt8)} {remain' : Slice}
    (h : Expands origin input labels remain) (h' : Expands origin input labels' remain') :
    labels = labels' ∧ remain = remain' := by
  induction h generalizing labels' remain' with
  | root hb =>
    cases h' with
    | root _ => exact ⟨rfl, rfl⟩
    | label hb' hlen hpos _ _ =>
      obtain ⟨rfl, _⟩ := List.cons.inj (hb.symm.trans hb')
      simp at hlen
      omega
    | pointer hb' hi' _ _ =>
      obtain ⟨rfl, _⟩ := List.cons.inj (hb.symm.trans hb')
      simp at hi'
  | label hb hlen hpos hmax _ ih =>
    cases h' with
    | root hb' =>
      obtain ⟨rfl, _⟩ := List.cons.inj (hb.symm.trans hb')
      simp at hlen
      omega
    | label hb' hlen' _ _ ht =>
      obtain ⟨rfl, hrest⟩ := List.cons.inj (hb.symm.trans hb')
      obtain ⟨rfl, _⟩ := List.append_inj hrest (hlen.symm.trans hlen')
      obtain ⟨rfl, rfl⟩ := ih ht
      exact ⟨rfl, rfl⟩
    | pointer hb' hi' _ _ =>
      obtain ⟨rfl, _⟩ := List.cons.inj (hb.symm.trans hb')
      omega
  | pointer hb hi' _ _ ih =>
    cases h' with
    | root hb' =>
      obtain ⟨rfl, _⟩ := List.cons.inj (hb.symm.trans hb')
      simp at hi'
    | label hb' hlen _ hmax _ =>
      obtain ⟨rfl, _⟩ := List.cons.inj (hb.symm.trans hb')
      omega
    | pointer hb' _ _ ht =>
      obtain ⟨rfl, hrest⟩ := List.cons.inj (hb.symm.trans hb')
      obtain ⟨rfl, _⟩ := List.cons.inj hrest
      exact ⟨(ih ht).1, rfl⟩

/-- Every label takes between one and 63 bytes. -/
theorem Expands.label_bounds (h : Expands origin input labels remain) :
    ∀ label ∈ labels, 1 ≤ label.length ∧ label.length ≤ 63 := by
  induction h with
  | root _ =>
    intro label hmem
    exact absurd hmem List.not_mem_nil
  | label _ _ hpos hmax _ ih => exact List.forall_mem_cons.mpr ⟨⟨hpos, hmax⟩, ih⟩
  | pointer _ _ _ _ ih => exact ih

theorem after_label (origin : Slice) {len : UInt8} {rest : List UInt8} (hb : input.bytes = len :: rest)
    (hpos : len ≠ 0) (hmax : len.toNat ≤ 63) :
    readOn origin input = some (input.drop (1 + len.toNat)) := by
  simp [readOn, hb, hpos, hmax]

theorem after_pointer (origin : Slice) {hi lo : UInt8} {rest : List UInt8}
    (hb : input.bytes = hi :: lo :: rest) (hi' : 192 ≤ hi.toNat) :
    readOn origin input = some (origin.drop ((hi.toNat - 192) * 256 + lo.toNat)) := by
  have hne : hi ≠ 0 := by rintro rfl; simp at hi'
  simp [readOn, hb, hne, hi', show ¬ hi.toNat ≤ 63 by omega]

/-- A finite expansion is read in finitely many steps. -/
theorem Expands.acc (h : Expands origin input labels remain) : Acc (After origin) input := by
  induction h with
  | root hb =>
    refine ⟨_, fun t ht => ?_⟩
    simp [After, readOn, hb] at ht
  | @label input _ len label _ _ hb hlen hpos hmax _ ih =>
    refine ⟨_, fun t ht => ?_⟩
    have hne : len ≠ 0 := by
      rintro rfl
      simp at hlen
      omega
    rw [After, after_label _ hb hne (by omega), hlen, Option.some.injEq] at ht
    exact ht ▸ ih
  | pointer hb hi' _ _ ih =>
    refine ⟨_, fun t ht => ?_⟩
    rw [After, after_pointer _ hb hi', Option.some.injEq] at ht
    exact ht ▸ ih

theorem not_self_of_acc {α : Type} {r : α → α → Prop} {a : α} (h : Acc r a) : ¬ r a a := by
  induction h with
  | intro a _ ih =>
    intro ha
    exact ih a ha ha

/-- Reading from `offset` comes to `input`. -/
def Leads (origin : Slice) (offset : ℕ) (input : Slice) : Prop :=
  Relation.ReflTransGen (After origin) input (origin.drop offset)

/-- A pointer back to where its own reading started has no finite expansion. -/
theorem dead_of_revisit {offset : ℕ} (hn : readOn origin input = some (origin.drop offset))
    (h : Leads origin offset input) : Dead origin input := by
  intro labels remain he
  have hloop : Relation.TransGen (After origin) input input := Relation.TransGen.tail' h hn
  exact not_self_of_acc he.acc.transGen hloop

/-- What a failed decoding says of its input and of the slice it carries. -/
def NameErr (origin input : Slice) (e : Err) : Prop :=
  Dead origin input ∧ (Incomplete e ∨ ∃ s, e = .error s .verify ∧ Dead origin s ∧
    s.bytes ≠ [] ∧ (s.Suffix input ∨ s.Suffix origin))

/-- What a decoding of labels guarantees. -/
def LabelsSpec (origin input : Slice) (r : IResult (List Name)) : Prop :=
  Yields r
    (fun remain names => ∃ labels, Expands origin input labels remain ∧
      names = labels.map Utf8.fromUtf8Lossy)
    (NameErr origin input)

theorem dead_of_nil (hb : input.bytes = []) : Dead origin input := by
  intro labels remain he
  cases he <;> simp_all

/-- A name that starts with a length byte has that label, and its rest expands. -/
theorem Expands.label_inv {len : UInt8} {rest : List UInt8}
    (h : Expands origin input labels remain) (hb : input.bytes = len :: rest) (hne : len ≠ 0)
    (htag : len.toNat < 192) :
    len.toNat ≤ 63 ∧ len.toNat ≤ rest.length ∧
      ∃ labels', Expands origin (input.drop (1 + len.toNat)) labels' remain := by
  cases h with
  | root hb' =>
    obtain ⟨rfl, _⟩ := List.cons.inj (hb.symm.trans hb')
    exact (hne rfl).elim
  | label hb' hlen hpos hmax ht =>
    obtain ⟨rfl, rfl⟩ := List.cons.inj (hb.symm.trans hb')
    refine ⟨by omega, by simp; omega, _, hlen ▸ ht⟩
  | pointer hb' hi' _ _ =>
    obtain ⟨rfl, _⟩ := List.cons.inj (hb.symm.trans hb')
    omega

/-- A name that starts with a pointer has both its bytes, and its target expands. -/
theorem Expands.pointer_inv {hi : UInt8} {rest : List UInt8}
    (h : Expands origin input labels remain) (hb : input.bytes = hi :: rest)
    (hi' : 192 ≤ hi.toNat) :
    ∃ lo rest', rest = lo :: rest' ∧ (hi.toNat - 192) * 256 + lo.toNat < origin.len ∧
      ∃ remain', Expands origin (origin.drop ((hi.toNat - 192) * 256 + lo.toNat)) labels remain' := by
  cases h with
  | root hb' =>
    obtain ⟨rfl, _⟩ := List.cons.inj (hb.symm.trans hb')
    simp at hi'
  | label hb' hlen hpos hmax ht =>
    obtain ⟨rfl, _⟩ := List.cons.inj (hb.symm.trans hb')
    omega
  | pointer hb' _ ho ht =>
    obtain ⟨rfl, rfl⟩ := List.cons.inj (hb.symm.trans hb')
    exact ⟨_, _, rfl, ho, _, ht⟩

/-- An error raised at the input itself. -/
theorem nameErr_here {b : UInt8} {rest : List UInt8} (hb : input.bytes = b :: rest)
    (hd : Dead origin input) : NameErr origin input (.error input .verify) :=
  ⟨hd, Or.inr ⟨input, rfl, hd, by simp [hb], Or.inl (Slice.Suffix.refl input)⟩⟩

/-- A name is as dead as the target of its pointer. -/
theorem Dead.of_pointer {hi lo : UInt8} {rest : List UInt8}
    (h : Dead origin (origin.drop ((hi.toNat - 192) * 256 + lo.toNat)))
    (hb : input.bytes = hi :: lo :: rest) (hi' : 192 ≤ hi.toNat) : Dead origin input := by
  intro labels remain he
  obtain ⟨lo', rest', hrest, _, remain', ht⟩ := he.pointer_inv hb hi'
  obtain ⟨rfl, _⟩ := List.cons.inj hrest
  exact h _ _ ht

/-- A name is as dead as what follows its first label. -/
theorem Dead.of_label {len : UInt8} {rest : List UInt8}
    (h : Dead origin (input.drop (1 + len.toNat))) (hb : input.bytes = len :: rest)
    (hne : len ≠ 0) (htag : len.toNat < 192) : Dead origin input := by
  intro labels remain he
  obtain ⟨_, _, labels', ht⟩ := he.label_inv hb hne htag
  exact h _ _ ht

/-- An error raised further on, at a place of the input or of the origin. -/
theorem NameErr.lift {t : Slice} {e : Err} (h : NameErr origin t e) (hd : Dead origin input)
    (ht : t.Suffix input ∨ t.Suffix origin) : NameErr origin input e := by
  obtain ⟨_, hi | ⟨s, rfl, hs, hne, hsuf⟩⟩ := h
  · exact ⟨hd, Or.inl hi⟩
  · refine ⟨hd, Or.inr ⟨s, rfl, hs, hne, ?_⟩⟩
    rcases hsuf with hsuf | hsuf
    · exact ht.imp hsuf.trans hsuf.trans
    · exact Or.inr hsuf

/-- A pass that ends the name, or gives it up, does so rightly. -/
theorem Turned.done_spec {visited : List ℕ} {r : IResult (List Name)}
    (h : Turned origin visited input (.done r)) (hv : ∀ v ∈ visited, Leads origin v input) :
    LabelsSpec origin input r := by
  cases h with
  | empty hb => exact Yields.err ⟨dead_of_nil hb, Or.inl ⟨_, rfl⟩⟩
  | root hb => exact Yields.ok ⟨[], .root hb, rfl⟩
  | half hb hi' =>
    refine Yields.err ⟨?_, Or.inl ⟨_, rfl⟩⟩
    intro labels remain he
    obtain ⟨lo, rest, hrest, _⟩ := he.pointer_inv hb hi'
    cases hrest
  | refused hb hi' ho =>
    refine Yields.err (nameErr_here hb ?_)
    rcases ho with hout | hmem
    · intro labels remain he
      obtain ⟨lo', rest, hrest, ho, _⟩ := he.pointer_inv hb hi'
      obtain ⟨rfl, _⟩ := List.cons.inj hrest
      omega
    · exact dead_of_revisit (after_pointer origin hb hi') (hv _ hmem)
  | @reserved len rest hb hmin htag =>
    refine Yields.err (nameErr_here hb ?_)
    intro labels remain he
    have hne : len ≠ 0 := by
      rintro rfl
      exact absurd hmin (by decide)
    have := (he.label_inv hb hne htag).1
    omega
  | cut hb hne hmax hshort =>
    refine Yields.err ⟨?_, Or.inl ⟨_, rfl⟩⟩
    intro labels remain he
    have := (he.label_inv hb hne (by omega)).2.1
    omega

/-- The loop, with the jumps taken as specified. Every offset it has visited leads to where it
stands. -/
theorem beNameLoop_spec {visited : List ℕ} {jump : ℕ → Option (IResult (List Name))}
    (hj : ∀ offset r, offset < origin.len → offset ∉ visited →
      (∀ v ∈ visited, Leads origin v (origin.drop offset)) → jump offset = some r →
      LabelsSpec origin (origin.drop offset) r)
    {fuel : ℕ} {r : IResult (List Name)} (hv : ∀ v ∈ visited, Leads origin v input)
    (hr : beNameLoop origin visited jump fuel input = some r) : LabelsSpec origin input r := by
  induction fuel generalizing input r with
  | zero => cases hr
  | succ fuel ih =>
    obtain ⟨turn, hturn, hrun⟩ := beNameLoop_turn origin visited input
    rw [hrun] at hr
    cases turn with
    | done r' =>
      obtain rfl := Option.some.inj hr
      exact hturn.done_spec hv
    | jump offset remain =>
      obtain ⟨r', hr', rfl⟩ := Option.map_eq_some_iff.mp hr
      cases hturn with
      | pointer hb hi' ho hnew =>
        have hspec := hj _ r' ho hnew (fun v hmem => (hv v hmem).head (after_pointer origin hb hi'))
          hr'
        refine Yields.andThen (hspec.mono (fun _ _ hp => hp) ?_) ?_
        · intro e he
          exact he.lift (he.1.of_pointer hb hi') (Or.inr (.drop (by omega)))
        · rintro remain names ⟨labels, hexp, rfl⟩
          exact Yields.ok ⟨labels, .pointer hb hi' ho hexp, rfl⟩
    | label bytes remain =>
      obtain ⟨r', hr', rfl⟩ := Option.map_eq_some_iff.mp hr
      cases hturn with
      | @label len _ rest hb hlen hpos hmax =>
        have hne : len ≠ 0 := by
          rintro rfl
          simp at hlen
          omega
        have hon := after_label origin hb hne (by omega)
        have hin : 1 + bytes.length ≤ input.len := by
          rw [Slice.len, hb, List.length_cons, List.length_append]
          omega
        rw [hlen] at hon
        have hspec := ih (fun v hmem => (hv v hmem).head hon) hr'
        refine Yields.andThen (hspec.mono (fun _ _ hp => hp) ?_) ?_
        · intro e he
          have hdead := he.1
          rw [← hlen] at hdead
          exact he.lift (hdead.of_label hb hne (by omega)) (Or.inl (.drop hin))
        · rintro remain names ⟨labels, hexp, rfl⟩
          exact Yields.ok ⟨bytes :: labels, .label hb hlen hpos hmax hexp, rfl⟩

theorem beNameLabels_spec {depth : ℕ} {visited : List ℕ} {r : IResult (List Name)}
    (hv : ∀ v ∈ visited, Leads origin v input)
    (hr : beNameLabels depth input origin visited = some r) : LabelsSpec origin input r := by
  induction depth generalizing input visited r with
  | zero => cases hr
  | succ depth ih =>
    refine beNameLoop_spec ?_ hv hr
    intro offset r' _ _ hlead hr'
    refine ih ?_ hr'
    intro v hmem
    rcases List.mem_cons.mp hmem with rfl | hmem
    · exact .refl
    · exact hlead v hmem

/-- Everything the decoder promises of one call. -/
theorem beName_yields (input origin : Slice) :
    Yields (beName input origin)
      (fun remain name => ∃ labels, Expands origin input labels remain ∧
        name = nameOfLabels (labels.map Utf8.fromUtf8Lossy))
      (NameErr origin input) := by
  have hspec : LabelsSpec origin input _ := beNameLabels_spec (by simp)
    (Option.some_get (beNameLabels_start_isSome input origin)).symm
  refine Yields.andThen hspec ?_
  rintro remain names ⟨labels, hexp, rfl⟩
  exact Yields.ok ⟨labels, hexp, rfl⟩

theorem beName_of_expands (h : Expands origin input labels remain) :
    beName input origin = .ok remain (nameOfLabels (labels.map Utf8.fromUtf8Lossy)) := by
  have hy := beName_yields input origin
  cases hr : beName input origin with
  | err e => exact ((hy.2 e hr).1 _ _ h).elim
  | ok remain' name =>
    obtain ⟨labels', h', rfl⟩ := hy.1 _ _ hr
    obtain ⟨rfl, rfl⟩ := h.unique h'
    rfl

theorem beNameLoop_mono {visited : List ℕ} {jump jump' : ℕ → Option (IResult (List Name))}
    (hj : ∀ offset r, jump offset = some r → jump' offset = some r) {fuel : ℕ}
    {r : IResult (List Name)} (hr : beNameLoop origin visited jump fuel input = some r) :
    beNameLoop origin visited jump' fuel input = some r := by
  induction fuel generalizing input r with
  | zero => cases hr
  | succ fuel ih =>
    obtain ⟨turn, _, hrun⟩ := beNameLoop_turn origin visited input
    rw [hrun] at hr ⊢
    cases turn with
    | done r' => exact hr
    | jump offset remain =>
      obtain ⟨r', hr', rfl⟩ := Option.map_eq_some_iff.mp hr
      rw [NameTurn.run, hj _ _ hr', Option.map_some]
    | label bytes remain =>
      obtain ⟨r', hr', rfl⟩ := Option.map_eq_some_iff.mp hr
      rw [NameTurn.run, ih hr', Option.map_some]

/-- A recursion that fits into a depth is not changed by more of it. -/
theorem beNameLabels_mono {depth depth' : ℕ} (hd : depth ≤ depth') {visited : List ℕ}
    {r : IResult (List Name)} (hr : beNameLabels depth input origin visited = some r) :
    beNameLabels depth' input origin visited = some r := by
  induction depth generalizing depth' input visited r with
  | zero => cases hr
  | succ depth ih =>
    obtain ⟨d, rfl⟩ : ∃ d, depth' = d + 1 := ⟨depth' - 1, by omega⟩
    exact beNameLoop_mono (fun offset r' hr' => ih (by omega) hr') hr

/-- Decoding ends within one call per pointer offset and the outermost one, and it accepts
exactly the finite expansions. -/
theorem beName_terminates_iff_expands (input origin : Slice) :
    (∃ r, ∀ depth, min (2 ^ 14) origin.len + 1 ≤ depth →
      beNameLabels depth input origin [] = some r) ∧
    ∀ remain name, beName input origin = .ok remain name ↔
      ∃ labels, Expands origin input labels remain ∧
        name = nameOfLabels (labels.map Utf8.fromUtf8Lossy) := by
  refine ⟨?_, ?_⟩
  · obtain ⟨r, hr⟩ := Option.isSome_iff_exists.mp (beNameLabels_start_isSome input origin)
    exact ⟨r, fun depth hd => beNameLabels_mono hd hr⟩
  · intro remain name
    constructor
    · exact (beName_yields input origin).1 remain name
    · rintro ⟨labels, hexp, rfl⟩
      exact beName_of_expands hexp

end Ddns
