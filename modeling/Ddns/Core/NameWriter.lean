import Ddns.Core.NameExpansion

/-! What the writer appends depends on the message only through its length and the table, and
every suffix in the table can be read back at its offset. -/
namespace Ddns

open Nom BigEndian

/-- The table after a suffix is met for the first time at `len`. -/
def NameCompression.note (ctx : NameCompression) (suffix : Name) (len : ℕ) : NameCompression :=
  if len ≤ 0x3FFF then ctx.rememberSuffix suffix (UInt16.ofNat len) else ctx

/-- The length byte and the bytes of one label. -/
def labelWire (label : Name) : List UInt8 :=
  UInt8.ofNat (Utf8.encode label).length :: Utf8.encode label

/-- What the loop over `labels` appends to a message of `len` bytes, and its table. -/
def labelBytes (len : ℕ) (ctx : NameCompression) : List Name → List UInt8 × NameCompression
  | [] => ([0], ctx)
  | label :: labels =>
    match ctx.getSuffixOffset (dotJoin (label :: labels)) with
    | some offset => (putWord (0xC000 ||| (offset &&& 0x3FFF)), ctx)
    | none =>
      let rest := labelBytes (len + (labelWire label).length)
        (ctx.note (dotJoin (label :: labels)) len) labels
      (labelWire label ++ rest.1, rest.2)

/-- What `put_name` appends to a message of `len` bytes, and its table. -/
def nameBytes (len : ℕ) (name : Name) (ctx : NameCompression) : List UInt8 × NameCompression :=
  labelBytes len ctx (nameLabels name)

theorem dotJoin_cons_cons (label next : Name) (labels : List Name) :
    dotJoin (label :: next :: labels) = label ++ '.' :: dotJoin (next :: labels) := by
  simp [dotJoin]

theorem nameSuffixes_cons (label : Name) (labels : List Name) :
    nameSuffixes (label :: labels) = dotJoin (label :: labels) :: nameSuffixes labels := by
  induction labels generalizing label with
  | nil => simp [nameSuffixes, dotJoin]
  | cons next labels ih =>
    have hn := ih next
    rw [nameSuffixes, hn]
    simp only [List.cons.injEq, and_true]
    exact (dotJoin_cons_cons label next labels).symm

theorem putLabels_eq (buf : List UInt8) (ctx : NameCompression) (labels : List Name) :
    putLabels buf ctx (labels.zip (nameSuffixes labels)) =
      (buf ++ (labelBytes buf.length ctx labels).1, (labelBytes buf.length ctx labels).2) := by
  induction labels generalizing buf ctx with
  | nil => rfl
  | cons label labels ih =>
    rw [nameSuffixes_cons, List.zip_cons_cons, putLabels, labelBytes]
    cases hl : ctx.getSuffixOffset (dotJoin (label :: labels)) with
    | some offset => rfl
    | none =>
      have hi := ih (buf ++ labelWire label) (ctx.note (dotJoin (label :: labels)) buf.length)
      rw [List.length_append] at hi
      dsimp only
      rw [← List.append_assoc]
      exact hi

/-- A trailing dot adds an empty part, which is not written. -/
theorem nameLabels_trimmed (name : Name) :
    nameLabels (if name.getLast? = some '.' then name.dropLast else name) = nameLabels name := by
  split
  · rename_i hlast
    obtain ⟨body, rfl⟩ := List.getLast?_eq_some_iff.mp hlast
    have hsplit := List.splitOn_append_cons_self (a := '.') body []
    simp [nameLabels, hsplit]
  · rfl

theorem putName_eq (buf : List UInt8) (name : Name) (ctx : NameCompression) :
    putName buf name ctx = (buf ++ (nameBytes buf.length name ctx).1,
      (nameBytes buf.length name ctx).2, (nameBytes buf.length name ctx).1.length) := by
  have hroot : nameLabels name = [] → nameBytes buf.length name ctx = ([0], ctx) := by
    intro h
    rw [nameBytes, h, labelBytes]
  have htrim := nameLabels_trimmed name
  unfold putName
  dsimp only
  generalize (if name.getLast? = some '.' then name.dropLast else name) = trimmed at htrim ⊢
  by_cases hname : name = ['.']
  · rw [if_pos hname, hroot (by rw [hname]; decide)]
    simp
  rw [if_neg hname]
  by_cases hempty : trimmed = []
  · rw [if_pos hempty, hroot (by rw [← htrim, hempty]; decide)]
    simp
  rw [if_neg hempty, htrim]
  by_cases hlabels : nameLabels name = []
  · rw [if_pos hlabels, hroot hlabels]
    simp
  · rw [if_neg hlabels, putLabels_eq, nameBytes]
    simp

theorem labelBytes_pos (len : ℕ) (ctx : NameCompression) (labels : List Name) :
    1 ≤ (labelBytes len ctx labels).1.length := by
  cases labels with
  | nil => simp [labelBytes]
  | cons label labels =>
    rw [labelBytes]
    split
    · rw [putWord_length]
      decide
    · simp only [labelWire, List.length_append, List.length_cons]
      omega

theorem nameBytes_pos (len : ℕ) (name : Name) (ctx : NameCompression) :
    1 ≤ (nameBytes len name ctx).1.length :=
  labelBytes_pos len ctx _

/-- A label that the wire format can hold. -/
structure WellFormedLabel (label : Name) : Prop where
  nonempty : label ≠ []
  dotFree : '.' ∉ label
  short : (Utf8.encode label).length ≤ 63

/-- A list of labels that the wire format can hold. -/
def WellFormedLabels (labels : List Name) : Prop := ∀ l ∈ labels, WellFormedLabel l

/-- The root, or a dot-joined list of labels. -/
def WellFormedName (name : Name) : Prop :=
  name = ['.'] ∨ ∃ labels, labels ≠ [] ∧ WellFormedLabels labels ∧ name = dotJoin labels

instance (label : Name) : Decidable (WellFormedLabel label) :=
  decidable_of_iff (label ≠ [] ∧ '.' ∉ label ∧ (Utf8.encode label).length ≤ 63)
    ⟨fun h => ⟨h.1, h.2.1, h.2.2⟩, fun h => ⟨h.nonempty, h.dotFree, h.short⟩⟩

instance (labels : List Name) : Decidable (WellFormedLabels labels) :=
  inferInstanceAs (Decidable (∀ l ∈ labels, WellFormedLabel l))

theorem splitOn_dotJoin {labels : List Name} (hne : labels ≠ []) (hw : WellFormedLabels labels) :
    (dotJoin labels).splitOn '.' = labels :=
  List.splitOn_intercalate '.' (fun l hl => (hw l hl).dotFree) hne

/-- Splitting finds the labels of a name, if it has any. -/
theorem wellFormedName_iff (name : Name) :
    WellFormedName name ↔ name = ['.'] ∨ WellFormedLabels (name.splitOn '.') := by
  refine or_congr_right ?_
  constructor
  · rintro ⟨labels, hne, hw, rfl⟩
    rw [splitOn_dotJoin hne hw]
    exact hw
  · intro hw
    exact ⟨name.splitOn '.', List.splitOn_ne_nil _ _, hw, (List.intercalate_splitOn '.').symm⟩

instance (name : Name) : Decidable (WellFormedName name) :=
  decidable_of_iff _ (wellFormedName_iff name).symm

theorem nameLabels_dotJoin {labels : List Name} (hne : labels ≠ []) (hw : WellFormedLabels labels) :
    nameLabels (dotJoin labels) = labels := by
  rw [nameLabels, splitOn_dotJoin hne hw]
  apply List.filter_eq_self.mpr
  intro l hl
  simpa using (hw l hl).nonempty

theorem dotJoin_injective {labels labels' : List Name} (hne : labels ≠ []) (hne' : labels' ≠ [])
    (hw : WellFormedLabels labels) (hw' : WellFormedLabels labels')
    (h : dotJoin labels = dotJoin labels') : labels = labels' := by
  rw [← splitOn_dotJoin hne hw, h, splitOn_dotJoin hne' hw']

theorem mem_dotJoin {labels : List Name} {label : Name} (h : label ∈ labels) {c : Char}
    (hc : c ∈ label) : c ∈ dotJoin labels := by
  induction labels with
  | nil => exact absurd h List.not_mem_nil
  | cons first labels ih =>
    by_cases hne : labels = []
    · rw [hne] at h ⊢
      rw [List.mem_singleton.mp h] at hc
      simpa [dotJoin] using hc
    · rw [dotJoin, List.intercalate_cons_of_ne_nil hne, List.mem_append, List.mem_append]
      rcases List.mem_cons.mp h with rfl | h
      · exact Or.inl (Or.inl hc)
      · exact Or.inr (ih h)

theorem of_mem_dotJoin {labels : List Name} {c : Char} (h : c ∈ dotJoin labels) :
    c = '.' ∨ ∃ label ∈ labels, c ∈ label := by
  induction labels with
  | nil => exact absurd h List.not_mem_nil
  | cons first labels ih =>
    by_cases hne : labels = []
    · rw [hne, dotJoin, List.intercalate_singleton] at h
      exact Or.inr ⟨first, List.mem_cons_self, h⟩
    · rw [dotJoin, List.intercalate_cons_of_ne_nil hne, List.mem_append, List.mem_append] at h
      rcases h with (h | h) | h
      · exact Or.inr ⟨first, List.mem_cons_self, h⟩
      · exact Or.inl (List.mem_singleton.mp h)
      · rcases ih h with h | ⟨label, hlabel, h⟩
        · exact Or.inl h
        · exact Or.inr ⟨label, List.mem_cons_of_mem _ hlabel, h⟩

theorem dotJoin_append {labels labels' : List Name} (hne : labels ≠ []) (hne' : labels' ≠ []) :
    dotJoin (labels ++ labels') = dotJoin labels ++ '.' :: dotJoin labels' := by
  induction labels with
  | nil => exact absurd rfl hne
  | cons label labels ih =>
    cases labels with
    | nil =>
      rw [List.cons_append, List.nil_append, dotJoin, List.intercalate_cons_of_ne_nil hne']
      simp [dotJoin]
    | cons next labels =>
      have hrest := ih (List.cons_ne_nil _ _)
      rw [List.cons_append] at hrest
      rw [List.cons_append, List.cons_append, dotJoin_cons_cons, hrest, dotJoin_cons_cons]
      simp

/-- A name has the labels it is written with, and reads as itself. -/
theorem WellFormedName.labels {name : Name} (h : WellFormedName name) :
    WellFormedLabels (nameLabels name) ∧ nameOfLabels (nameLabels name) = name := by
  rcases h with rfl | ⟨labels, hne, hw, rfl⟩
  · have hr : nameLabels ['.'] = [] := by decide
    rw [hr]
    exact ⟨by simp [WellFormedLabels], rfl⟩
  · rw [nameLabels_dotJoin hne hw]
    exact ⟨hw, by simp [nameOfLabels, hne]⟩

/-- The labels as they stand on the wire. -/
def wireLabels (labels : List Name) : List (List UInt8) := labels.map Utf8.encode

theorem fromUtf8Lossy_wireLabels (labels : List Name) :
    (wireLabels labels).map Utf8.fromUtf8Lossy = labels := by
  rw [wireLabels, List.map_map]
  apply List.map_id''
  intro label
  exact Utf8.fromUtf8Lossy_encode label

/-- Whatever follows the message, the name at `offset` has these labels. -/
def Decodes (buf : List UInt8) (offset : ℕ) (labels : List Name) : Prop :=
  ∀ x, ∃ remain, Expands ⟨0, buf ++ x⟩ (Slice.drop ⟨0, buf ++ x⟩ offset) (wireLabels labels) remain

/-- A table entry that a pointer may use. -/
structure EntryOk (buf : List UInt8) (entry : Name × UInt16) : Prop where
  small : entry.2.toNat < 2 ^ 14
  inside : entry.2.toNat < buf.length
  decodes : ∀ labels, labels ≠ [] → WellFormedLabels labels → dotJoin labels = entry.1 →
    Decodes buf entry.2.toNat labels

/-- Every entry of the table can be used. -/
def TableOk (buf : List UInt8) (ctx : NameCompression) : Prop :=
  ∀ entry ∈ ctx.suffixOffsets, EntryOk buf entry

theorem EntryOk.append {buf : List UInt8} {entry : Name × UInt16} (h : EntryOk buf entry)
    (w : List UInt8) : EntryOk (buf ++ w) entry := by
  refine ⟨h.small, ?_, ?_⟩
  · have := h.inside
    rw [List.length_append]
    omega
  · intro labels hne hw hj x
    rw [List.append_assoc]
    exact h.decodes labels hne hw hj (w ++ x)

theorem TableOk.append {buf : List UInt8} {ctx : NameCompression} (h : TableOk buf ctx)
    (w : List UInt8) : TableOk (buf ++ w) ctx := by
  intro entry hmem
  exact (h entry hmem).append w

theorem tableOk_new (buf : List UInt8) : TableOk buf NameCompression.new := by
  intro entry hmem
  cases hmem

/-- The bytes of a compression pointer. -/
theorem pointer_wire {offset : UInt16} (h : offset.toNat < 2 ^ 14) :
    ∃ hi lo, putWord (0xC000 ||| (offset &&& 0x3FFF)) = [hi, lo] ∧ 192 ≤ hi.toNat ∧
      (hi.toNat - 192) * 256 + lo.toNat = offset.toNat := by
  have hv : (0xC000 ||| (offset &&& 0x3FFF)).toNat = 0xC000 + offset.toNat := by
    have hm : offset.toNat &&& 16383 = offset.toNat := by
      rw [show (16383 : ℕ) = 2 ^ 14 - 1 from rfl, Nat.and_two_pow_sub_one_eq_mod]
      omega
    have ho := Nat.two_pow_add_eq_or_of_lt (i := 14) h 3
    simp only [UInt16.toNat_or, UInt16.toNat_and]
    change 2 ^ 14 * 3 ||| (offset.toNat &&& 16383) = _
    rw [hm, ← ho]
  refine ⟨UInt8.ofNat ((0xC000 + offset.toNat) / 256), UInt8.ofNat (0xC000 + offset.toNat), ?_, ?_⟩
  · simp only [putWord, Word.toNat, hv]
    simp [Word.size, toBE]
  · simp only [UInt8.toNat_ofNat']
    omega

theorem dotJoin_length_lt {label : Name} (h : label ≠ []) (labels : List Name) :
    (dotJoin labels).length < (dotJoin (label :: labels)).length := by
  have hpos := List.length_pos_of_ne_nil h
  cases labels with
  | nil => simpa [dotJoin] using hpos
  | cons next labels =>
    rw [dotJoin_cons_cons]
    simp only [List.length_append, List.length_cons]
    omega

theorem NameCompression.mem_of_getSuffixOffset {ctx : NameCompression} {text : Name}
    {offset : UInt16} (h : ctx.getSuffixOffset text = some offset) :
    (text, offset) ∈ ctx.suffixOffsets := by
  obtain ⟨before, after, hentries, _⟩ := List.lookup_eq_some_iff.mp h
  rw [hentries]
  exact List.mem_append_right _ List.mem_cons_self

theorem NameCompression.mem_note {ctx : NameCompression} {suffix : Name} {len : ℕ}
    {entry : Name × UInt16} (h : entry ∈ (ctx.note suffix len).suffixOffsets) :
    entry ∈ ctx.suffixOffsets ∨ len < 2 ^ 14 ∧ entry.1 = suffix ∧ entry.2.toNat = len := by
  unfold NameCompression.note at h
  split at h
  · rename_i hlen
    rcases List.mem_append.mp h with h | h
    · exact Or.inl h
    · rw [List.mem_singleton.mp h]
      refine Or.inr ⟨by omega, rfl, ?_⟩
      simp only [UInt16.toNat_ofNat']
      omega
  · exact Or.inl h

/-- The appended bytes read back as the labels, wherever the reading slice ends. -/
def Reads (buf w : List UInt8) (labels : List Name) : Prop :=
  ∀ x t, Expands ⟨0, buf ++ (w ++ x)⟩ ⟨buf.length, w ++ t⟩ (wireLabels labels)
    ⟨buf.length + w.length, t⟩

theorem Reads.decodes {buf w : List UInt8} {labels : List Name} (h : Reads buf w labels) :
    Decodes (buf ++ w) buf.length labels := by
  intro x
  have hx := h x x
  refine ⟨⟨buf.length + w.length, x⟩, ?_⟩
  rw [List.append_assoc]
  have hd : Slice.drop ⟨0, buf ++ (w ++ x)⟩ buf.length = ⟨buf.length, w ++ x⟩ := by
    simp [Slice.drop]
  rw [hd]
  exact hx

/-- A pointer reads as what its offset holds. -/
theorem reads_pointer {buf : List UInt8} {labels : List Name} {offset : UInt16}
    (he : EntryOk buf (dotJoin labels, offset)) (hne : labels ≠ [])
    (hw : WellFormedLabels labels) :
    Reads buf (putWord (0xC000 ||| (offset &&& 0x3FFF))) labels := by
  obtain ⟨hi, lo, hword, htag, hoff⟩ := pointer_wire he.small
  intro x t
  rw [hword]
  obtain ⟨remain, hexp⟩ := he.decodes labels hne hw rfl ([hi, lo] ++ x)
  have hin := he.inside
  rw [← hoff] at hexp
  refine Expands.pointer (show _ = hi :: lo :: t from rfl) htag ?_ hexp
  simp only [Slice.len, List.length_append]
  omega

/-- A label followed by what reads as the other labels. -/
theorem reads_label {buf w : List UInt8} {label : Name} {labels : List Name}
    (hne : label ≠ []) (hshort : (Utf8.encode label).length ≤ 63)
    (h : Reads (buf ++ labelWire label) w labels) :
    Reads buf (labelWire label ++ w) (label :: labels) := by
  intro x t
  have hpos : 1 ≤ (Utf8.encode label).length := by
    apply List.length_pos_of_ne_nil
    intro hnil
    exact hne (Utf8.encode_eq_nil.mp hnil)
  have hlen : (UInt8.ofNat (Utf8.encode label).length).toNat = (Utf8.encode label).length := by
    rw [UInt8.toNat_ofNat']
    omega
  have hx := h x t
  have hbytes : labelWire label ++ w ++ t = UInt8.ofNat (Utf8.encode label).length ::
      (Utf8.encode label ++ (w ++ t)) := by
    simp [labelWire]
  refine Expands.label hbytes hlen hpos hshort ?_
  · have hd : Slice.drop ⟨buf.length, labelWire label ++ w ++ t⟩
        (1 + (Utf8.encode label).length) = ⟨(buf ++ labelWire label).length, w ++ t⟩ := by
      simp [Slice.drop, labelWire, Nat.add_comm 1]
    have hl : buf.length + (labelWire label ++ w).length =
        (buf ++ labelWire label).length + w.length := by
      simp only [List.length_append]
      omega
    rw [hd, hl, ← List.append_assoc, ← List.append_assoc, List.append_assoc (buf ++ _)]
    exact hx

/-- The loop writes what reads back as its labels, and the entries it adds can be used. Entries
of the names still being written are longer than what is left to write, so they are not hit. -/
theorem labelBytes_spec {buf : List UInt8} {ctx : NameCompression} {labels : List Name}
    (hw : WellFormedLabels labels)
    (hctx : ∀ entry ∈ ctx.suffixOffsets,
      EntryOk buf entry ∨ (dotJoin labels).length < entry.1.length) :
    Reads buf (labelBytes buf.length ctx labels).1 labels ∧
      ∀ entry ∈ (labelBytes buf.length ctx labels).2.suffixOffsets,
        entry ∈ ctx.suffixOffsets ∨ EntryOk (buf ++ (labelBytes buf.length ctx labels).1) entry := by
  induction labels generalizing buf ctx with
  | nil =>
    refine ⟨?_, fun entry hmem => Or.inl hmem⟩
    intro x t
    exact Expands.root (show _ = 0 :: t from rfl)
  | cons label labels ih =>
    rw [labelBytes]
    cases hlook : ctx.getSuffixOffset (dotJoin (label :: labels)) with
    | some offset =>
      refine ⟨?_, fun entry hmem => Or.inl hmem⟩
      rcases hctx _ (NameCompression.mem_of_getSuffixOffset hlook) with he | he
      · exact reads_pointer he (by simp) hw
      · exact absurd he (lt_irrefl _)
    | none =>
      have hlabel := hw label (by simp)
      have hlt := dotJoin_length_lt hlabel.nonempty labels
      have hrest : WellFormedLabels labels := fun l hl => hw l (List.mem_cons_of_mem _ hl)
      obtain ⟨hreads, hnew⟩ := @ih (buf ++ labelWire label)
        (ctx.note (dotJoin (label :: labels)) buf.length) hrest (by
          intro entry hmem
          rcases NameCompression.mem_note hmem with hmem | ⟨_, htext, _⟩
          · rcases hctx entry hmem with he | he
            · exact Or.inl (he.append _)
            · exact Or.inr (by omega)
          · exact Or.inr (by rw [htext]; exact hlt))
      rw [List.length_append] at hreads hnew
      have hread := reads_label hlabel.nonempty hlabel.short hreads
      refine ⟨hread, ?_⟩
      intro entry hmem
      rw [List.append_assoc] at hnew
      rcases hnew entry hmem with hmem | he
      · rcases NameCompression.mem_note hmem with hmem | ⟨hsmall, htext, hoff⟩
        · exact Or.inl hmem
        · -- the entry of this very name
          refine Or.inr ⟨by omega, ?_, ?_⟩
          · simp only [labelWire, List.length_append, List.length_cons]
            omega
          · intro labels' hne' hw' hj
            have heq := dotJoin_injective hne' (by simp) hw' hw (hj.trans htext)
            rw [heq, hoff]
            exact hread.decodes
      · exact Or.inr he

/-- Writing a name keeps the table usable, and the name reads back. -/
theorem nameBytes_spec {buf : List UInt8} {ctx : NameCompression} {name : Name}
    (hw : WellFormedLabels (nameLabels name)) (hctx : TableOk buf ctx) :
    Reads buf (nameBytes buf.length name ctx).1 (nameLabels name) ∧
      TableOk (buf ++ (nameBytes buf.length name ctx).1) (nameBytes buf.length name ctx).2 := by
  obtain ⟨hreads, hnew⟩ := labelBytes_spec hw (fun e he => Or.inl (hctx e he))
  refine ⟨hreads, ?_⟩
  intro entry hmem
  rcases hnew entry hmem with hmem | he
  · exact (hctx entry hmem).append _
  · exact he

/-- Written labels are read back as the name they make up. -/
theorem beName_of_reads_labels {buf w : List UInt8} {labels : List Name} (h : Reads buf w labels)
    (x t : List UInt8) :
    beName ⟨buf.length, w ++ t⟩ ⟨0, buf ++ (w ++ x)⟩ =
      .ok ⟨buf.length + w.length, t⟩ (nameOfLabels labels) := by
  rw [beName_of_expands (h x t), fromUtf8Lossy_wireLabels]

/-- A written name is read back as itself. -/
theorem beName_of_reads {buf w : List UInt8} {name : Name} (hn : WellFormedName name)
    (h : Reads buf w (nameLabels name)) (x t : List UInt8) :
    beName ⟨buf.length, w ++ t⟩ ⟨0, buf ++ (w ++ x)⟩ = .ok ⟨buf.length + w.length, t⟩ name := by
  rw [beName_of_reads_labels h x t, hn.labels.2]

end Ddns
