import Ddns.Core.NameWriter
import Ddns.Library.Text

/-! Names written one after another into a growing message: every pointer goes back, and every name
stays readable at its place. -/
namespace Ddns

open Nom BigEndian

/-- What is appended to a message: a name, or bytes of anything else. -/
inductive Write where
  | name (text : Name)
  | other (bytes : List UInt8)

/-- The message and its compression table. -/
abbrev Message := List UInt8 × NameCompression

def Write.apply (message : Message) : Write → Message
  | .name text =>
    let out := putName message.1 text message.2
    (out.1, out.2.1)
  | .other bytes => (message.1 ++ bytes, message.2)

def writeAll (message : Message) (writes : List Write) : Message := writes.foldl Write.apply message

/-- The non-empty labels of the name fit into a length byte. -/
def ShortLabels (name : Name) : Prop :=
  ∀ label ∈ name.splitOn '.', label ≠ [] → (Utf8.encode label).length ≤ 63

instance (name : Name) : Decidable (ShortLabels name) :=
  inferInstanceAs (Decidable (∀ label ∈ name.splitOn '.', label ≠ [] →
    (Utf8.encode label).length ≤ 63))

/-- The names that are written all have short labels. -/
def ShortNames (writes : List Write) : Prop := ∀ name, .name name ∈ writes → ShortLabels name

/-- The non-empty labels joined by dots, or a dot when there are none. -/
def normalForm (name : Name) : Name :=
  let labels := (name.splitOn '.').filter (· ≠ [])
  if labels = [] then ['.'] else dotJoin labels

/-- What holds of one call of `put_name`, from the message at its start, its result and the message
in the end. -/
structure NameWritten (start : List UInt8) (name : Name)
    (out : List UInt8 × NameCompression × ℕ) (final : List UInt8) : Prop where
  appended : ∃ w, out.1 = start ++ w ∧ out.2.2 = w.length
  pointer : ∃ (labels : List Name) (tail : List UInt8), labels <+: nameLabels name ∧
    out.1 = start ++ (labels.flatMap labelWire ++ tail) ∧
    (labels = nameLabels name ∧ tail = [0] ∨ ∃ offset : UInt16,
      tail = putWord (0xC000 ||| offset) ∧ offset.toNat < 2 ^ 14 ∧ offset.toNat < start.length)
  reads : beName ⟨start.length, final.drop start.length⟩ ⟨0, final⟩ =
    .ok ⟨out.1.length, final.drop out.1.length⟩ (normalForm name)

theorem ShortLabels.wellFormed {name : Name} (h : ShortLabels name) :
    WellFormedLabels (nameLabels name) := by
  intro label hlabel
  obtain ⟨hmem, hne⟩ := List.mem_filter.mp hlabel
  have hne : label ≠ [] := of_decide_eq_true hne
  exact ⟨hne, Text.not_mem_of_mem_splitOn hmem, h label hmem hne⟩

/-- The labels that are written before the name ends with a zero byte or a pointer. A pointer uses
an entry from before the call: the entries of the call itself are of longer suffixes. -/
theorem labelBytes_shape (len : ℕ) (ctx : NameCompression) {labels : List Name}
    (hne : ∀ label ∈ labels, label ≠ []) :
    ∃ (written : List Name) (tail : List UInt8), written <+: labels ∧
      (labelBytes len ctx labels).1 = written.flatMap labelWire ++ tail ∧
      (written = labels ∧ tail = [0] ∨ ∃ text offset, (text, offset) ∈ ctx.suffixOffsets ∧
        text.length ≤ (dotJoin labels).length ∧ tail = putWord (0xC000 ||| (offset &&& 0x3FFF))) := by
  induction labels generalizing len ctx with
  | nil => exact ⟨[], [0], List.nil_prefix, rfl, Or.inl ⟨rfl, rfl⟩⟩
  | cons label labels ih =>
    obtain ⟨hlabel, hlabels⟩ := List.forall_mem_cons.mp hne
    rw [labelBytes]
    cases hlook : ctx.getSuffixOffset (dotJoin (label :: labels)) with
    | some offset =>
      refine ⟨[], _, List.nil_prefix, rfl, Or.inr ⟨_, offset, ?_, le_rfl, rfl⟩⟩
      exact NameCompression.mem_of_getSuffixOffset hlook
    | none =>
      have hlt := dotJoin_length_lt hlabel labels
      obtain ⟨written, tail, hprefix, hbytes, htail⟩ := ih (len + (labelWire label).length)
        (ctx.note (dotJoin (label :: labels)) len) hlabels
      refine ⟨label :: written, tail, List.cons_prefix_cons.mpr ⟨rfl, hprefix⟩, ?_, ?_⟩
      · simp only [hbytes, List.flatMap_cons, List.append_assoc]
      · rcases htail with ⟨rfl, rfl⟩ | ⟨text, offset, hmem, hle, htail⟩
        · exact Or.inl ⟨rfl, rfl⟩
        rcases NameCompression.mem_note hmem with hmem | ⟨_, htext, _⟩
        · exact Or.inr ⟨text, offset, hmem, by omega, htail⟩
        · have hsame : text = dotJoin (label :: labels) := htext
          rw [hsame] at hle
          omega

/-- An entry of the table is the text of some labels. -/
def Named (entry : Name × UInt16) : Prop :=
  ∃ labels, labels ≠ [] ∧ WellFormedLabels labels ∧ dotJoin labels = entry.1

theorem labelBytes_named {len : ℕ} {ctx : NameCompression} {labels : List Name}
    (hw : WellFormedLabels labels) (hctx : ∀ entry ∈ ctx.suffixOffsets, Named entry) :
    ∀ entry ∈ (labelBytes len ctx labels).2.suffixOffsets, Named entry := by
  induction labels generalizing len ctx with
  | nil => exact hctx
  | cons label labels ih =>
    rw [labelBytes]
    split
    · exact hctx
    · apply ih (fun l hl => hw l (List.mem_cons_of_mem _ hl))
      intro entry hmem
      rcases NameCompression.mem_note hmem with hmem | ⟨_, htext, _⟩
      · exact hctx entry hmem
      · exact ⟨label :: labels, List.cons_ne_nil _ _, hw, htext.symm⟩

/-- What every write keeps: the table can be used, and it names labels. -/
structure MessageOk (message : Message) : Prop where
  table : TableOk message.1 message.2
  named : ∀ entry ∈ message.2.suffixOffsets, Named entry

theorem messageOk_new (buf : List UInt8) : MessageOk (buf, NameCompression.new) :=
  ⟨tableOk_new buf, fun _ hmem => absurd hmem List.not_mem_nil⟩

theorem Write.apply_name (message : Message) (name : Name) :
    (Write.name name).apply message = (message.1 ++ (nameBytes message.1.length name message.2).1,
      (nameBytes message.1.length name message.2).2) := by
  simp only [Write.apply, putName_eq]

theorem MessageOk.apply {message : Message} (h : MessageOk message) {write : Write}
    (hshort : ∀ name, write = .name name → ShortLabels name) : MessageOk (write.apply message) := by
  cases write with
  | other bytes => exact ⟨h.table.append bytes, h.named⟩
  | name name =>
    have hw := (hshort name rfl).wellFormed
    rw [Write.apply_name]
    exact ⟨(nameBytes_spec hw h.table).2, labelBytes_named hw h.named⟩

theorem MessageOk.writeAll {message : Message} (h : MessageOk message) {writes : List Write}
    (hshort : ShortNames writes) : MessageOk (writeAll message writes) := by
  induction writes generalizing message with
  | nil => exact h
  | cons write writes ih =>
    apply ih
    · apply h.apply
      rintro name rfl
      exact hshort name List.mem_cons_self
    · intro name hmem
      exact hshort name (List.mem_cons_of_mem _ hmem)

/-- Writing only appends. -/
theorem writeAll_append (message : Message) (writes : List Write) :
    ∃ x, (writeAll message writes).1 = message.1 ++ x := by
  induction writes generalizing message with
  | nil => exact ⟨[], (List.append_nil _).symm⟩
  | cons write writes ih =>
    obtain ⟨x, hx⟩ := ih (write.apply message)
    have hfirst : ∃ w, (write.apply message).1 = message.1 ++ w := by
      cases write with
      | other bytes => exact ⟨bytes, rfl⟩
      | name name => exact ⟨_, congrArg Prod.fst (Write.apply_name message name)⟩
    obtain ⟨w, hw⟩ := hfirst
    refine ⟨w ++ x, ?_⟩
    rw [← List.append_assoc, ← hw]
    exact hx

theorem mask_of_small {offset : UInt16} (h : offset.toNat < 2 ^ 14) :
    offset &&& 0x3FFF = offset := by
  apply UInt16.toNat_inj.mp
  rw [UInt16.toNat_and]
  exact (Nat.and_two_pow_sub_one_eq_mod offset.toNat 14).trans (Nat.mod_eq_of_lt h)

/-- One call, whatever follows it. -/
theorem nameWritten_of_messageOk {message : Message} (h : MessageOk message) {name : Name}
    (hshort : ShortLabels name) (x : List UInt8) :
    NameWritten message.1 name (putName message.1 name message.2)
      ((putName message.1 name message.2).1 ++ x) := by
  have hw := hshort.wellFormed
  obtain ⟨hreads, _⟩ := nameBytes_spec hw h.table
  rw [putName_eq]
  refine ⟨⟨_, rfl, rfl⟩, ?_, ?_⟩
  · obtain ⟨written, tail, hprefix, hbytes, htail⟩ :=
      labelBytes_shape message.1.length message.2 fun label hlabel => (hw label hlabel).nonempty
    refine ⟨written, tail, hprefix, congrArg _ hbytes, htail.imp id ?_⟩
    rintro ⟨text, offset, hmem, _, rfl⟩
    obtain ⟨hsmall, hinside, _⟩ := h.table _ hmem
    exact ⟨offset, by rw [mask_of_small hsmall], hsmall, hinside⟩
  · have hread := beName_of_reads_labels hreads x x
    have hend : message.1.length + (nameBytes message.1.length name message.2).1.length =
        (message.1 ++ (nameBytes message.1.length name message.2).1).length :=
      List.length_append.symm
    dsimp only
    rw [List.drop_left, List.append_assoc, List.drop_left, ← List.append_assoc, ← hend]
    rw [← List.append_assoc] at hread
    exact hread

/-- An entry of the table names what is read at its offset. -/
theorem MessageOk.entry_reads {message : Message} (h : MessageOk message) {suffix : Name}
    {offset : UInt16} (hmem : (suffix, offset) ∈ message.2.suffixOffsets) :
    ∃ remain, beName ⟨offset.toNat, message.1.drop offset.toNat⟩ ⟨0, message.1⟩ =
      .ok remain suffix := by
  obtain ⟨labels, hne, hw, rfl⟩ := h.named _ hmem
  obtain ⟨remain, hexp⟩ := (h.table _ hmem).decodes labels hne hw rfl []
  have hdrop : Slice.drop ⟨0, message.1⟩ offset.toNat =
      ⟨offset.toNat, message.1.drop offset.toNat⟩ := by simp [Slice.drop]
  rw [List.append_nil, hdrop] at hexp
  refine ⟨remain, ?_⟩
  rw [beName_of_expands hexp, fromUtf8Lossy_wireLabels, nameOfLabels, if_neg hne]

/-- Whatever is written before and after it, a name is written with pointers to earlier places only
and is read back in its normal form, and the table names what stands at its offsets. -/
theorem names_stay_readable (buf : List UInt8) (before after : List Write) (name : Name)
    (h : ShortNames (before ++ .name name :: after)) :
    NameWritten (writeAll (buf, .new) before).1 name
        (putName (writeAll (buf, .new) before).1 name (writeAll (buf, .new) before).2)
        (writeAll (buf, .new) (before ++ .name name :: after)).1 ∧
      ∀ suffix offset, (suffix, offset) ∈
          (writeAll (buf, .new) (before ++ .name name :: after)).2.suffixOffsets →
        ∃ remain, beName ⟨offset.toNat,
            (writeAll (buf, .new) (before ++ .name name :: after)).1.drop offset.toNat⟩
          ⟨0, (writeAll (buf, .new) (before ++ .name name :: after)).1⟩ = .ok remain suffix := by
  have hbefore : MessageOk (writeAll (buf, .new) before) :=
    (messageOk_new buf).writeAll fun text hmem => h text (List.mem_append_left _ hmem)
  have hname : ShortLabels name := h name (List.mem_append_right _ List.mem_cons_self)
  constructor
  · obtain ⟨x, hx⟩ := writeAll_append
      ((Write.name name).apply (writeAll (buf, .new) before)) after
    have hfinal : (writeAll (buf, .new) (before ++ .name name :: after)).1 =
        (putName (writeAll (buf, .new) before).1 name (writeAll (buf, .new) before).2).1 ++ x := by
      rw [writeAll, List.foldl_append, List.foldl_cons]
      exact hx
    rw [hfinal]
    exact nameWritten_of_messageOk hbefore hname x
  · intro suffix offset hmem
    exact ((messageOk_new buf).writeAll h).entry_reads hmem

section Sample

/-- `a..b.` -/
def gappedName : Name := ['a', '.', '.', 'b', '.']

/-- `c.b` -/
def sharingName : Name := ['c', '.', 'b']

/-- The second name ends with a pointer into the first one. -/
theorem names_stay_readable_gapped :
    (writeAll ([7], .new) ([.name gappedName, .other [9]] ++ [.name sharingName, .other [5]])).1 =
        [7, 1, 97, 1, 98, 0, 9, 1, 99, 0xC0, 3, 5] ∧
      NameWritten (writeAll ([7], .new) [.name gappedName, .other [9]]).1 sharingName
        (putName (writeAll ([7], .new) [.name gappedName, .other [9]]).1 sharingName
          (writeAll ([7], .new) [.name gappedName, .other [9]]).2)
        (writeAll ([7], .new) ([.name gappedName, .other [9]] ++
          [.name sharingName, .other [5]])).1 := by
  have hshort : ShortNames ([.name gappedName, .other [9]] ++ [.name sharingName, .other [5]]) := by
    intro name hmem
    simp only [List.cons_append, List.nil_append, List.mem_cons, Write.name.injEq, reduceCtorEq,
      List.not_mem_nil, or_false, false_or] at hmem
    rcases hmem with rfl | rfl <;> decide
  exact ⟨by decide, (names_stay_readable [7] [.name gappedName, .other [9]] [.other [5]]
    sharingName hshort).1⟩

end Sample

end Ddns
