import Ddns.Core.NameTable

/-! Which uncompressed names are written back as they were read. -/
namespace Ddns

open Nom BigEndian

/-- The length byte and the bytes of a label, whatever they are. -/
def rawLabel (label : List UInt8) : List UInt8 := UInt8.ofNat label.length :: label

/-- An uncompressed name on the wire. -/
def rawName (labels : List (List UInt8)) : List UInt8 := labels.flatMap rawLabel ++ [0]

/-- The labels that the wire format can hold. -/
def RawLabels (labels : List (List UInt8)) : Prop :=
  ∀ label ∈ labels, 1 ≤ label.length ∧ label.length ≤ 63

/-- The label is valid UTF-8, and there is no dot in it. -/
def TextLabel (label : List UInt8) : Prop := ∃ text, Utf8.fromUtf8 label = some text ∧ '.' ∉ text

variable {labels : List (List UInt8)}

theorem expands_rawName (origin : Slice) (h : RawLabels labels) (p : ℕ) (t : List UInt8) :
    Expands origin ⟨p, rawName labels ++ t⟩ labels ⟨p + (rawName labels).length, t⟩ := by
  induction labels generalizing p with
  | nil => exact Expands.root (show _ = 0 :: t from rfl)
  | cons label labels ih =>
    obtain ⟨⟨hpos, hmax⟩, hrest⟩ := List.forall_mem_cons.mp h
    have hlen : (UInt8.ofNat label.length).toNat = label.length := by
      rw [UInt8.toNat_ofNat']
      omega
    have hbytes : rawName (label :: labels) ++ t =
        UInt8.ofNat label.length :: (label ++ (rawName labels ++ t)) := by
      simp [rawName, rawLabel]
    have htail := ih hrest (p + (1 + label.length))
    have hdrop : Slice.drop ⟨p, rawName (label :: labels) ++ t⟩ (1 + label.length) =
        ⟨p + (1 + label.length), rawName labels ++ t⟩ := by
      rw [hbytes, Nat.add_comm 1]
      simp [Slice.drop]
    have hstop : p + (rawName (label :: labels)).length =
        p + (1 + label.length) + (rawName labels).length := by
      simp only [rawName, rawLabel, List.flatMap_cons, List.length_append, List.length_cons]
      omega
    rw [hstop]
    rw [← hdrop] at htail
    exact Expands.label hbytes hlen hpos hmax htail

/-- Every uncompressed name is read to its end. -/
theorem beName_rawName (h : RawLabels labels) :
    beName ⟨0, rawName labels⟩ ⟨0, rawName labels⟩ =
      .ok ⟨(rawName labels).length, []⟩ (nameOfLabels (labels.map Utf8.fromUtf8Lossy)) := by
  have hexp := expands_rawName ⟨0, rawName labels⟩ h 0 []
  rw [List.append_nil, Nat.zero_add] at hexp
  exact beName_of_expands hexp

theorem rawName_injective {labels' : List (List UInt8)} (h : RawLabels labels)
    (h' : RawLabels labels') (heq : rawName labels = rawName labels') : labels = labels' := by
  have hexp := expands_rawName ⟨0, []⟩ h 0 []
  rw [heq] at hexp
  exact (hexp.unique (expands_rawName ⟨0, []⟩ h' 0 [])).1

/-- Without a table a name is written label by label. -/
theorem putName_new (name : Name) :
    (putName [] name .new).1 = (nameLabels name).flatMap labelWire ++ [0] := by
  have hne : ∀ label ∈ nameLabels name, label ≠ [] := by
    intro label hlabel
    exact of_decide_eq_true (List.mem_filter.mp hlabel).2
  obtain ⟨written, tail, _, hbytes, htail⟩ := labelBytes_shape 0 .new hne
  rw [putName_eq, List.nil_append, nameBytes]
  rcases htail with ⟨rfl, rfl⟩ | ⟨text, offset, hmem, _⟩
  · exact hbytes
  · exact absurd hmem List.not_mem_nil

/-- Joined texts are split into the parts of each. -/
theorem nameLabels_dotJoin_all (texts : List Name) :
    nameLabels (dotJoin texts) = texts.flatMap nameLabels := by
  induction texts with
  | nil => rfl
  | cons text texts ih =>
    cases texts with
    | nil => simp [dotJoin]
    | cons next texts =>
      have hsplit := List.splitOn_append_cons_self (a := '.') text (dotJoin (next :: texts))
      rw [dotJoin_cons_cons, nameLabels, hsplit, List.filter_append, List.flatMap_cons, ← ih]
      rfl

theorem nameLabels_of_dotFree {text : Name} (hne : text ≠ []) (hdot : '.' ∉ text) :
    nameLabels text = [text] := by
  have hjoin : dotJoin [text] = text := List.intercalate_singleton
  have hsplit : (dotJoin [text]).splitOn '.' = [text] :=
    List.splitOn_intercalate '.' (by simpa using hdot) (List.cons_ne_nil _ _)
  rw [hjoin] at hsplit
  rw [nameLabels, hsplit]
  simp [hne]

theorem length_le_dotJoin {texts : List Name} {text : Name} (h : text ∈ texts) :
    text.length ≤ (dotJoin texts).length := by
  induction texts with
  | nil => exact absurd h List.not_mem_nil
  | cons first texts ih =>
    cases texts with
    | nil =>
      rw [List.mem_singleton.mp h]
      simp [dotJoin]
    | cons next texts =>
      rw [dotJoin_cons_cons, List.length_append, List.length_cons]
      rcases List.mem_cons.mp h with rfl | h
      · omega
      · have hle := ih h
        omega

/-- A part of a text is no longer than the text. -/
theorem length_le_of_mem_nameLabels {text part : Name} (h : part ∈ nameLabels text) :
    part.length ≤ text.length := by
  have hle := length_le_dotJoin (List.mem_filter.mp h).1
  have hjoin : dotJoin (text.splitOn '.') = text := List.intercalate_splitOn '.'
  rwa [hjoin] at hle

/-- What a name is written as after it was read: the parts of the text of each label. -/
def rewritten (labels : List (List UInt8)) : List Name :=
  labels.flatMap fun label => nameLabels (Utf8.fromUtf8Lossy label)

/-- The parts are short enough for their length bytes. -/
theorem short_of_mem_rewritten (h : RawLabels labels) {part : Name} (hmem : part ∈ rewritten labels) :
    part ≠ [] ∧ '.' ∉ part ∧ (Utf8.encode part).length < 256 := by
  obtain ⟨label, hlabel, hpart⟩ := List.mem_flatMap.mp hmem
  obtain ⟨hsplit, hne⟩ := List.mem_filter.mp hpart
  refine ⟨of_decide_eq_true hne, Text.not_mem_of_mem_splitOn hsplit, ?_⟩
  have hle := length_le_of_mem_nameLabels hpart
  have htext := Utf8.fromUtf8Lossy_length_le label
  have hbytes := Utf8.encode_length_le part
  have hmax := (h label hlabel).2
  omega

/-- The first label of what is written back is the first label that was read, and it is text. -/
theorem head_of_rewritten {part : Name} {parts : List Name} {label : List UInt8}
    {rest w : List UInt8} (hpart : part ≠ [] ∧ '.' ∉ part ∧ (Utf8.encode part).length < 256)
    (hlabel : label.length ≤ 63)
    (h : (part :: parts).flatMap labelWire ++ w = rawLabel label ++ rest) :
    Utf8.encode part = label ∧ parts.flatMap labelWire ++ w = rest := by
  simp only [List.flatMap_cons, labelWire, rawLabel, List.cons_append, List.append_assoc,
    List.cons.injEq] at h
  obtain ⟨hhead, htail⟩ := h
  have hlength : (Utf8.encode part).length = label.length := by
    have hnat := congrArg UInt8.toNat hhead
    rw [UInt8.toNat_ofNat', UInt8.toNat_ofNat'] at hnat
    omega
  exact List.append_inj htail hlength

theorem textLabel_encode {text : Name} (hdot : '.' ∉ text) : TextLabel (Utf8.encode text) :=
  ⟨text, Utf8.fromUtf8_encode text, hdot⟩

/-- Only text without dots is written back as it was. -/
theorem text_of_rewritten (h : RawLabels labels)
    (heq : (rewritten labels).flatMap labelWire ++ [0] = rawName labels) :
    ∀ label ∈ labels, TextLabel label := by
  induction labels with
  | nil => simp
  | cons label labels ih =>
    obtain ⟨⟨hpos, hmax⟩, hrest⟩ := List.forall_mem_cons.mp h
    have hraw : rawName (label :: labels) = rawLabel label ++ rawName labels := by simp [rawName]
    rw [hraw] at heq
    cases hparts : rewritten (label :: labels) with
    | nil =>
      -- nothing but the final zero would be written
      rw [hparts] at heq
      have hzero := congrArg UInt8.toNat (List.cons.inj heq).1
      rw [UInt8.toNat_ofNat'] at hzero
      simp at hzero
      omega
    | cons part parts =>
      have hpart := short_of_mem_rewritten h (hparts ▸ List.mem_cons_self)
      rw [hparts] at heq
      obtain ⟨hlabel, htail⟩ := head_of_rewritten hpart hmax heq
      have htext : nameLabels (Utf8.fromUtf8Lossy label) = [part] := by
        rw [← hlabel, Utf8.fromUtf8Lossy_encode, nameLabels_of_dotFree hpart.1 hpart.2.1]
      have hsame : rewritten (label :: labels) = part :: rewritten labels := by
        rw [rewritten, List.flatMap_cons, htext]
        rfl
      rw [hparts] at hsame
      obtain rfl := (List.cons.inj hsame).2
      refine List.forall_mem_cons.mpr ⟨?_, ih hrest htail⟩
      rw [← hlabel]
      exact textLabel_encode hpart.2.1

/-- Text without dots is written back as it was. -/
theorem rewritten_of_text (hne : RawLabels labels) (h : ∀ label ∈ labels, TextLabel label) :
    (rewritten labels).flatMap labelWire ++ [0] = rawName labels := by
  induction labels with
  | nil => rfl
  | cons label labels ih =>
    obtain ⟨⟨hpos, _⟩, hrest⟩ := List.forall_mem_cons.mp hne
    obtain ⟨⟨text, hread, hdot⟩, htexts⟩ := List.forall_mem_cons.mp h
    have hlabel := Utf8.encode_of_fromUtf8 hread
    subst hlabel
    have htext : text ≠ [] := by
      rintro rfl
      simp at hpos
    have hfirst : rewritten (Utf8.encode text :: labels) = text :: rewritten labels := by
      rw [rewritten, List.flatMap_cons, Utf8.fromUtf8Lossy_encode,
        nameLabels_of_dotFree htext hdot]
      rfl
    have htail := ih hrest htexts
    rw [rawName] at htail ⊢
    rw [hfirst, List.flatMap_cons, List.append_assoc, htail, List.flatMap_cons, List.append_assoc]
    rfl

theorem putName_decoded (labels : List (List UInt8)) :
    (putName [] (nameOfLabels (labels.map Utf8.fromUtf8Lossy)) .new).1 =
      (rewritten labels).flatMap labelWire ++ [0] := by
  have hparts : nameLabels (nameOfLabels (labels.map Utf8.fromUtf8Lossy)) = rewritten labels := by
    rw [nameOfLabels]
    split
    · rename_i hnil
      rw [List.map_eq_nil_iff.mp hnil]
      decide
    · rw [nameLabels_dotJoin_all, List.flatMap_map]
      rfl
  rw [putName_new, hparts]

/-- Every uncompressed name is read, and exactly those are written back as they were whose labels
are text without dots. Names of such labels are told apart. -/
theorem wire_name_written_back_iff (labels : List (List UInt8)) (h : RawLabels labels) :
    ∃ name, beName ⟨0, rawName labels⟩ ⟨0, rawName labels⟩ =
        .ok ⟨(rawName labels).length, []⟩ name ∧
      ((putName [] name .new).1 = rawName labels ↔ ∀ label ∈ labels, TextLabel label) ∧
      ∀ labels' remain, RawLabels labels' →
        beName ⟨0, rawName labels'⟩ ⟨0, rawName labels'⟩ = .ok remain name →
        (∀ label ∈ labels, TextLabel label) → (∀ label ∈ labels', TextLabel label) →
        labels = labels' := by
  refine ⟨_, beName_rawName h, ?_, ?_⟩
  · rw [putName_decoded]
    exact ⟨text_of_rewritten h, rewritten_of_text h⟩
  · intro labels' remain h' hread htext htext'
    rw [beName_rawName h', IResult.ok.injEq] at hread
    apply rawName_injective h h'
    rw [← rewritten_of_text h htext, ← rewritten_of_text h' htext', ← putName_decoded,
      ← putName_decoded, hread.2]

section Sample

/-- The labels `é` and `a` -/
theorem wire_name_written_back_iff_utf8 :
    RawLabels [[0xC3, 0xA9], [97]] ∧
      ∃ name, beName ⟨0, rawName [[0xC3, 0xA9], [97]]⟩ ⟨0, rawName [[0xC3, 0xA9], [97]]⟩ =
          .ok ⟨(rawName [[0xC3, 0xA9], [97]]).length, []⟩ name ∧
        (putName [] name .new).1 = rawName [[0xC3, 0xA9], [97]] := by
  have hraw : RawLabels [[0xC3, 0xA9], [97]] := by
    intro label hlabel
    simp only [List.mem_cons, List.not_mem_nil, or_false] at hlabel
    rcases hlabel with rfl | rfl <;> decide
  obtain ⟨name, hread, hback, _⟩ := wire_name_written_back_iff _ hraw
  refine ⟨hraw, name, hread, hback.mpr ?_⟩
  intro label hlabel
  simp only [List.mem_cons, List.not_mem_nil, or_false] at hlabel
  rcases hlabel with rfl | rfl
  · exact ⟨['é'], by decide, by decide⟩
  · exact ⟨['a'], by decide, by decide⟩

/-- The one label `a.b` and the labels `a` and `b` are read as the same name. -/
theorem dotted_label_read_as_two :
    beName ⟨0, rawName [[97, 46, 98]]⟩ ⟨0, rawName [[97, 46, 98]]⟩ =
        .ok ⟨5, []⟩ ['a', '.', 'b'] ∧
      beName ⟨0, rawName [[97], [98]]⟩ ⟨0, rawName [[97], [98]]⟩ = .ok ⟨5, []⟩ ['a', '.', 'b'] ∧
      (putName [] ['a', '.', 'b'] .new).1 ≠ rawName [[97, 46, 98]] := by
  decide

end Sample

end Ddns
