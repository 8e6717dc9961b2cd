import Ddns.Core.Certificate
import Ddns.Core.NameWriter
import Ddns.Library.Text

/-! The names that a lookup accepts: a host, and after a colon the sequence of a certificate. -/
namespace Ddns

/-- What is used of `rustls::pki_types`: a DNS name has at most 253 bytes, and it is a list of
labels, perhaps with a dot at the end. -/
class PkiTypes where
  /-- `DnsName::try_from` accepts. -/
  isDnsName : Name → Bool
  isDnsName_labels : ∀ host, isDnsName host = true → ∃ labels, labels ≠ [] ∧
    WellFormedLabels labels ∧ (∀ label ∈ labels, ∀ c ∈ label, c.toNat < 128) ∧
    (host = dotJoin labels ∨ host = dotJoin labels ++ ['.'])
  isDnsName_length : ∀ host, isDnsName host = true → host.length ≤ 253

/-- The names of ASCII labels without a dot at the end. -/
@[reducible] def plainPki : PkiTypes where
  isDnsName host :=
    WellFormedLabels (host.splitOn '.') ∧ host.all (·.toNat < 128) ∧ host.length ≤ 253
  isDnsName_labels host h := by
    obtain ⟨hw, hascii, _⟩ := of_decide_eq_true h
    have hjoin : dotJoin (host.splitOn '.') = host := List.intercalate_splitOn '.'
    refine ⟨host.splitOn '.', List.splitOn_ne_nil _ _, hw, ?_, Or.inl hjoin.symm⟩
    intro label hlabel c hc
    refine of_decide_eq_true (List.all_eq_true.mp hascii c ?_)
    rw [← hjoin]
    exact mem_dotJoin hlabel hc
  isDnsName_length host h := (of_decide_eq_true h).2.2

/-- The text before the last colon and the digits after it. -/
def splitDigits (name : Name) : Option (Name × Name) :=
  (Text.rsplitOnce ':' name).filter fun parts => parts.2 ≠ [] ∧ Text.allDigits parts.2

/-- A non-empty run of digits. -/
def IsNumber (s : Name) : Prop := s ≠ [] ∧ Text.allDigits s = true

instance (s : Name) : Decidable (IsNumber s) := inferInstanceAs (Decidable (_ ∧ _))

theorem IsNumber.not_colon {s : Name} (h : IsNumber s) : ':' ∉ s := by
  intro hmem
  exact absurd (List.all_eq_true.mp h.2 ':' hmem) (by decide)

/-- A number is taken off after a colon, and nothing else is. -/
theorem splitDigits_eq_some {name host digits : Name} :
    splitDigits name = some (host, digits) ↔ name = host ++ ':' :: digits ∧ IsNumber digits := by
  unfold splitDigits
  rw [Option.filter_eq_some_iff, Text.rsplitOnce_eq_some, decide_eq_true_iff]
  constructor
  · rintro ⟨⟨hname, _⟩, hdigits⟩
    exact ⟨hname, hdigits⟩
  · rintro ⟨hname, hdigits⟩
    exact ⟨⟨hname, hdigits.not_colon⟩, hdigits⟩

theorem splitDigits_of_not_colon {name : Name} (h : ':' ∉ name) : splitDigits name = none := by
  rw [Option.eq_none_iff_forall_ne_some]
  rintro ⟨host, digits⟩ hsplit
  obtain ⟨rfl, _⟩ := splitDigits_eq_some.mp hsplit
  exact h (by simp)

/-- The digits of a sequence that fits give it. -/
theorem sequence_of_digits [DhttpHome] {digits : Name} (h : IsNumber digits) (sequence : CertificateSequence) :
    (Text.parseU64 digits).bind CertificateSequence.tryFrom = some sequence ↔
      sequence.get.toNat = Nat.ofDigitChars 10 digits 0 := by
  have hmax := DhttpHome.sequenceMax.toNat_lt
  have hle := sequence.le_max
  rw [Text.parseU64_digits h.1 h.2]
  constructor
  · intro hseq
    split at hseq
    · exact CertificateSequence.get_of_tryFrom hseq
    · cases hseq
  · intro hval
    rw [if_pos (by omega), Option.bind_some, ← hval]
    exact CertificateSequence.tryFrom_get sequence

/-- The names of `plainPki` that have no colon. -/
@[reducible] def colonFreePki : PkiTypes where
  isDnsName host := plainPki.isDnsName host && !host.contains ':'
  isDnsName_labels host h :=
    plainPki.isDnsName_labels host (Bool.and_eq_true_iff.mp h).1
  isDnsName_length host h :=
    plainPki.isDnsName_length host (Bool.and_eq_true_iff.mp h).1

theorem colonFreePki_not_colon (host : Name) (h : colonFreePki.isDnsName host = true) :
    ':' ∉ host := by
  have hcolon := (Bool.and_eq_true_iff.mp h).2
  simpa using hcolon

section Names

variable [PkiTypes]

/-- A DNS name is ASCII, so its bytes are counted as its characters are. -/
theorem isDnsName_bytes {host : Name} (h : PkiTypes.isDnsName host = true) :
    (Utf8.encode host).length ≤ 253 := by
  have hascii : ∀ c ∈ host, c.toNat < 128 := by
    obtain ⟨labels, _, _, hlabels, hhost⟩ := PkiTypes.isDnsName_labels host h
    intro c hc
    have hmem : c ∈ dotJoin labels ∨ c = '.' := by
      rcases hhost with rfl | rfl
      · exact Or.inl hc
      · exact (List.mem_append.mp hc).imp id List.mem_singleton.mp
    rcases hmem with hmem | rfl
    · rcases of_mem_dotJoin hmem with rfl | ⟨label, hlabel, hc⟩
      · decide
      · exact hlabels label hlabel c hc
    · decide
  rw [Utf8.encode_length_of_ascii hascii]
  exact PkiTypes.isDnsName_length host h

def resolvableName (name : Name) : Option Name :=
  let host := (splitDigits name).elim name Prod.fst
  if PkiTypes.isDnsName host then some host else none

/-- A sequence that does not fit is refused. -/
def endpointLookupNameAndSequence [DhttpHome] (name : Name) :
    Option (Name × Option CertificateSequence) :=
  match splitDigits name with
  | some (host, digits) =>
    ((Text.parseU64 digits).bind CertificateSequence.tryFrom).bind fun sequence =>
      (resolvableName host).map fun host => (host, some sequence)
  | none => (resolvableName name).map fun host => (host, none)

theorem isDnsName_of_resolvableName {name host : Name} (h : resolvableName name = some host) :
    PkiTypes.isDnsName host = true := by
  simp only [resolvableName] at h
  split at h
  · rename_i hvalid
    rw [← Option.some.inj h]
    exact hvalid
  · cases h

/-- The host of an accepted name is a DNS name. -/
theorem isDnsName_of_accepted [DhttpHome] {name host : Name}
    {sequence : Option CertificateSequence}
    (h : endpointLookupNameAndSequence name = some (host, sequence)) :
    PkiTypes.isDnsName host = true := by
  unfold endpointLookupNameAndSequence at h
  split at h
  · obtain ⟨_, _, h⟩ := Option.bind_eq_some_iff.mp h
    obtain ⟨host', hhost, heq⟩ := Option.map_eq_some_iff.mp h
    obtain ⟨rfl, _⟩ := Prod.mk.inj heq
    exact isDnsName_of_resolvableName hhost
  · obtain ⟨host', hhost, heq⟩ := Option.map_eq_some_iff.mp h
    obtain ⟨rfl, _⟩ := Prod.mk.inj heq
    exact isDnsName_of_resolvableName hhost

/-- A host, perhaps a port, and the digits of a sequence. -/
def SequencedName [DhttpHome] (name host : Name) (sequence : CertificateSequence) : Prop :=
  PkiTypes.isDnsName host = true ∧ ∃ digits, IsNumber digits ∧
    sequence.get.toNat = Nat.ofDigitChars 10 digits 0 ∧
    (name = host ++ ':' :: digits ∨
      ∃ port, IsNumber port ∧ name = host ++ ':' :: port ++ ':' :: digits)

section Grammar

variable (hcolon : ∀ host, PkiTypes.isDnsName host = true → ':' ∉ host)

include hcolon

/-- One number after the host is passed over. -/
theorem resolvableName_eq_some {name host : Name} :
    resolvableName name = some host ↔ PkiTypes.isDnsName host = true ∧
      (name = host ∨ ∃ port, IsNumber port ∧ name = host ++ ':' :: port) := by
  constructor
  · intro h
    refine ⟨isDnsName_of_resolvableName h, ?_⟩
    simp only [resolvableName] at h
    split at h
    · rw [← Option.some.inj h]
      cases hsplit : splitDigits name with
      | none => exact Or.inl rfl
      | some parts =>
        obtain ⟨hname, hport⟩ := splitDigits_eq_some.mp hsplit
        exact Or.inr ⟨parts.2, hport, hname⟩
    · cases h
  · rintro ⟨hvalid, hname⟩
    have hhost : (splitDigits name).elim name Prod.fst = host := by
      rcases hname with rfl | ⟨port, hport, hname⟩
      · rw [splitDigits_of_not_colon (hcolon _ hvalid)]
        rfl
      · rw [splitDigits_eq_some.mpr ⟨hname, hport⟩]
        rfl
    simp only [resolvableName]
    rw [hhost, if_pos hvalid]

variable [DhttpHome]

theorem accepted_plain {name host : Name} :
    endpointLookupNameAndSequence name = some (host, none) ↔
      host = name ∧ PkiTypes.isDnsName name = true := by
  unfold endpointLookupNameAndSequence
  split
  · rename_i before digits hsplit
    obtain ⟨rfl, _⟩ := splitDigits_eq_some.mp hsplit
    constructor
    · intro h
      obtain ⟨_, _, h⟩ := Option.bind_eq_some_iff.mp h
      obtain ⟨_, _, heq⟩ := Option.map_eq_some_iff.mp h
      cases heq
    · rintro ⟨_, hvalid⟩
      exact absurd (by simp) (hcolon _ hvalid)
  · rename_i hsplit
    rw [Option.map_eq_some_iff]
    constructor
    · rintro ⟨_, hname, heq⟩
      cases heq
      obtain ⟨hvalid, rfl | ⟨port, hport, hname⟩⟩ := (resolvableName_eq_some hcolon).mp hname
      · exact ⟨rfl, hvalid⟩
      · rw [splitDigits_eq_some.mpr ⟨hname, hport⟩] at hsplit
        cases hsplit
    · rintro ⟨rfl, hvalid⟩
      exact ⟨host, (resolvableName_eq_some hcolon).mpr ⟨hvalid, Or.inl rfl⟩, rfl⟩

theorem accepted_sequenced {name host : Name} {sequence : CertificateSequence} :
    endpointLookupNameAndSequence name = some (host, some sequence) ↔
      SequencedName name host sequence := by
  constructor
  · intro h
    unfold endpointLookupNameAndSequence at h
    split at h
    · rename_i before digits hsplit
      obtain ⟨rfl, hdigits⟩ := splitDigits_eq_some.mp hsplit
      obtain ⟨_, hseq, h⟩ := Option.bind_eq_some_iff.mp h
      obtain ⟨_, hname, heq⟩ := Option.map_eq_some_iff.mp h
      cases heq
      obtain ⟨hvalid, hbefore⟩ := (resolvableName_eq_some hcolon).mp hname
      refine ⟨hvalid, digits, hdigits, (sequence_of_digits hdigits _).mp hseq, ?_⟩
      rcases hbefore with rfl | ⟨port, hport, rfl⟩
      · exact Or.inl rfl
      · exact Or.inr ⟨port, hport, rfl⟩
    · obtain ⟨_, _, heq⟩ := Option.map_eq_some_iff.mp h
      cases heq
  · rintro ⟨hvalid, digits, hdigits, hval, hname⟩
    have hseq := (sequence_of_digits hdigits sequence).mpr hval
    obtain ⟨before, hsplit, hbefore⟩ : ∃ before, splitDigits name = some (before, digits) ∧
        (before = host ∨ ∃ port, IsNumber port ∧ before = host ++ ':' :: port) := by
      rcases hname with hname | ⟨port, hport, hname⟩
      · exact ⟨host, splitDigits_eq_some.mpr ⟨hname, hdigits⟩, Or.inl rfl⟩
      · exact ⟨_, splitDigits_eq_some.mpr ⟨hname, hdigits⟩, Or.inr ⟨port, hport, rfl⟩⟩
    have hhost := (resolvableName_eq_some hcolon).mpr ⟨hvalid, hbefore⟩
    unfold endpointLookupNameAndSequence
    rw [hsplit]
    dsimp only
    rw [hseq, hhost]
    rfl

/-- A name is a host, or a host with a sequence after it and perhaps a port between them. -/
theorem lookup_name_grammar (name : Name) :
    (∀ host, endpointLookupNameAndSequence name = some (host, none) ↔
      host = name ∧ PkiTypes.isDnsName name = true) ∧
    (∀ host sequence, endpointLookupNameAndSequence name = some (host, some sequence) ↔
      SequencedName name host sequence) ∧
    (endpointLookupNameAndSequence name = none ↔
      PkiTypes.isDnsName name = false ∧ ∀ host sequence, ¬ SequencedName name host sequence) := by
  refine ⟨fun host => accepted_plain hcolon, fun host sequence => accepted_sequenced hcolon, ?_⟩
  constructor
  · intro hnone
    constructor
    · cases hvalid : PkiTypes.isDnsName name with
      | false => rfl
      | true =>
        rw [(accepted_plain hcolon).mpr ⟨rfl, hvalid⟩] at hnone
        cases hnone
    · intro host sequence hname
      rw [(accepted_sequenced hcolon).mpr hname] at hnone
      cases hnone
  · rintro ⟨hinvalid, hname⟩
    rcases haccepted : endpointLookupNameAndSequence name with _ | ⟨host, _ | sequence⟩
    · rfl
    · have hvalid := ((accepted_plain hcolon).mp haccepted).2
      rw [hinvalid] at hvalid
      cases hvalid
    · exact absurd ((accepted_sequenced hcolon).mp haccepted) (hname host sequence)

end Grammar

end Names

section Ports

attribute [local instance] plainHome colonFreePki

/-- A port may stand between the host and the sequence, which is then not all that follows
the host. -/
theorem port_before_sequence :
    endpointLookupNameAndSequence ['a', ':', '1', ':', '2'] =
      some (['a'], some (CertificateSequence.ofU8 2)) ∧
    ¬ ∃ digits, IsNumber digits ∧ ['a', ':', '1', ':', '2'] = ['a'] ++ ':' :: digits := by
  refine ⟨by decide +kernel, ?_⟩
  rintro ⟨digits, hdigits, heq⟩
  rw [List.singleton_append, List.cons.injEq, List.cons.injEq] at heq
  rw [← heq.2.2] at hdigits
  exact absurd hdigits (by decide)

theorem lookup_name_grammar_host :
    (∀ host, PkiTypes.isDnsName host = true → ':' ∉ host) ∧
    endpointLookupNameAndSequence ['a', ':', '2'] =
      some (['a'], some (CertificateSequence.ofU8 2)) :=
  ⟨colonFreePki_not_colon,
    ((lookup_name_grammar colonFreePki_not_colon ['a', ':', '2']).2.1 _ _).mpr
      ⟨by decide +kernel, ['2'], by decide, by decide, Or.inl rfl⟩⟩

end Ports

end Ddns
