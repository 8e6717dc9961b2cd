import Ddns.Core.EndpointCodec
import Ddns.Core.NameExpansion
import Ddns.Core.Packet

/-! How much the parsers of names, questions and records read, and at which slices they raise
their errors. -/
namespace Ddns

open Nom BigEndian

/-- `t` is what is left of `s` after at least `n` bytes. -/
def Consumes (n : ℕ) (s t : Slice) : Prop := t.Suffix s ∧ s.pos + n ≤ t.pos

theorem Consumes.trans {m n : ℕ} {r s t : Slice} (hrs : Consumes m r s) (hst : Consumes n s t) :
    Consumes (m + n) r t := by
  refine ⟨hst.1.trans hrs.1, ?_⟩
  have h₁ := hrs.2
  have h₂ := hst.2
  omega

theorem consumes_word {α : Type} [Word α] {s r : Slice} {x : α} (h : beWord s = .ok r x) :
    Consumes (Word.size α) s r := by
  obtain ⟨_, rfl, hlen⟩ := beWord_ok h
  exact ⟨Slice.Suffix.drop hlen, le_rfl⟩

theorem Consumes.len {n : ℕ} {s t : Slice} (h : Consumes n s t) : n + t.len ≤ s.len := by
  obtain ⟨⟨k, hk, rfl⟩, hn⟩ := h
  simp only [Slice.drop_pos] at hn
  rw [Slice.drop_len]
  omega

variable {origin input remain : Slice}

theorem Expands.consumes {labels : List (List UInt8)} (h : Expands origin input labels remain) :
    Consumes 1 input remain := by
  induction h with
  | @root input rest hb =>
    have hlen : 1 ≤ input.len := by simp [Slice.len, hb]
    exact ⟨Slice.Suffix.drop hlen, le_rfl⟩
  | @label input remain len label rest labels hb hlen hpos hmax _ ih =>
    have hl : 1 + label.length ≤ input.len := by
      simp only [Slice.len, hb, List.length_cons, List.length_append]
      omega
    have hp := ih.2
    rw [Slice.drop_pos] at hp
    exact ⟨ih.1.trans (Slice.Suffix.drop hl), by omega⟩
  | @pointer input remain hi lo rest labels hb hi' ho _ _ =>
    have hl : 2 ≤ input.len := by
      simp [Slice.len, hb]
    exact ⟨Slice.Suffix.drop hl, by simp⟩

theorem consumes_name {name : Name} (h : beName input origin = .ok remain name) :
    Consumes 1 input remain := by
  obtain ⟨labels, hexp, _⟩ := (beName_yields input origin).1 _ _ h
  exact hexp.consumes

theorem consumes_questionHead {head : QuestionHead}
    (h : beQuestionHead origin input = .ok remain head) :
    Consumes minQuestionWireLen input remain := by
  obtain ⟨r₁, name, h₁, h⟩ := andThen_eq_ok.mp h
  obtain ⟨r₂, qtype, h₂, h⟩ := andThen_eq_ok.mp h
  obtain ⟨qclass, h₃, _⟩ := map_eq_ok.mp h
  exact (consumes_name h₁).trans ((consumes_word h₂).trans (consumes_word h₃))

theorem consumes_recordHead {head : RecordHead}
    (h : beRecordHead origin input = .ok remain head) :
    Consumes minResourceRecordWireLen input remain := by
  obtain ⟨r₁, name, h₁, h⟩ := andThen_eq_ok.mp h
  obtain ⟨r₂, typ, h₂, h⟩ := andThen_eq_ok.mp h
  obtain ⟨r₃, cls, h₃, h⟩ := andThen_eq_ok.mp h
  obtain ⟨r₄, ttl, h₄, h⟩ := andThen_eq_ok.mp h
  obtain ⟨rdlen, h₅, _⟩ := map_eq_ok.mp h
  exact (consumes_name h₁).trans ((consumes_word h₂).trans ((consumes_word h₃).trans
    ((consumes_word h₄).trans (consumes_word h₅))))

theorem beHeader_ok {s r : Slice} {header : Header} (h : beHeader s = .ok r header) :
    Consumes 12 s r := by
  obtain ⟨r₁, id, h₁, h⟩ := andThen_eq_ok.mp h
  obtain ⟨r₂, flags, h₂, h⟩ := andThen_eq_ok.mp h
  obtain ⟨r₃, questions, h₃, h⟩ := andThen_eq_ok.mp h
  obtain ⟨r₄, answers, h₄, h⟩ := andThen_eq_ok.mp h
  obtain ⟨r₅, nameservers, h₅, h⟩ := andThen_eq_ok.mp h
  obtain ⟨additional, h₆, _⟩ := map_eq_ok.mp h
  exact (consumes_word h₁).trans ((consumes_word h₂).trans ((consumes_word h₃).trans
    ((consumes_word h₄).trans ((consumes_word h₅).trans (consumes_word h₆)))))

/-- The fixed fields of a record fail only where its name does, or for want of bytes. -/
theorem beRecordHead_error {e : Err} (h : beRecordHead origin input = .err e) :
    beName input origin = .err e ∨ Incomplete e := by
  rcases andThen_eq_err.mp h with h | ⟨r₁, name, _, h⟩
  · exact Or.inl h
  refine Or.inr ?_
  rcases andThen_eq_err.mp h with h | ⟨r₂, typ, _, h⟩
  · exact beWord_error h
  rcases andThen_eq_err.mp h with h | ⟨r₃, cls, _, h⟩
  · exact beWord_error h
  rcases andThen_eq_err.mp h with h | ⟨r₄, ttl, _, h⟩
  · exact beWord_error h
  · exact beWord_error (map_eq_err.mp h)

theorem beQuestionHead_error {e : Err} (h : beQuestionHead origin input = .err e) :
    beName input origin = .err e ∨ Incomplete e := by
  rcases andThen_eq_err.mp h with h | ⟨r₁, name, _, h⟩
  · exact Or.inl h
  refine Or.inr ?_
  rcases andThen_eq_err.mp h with h | ⟨r₂, qtype, _, h⟩
  · exact beWord_error h
  · exact beWord_error (map_eq_err.mp h)

/-- A place of the message, other than its end, at which no name can be read. -/
structure Stray (origin s : Slice) : Prop where
  dead : Dead origin s
  nonempty : s.bytes ≠ []
  suffix : s.Suffix origin

/-- A recoverable error carries a non-empty slice: a rest of `d`, or a stray place. -/
def Sited (origin d : Slice) (e : Err) : Prop :=
  ∀ s k, e = .error s k → s.bytes ≠ [] ∧ (s.Suffix d ∨ Stray origin s)

theorem Sited.mono {c d : Slice} {e : Err} (hd : d.Suffix c) (h : Sited origin d e) :
    Sited origin c e := by
  intro s k he
  obtain ⟨hne, hs⟩ := h s k he
  exact ⟨hne, hs.imp_left fun hs => hs.trans hd⟩

theorem Sited.of_local {d : Slice} {e : Err} (h : LocalErr d e) : Sited origin d e := by
  rintro s k rfl
  exact ⟨h.2, Or.inl h.1⟩

theorem Sited.of_name {d : Slice} {e : Err} (h : NameErr origin d e) : Sited origin d e := by
  rintro s k rfl
  obtain ⟨_, ⟨n, hn⟩ | ⟨t, ht, hdead, hne, hsuf⟩⟩ := h
  · cases hn
  · cases ht
    exact ⟨hne, hsuf.imp_right fun hs => ⟨hdead, hne, hs⟩⟩

theorem beName_sited (origin d : Slice) :
    Yields (beName d origin) (fun r _ => r.Suffix d) (Sited origin d) :=
  ⟨fun _ _ h => (consumes_name h).1, fun e h => .of_name ((beName_yields d origin).2 e h)⟩

theorem local_sited {α : Type} {parser : Slice → IResult α} (h : Local parser) (origin d : Slice) :
    Yields (parser d) (fun r _ => r.Suffix d) (Sited origin d) :=
  (h d).mono (fun _ _ hr => hr) (fun _ he => .of_local he)

theorem map_sited {α β : Type} {x : IResult α} {d : Slice} (f : α → β)
    (h : Yields x (fun r _ => r.Suffix d) (Sited origin d)) :
    Yields (x.map f) (fun r _ => r.Suffix d) (Sited origin d) :=
  h.andThen fun _ _ hr => Yields.ok hr

theorem beSrv_sited (origin d : Slice) :
    Yields (beSrv origin d) (fun r _ => r.Suffix d) (Sited origin d) := by
  refine Yields.andThen (local_sited local_word origin d) fun r₁ priority h₁ => ?_
  have step : ∀ {r : Slice}, r.Suffix d → Yields (beU16 r) (fun t _ => t.Suffix d) (Sited origin d) :=
    fun hr => (local_sited local_word origin _).mono (fun _ _ h => h.trans hr) fun _ h => h.mono hr
  refine Yields.andThen (step h₁) fun r₂ weight h₂ => ?_
  refine Yields.andThen (step h₂) fun r₃ port h₃ => ?_
  exact map_sited _ ((beName_sited origin r₃).mono (fun _ _ h => h.trans h₃) fun _ h => h.mono h₃)

/-- `s` lies within `c`. -/
def Inside (s c : Slice) : Prop := c.pos ≤ s.pos ∧ s.stop ≤ c.stop

theorem Inside.of_suffix {s c : Slice} (h : s.Suffix c) : Inside s c :=
  ⟨h.pos_le, h.stop_eq.le⟩

theorem Inside.of_take {s c : Slice} {n : ℕ} (h : s.Suffix (c.take n)) : Inside s c := by
  have hstop := h.stop_eq
  have hpos := h.pos_le
  refine ⟨hpos, ?_⟩
  rw [hstop]
  simp only [Slice.stop, Slice.take, Slice.len, List.length_take]
  omega

theorem Inside.trans {r s t : Slice} (hrs : Inside r s) (hst : Inside s t) : Inside r t :=
  ⟨hst.1.trans hrs.1, hrs.2.trans hst.2⟩

theorem skipRdata_error {α : Type} {rdlen : UInt16} {r : Slice} {e : Err}
    (h : (skipRdata rdlen r : IResult α) = .err e) :
    (r.len < rdlen.toNat ∧ Incomplete e) ∨
      (rdlen.toNat ≤ r.len ∧ e = .error (r.drop rdlen.toNat) .alt) := by
  unfold skipRdata at h
  split at h
  · cases h
    exact Or.inl ⟨by assumption, _, rfl⟩
  · cases h
    exact Or.inr ⟨by omega, rfl⟩

variable [DhttpHome]

theorem beRdata_sited (origin : Slice) (typ : RecordType) (rdlen : UInt16) (d : Slice) :
    Yields (beRdata origin typ rdlen d) (fun r _ => r.Suffix d) (Sited origin d) := by
  cases typ with
  | a => exact map_sited _ (local_sited local_word origin d)
  | aaaa => exact map_sited _ (local_sited local_word origin d)
  | cname => exact map_sited _ (beName_sited origin d)
  | txt => exact map_sited _ (local_sited (local_take _) origin d)
  | srv => exact map_sited _ (beSrv_sited origin d)
  | ptr => exact map_sited _ (beName_sited origin d)
  | ns => exact map_sited _ (beName_sited origin d)
  | e => exact map_sited _ (local_sited (local_endpointAddrCompat rdlen) origin d)

/-- Where `be_record` raises a recoverable error: in its name, in its data, or further on after
it has skipped something. -/
theorem beRecord_error_cases {s : Slice} {k : ErrorKind}
    (h : beRecord origin input = .err (.error s k)) :
    beName input origin = .err (.error s k) ∨
      (∃ r head typ, beRecordHead origin input = .ok r head ∧
        RecordType.tryFrom head.typ = some typ ∧ head.rdlen.toNat ≤ r.len ∧
        beRdata origin typ head.rdlen (r.take head.rdlen.toNat) = .err (.error s k)) ∨
      s.Suffix input := by
  rcases andThen_eq_err.mp h with h | ⟨r, head, hhead, h⟩
  · rcases beRecordHead_error h with h | ⟨n, hn⟩
    · exact Or.inl h
    · cases hn
  refine Or.inr ?_
  have hr := (consumes_recordHead hhead).1
  unfold beRecordBody at h
  cases htyp : RecordType.tryFrom head.typ with
  | none =>
    simp only [htyp] at h
    rcases skipRdata_error h with ⟨_, n, hn⟩ | ⟨hlen, heq⟩
    · cases hn
    · cases heq
      exact Or.inr ((Slice.Suffix.drop hlen).trans hr)
  | some typ =>
    simp only [htyp] at h
    split at h
    · cases h
    rename_i hlen
    have hlen : head.rdlen.toNat ≤ r.len := by omega
    have hafter := (Slice.Suffix.drop hlen).trans hr
    rcases andThen_eq_err.mp h with h | ⟨after, data, htake, h⟩
    · cases (take_error h).2
    obtain ⟨_, rfl, rfl⟩ := take_ok htake
    rcases andThen_eq_err.mp h with h | ⟨rest, rdata, _, h⟩
    · exact Or.inl ⟨r, head, typ, hhead, htyp, hlen, h⟩
    refine Or.inr ?_
    split at h
    · cases h
      exact hafter
    unfold beRecordClass at h
    split at h
    · rcases skipRdata_error h with ⟨_, n, hn⟩ | ⟨hlen', heq⟩
      · cases hn
      · cases heq
        exact (Slice.Suffix.drop hlen').trans hafter
    · cases h

/-- An accepted record has the name of its fixed fields, and ends after its data. -/
theorem beRecord_ok {record : ResourceRecord} (h : beRecord origin input = .ok remain record) :
    ∃ r head, beRecordHead origin input = .ok r head ∧ head.rdlen.toNat ≤ r.len ∧
      remain = r.drop head.rdlen.toNat ∧ record.name = head.name := by
  obtain ⟨r, head, hhead, h⟩ := andThen_eq_ok.mp h
  refine ⟨r, head, hhead, ?_⟩
  unfold beRecordBody at h
  split at h
  · unfold skipRdata at h
    split at h <;> cases h
  split at h
  · cases h
  obtain ⟨after, data, htake, h⟩ := andThen_eq_ok.mp h
  obtain ⟨hlen, rfl, rfl⟩ := take_ok htake
  obtain ⟨rest, rdata, _, h⟩ := andThen_eq_ok.mp h
  split at h
  · cases h
  unfold beRecordClass at h
  split at h
  · unfold skipRdata at h
    split at h <;> cases h
  · cases h
    exact ⟨hlen, rfl, rfl⟩

theorem beRecord_ok_suffix {record : ResourceRecord} (h : beRecord origin input = .ok remain record) :
    remain.Suffix input := by
  obtain ⟨r, head, hhead, hlen, rfl, _⟩ := beRecord_ok h
  exact (Slice.Suffix.drop hlen).trans (consumes_recordHead hhead).1

end Ddns
