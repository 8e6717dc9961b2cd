import Ddns.Core.ErrorSites

/-! Well-framed messages, and when the section loops keep in step with them. -/
namespace Ddns

open Nom

/-- Items that follow each other without a gap. -/
inductive Chain {α : Type} (R : Slice → α → Slice → Prop) : Slice → List α → Slice → Prop
  | nil (s : Slice) : Chain R s [] s
  | cons {s m t : Slice} {item : α} {items : List α} (h : R s item m) (ht : Chain R m items t) :
      Chain R s (item :: items) t

section Chains

variable {α β : Type} {R : Slice → α → Slice → Prop} {s m t : Slice} {items items' : List α}

theorem Chain.split (h : Chain R s (items ++ items') t) :
    ∃ m, Chain R s items m ∧ Chain R m items' t := by
  induction items generalizing s with
  | nil => exact ⟨s, .nil s, h⟩
  | cons item items ih =>
    cases h with
    | cons hi ht =>
      obtain ⟨m, h₁, h₂⟩ := ih ht
      exact ⟨m, .cons hi h₁, h₂⟩

/-- Items of a minimal length need that much room. -/
theorem Chain.consumes {n : ℕ} (hR : ∀ s item t, R s item t → Consumes n s t)
    (h : Chain R s items t) : Consumes (items.length * n) s t := by
  induction h with
  | nil s => exact ⟨Slice.Suffix.refl s, by simp⟩
  | cons hi _ ih =>
    have hc := (hR _ _ _ hi).trans ih
    rw [List.length_cons, Nat.succ_mul, Nat.add_comm]
    exact hc

/-- One pass of a section loop that keeps `out` and goes on at `t`. -/
def Passes (parser : Slice → IResult β) (out : Option β) (s t : Slice) : Prop :=
  match out with
  | some value => parser s = .ok t value
  | none => ∃ k, parser s = .err (.error t k)

/-- One turn of the loop over what is passed. -/
theorem parse_passes {parser : Slice → IResult β} {out : Option β} (h : Passes parser out s t)
    (n : ℕ) : (parse parser (n + 1) s).1 = (parse parser n t).1 := by
  cases out with
  | some value =>
    have hok : parser s = .ok t value := h
    rw [parse, hok]
  | none =>
    obtain ⟨k, herr⟩ := h
    rw [parse, herr]

/-- A loop that passes every item of a chain ends where the chain does. -/
theorem parse_chain {parser : Slice → IResult β} (out : α → Option β)
    (hp : ∀ s item t, item ∈ items → R s item t → Passes parser (out item) s t)
    (h : Chain R s items t) : parse parser items.length s = (t, items.filterMap out) := by
  induction h with
  | nil s => rfl
  | @cons s m t item items hi _ ih =>
    have hrest := ih fun s item t hmem => hp s item t (List.mem_cons_of_mem _ hmem)
    have hfirst := hp s item m (by simp) hi
    cases ho : out item with
    | none =>
      rw [ho] at hfirst
      obtain ⟨k, hk⟩ := hfirst
      rw [List.length_cons, parse, hk, List.filterMap_cons_none ho]
      exact hrest
    | some value =>
      rw [ho] at hfirst
      have hfirst : parser s = .ok m value := hfirst
      rw [List.length_cons, parse, hfirst, List.filterMap_cons_some ho]
      dsimp only
      rw [hrest]

/-- Two loops in a row are one loop: where the first one stops early, so does the second. -/
theorem parse_add (parser : Slice → IResult β) (m n : ℕ) (s : Slice) :
    parse parser (m + n) s =
      ((parse parser n (parse parser m s).1).1,
        (parse parser m s).2 ++ (parse parser n (parse parser m s).1).2) := by
  induction m generalizing s with
  | zero => simp [parse]
  | succ m ih =>
    rw [Nat.add_right_comm, parse, parse]
    cases hp : parser s with
    | ok t value =>
      dsimp only
      rw [ih]
      rfl
    | err e =>
      have hstop : (∀ t k, e ≠ .error t k) → parse parser n s = (s, []) := by
        intro he
        cases n with
        | zero => rfl
        | succ n =>
          rw [parse, hp]
          cases e with
          | error t k => exact (he t k rfl).elim
          | _ => rfl
      cases e with
      | error t k => exact ih t
      | incomplete n =>
        dsimp only
        rw [hstop (by simp)]
        rfl
      | failure t k =>
        dsimp only
        rw [hstop (by simp)]
        rfl

end Chains

/-- A well-framed question at `s`: a name that is accepted, and the two fields after it. -/
def QuestionFramed (origin s : Slice) (head : QuestionHead) (t : Slice) : Prop :=
  beQuestionHead origin s = .ok t head

/-- What a packet has to hold for a question on the wire: the question if both of its fields are
known, the class without its top bit, which asks for a unicast response. -/
def QuestionHead.known (head : QuestionHead) : Option Question :=
  match QueryType.tryFrom head.qtype, QueryClass.tryFrom (head.qclass &&& 0x7FFF) with
  | some qtype, some qclass => some ⟨head.name, head.qclass &&& 0x8000 = 0x8000, qtype, qclass⟩
  | _, _ => none

/-- A record in its message: where it starts, its fixed fields, and the slice of its data. -/
structure RecordFrame where
  start : Slice
  head : RecordHead
  rdata : Slice

/-- A well-framed record at `s`: a name that is accepted, the fixed fields, and exactly RDLENGTH
bytes of data. -/
def RecordFramed (origin s : Slice) (f : RecordFrame) (t : Slice) : Prop :=
  f.start = s ∧ ∃ r, beRecordHead origin s = .ok r f.head ∧ f.head.rdlen.toNat ≤ r.len ∧
    f.rdata = r.take f.head.rdlen.toNat ∧ t = r.drop f.head.rdlen.toNat

theorem QuestionFramed.consumes {origin s t : Slice} {head : QuestionHead}
    (h : QuestionFramed origin s head t) : Consumes minQuestionWireLen s t :=
  consumes_questionHead h

theorem RecordFramed.consumes {origin s t : Slice} {f : RecordFrame}
    (h : RecordFramed origin s f t) : Consumes minResourceRecordWireLen s t := by
  obtain ⟨_, r, hhead, hlen, _, rfl⟩ := h
  have hr := consumes_recordHead hhead
  refine ⟨(Slice.Suffix.drop hlen).trans hr.1, ?_⟩
  have := hr.2
  rw [Slice.drop_pos]
  omega

/-- The data ends where the record does. -/
theorem RecordFramed.rdata_stop {origin s t : Slice} {f : RecordFrame}
    (h : RecordFramed origin s f t) : f.rdata.stop = t.pos := by
  obtain ⟨_, r, _, hlen, hrd, rfl⟩ := h
  rw [hrd]
  simp only [Slice.stop, Slice.take, Slice.len, List.length_take, Slice.drop_pos] at *
  omega

/-- A message of a header, exactly the declared number of well-framed questions and records, and
whatever follows them. -/
structure FramedMessage where
  bytes : List UInt8
  header : Header
  body : Slice
  questions : List QuestionHead
  afterQuestions : Slice
  answers : List RecordFrame
  nameservers : List RecordFrame
  additional : List RecordFrame
  trailing : Slice
  header_eq : beHeader (wholeSlice bytes) = .ok body header
  questions_framed : Chain (QuestionFramed (wholeSlice bytes)) body questions afterQuestions
  records_framed : Chain (RecordFramed (wholeSlice bytes)) afterQuestions
    (answers ++ (nameservers ++ additional)) trailing
  questions_length : questions.length = header.questionsCount.toNat
  answers_length : answers.length = header.answersCount.toNat
  nameservers_length : nameservers.length = header.nameserversCount.toNat
  additional_length : additional.length = header.additionalCount.toNat

namespace FramedMessage

/-- The whole message, which compression pointers refer to. -/
def origin (m : FramedMessage) : Slice := wholeSlice m.bytes

/-- The records of all sections, in order. -/
def records (m : FramedMessage) : List RecordFrame := m.answers ++ (m.nameservers ++ m.additional)

/-- The size check never rejects a well-framed message. -/
theorem validateSectionCounts_eq (m : FramedMessage) :
    validateSectionCounts m.header m.body = .ok m.body () := by
  have hq := m.questions_framed.consumes fun _ _ _ h => h.consumes
  have hr := m.records_framed.consumes fun _ _ _ h => h.consumes
  have hlen := (hq.trans hr).len
  simp only [List.length_append, m.questions_length, m.answers_length, m.nameservers_length,
    m.additional_length] at hlen
  rw [validateSectionCounts, if_neg]
  simp only [Nat.add_assoc]
  omega

variable [DhttpHome]

/-- The packet with the known questions, and of each record what `out` gives for it. -/
def packet (m : FramedMessage) (out : RecordFrame → Option ResourceRecord) : Packet :=
  ⟨m.header, m.questions.filterMap QuestionHead.known, m.answers.filterMap out,
    m.nameservers.filterMap out, m.additional.filterMap out⟩

end FramedMessage

theorem question_eq_known (head : QuestionHead) : head.question = head.known := by
  unfold QuestionHead.question QuestionHead.known
  cases QueryType.tryFrom head.qtype with
  | none => rfl
  | some qtype =>
    cases QueryClass.tryFrom (head.qclass &&& 0x7FFF) with
    | none => rfl
    | some qclass => rfl

theorem beQuestion_passes {origin s t : Slice} {head : QuestionHead}
    (h : QuestionFramed origin s head t) : Passes (beQuestion origin) head.known s t := by
  have h : beQuestionHead origin s = .ok t head := h
  rw [← question_eq_known]
  cases hq : head.question with
  | none => exact ⟨.alt, by rw [beQuestion, h, andThen_ok, hq]⟩
  | some question =>
    change beQuestion origin s = _
    rw [beQuestion, h, andThen_ok, hq]

section Sections

variable [DhttpHome]

omit [DhttpHome] in
/-- The questions of a well-framed message are read to their end. -/
theorem parse_questions (m : FramedMessage) :
    parse (beQuestion m.origin) m.header.questionsCount.toNat m.body =
      (m.afterQuestions, m.questions.filterMap QuestionHead.known) := by
  have hq := parse_chain QuestionHead.known (fun s head t _ h => beQuestion_passes h)
    m.questions_framed
  rw [m.questions_length] at hq
  exact hq

theorem bePacket_sections (m : FramedMessage) :
    bePacket m.origin = .ok (parseSections m.origin m.header m.body).1
      (parseSections m.origin m.header m.body).2 := by
  have hhead : beHeader m.origin = .ok m.body m.header := m.header_eq
  rw [bePacket, hhead, andThen_ok, m.validateSectionCounts_eq, andThen_ok]

/-- What the record sections leave over, and the packet of a well-framed message. -/
theorem bePacket_framed (m : FramedMessage) :
    bePacket m.origin = .ok
      (parse (beRecord m.origin) m.records.length m.afterQuestions).1
      (parseSections m.origin m.header m.body).2 ∧
    (parseSections m.origin m.header m.body).2.questions =
      m.questions.filterMap QuestionHead.known := by
  refine ⟨?_, by rw [parseSections, parse_questions]⟩
  rw [bePacket_sections]
  congr 1
  rw [parseSections, parse_questions, FramedMessage.records, List.length_append,
    List.length_append, m.answers_length, m.nameservers_length, m.additional_length, parse_add,
    parse_add]

/-- A message whose records all pass is read to its end. -/
theorem bePacket_of_passes (m : FramedMessage) (out : RecordFrame → Option ResourceRecord)
    (h : ∀ s f t, f ∈ m.records → RecordFramed m.origin s f t →
      Passes (beRecord m.origin) (out f) s t) :
    bePacket m.origin = .ok m.trailing (m.packet out) := by
  obtain ⟨s₁, ha, hrest⟩ := m.records_framed.split
  obtain ⟨s₂, hn, hd⟩ := hrest.split
  have ha := parse_chain out (fun s f t hmem => h s f t (List.mem_append_left _ hmem)) ha
  have hn := parse_chain out (fun s f t hmem =>
    h s f t (List.mem_append_right _ (List.mem_append_left _ hmem))) hn
  have hd := parse_chain out (fun s f t hmem =>
    h s f t (List.mem_append_right _ (List.mem_append_right _ hmem))) hd
  rw [m.answers_length] at ha
  rw [m.nameservers_length] at hn
  rw [m.additional_length] at hd
  have hsections : parseSections m.origin m.header m.body = (m.trailing, m.packet out) := by
    rw [parseSections, parse_questions]
    dsimp only
    rw [ha]
    dsimp only
    rw [hn]
    dsimp only
    rw [hd]
    rfl
  rw [bePacket_sections, hsections]

/-- What `be_record` makes of a record that ends at `t`, from its fields and its data. -/
def RecordFrame.outcome (origin : Slice) (f : RecordFrame) (t : Slice) : IResult ResourceRecord :=
  match RecordType.tryFrom f.head.typ with
  | none => .err (.error t .alt)
  | some typ =>
    (beRdata origin typ f.head.rdlen f.rdata).andThen fun rest rdata =>
      if rest.bytes ≠ [] then .err (.error t .eof) else beRecordClass f.head typ rdata t

theorem beRecord_framed {origin s t : Slice} {f : RecordFrame} (h : RecordFramed origin s f t) :
    beRecord origin s = f.outcome origin t := by
  obtain ⟨_, r, hhead, hlen, hrd, rfl⟩ := h
  have hshort : ¬ r.len < f.head.rdlen.toNat := by omega
  rw [beRecord, hhead, andThen_ok, beRecordBody, RecordFrame.outcome]
  cases RecordType.tryFrom f.head.typ with
  | none =>
    dsimp only
    rw [skipRdata, if_neg hshort]
  | some typ =>
    dsimp only
    rw [if_neg hshort, take, if_neg hshort, andThen_ok, hrd]

/-- The record that `be_record` returns at the start of a frame, if any. -/
def RecordFrame.accepted (origin : Slice) (f : RecordFrame) : Option ResourceRecord :=
  match beRecord origin f.start with
  | .ok _ record => some record
  | .err _ => none

/-- A record is accepted together with all of its data. -/
theorem RecordFrame.outcome_ok {origin t remain : Slice} {f : RecordFrame}
    {record : ResourceRecord} (h : f.outcome origin t = .ok remain record) : remain = t := by
  unfold RecordFrame.outcome at h
  split at h
  · cases h
  obtain ⟨rest, rdata, _, h⟩ := andThen_eq_ok.mp h
  split at h
  · cases h
  unfold beRecordClass at h
  split at h
  · unfold skipRdata at h
    split at h <;> cases h
  · cases h
    rfl

/-- Records of unknown type are skipped, and the records that `be_record` accepts are kept, each
in its own section, after the questions of known type and class. -/
theorem unknown_types_skipped (m : FramedMessage)
    (h : ∀ f ∈ m.records, RecordType.tryFrom f.head.typ = none ∨
      ∃ remain record, beRecord m.origin f.start = .ok remain record) :
    bePacket m.origin = .ok m.trailing (m.packet (RecordFrame.accepted m.origin)) := by
  apply bePacket_of_passes
  intro s f t hmem hf
  have hstart := hf.1
  subst hstart
  have hout := beRecord_framed hf
  unfold RecordFrame.accepted
  rcases h f hmem with hnone | ⟨remain, record, hok⟩
  · have herr : f.outcome m.origin t = .err (.error t .alt) := by
      rw [RecordFrame.outcome, hnone]
    rw [hout, herr]
    exact ⟨.alt, hout.trans herr⟩
  · rw [hok]
    have ht := RecordFrame.outcome_ok (hout.symm.trans hok)
    rw [ht] at hok
    exact hok

end Sections

section Sample

attribute [local instance] plainHome

/-- A message with a PTR question, one of unknown type and one of unknown class, a record of unknown
type and class, and a TXT record, with one byte after them. -/
def mixedMessage : FramedMessage where
  bytes := [0, 7, 0x81, 0x80, 0, 3, 0, 2, 0, 0, 0, 0,
    0, 0, 12, 0x80, 1,
    0, 0, 255, 0, 1,
    0, 0, 1, 0, 9,
    0, 3, 231, 0, 77, 0, 0, 0, 0, 0, 2, 8, 8,
    0, 0, 16, 0, 1, 0, 0, 0, 60, 0, 1, 67, 9]
  header := ⟨7, 0x8180, 3, 2, 0, 0⟩
  body := ⟨12, [0, 0, 12, 0x80, 1, 0, 0, 255, 0, 1, 0, 0, 1, 0, 9,
    0, 3, 231, 0, 77, 0, 0, 0, 0, 0, 2, 8, 8, 0, 0, 16, 0, 1, 0, 0, 0, 60, 0, 1, 67, 9]⟩
  questions := [⟨['.'], 12, 0x8001⟩, ⟨['.'], 255, 1⟩, ⟨['.'], 1, 9⟩]
  afterQuestions := ⟨27, [0, 3, 231, 0, 77, 0, 0, 0, 0, 0, 2, 8, 8,
    0, 0, 16, 0, 1, 0, 0, 0, 60, 0, 1, 67, 9]⟩
  answers :=
    [⟨⟨27, [0, 3, 231, 0, 77, 0, 0, 0, 0, 0, 2, 8, 8, 0, 0, 16, 0, 1, 0, 0, 0, 60, 0, 1, 67, 9]⟩,
      ⟨['.'], 999, 77, 0, 2⟩, ⟨38, [8, 8]⟩⟩,
     ⟨⟨40, [0, 0, 16, 0, 1, 0, 0, 0, 60, 0, 1, 67, 9]⟩, ⟨['.'], 16, 1, 60, 1⟩, ⟨51, [67]⟩⟩]
  nameservers := []
  additional := []
  trailing := ⟨52, [9]⟩
  header_eq := by decide
  questions_framed :=
    .cons (m := ⟨17, [0, 0, 255, 0, 1, 0, 0, 1, 0, 9,
        0, 3, 231, 0, 77, 0, 0, 0, 0, 0, 2, 8, 8, 0, 0, 16, 0, 1, 0, 0, 0, 60, 0, 1, 67, 9]⟩)
      (by unfold QuestionFramed; decide)
      (.cons (m := ⟨22, [0, 0, 1, 0, 9,
          0, 3, 231, 0, 77, 0, 0, 0, 0, 0, 2, 8, 8, 0, 0, 16, 0, 1, 0, 0, 0, 60, 0, 1, 67, 9]⟩)
        (by unfold QuestionFramed; decide)
        (.cons (by unfold QuestionFramed; decide) (.nil _)))
  records_framed :=
    .cons ⟨rfl, ⟨38, [8, 8, 0, 0, 16, 0, 1, 0, 0, 0, 60, 0, 1, 67, 9]⟩, by decide, by decide, rfl, rfl⟩
      (.cons ⟨rfl, ⟨51, [67, 9]⟩, by decide, by decide, rfl, rfl⟩ (.nil _))
  questions_length := rfl
  answers_length := rfl
  nameservers_length := rfl
  additional_length := rfl

/-- The PTR question and the TXT record are kept. -/
theorem unknown_types_skipped_mixed :
    bePacket mixedMessage.origin = .ok ⟨52, [9]⟩
      ⟨⟨7, 0x8180, 3, 2, 0, 0⟩, [⟨['.'], true, .ptr, .in⟩],
        [⟨['.'], .txt, false, .in, 60, .txt [67]⟩], [], []⟩ := by
  have h := unknown_types_skipped mixedMessage (by
    intro f hmem
    rcases List.mem_cons.mp hmem with rfl | hmem
    · exact Or.inl (by decide)
    · rw [List.mem_singleton.mp hmem]
      exact Or.inr ⟨⟨52, [9]⟩, ⟨['.'], .txt, false, .in, 60, .txt [67]⟩, by decide⟩)
  rw [h]
  decide

end Sample

end Ddns
