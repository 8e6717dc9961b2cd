import Ddns.Core.PacketFraming

/-! What the section loops recover from: data with bytes left over is skipped, rejected data and
unknown classes lose the place. -/
namespace Ddns

open Nom

section Recovery

variable [DhttpHome] {origin s t : Slice} {f : RecordFrame}

/-- The record that a frame stands for: its type and its class are known, and its data is accepted
to the last byte. -/
def RecordFrame.record (origin : Slice) (f : RecordFrame) : Option ResourceRecord :=
  match RecordType.tryFrom f.head.typ, Class.tryFrom f.head.cls with
  | some typ, some cls =>
    match beRdata origin typ f.head.rdlen f.rdata with
    | .ok rest rdata =>
      if rest.bytes = [] then
        some ⟨f.head.name, typ, f.head.cls &&& 0x8000 = 0x8000, cls, f.head.ttl, rdata⟩
      else none
    | .err _ => none
  | _, _ => none

/-- The type of the record and its class are recognised. -/
def RecordFrame.Known (f : RecordFrame) : Prop :=
  (RecordType.tryFrom f.head.typ).isSome ∧ (Class.tryFrom f.head.cls).isSome

/-- The data is of a known type, and `be_rdata` returns an error on it. -/
def RecordFrame.Rejected (origin : Slice) (f : RecordFrame) : Prop :=
  ∃ typ e, RecordType.tryFrom f.head.typ = some typ ∧
    beRdata origin typ f.head.rdlen f.rdata = .err e

omit [DhttpHome] in
theorem class_tryFrom_mask (cls : UInt16) : Class.tryFrom (cls &&& 0x7FFF) = Class.tryFrom cls := by
  unfold Class.tryFrom
  rw [UInt16.and_assoc, UInt16.and_self]

/-- Data that is accepted, with or without bytes left over, does not disturb the loop. -/
theorem passes_of_not_rejected (hf : RecordFramed origin s f t) (hk : f.Known)
    (hr : ¬ f.Rejected origin) : Passes (beRecord origin) (f.record origin) s t := by
  obtain ⟨htyp, hcls⟩ := hk
  obtain ⟨typ, htyp⟩ := Option.isSome_iff_exists.mp htyp
  obtain ⟨cls, hcls⟩ := Option.isSome_iff_exists.mp hcls
  have hout := beRecord_framed hf
  rw [RecordFrame.outcome, htyp] at hout
  dsimp only at hout
  unfold RecordFrame.record
  rw [htyp, hcls]
  dsimp only
  cases hd : beRdata origin typ f.head.rdlen f.rdata with
  | err e => exact (hr ⟨typ, e, htyp, hd⟩).elim
  | ok rest rdata =>
    rw [hd, andThen_ok] at hout
    dsimp only
    by_cases hrest : rest.bytes = []
    · rw [if_neg (not_not_intro hrest), beRecordClass, class_tryFrom_mask, hcls] at hout
      rw [if_pos hrest]
      exact hout
    · rw [if_pos hrest] at hout
      rw [if_neg hrest]
      exact ⟨.eof, hout⟩

/-- The cursor has left the chain of records: it is in something that ends at or before `bound`,
or at a stray place. -/
def Lost (origin : Slice) (bound : ℕ) (c : Slice) : Prop := c.stop ≤ bound ∨ Stray origin c

/-- No record starts at a stray place, and the error there leads to another one. -/
theorem beRecord_stray {c : Slice} (h : Stray origin c) :
    ∃ e, beRecord origin c = .err e ∧ ∀ u k, e = .error u k → Stray origin u := by
  have hy := beName_yields c origin
  cases hn : beName c origin with
  | ok r name =>
    obtain ⟨labels, hexp, _⟩ := hy.1 _ _ hn
    exact (h.dead _ _ hexp).elim
  | err e =>
    refine ⟨e, by rw [beRecord, beRecordHead, hn]; rfl, ?_⟩
    intro u k he
    obtain ⟨hne, hu⟩ := Sited.of_name (hy.2 e hn) u k he
    rcases hu with hu | hu
    · obtain ⟨_, ⟨n, hinc⟩ | ⟨v, hv, hdead, _⟩⟩ := hy.2 e hn
      · rw [he] at hinc
        cases hinc
      · rw [he] at hv
        cases hv
        exact ⟨hdead, hne, hu.trans h.suffix⟩
    · exact hu

theorem beRecord_lost {bound : ℕ} {c u : Slice} (h : Lost origin bound c)
    (hu : (∃ record, beRecord origin c = .ok u record) ∨
      ∃ k, beRecord origin c = .err (.error u k)) : Lost origin bound u := by
  rcases h with hstop | hstray
  · rcases hu with ⟨record, hok⟩ | ⟨k, herr⟩
    · exact Or.inl ((beRecord_ok_suffix hok).stop_eq.le.trans hstop)
    · rcases beRecord_error_cases herr with hname | ⟨r, head, typ, hhead, _, _, hrd⟩ | hsuf
      · obtain ⟨_, hsuf | hstray⟩ := (beName_sited origin c).2 _ hname u k rfl
        · exact Or.inl (hsuf.stop_eq.le.trans hstop)
        · exact Or.inr hstray
      · obtain ⟨_, hsuf | hstray⟩ := (beRdata_sited origin typ head.rdlen _).2 _ hrd u k rfl
        · have hin := (Inside.of_take hsuf).trans (.of_suffix (consumes_recordHead hhead).1)
          exact Or.inl (hin.2.trans hstop)
        · exact Or.inr hstray
      · exact Or.inl (hsuf.stop_eq.le.trans hstop)
  · obtain ⟨e, he, hstrays⟩ := beRecord_stray hstray
    rcases hu with ⟨record, hok⟩ | ⟨k, herr⟩
    · rw [he] at hok
      cases hok
    · rw [he] at herr
      cases herr
      exact Or.inr (hstrays u k rfl)

/-- A loop that has lost its place does not find it again. -/
theorem parse_lost {bound n : ℕ} {c : Slice} (h : Lost origin bound c) :
    Lost origin bound (parse (beRecord origin) n c).1 := by
  induction n generalizing c with
  | zero => exact h
  | succ n ih =>
    rw [parse]
    cases hc : beRecord origin c with
    | ok u record => exact ih (beRecord_lost h (Or.inl ⟨record, hc⟩))
    | err e =>
      cases e with
      | error u k => exact ih (beRecord_lost h (Or.inr ⟨k, hc⟩))
      | incomplete n => exact h
      | failure u k => exact h

/-- After rejected data the loop ends short of the end of the chain, or at a stray place. -/
theorem parse_first_rejected {m : Slice} {items : List RecordFrame}
    (hf : RecordFramed origin s f m) (hrest : Chain (RecordFramed origin) m items t)
    (hrej : f.Rejected origin) :
    (parse (beRecord origin) (items.length + 1) s).1.pos < t.pos ∨
      Stray origin (parse (beRecord origin) (items.length + 1) s).1 := by
  have hlen := hf.consumes.2
  have hroom := (hrest.consumes fun _ _ _ h => h.consumes).2
  simp only [minResourceRecordWireLen] at hlen hroom
  obtain ⟨typ, e, htyp, hd⟩ := hrej
  have hout : beRecord origin s = .err e := by
    rw [beRecord_framed hf, RecordFrame.outcome, htyp]
    dsimp only
    rw [hd, andThen_err]
  rw [parse, hout]
  cases e with
  | incomplete n => exact Or.inl (by dsimp only; omega)
  | failure u k => exact Or.inl (by dsimp only; omega)
  | error u k =>
    dsimp only
    obtain ⟨hne, hu⟩ := (beRdata_sited origin typ f.head.rdlen f.rdata).2 _ hd u k rfl
    have hstop := hf.rdata_stop
    have hpos : 1 ≤ u.len := List.length_pos_of_ne_nil hne
    have hlost : Lost origin m.pos u := hu.imp_left fun hu => by
      rw [hu.stop_eq, hstop]
    cases items with
    | nil =>
      -- nothing is read after this record, and the slice of the error is not empty
      cases hrest
      refine hlost.imp_left fun hle => ?_
      simp only [Slice.stop] at hle
      simp only [List.length_nil, parse]
      omega
    | cons g items =>
      have hend := parse_lost (n := (g :: items).length) hlost
      refine hend.imp_left fun hle => ?_
      simp only [Slice.stop, List.length_cons] at hle hroom ⊢
      omega

theorem parse_rejected {items : List RecordFrame} (hc : Chain (RecordFramed origin) s items t)
    (hk : ∀ f ∈ items, f.Known) (hr : ∃ f ∈ items, f.Rejected origin) :
    (parse (beRecord origin) items.length s).1.pos < t.pos ∨
      Stray origin (parse (beRecord origin) items.length s).1 := by
  induction hc with
  | nil s =>
    obtain ⟨f, hmem, _⟩ := hr
    cases hmem
  | @cons s m t f items hf hrest ih =>
    by_cases hrej : f.Rejected origin
    · exact parse_first_rejected hf hrest hrej
    · have hr' : ∃ g ∈ items, g.Rejected origin := by
        obtain ⟨g, hmem, hg⟩ := hr
        rcases List.mem_cons.mp hmem with rfl | hmem
        · exact (hrej hg).elim
        · exact ⟨g, hmem, hg⟩
      rw [List.length_cons, parse_passes (passes_of_not_rejected hf (hk f (by simp)) hrej)]
      exact ih (fun g hmem => hk g (List.mem_cons_of_mem _ hmem)) hr'

/-- The records with acceptable data are all there, each in its section, and the loop ends after
the last declared record. -/
def FramedMessage.Isolated (m : FramedMessage) : Prop :=
  bePacket m.origin = .ok m.trailing (m.packet (RecordFrame.record m.origin))

/-- Malformed data leaves its neighbours alone exactly when it is data that `be_rdata` accepts with
bytes left over. Where the bytes after the message are themselves no name, an error can lead the
loop to them by chance. -/
theorem malformed_rdata_isolated_iff (m : FramedMessage) (hk : ∀ f ∈ m.records, f.Known) :
    ((∀ f ∈ m.records, ¬ f.Rejected m.origin) → m.Isolated) ∧
      ((m.trailing.bytes = [] ∨ ∃ r name, beName m.trailing m.origin = .ok r name) →
        (m.Isolated ↔ ∀ f ∈ m.records, ¬ f.Rejected m.origin)) := by
  have henough : (∀ f ∈ m.records, ¬ f.Rejected m.origin) → m.Isolated := by
    intro hr
    apply bePacket_of_passes
    intro s f t hmem hf
    exact passes_of_not_rejected hf (hk f hmem) (hr f hmem)
  refine ⟨henough, fun htrail => ⟨?_, henough⟩⟩
  intro hiso f hmem hrej
  have hend := parse_rejected m.records_framed hk ⟨f, hmem, hrej⟩
  have hrem : (parse (beRecord m.origin) m.records.length m.afterQuestions).1 = m.trailing := by
    have := (bePacket_framed m).1.symm.trans hiso
    injection this
  rw [show parse (beRecord (wholeSlice m.bytes))
    (m.answers ++ (m.nameservers ++ m.additional)).length m.afterQuestions =
    parse (beRecord m.origin) m.records.length m.afterQuestions from rfl, hrem] at hend
  rcases hend with hlt | hstray
  · exact lt_irrefl _ hlt
  · rcases htrail with hnil | ⟨r, name, hname⟩
    · exact hstray.nonempty hnil
    · obtain ⟨labels, hexp, _⟩ := (beName_yields m.trailing m.origin).1 _ _ hname
      exact hstray.dead _ _ hexp

/-- The type is known, and `be_rdata` accepts the data to its last byte. -/
def RecordFrame.Complete (origin : Slice) (f : RecordFrame) : Prop :=
  ∃ typ rest rdata, RecordType.tryFrom f.head.typ = some typ ∧
    beRdata origin typ f.head.rdlen f.rdata = .ok rest rdata ∧ rest.bytes = []

/-- The class is unknown, and there is data that is going to be skipped a second time. -/
def RecordFrame.Overskips (f : RecordFrame) : Prop :=
  Class.tryFrom f.head.cls = none ∧ f.head.rdlen ≠ 0

/-- A record of unknown class is skipped together with as many bytes after it as it has data. -/
theorem beRecord_unknownClass (hf : RecordFramed origin s f t) (hc : f.Complete origin)
    (hcls : Class.tryFrom f.head.cls = none) : beRecord origin s = skipRdata f.head.rdlen t := by
  obtain ⟨typ, rest, rdata, htyp, hd, hrest⟩ := hc
  rw [beRecord_framed hf, RecordFrame.outcome, htyp]
  dsimp only
  rw [hd, andThen_ok, if_neg (not_not_intro hrest), beRecordClass, class_tryFrom_mask, hcls]

theorem passes_of_complete (hf : RecordFramed origin s f t) (hc : f.Complete origin)
    (ho : ¬ f.Overskips) : Passes (beRecord origin) (f.record origin) s t := by
  have hc' := hc
  obtain ⟨typ, rest, rdata, htyp, hd, _⟩ := hc'
  cases hcls : Class.tryFrom f.head.cls with
  | some cls =>
    apply passes_of_not_rejected hf ⟨by rw [htyp]; rfl, by rw [hcls]; rfl⟩
    rintro ⟨typ', e, htyp', hd'⟩
    rw [htyp] at htyp'
    cases htyp'
    rw [hd] at hd'
    cases hd'
  | none =>
    have hzero : f.head.rdlen = 0 := by
      by_contra hne
      exact ho ⟨hcls, hne⟩
    have hnone : f.record origin = none := by
      unfold RecordFrame.record
      rw [htyp, hcls]
    rw [hnone]
    refine ⟨.alt, ?_⟩
    rw [beRecord_unknownClass hf hc hcls, skipRdata, hzero]
    exact if_neg (Nat.not_lt_zero _)

/-- Where data is skipped twice, the loop does not go on at the next record. -/
theorem not_passes_of_overskips (hf : RecordFramed origin s f t) (hc : f.Complete origin)
    (ho : f.Overskips) : (parse (beRecord origin) 1 s).1 ≠ t := by
  have hpos : 1 ≤ f.head.rdlen.toNat := by
    apply Nat.one_le_iff_ne_zero.mpr
    intro h0
    exact ho.2 (UInt16.toNat_inj.mp h0)
  have hlen := hf.consumes.2
  intro heq
  have heq := congrArg Slice.pos heq
  rw [parse, beRecord_unknownClass hf hc ho.1, skipRdata] at heq
  by_cases hshort : t.len < f.head.rdlen.toNat
  · rw [if_pos hshort] at heq
    simp only [minResourceRecordWireLen] at hlen heq
    omega
  · rw [if_neg hshort] at heq
    simp only [parse, Slice.drop_pos] at heq
    omega

/-- Records of unknown class are skipped exactly when they have no data. A later record can bring
a loop that has skipped too much back into step; after the last record nothing does. -/
theorem unknown_class_skipped_iff (m : FramedMessage)
    (hc : ∀ f ∈ m.records, f.Complete m.origin) :
    ((∀ f ∈ m.records, ¬ f.Overskips) → m.Isolated) ∧
      (∀ s f t, f ∈ m.records → RecordFramed m.origin s f t →
        ((parse (beRecord m.origin) 1 s).1 = t ↔ ¬ f.Overskips)) ∧
      ∀ init f, m.records = init ++ [f] → (∀ g ∈ init, ¬ g.Overskips) →
        (m.Isolated ↔ ¬ f.Overskips) := by
  have henough : (∀ f ∈ m.records, ¬ f.Overskips) → m.Isolated := by
    intro ho
    apply bePacket_of_passes
    intro s f t hmem hf
    exact passes_of_complete hf (hc f hmem) (ho f hmem)
  refine ⟨henough, ?_, ?_⟩
  · intro s f t hmem hf
    constructor
    · intro heq ho
      exact not_passes_of_overskips hf (hc f hmem) ho heq
    · intro ho
      exact parse_passes (passes_of_complete hf (hc f hmem) ho) 0
  · intro init f hrecords hinit
    constructor
    · intro hiso ho
      have hchain : Chain (RecordFramed m.origin) m.afterQuestions (init ++ [f]) m.trailing :=
        hrecords ▸ m.records_framed
      obtain ⟨u, hbefore, hlast⟩ := hchain.split
      have hmem : ∀ g ∈ init ++ [f], g ∈ m.records := by
        intro g hg
        rw [hrecords]
        exact hg
      have hpre := parse_chain (RecordFrame.record m.origin) (fun s g t hg hframed =>
        passes_of_complete hframed (hc g (hmem g (List.mem_append_left _ hg))) (hinit g hg)) hbefore
      have hrem : (parse (beRecord m.origin) m.records.length m.afterQuestions).1 = m.trailing := by
        have := (bePacket_framed m).1.symm.trans hiso
        injection this
      rw [hrecords, List.length_append, parse_add, hpre] at hrem
      cases hlast with
      | cons hf hnil =>
        cases hnil
        exact not_passes_of_overskips hf (hc f (hmem f (by simp))) ho hrem
    · intro ho
      apply henough
      rw [hrecords]
      intro g hg
      rcases List.mem_append.mp hg with hg | hg
      · exact hinit g hg
      · rw [List.mem_singleton.mp hg]
        exact ho

end Recovery

section Sample

attribute [local instance] plainHome

/-- A header that announces two answers. -/
def twoAnswers : Header := ⟨0, 0, 0, 2, 0, 0⟩

/-- Two answers of type A: the first has three bytes of data, the second is 127.0.0.1. -/
def shortAddressMessage : FramedMessage where
  bytes := [0, 0, 0, 0, 0, 0, 0, 2, 0, 0, 0, 0,
    0, 0, 1, 0, 1, 0, 0, 0, 0, 0, 3, 1, 2, 3,
    0, 0, 1, 0, 1, 0, 0, 0, 0, 0, 4, 127, 0, 0, 1]
  header := twoAnswers
  body := ⟨12, [0, 0, 1, 0, 1, 0, 0, 0, 0, 0, 3, 1, 2, 3,
    0, 0, 1, 0, 1, 0, 0, 0, 0, 0, 4, 127, 0, 0, 1]⟩
  questions := []
  afterQuestions := ⟨12, [0, 0, 1, 0, 1, 0, 0, 0, 0, 0, 3, 1, 2, 3,
    0, 0, 1, 0, 1, 0, 0, 0, 0, 0, 4, 127, 0, 0, 1]⟩
  answers :=
    [⟨⟨12, [0, 0, 1, 0, 1, 0, 0, 0, 0, 0, 3, 1, 2, 3,
        0, 0, 1, 0, 1, 0, 0, 0, 0, 0, 4, 127, 0, 0, 1]⟩,
      ⟨['.'], 1, 1, 0, 3⟩, ⟨23, [1, 2, 3]⟩⟩,
     ⟨⟨26, [0, 0, 1, 0, 1, 0, 0, 0, 0, 0, 4, 127, 0, 0, 1]⟩,
      ⟨['.'], 1, 1, 0, 4⟩, ⟨37, [127, 0, 0, 1]⟩⟩]
  nameservers := []
  additional := []
  trailing := ⟨41, []⟩
  header_eq := by decide
  questions_framed := .nil _
  records_framed :=
    .cons ⟨rfl, ⟨23, [1, 2, 3, 0, 0, 1, 0, 1, 0, 0, 0, 0, 0, 4, 127, 0, 0, 1]⟩,
        by decide, by decide, rfl, rfl⟩
      (.cons ⟨rfl, ⟨37, [127, 0, 0, 1]⟩, by decide, by decide, rfl, rfl⟩ (.nil _))
  questions_length := rfl
  answers_length := rfl
  nameservers_length := UInt16.toNat_zero.symm
  additional_length := UInt16.toNat_zero.symm

theorem shortAddressMessage_known : ∀ f ∈ shortAddressMessage.records, f.Known := by
  intro f hmem
  rcases List.mem_cons.mp hmem with rfl | hmem
  · exact ⟨by decide, by decide⟩
  · rw [List.mem_singleton.mp hmem]
    exact ⟨by decide, by decide⟩

theorem shortAddressMessage_rejected :
    ∃ f ∈ shortAddressMessage.records, f.Rejected shortAddressMessage.origin :=
  ⟨_, List.mem_cons_self, .a, .incomplete 1, by decide, by decide⟩

theorem malformed_rdata_isolated_iff_shortAddress : ¬ shortAddressMessage.Isolated := by
  have h := (malformed_rdata_isolated_iff shortAddressMessage shortAddressMessage_known).2
    (Or.inl rfl)
  intro hiso
  obtain ⟨f, hmem, hrej⟩ := shortAddressMessage_rejected
  exact h.mp hiso f hmem hrej

/-- The second answer is lost, and both are left over. -/
theorem malformed_rdata_disturbs_next :
    (¬ ∀ m : FramedMessage, (∀ f ∈ m.records, f.Known) → m.Isolated) ∧
      bePacket shortAddressMessage.origin =
        .ok shortAddressMessage.body ⟨twoAnswers, [], [], [], []⟩ := by
  have hrun : bePacket shortAddressMessage.origin =
      .ok shortAddressMessage.body ⟨twoAnswers, [], [], [], []⟩ := by decide
  refine ⟨?_, hrun⟩
  intro hall
  have hiso := hall shortAddressMessage shortAddressMessage_known
  rw [FramedMessage.Isolated, hrun] at hiso
  injection hiso with hpos
  exact absurd (congrArg Slice.pos hpos) (by decide)

/-- Two TXT answers of one byte each: the first of class 5, the second of class IN. -/
def unknownClassMessage : FramedMessage where
  bytes := [0, 0, 0, 0, 0, 0, 0, 2, 0, 0, 0, 0,
    0, 0, 16, 0, 5, 0, 0, 0, 0, 0, 1, 65,
    0, 0, 16, 0, 1, 0, 0, 0, 0, 0, 1, 66]
  header := twoAnswers
  body := ⟨12, [0, 0, 16, 0, 5, 0, 0, 0, 0, 0, 1, 65, 0, 0, 16, 0, 1, 0, 0, 0, 0, 0, 1, 66]⟩
  questions := []
  afterQuestions :=
    ⟨12, [0, 0, 16, 0, 5, 0, 0, 0, 0, 0, 1, 65, 0, 0, 16, 0, 1, 0, 0, 0, 0, 0, 1, 66]⟩
  answers :=
    [⟨⟨12, [0, 0, 16, 0, 5, 0, 0, 0, 0, 0, 1, 65, 0, 0, 16, 0, 1, 0, 0, 0, 0, 0, 1, 66]⟩,
      ⟨['.'], 16, 5, 0, 1⟩, ⟨23, [65]⟩⟩,
     ⟨⟨24, [0, 0, 16, 0, 1, 0, 0, 0, 0, 0, 1, 66]⟩, ⟨['.'], 16, 1, 0, 1⟩, ⟨35, [66]⟩⟩]
  nameservers := []
  additional := []
  trailing := ⟨36, []⟩
  header_eq := by decide
  questions_framed := .nil _
  records_framed :=
    .cons ⟨rfl, ⟨23, [65, 0, 0, 16, 0, 1, 0, 0, 0, 0, 0, 1, 66]⟩, by decide, by decide, rfl, rfl⟩
      (.cons ⟨rfl, ⟨35, [66]⟩, by decide, by decide, rfl, rfl⟩ (.nil _))
  questions_length := rfl
  answers_length := rfl
  nameservers_length := UInt16.toNat_zero.symm
  additional_length := UInt16.toNat_zero.symm

theorem unknownClassMessage_complete :
    ∀ f ∈ unknownClassMessage.records, f.Complete unknownClassMessage.origin := by
  intro f hmem
  rcases List.mem_cons.mp hmem with rfl | hmem
  · exact ⟨.txt, ⟨24, []⟩, .txt [65], by decide, by decide, rfl⟩
  · rw [List.mem_singleton.mp hmem]
    exact ⟨.txt, ⟨36, []⟩, .txt [66], by decide, by decide, rfl⟩

theorem unknown_class_skipped_iff_txt :
    (parse (beRecord unknownClassMessage.origin) 1 unknownClassMessage.body).1 ≠
      ⟨24, [0, 0, 16, 0, 1, 0, 0, 0, 0, 0, 1, 66]⟩ := by
  have h := (unknown_class_skipped_iff unknownClassMessage unknownClassMessage_complete).2.1
    unknownClassMessage.body _ ⟨24, [0, 0, 16, 0, 1, 0, 0, 0, 0, 0, 1, 66]⟩ List.mem_cons_self
    ⟨rfl, ⟨23, [65, 0, 0, 16, 0, 1, 0, 0, 0, 0, 0, 1, 66]⟩, by decide, by decide, rfl, rfl⟩
  intro heq
  exact h.mp heq ⟨by decide, by decide⟩

/-- The record of class IN is read one byte too late and lost. -/
theorem unknown_class_skips_too_much :
    (¬ ∀ m : FramedMessage, (∀ f ∈ m.records, f.Complete m.origin) → m.Isolated) ∧
      bePacket unknownClassMessage.origin =
        .ok ⟨25, [0, 16, 0, 1, 0, 0, 0, 0, 0, 1, 66]⟩ ⟨twoAnswers, [], [], [], []⟩ := by
  have hrun : bePacket unknownClassMessage.origin =
      .ok ⟨25, [0, 16, 0, 1, 0, 0, 0, 0, 0, 1, 66]⟩ ⟨twoAnswers, [], [], [], []⟩ := by
    decide
  refine ⟨?_, hrun⟩
  intro hall
  have hiso := hall unknownClassMessage unknownClassMessage_complete
  rw [FramedMessage.Isolated, hrun] at hiso
  injection hiso with hpos
  exact absurd (congrArg Slice.pos hpos) (by decide)

end Sample

end Ddns
