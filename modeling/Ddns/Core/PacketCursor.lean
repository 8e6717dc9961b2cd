import Ddns.Core.PacketFraming

/-! The cursor of the section loops, iteration by iteration. -/
namespace Ddns

open Nom

/-- One pass of a section loop: the cursor before and after it, and what it kept. -/
structure Iteration (α : Type) where
  before : Slice
  after : Slice
  item : Option α
  deriving DecidableEq

/-- The passes of a section loop. One that ends the section leaves the cursor in place. -/
def iterations {α : Type} (parser : Slice → IResult α) : ℕ → Slice → List (Iteration α)
  | 0, _ => []
  | count + 1, input =>
    match parser input with
    | .ok newInput record => ⟨input, newInput, some record⟩ :: iterations parser count newInput
    | .err (.error remaining _) => ⟨input, remaining, none⟩ :: iterations parser count remaining
    | .err _ => [⟨input, input, none⟩]

/-- The pass moved the cursor to a rest of what it had. -/
def Iteration.Forward {α : Type} (it : Iteration α) : Prop := it.after.Suffix it.before

/-- The place that an item was read from. -/
def Iteration.region {α : Type} (it : Iteration α) : Option (Slice × Slice) :=
  it.item.map fun _ => (it.before, it.after)

/-- Passes that take up the cursor where the one before left it, from `s` to `t`. -/
def Linked {α : Type} (s : Slice) : List (Iteration α) → Slice → Prop
  | [], t => s = t
  | it :: its, t => it.before = s ∧ Linked it.after its t

section Loop

variable {α : Type} {parser : Slice → IResult α}

theorem iterations_linked (parser : Slice → IResult α) (n : ℕ) (s : Slice) :
    Linked s (iterations parser n s) (parse parser n s).1 := by
  induction n generalizing s with
  | zero => rfl
  | succ n ih =>
    rw [iterations, parse]
    cases parser s with
    | ok t value => exact ⟨rfl, ih t⟩
    | err e =>
      cases e with
      | error t k => exact ⟨rfl, ih t⟩
      | incomplete n => exact ⟨rfl, rfl⟩
      | failure t k => exact ⟨rfl, rfl⟩

theorem iterations_items (parser : Slice → IResult α) (n : ℕ) (s : Slice) :
    (iterations parser n s).filterMap Iteration.item = (parse parser n s).2 := by
  induction n generalizing s with
  | zero => rfl
  | succ n ih =>
    rw [iterations, parse]
    cases parser s with
    | ok t value => simp [ih t]
    | err e =>
      cases e with
      | error t k => simpa using ih t
      | incomplete n => rfl
      | failure t k => rfl

/-- Every pass is one call of the parser. -/
theorem mem_iterations {n : ℕ} {s : Slice} {it : Iteration α} (h : it ∈ iterations parser n s) :
    (∃ value, parser it.before = .ok it.after value) ∨
      (∃ k, parser it.before = .err (.error it.after k)) ∨
      (it.after = it.before ∧ ∃ e, parser it.before = .err e ∧ ∀ u k, e ≠ .error u k) := by
  induction n generalizing s with
  | zero => cases h
  | succ n ih =>
    rw [iterations] at h
    cases hp : parser s with
    | ok t value =>
      rw [hp] at h
      rcases List.mem_cons.mp h with rfl | h
      · exact Or.inl ⟨value, hp⟩
      · exact ih h
    | err e =>
      rw [hp] at h
      cases e with
      | error t k =>
        rcases List.mem_cons.mp h with rfl | h
        · exact Or.inr (Or.inl ⟨k, hp⟩)
        · exact ih h
      | incomplete m =>
        rw [List.mem_singleton.mp h]
        exact Or.inr (Or.inr ⟨rfl, _, hp, by simp⟩)
      | failure t k =>
        rw [List.mem_singleton.mp h]
        exact Or.inr (Or.inr ⟨rfl, _, hp, by simp⟩)

/-- A pass goes backwards only through the slice of an error. -/
theorem forward_iff_of_mem {n : ℕ} {s : Slice} {it : Iteration α}
    (hok : ∀ c t value, parser c = .ok t value → t.Suffix c)
    (h : it ∈ iterations parser n s) :
    it.Forward ↔ ∀ u k, parser it.before = .err (.error u k) → u.Suffix it.before := by
  rcases mem_iterations h with ⟨value, hp⟩ | ⟨k, hp⟩ | ⟨heq, e, hp, hne⟩
  · refine ⟨fun _ u k' hu => ?_, fun _ => hok _ _ _ hp⟩
    rw [hp] at hu
    cases hu
  · refine ⟨fun hf u k' hu => ?_, fun hall => hall _ k hp⟩
    rw [hp] at hu
    cases hu
    exact hf
  · refine ⟨fun _ u k' hu => ?_, fun _ => ?_⟩
    · rw [hp] at hu
      cases hu
      exact (hne u k' rfl).elim
    · rw [Iteration.Forward, heq]
      exact Slice.Suffix.refl _

end Loop

section Regions

variable {α : Type} {s t u : Slice}

theorem Linked.append {its its' : List (Iteration α)} (h : Linked s its t)
    (h' : Linked t its' u) : Linked s (its ++ its') u := by
  induction its generalizing s with
  | nil =>
    obtain rfl : s = t := h
    exact h'
  | cons it its ih => exact ⟨h.1, ih h.2⟩

theorem Linked.suffix {its : List (Iteration α)} (h : Linked s its t)
    (hf : ∀ it ∈ its, it.Forward) : t.Suffix s := by
  induction its generalizing s with
  | nil =>
    obtain rfl : s = t := h
    exact Slice.Suffix.refl s
  | cons it its ih =>
    have hrest := ih h.2 fun it' hmem => hf it' (List.mem_cons_of_mem _ hmem)
    have hstep : it.after.Suffix it.before := hf it (by simp)
    rw [h.1] at hstep
    exact hrest.trans hstep

/-- Passes all go forward when each does that starts inside the message. -/
theorem Linked.forward_iff {b : Slice} {its : List (Iteration α)} (h : Linked s its t)
    (good : Slice → Prop) (hs : s.Suffix b)
    (hstep : ∀ it ∈ its, it.before.Suffix b → (it.Forward ↔ good it.before)) :
    (∀ it ∈ its, it.Forward) ↔ ∀ it ∈ its, good it.before := by
  induction its generalizing s with
  | nil => simp
  | cons it its ih =>
    obtain ⟨rfl, hrest⟩ := h
    have hfirst := hstep it List.mem_cons_self hs
    have hothers : it.Forward →
        ((∀ it' ∈ its, it'.Forward) ↔ ∀ it' ∈ its, good it'.before) := fun hforward =>
      ih hrest (hforward.trans hs) fun it' hmem => hstep it' (List.mem_cons_of_mem _ hmem)
    rw [List.forall_mem_cons, List.forall_mem_cons, ← hfirst]
    exact and_congr_right hothers

/-- Forward passes read within what they are given. -/
theorem Linked.region_bounds {its : List (Iteration α)} (h : Linked s its t)
    (hf : ∀ it ∈ its, it.Forward) {r : Slice × Slice} (hr : r ∈ its.filterMap Iteration.region) :
    s.pos ≤ r.1.pos ∧ r.2.pos ≤ t.pos := by
  induction its generalizing s with
  | nil => cases hr
  | cons it its ih =>
    have hf' : ∀ it' ∈ its, it'.Forward := fun it' hmem => hf it' (List.mem_cons_of_mem _ hmem)
    have hstep : it.after.Suffix it.before := hf it (by simp)
    have hend := (Linked.suffix h.2 hf').pos_le
    rw [h.1] at hstep
    rw [List.filterMap_cons] at hr
    cases hi : it.region with
    | none =>
      rw [hi] at hr
      have hb := ih h.2 hf' hr
      exact ⟨hstep.pos_le.trans hb.1, hb.2⟩
    | some r' =>
      rw [hi] at hr
      rcases List.mem_cons.mp hr with rfl | hr
      · obtain ⟨_, _, hreg⟩ := Option.map_eq_some_iff.mp hi
        rw [← hreg]
        exact ⟨by rw [h.1], hend⟩
      · have hb := ih h.2 hf' hr
        exact ⟨hstep.pos_le.trans hb.1, hb.2⟩

/-- Regions in increasing order that do not overlap. -/
def Ordered (regions : List (Slice × Slice)) : Prop :=
  regions.Pairwise fun r r' => r.2.pos ≤ r'.1.pos

theorem Linked.ordered {its : List (Iteration α)} (h : Linked s its t)
    (hf : ∀ it ∈ its, it.Forward) : Ordered (its.filterMap Iteration.region) := by
  induction its generalizing s with
  | nil => exact List.Pairwise.nil
  | cons it its ih =>
    have hf' : ∀ it' ∈ its, it'.Forward := fun it' hmem => hf it' (List.mem_cons_of_mem _ hmem)
    have hrest := ih h.2 hf'
    rw [List.filterMap_cons]
    cases hi : it.region with
    | none => exact hrest
    | some r =>
      refine List.Pairwise.cons ?_ hrest
      intro r' hr'
      obtain ⟨_, _, hreg⟩ := Option.map_eq_some_iff.mp hi
      rw [← hreg]
      exact (Linked.region_bounds h.2 hf' hr').1

end Regions

/-- The name at the cursor is not given up at an earlier place, where a pointer has led. -/
def NameAhead (origin c : Slice) : Prop :=
  ∀ u k, beName c origin = .err (.error u k) → c.pos ≤ u.pos

theorem nameAhead_iff {origin c : Slice} (hc : c.Suffix origin) :
    (∀ u k, beName c origin = .err (.error u k) → u.Suffix c) ↔ NameAhead origin c := by
  constructor
  · intro h u k hu
    exact (h u k hu).pos_le
  · intro h u k hu
    obtain ⟨_, hin | hstray⟩ := (beName_sited origin c).2 _ hu u k rfl
    · exact hin
    · exact hstray.suffix.of_pos_le hc (h u k hu)

theorem beQuestion_ok_suffix {origin c t : Slice} {question : Question}
    (h : beQuestion origin c = .ok t question) : t.Suffix c := by
  obtain ⟨r, head, hhead, h⟩ := andThen_eq_ok.mp h
  have hr := (consumes_questionHead hhead).1
  split at h
  · cases h
  · cases h
    exact hr

theorem beQuestion_forward_iff {origin c : Slice} (hc : c.Suffix origin) :
    (∀ u k, beQuestion origin c = .err (.error u k) → u.Suffix c) ↔ NameAhead origin c := by
  rw [← nameAhead_iff hc]
  constructor
  · intro h u k hu
    apply h u k
    rw [beQuestion, beQuestionHead, hu]
    rfl
  · intro h u k hu
    rcases andThen_eq_err.mp hu with hu | ⟨r, head, hhead, hu⟩
    · rcases beQuestionHead_error hu with hu | ⟨n, hn⟩
      · exact h u k hu
      · cases hn
    · split at hu
      · cases hu
        exact (consumes_questionHead hhead).1
      · cases hu

section Packets

variable [DhttpHome]

/-- The data of the record at the cursor is not given up at an earlier place, where a pointer has
led, and not at a place of its own when more bytes follow it. -/
def RdataAhead (origin c : Slice) : Prop :=
  ∀ r head typ u k, beRecordHead origin c = .ok r head →
    RecordType.tryFrom head.typ = some typ → head.rdlen.toNat ≤ r.len →
    beRdata origin typ head.rdlen (r.take head.rdlen.toNat) = .err (.error u k) →
    c.pos ≤ u.pos ∧ (u.Suffix (r.take head.rdlen.toNat) → head.rdlen.toNat = r.len)

omit [DhttpHome] in
/-- An error inside the data is at a rest of the cursor when the data ends the message. -/
theorem rdata_suffix_iff {r c u : Slice} {n : ℕ} (hr : r.Suffix c) (hn : n ≤ r.len)
    (hu : u.Suffix (r.take n)) : u.Suffix c ↔ n = r.len := by
  constructor
  · intro h
    have hstop := (hu.stop_eq.symm.trans h.stop_eq).trans hr.stop_eq.symm
    simp only [Slice.stop, Slice.take, Slice.len, List.length_take] at hstop hn ⊢
    omega
  · rintro rfl
    have hall : r.take r.len = r := by simp [Slice.take, Slice.len]
    rw [hall] at hu
    exact hu.trans hr

theorem beRecord_forward_iff {origin c : Slice} (hc : c.Suffix origin) :
    (∀ u k, beRecord origin c = .err (.error u k) → u.Suffix c) ↔
      NameAhead origin c ∧ RdataAhead origin c := by
  rw [← nameAhead_iff hc]
  constructor
  · intro h
    refine ⟨?_, ?_⟩
    · intro u k hu
      apply h u k
      rw [beRecord, beRecordHead, hu]
      rfl
    · intro r head typ u k hhead htyp hlen hd
      have hshort : ¬ r.len < head.rdlen.toNat := by omega
      have herr : beRecord origin c = .err (.error u k) := by
        rw [beRecord, hhead, andThen_ok, beRecordBody, htyp]
        dsimp only
        rw [if_neg hshort, take, if_neg hshort, andThen_ok, hd]
        rfl
      refine ⟨(h u k herr).pos_le, fun hin => ?_⟩
      exact (rdata_suffix_iff (consumes_recordHead hhead).1 hlen hin).mp (h u k herr)
  · rintro ⟨hname, hdata⟩ u k hu
    rcases beRecord_error_cases hu with h | ⟨r, head, typ, hhead, htyp, hlen, hd⟩ | h
    · exact hname u k h
    · obtain ⟨hpos, hend⟩ := hdata r head typ u k hhead htyp hlen hd
      obtain ⟨_, hin | hstray⟩ := (beRdata_sited origin typ head.rdlen _).2 _ hd u k rfl
      · exact (rdata_suffix_iff (consumes_recordHead hhead).1 hlen hin).mpr (hend hin)
      · exact hstray.suffix.of_pos_le hc hpos
    · exact h

/-- The passes over the questions, and those of the three record sections. -/
def packetIterations (b : Slice) : List (Iteration Question) × List (Iteration ResourceRecord) :=
  match beHeader b with
  | .err _ => ([], [])
  | .ok body header =>
    let questions := parse (beQuestion b) header.questionsCount.toNat body
    let answers := parse (beRecord b) header.answersCount.toNat questions.1
    let nameservers := parse (beRecord b) header.nameserversCount.toNat answers.1
    (iterations (beQuestion b) header.questionsCount.toNat body,
      iterations (beRecord b) header.answersCount.toNat questions.1 ++
        (iterations (beRecord b) header.nameserversCount.toNat answers.1 ++
          iterations (beRecord b) header.additionalCount.toNat nameservers.1))

/-- The places in the message that the questions and records of the packet were read from. -/
def packetRegions (b : Slice) : List (Slice × Slice) :=
  (packetIterations b).1.filterMap Iteration.region ++
    (packetIterations b).2.filterMap Iteration.region

/-- Every pass moves forward, so that the remainder is a rest of the message and the items come
from regions in order. -/
structure MovesForward (b remain : Slice) : Prop where
  questions : ∀ it ∈ (packetIterations b).1, it.Forward
  records : ∀ it ∈ (packetIterations b).2, it.Forward
  remainder : remain.Suffix b
  regions : Ordered (packetRegions b)

/-- The passes make up the packet, and they lead from the header to the remainder. -/
theorem packetIterations_spec {b remain : Slice} {p : Packet} (h : bePacket b = .ok remain p) :
    (packetIterations b).1.filterMap Iteration.item = p.questions ∧
      (packetIterations b).2.filterMap Iteration.item =
        p.answers ++ (p.nameservers ++ p.additional) ∧
      ∃ body mid, body.Suffix b ∧ Linked body (packetIterations b).1 mid ∧
        Linked mid (packetIterations b).2 remain := by
  obtain ⟨body, header, hhead, h⟩ := andThen_eq_ok.mp h
  obtain ⟨body', u, hval, hsections⟩ := andThen_eq_ok.mp h
  have hbody : body' = body := by
    unfold validateSectionCounts at hval
    dsimp only at hval
    split at hval
    · cases hval
    · cases hval
      rfl
  subst hbody
  simp only [parseSections] at hsections
  injection hsections with hrem hp
  subst hp
  unfold packetIterations
  rw [hhead]
  dsimp only
  refine ⟨iterations_items _ _ _, ?_, body', _, (beHeader_ok hhead).1, iterations_linked _ _ _, ?_⟩
  · simp only [List.filterMap_append, iterations_items]
  · rw [← hrem]
    exact (iterations_linked _ _ _).append
      ((iterations_linked _ _ _).append (iterations_linked _ _ _))

theorem question_forward_iff {b : Slice} {it : Iteration Question}
    (h : it ∈ (packetIterations b).1) (hb : it.before.Suffix b) :
    it.Forward ↔ NameAhead b it.before := by
  unfold packetIterations at h
  cases hhead : beHeader b with
  | err e =>
    rw [hhead] at h
    cases h
  | ok body header =>
    rw [hhead] at h
    exact (forward_iff_of_mem (fun _ _ _ hok => beQuestion_ok_suffix hok) h).trans
      (beQuestion_forward_iff hb)

theorem record_forward_iff {b : Slice} {it : Iteration ResourceRecord}
    (h : it ∈ (packetIterations b).2) (hb : it.before.Suffix b) :
    it.Forward ↔ NameAhead b it.before ∧ RdataAhead b it.before := by
  unfold packetIterations at h
  cases hhead : beHeader b with
  | err e =>
    rw [hhead] at h
    cases h
  | ok body header =>
    rw [hhead] at h
    have hloop : ∀ {n s}, it ∈ iterations (beRecord b) n s →
        (it.Forward ↔ NameAhead b it.before ∧ RdataAhead b it.before) := fun hmem =>
      (forward_iff_of_mem (fun _ _ _ hok => beRecord_ok_suffix hok) hmem).trans
        (beRecord_forward_iff hb)
    rcases List.mem_append.mp h with h | h
    · exact hloop h
    · rcases List.mem_append.mp h with h | h
      · exact hloop h
      · exact hloop h

/-- The parser moves forward through a whole message exactly when no pass over it gives up a name
or data at an earlier place, or data at a place of its own which more bytes follow. -/
theorem cursor_forward_iff (b remain : Slice) (p : Packet) (h : bePacket b = .ok remain p) :
    (packetIterations b).1.filterMap Iteration.item = p.questions ∧
      (packetIterations b).2.filterMap Iteration.item =
        p.answers ++ (p.nameservers ++ p.additional) ∧
      (MovesForward b remain ↔
        (∀ it ∈ (packetIterations b).1, NameAhead b it.before) ∧
          ∀ it ∈ (packetIterations b).2, NameAhead b it.before ∧ RdataAhead b it.before) := by
  obtain ⟨hquestions, hrecords, body, mid, hbody, hlq, hlr⟩ := packetIterations_spec h
  refine ⟨hquestions, hrecords, ?_⟩
  have hq := hlq.forward_iff (NameAhead b) hbody fun it hmem hb => question_forward_iff hmem hb
  have hr := fun hmid : mid.Suffix b => hlr.forward_iff (fun c => NameAhead b c ∧ RdataAhead b c)
    hmid fun it hmem hb => record_forward_iff hmem hb
  have hmid : (∀ it ∈ (packetIterations b).1, it.Forward) → mid.Suffix b := fun hfq =>
    (hlq.suffix hfq).trans hbody
  constructor
  · intro hmove
    exact ⟨hq.mp hmove.questions, (hr (hmid hmove.questions)).mp hmove.records⟩
  · rintro ⟨hnames, hdata⟩
    have hfq := hq.mpr hnames
    have hfr := (hr (hmid hfq)).mpr hdata
    refine ⟨hfq, hfr, (hlr.suffix hfr).trans (hmid hfq), ?_⟩
    refine List.pairwise_append.mpr ⟨hlq.ordered hfq, hlr.ordered hfr, ?_⟩
    intro r hr' r' hr''
    exact (hlq.region_bounds hfq hr').2.trans (hlr.region_bounds hfr hr'').1

end Packets

section Sample

attribute [local instance] plainHome

/-- A query whose name is a pointer to the header, where the identifier starts with a byte that is
no label length. -/
def pointerToHeader : Slice :=
  wholeSlice [0x80, 0, 0, 0, 0, 1, 0, 0, 0, 0, 0, 0, 0xC0, 0, 0, 1, 0, 1]

theorem pointerToHeader_iterations : packetIterations pointerToHeader =
    ([⟨pointerToHeader.drop 12, pointerToHeader, none⟩], []) := by decide

theorem pointerToHeader_back : ¬ MovesForward pointerToHeader pointerToHeader := by
  intro hmove
  have hforward := hmove.questions
  rw [pointerToHeader_iterations] at hforward
  exact absurd (hforward _ List.mem_cons_self).pos_le (by decide)

/-- The cursor goes from the question back to the start of the message. -/
theorem cursor_moves_backwards :
    bePacket pointerToHeader = .ok pointerToHeader ⟨⟨0x8000, 0, 1, 0, 0, 0⟩, [], [], [], []⟩ ∧
      (packetIterations pointerToHeader).1 = [⟨pointerToHeader.drop 12, pointerToHeader, none⟩] ∧
      ¬ MovesForward pointerToHeader pointerToHeader :=
  ⟨by decide, by rw [pointerToHeader_iterations], pointerToHeader_back⟩

theorem cursor_forward_iff_pointerToHeader :
    ¬ NameAhead pointerToHeader (pointerToHeader.drop 12) := by
  have hiff := (cursor_forward_iff pointerToHeader pointerToHeader
    ⟨⟨0x8000, 0, 1, 0, 0, 0⟩, [], [], [], []⟩ (by decide)).2.2
  rw [pointerToHeader_iterations] at hiff
  intro hahead
  apply pointerToHeader_back
  apply hiff.mpr
  refine ⟨?_, by simp⟩
  intro it hmem
  rw [List.mem_singleton.mp hmem]
  exact hahead

end Sample

end Ddns
