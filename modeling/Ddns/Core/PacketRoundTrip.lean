import Ddns.Core.EndpointCodec
import Ddns.Core.NameWriter
import Ddns.Core.Packet

/-! A well-formed packet is read back as it was written, whatever follows it. -/
namespace Ddns

open Nom BigEndian

theorem recordType_tryFrom_toU16 (typ : RecordType) : RecordType.tryFrom typ.toU16 = some typ := by
  cases typ <;> decide

theorem queryType_tryFrom_toU16 (qtype : QueryType) : QueryType.tryFrom qtype.toU16 = some qtype := by
  cases qtype <;> decide

/-- The top bit and the class are told apart again. -/
theorem queryClass_classBits (qclass : QueryClass) (top : Bool) :
    QueryClass.tryFrom (classBits qclass.toU16 top &&& 0x7FFF) = some qclass ∧
      decide (classBits qclass.toU16 top &&& 0x8000 = 0x8000) = top := by
  cases qclass <;> cases top <;> decide

theorem class_classBits (cls : Class) (top : Bool) :
    Class.tryFrom (classBits cls.toU16 top &&& 0x7FFF) = some cls ∧
      decide (classBits cls.toU16 top &&& 0x8000 = 0x8000) = top := by
  cases cls <;> cases top <;> decide

/-- The bytes of a question, for a message of `len` bytes. -/
def questionBytes (len : ℕ) (question : Question) (ctx : NameCompression) :
    List UInt8 × NameCompression :=
  let name := nameBytes len question.name ctx
  (name.1 ++ (putWord question.qtype.toU16 ++
    putWord (classBits question.qclass.toU16 question.preferUnicast)), name.2)

theorem putQuestion_eq (buf : List UInt8) (question : Question) (ctx : NameCompression) :
    putQuestion buf question ctx = (buf ++ (questionBytes buf.length question ctx).1,
      (questionBytes buf.length question ctx).2) := by
  simp only [putQuestion, questionBytes, putName_eq, List.append_assoc]

/-- What one written item guarantees: it is read back at its place, and the table stays usable. -/
structure Written {α : Type} (parser : Slice → Slice → IResult α) (minLen : ℕ) (buf w : List UInt8)
    (ctx : NameCompression) (item : α) : Prop where
  table : TableOk (buf ++ w) ctx
  reads : ∀ x, parser ⟨0, buf ++ (w ++ x)⟩ ⟨buf.length, w ++ x⟩ = .ok ⟨(buf ++ w).length, x⟩ item
  long : minLen ≤ w.length

theorem questionBytes_written {buf : List UInt8} {ctx : NameCompression} {question : Question}
    (hn : WellFormedName question.name) (hctx : TableOk buf ctx) :
    Written beQuestion minQuestionWireLen buf (questionBytes buf.length question ctx).1
      (questionBytes buf.length question ctx).2 question := by
  obtain ⟨hreads, htable⟩ := nameBytes_spec hn.labels.1 hctx
  have hpos := nameBytes_pos buf.length question.name ctx
  obtain ⟨hclass, htop⟩ := queryClass_classBits question.qclass question.preferUnicast
  refine ⟨?_, ?_, ?_⟩
  · have h := htable.append (putWord question.qtype.toU16 ++
      putWord (classBits question.qclass.toU16 question.preferUnicast))
    rw [List.append_assoc] at h
    exact h
  · intro x
    have hname := beName_of_reads hn hreads (putWord question.qtype.toU16 ++
        (putWord (classBits question.qclass.toU16 question.preferUnicast) ++ x))
      (putWord question.qtype.toU16 ++
        (putWord (classBits question.qclass.toU16 question.preferUnicast) ++ x))
    simp only [questionBytes, List.append_assoc, beQuestion, beQuestionHead]
    rw [hname, andThen_ok, recognises_u16, andThen_ok, recognises_u16, map_ok, andThen_ok]
    simp only [QuestionHead.question, queryType_tryFrom_toU16, hclass, htop, List.length_append,
      Nat.add_assoc]
  · simp only [questionBytes, List.length_append, putWord_length, minQuestionWireLen, Word.size]
    omega

section Records

variable [DhttpHome]

/-- The data is of the kind that the type says, and the wire format can hold it. -/
def RData.Fits (typ : RecordType) : RData → Prop
  | .a _ => typ = .a
  | .aaaa _ => typ = .aaaa
  | .cname name => (typ = .cname ∨ typ = .ns) ∧ WellFormedName name
  | .txt _ => typ = .txt
  | .srv value => typ = .srv ∧ WellFormedName value.target
  | .ptr name => typ = .ptr ∧ WellFormedName name
  | .e endpoint => typ = .e ∧ endpoint.WellFormed

structure ResourceRecord.WellFormed (r : ResourceRecord) : Prop where
  name : WellFormedName r.name
  data : r.data.Fits r.typ

/-- The bytes of record data, for a message of `len` bytes. -/
def rdataBytes (len : ℕ) (data : RData) (ctx : NameCompression) : List UInt8 × NameCompression :=
  match data with
  | .a ip => (putWord ip, ctx)
  | .aaaa ip => (putWord ip, ctx)
  | .cname name => nameBytes len name ctx
  | .txt bytes => (bytes, ctx)
  | .srv srv =>
    let target := nameBytes (len + 6) srv.target ctx
    (putWord srv.priority ++ (putWord srv.weight ++ (putWord srv.port ++ target.1)), target.2)
  | .ptr name => nameBytes len name ctx
  | .e endpoint => (putEndpointAddr endpoint, ctx)

theorem putRdata_eq (buf : List UInt8) (data : RData) (ctx : NameCompression) :
    putRdata buf data ctx = (buf ++ (rdataBytes buf.length data ctx).1,
      (rdataBytes buf.length data ctx).2) := by
  cases data with
  | srv srv =>
    simp only [putRdata, putSrv, putName_eq, rdataBytes, List.length_append, putWord_length,
      List.append_assoc, Word.size, Nat.reduceAdd]
  | _ => simp only [putRdata, putName_eq, rdataBytes]

/-- Names inside record data use the table of the whole message. -/
theorem rdataBytes_table {buf : List UInt8} {ctx : NameCompression} {typ : RecordType}
    {data : RData} (hd : data.Fits typ) (hctx : TableOk buf ctx) :
    TableOk (buf ++ (rdataBytes buf.length data ctx).1) (rdataBytes buf.length data ctx).2 := by
  cases data with
  | a ip => exact hctx.append _
  | aaaa ip => exact hctx.append _
  | txt bytes => exact hctx.append _
  | e endpoint => exact hctx.append _
  | cname name => exact (nameBytes_spec hd.2.labels.1 hctx).2
  | ptr name => exact (nameBytes_spec hd.2.labels.1 hctx).2
  | srv srv =>
    have h := (nameBytes_spec hd.2.labels.1
      (hctx.append (putWord srv.priority ++ (putWord srv.weight ++ putWord srv.port)))).2
    simpa only [rdataBytes, List.length_append, putWord_length, Word.size, List.append_assoc,
      Nat.reduceAdd] using h

/-- Record data is read back from a slice of its own, with the whole message as origin. -/
theorem rdataBytes_reads {buf : List UInt8} {ctx : NameCompression} {typ : RecordType}
    {data : RData} (hd : data.Fits typ) (hctx : TableOk buf ctx) (rdlen : UInt16)
    (hlen : rdlen.toNat = (rdataBytes buf.length data ctx).1.length) (x : List UInt8) :
    ∃ q, beRdata ⟨0, buf ++ ((rdataBytes buf.length data ctx).1 ++ x)⟩ typ rdlen
      ⟨buf.length, (rdataBytes buf.length data ctx).1⟩ = .ok ⟨q, []⟩ data := by
  cases data with
  | a ip =>
    obtain rfl : typ = .a := hd
    have h := recognises_u32 ip buf.length []
    rw [List.append_nil] at h
    exact ⟨_, by rw [beRdata, rdataBytes, h, map_ok]⟩
  | aaaa ip =>
    obtain rfl : typ = .aaaa := hd
    have h := recognises_word ip buf.length []
    rw [List.append_nil] at h
    exact ⟨_, by rw [beRdata, rdataBytes, beU128, h, map_ok]⟩
  | cname name =>
    have h := beName_of_reads hd.2 (nameBytes_spec hd.2.labels.1 hctx).1 x []
    rw [List.append_nil] at h
    rcases hd.1 with rfl | rfl
    · exact ⟨_, by rw [beRdata, rdataBytes, h, map_ok]⟩
    · exact ⟨_, by rw [beRdata, rdataBytes, h, map_ok]⟩
  | txt bytes =>
    obtain rfl : typ = .txt := hd
    have h := take_append bytes hlen.symm buf.length []
    rw [List.append_nil] at h
    exact ⟨_, by rw [beRdata, rdataBytes, h, map_ok]⟩
  | srv srv =>
    obtain ⟨rfl, hn⟩ := hd
    have hspec := nameBytes_spec hn.labels.1
      (hctx.append (putWord srv.priority ++ (putWord srv.weight ++ putWord srv.port)))
    have h := beName_of_reads hn hspec.1 x []
    simp only [List.length_append, putWord_length, Word.size, List.append_assoc, Nat.reduceAdd,
      List.append_nil] at h
    refine ⟨buf.length + 6 + (nameBytes (buf.length + 6) srv.target ctx).1.length, ?_⟩
    simp only [beRdata, rdataBytes, beSrv, List.append_assoc]
    rw [recognises_u16, andThen_ok, recognises_u16, andThen_ok, recognises_u16, andThen_ok]
    simp only [putWord_length, Word.size, Nat.add_assoc, Nat.reduceAdd] at h ⊢
    rw [h, map_ok, map_ok]
  | ptr name =>
    obtain ⟨rfl, hn⟩ := hd
    have h := beName_of_reads hn (nameBytes_spec hn.labels.1 hctx).1 x []
    rw [List.append_nil] at h
    exact ⟨_, by rw [beRdata, rdataBytes, h, map_ok]⟩
  | e endpoint =>
    obtain ⟨rfl, he⟩ := hd
    have hsig : ∀ sig ∈ endpoint.signature, sig.signature.length < 2 ^ 62 := by
      intro sig hs
      have hsigned : endpoint.isSigned = true := by rw [he.signed, hs]; rfl
      have := rdlen.toNat_lt
      rw [Option.mem_def] at hs
      simp only [rdataBytes, putEndpointAddr, hsigned, hs, if_true, Option.elim_some,
        putEndpointSignature, List.length_append] at hlen
      omega
    obtain ⟨q, hq⟩ := beEndpointAddrCompat_put he hsig buf.length rdlen
    exact ⟨q, by rw [beRdata, rdataBytes, hq, map_ok]⟩

/-- The fixed fields of a record after its name. -/
def recordFields (record : ResourceRecord) (rdlen : UInt16) : List UInt8 :=
  putWord record.typ.toU16 ++ (putWord (classBits record.cls.toU16 record.multicastUnique) ++
    (putWord record.ttl ++ putWord rdlen))

omit [DhttpHome] in
theorem patchU16_append (a d : List UInt8) (x y : UInt16) :
    patchU16 (a ++ (putWord x ++ d)) a.length y = a ++ (putWord y ++ d) := by
  simp [patchU16, putWord, Word.size, Word.toNat, toBE]

theorem recordFields_length (record : ResourceRecord) (rdlen : UInt16) :
    (recordFields record rdlen).length = 10 := by
  simp [recordFields, Word.size]

/-- A record is its name, its fixed fields with the length of the data, and the data. -/
theorem putRecord_eq (buf : List UInt8) (record : ResourceRecord) (ctx : NameCompression) :
    let name := nameBytes buf.length record.name ctx
    let data := rdataBytes (buf.length + name.1.length + 10) record.data name.2
    rdataLen buf record ctx = data.1.length ∧
      putRecord buf record ctx =
        (buf ++ (name.1 ++ (recordFields record (UInt16.ofNat data.1.length) ++ data.1)),
          data.2) := by
  dsimp only
  have hfields : putRecordFields buf record ctx =
      (buf ++ (nameBytes buf.length record.name ctx).1 ++ (putWord record.typ.toU16 ++
        (putWord (classBits record.cls.toU16 record.multicastUnique) ++ putWord record.ttl)),
        (nameBytes buf.length record.name ctx).2) := by
    simp only [putRecordFields, putName_eq, List.append_assoc]
  have hlen : (putRecordFields buf record ctx).1.length =
      buf.length + (nameBytes buf.length record.name ctx).1.length + 8 := by
    rw [hfields]
    simp only [List.length_append, putWord_length, Word.size]
  have hdata : putRecordData buf record ctx =
      ((putRecordFields buf record ctx).1 ++ (putWord (0 : UInt16) ++
        (rdataBytes (buf.length + (nameBytes buf.length record.name ctx).1.length + 10)
          record.data (nameBytes buf.length record.name ctx).2).1),
        (rdataBytes (buf.length + (nameBytes buf.length record.name ctx).1.length + 10)
          record.data (nameBytes buf.length record.name ctx).2).2) := by
    rw [putRecordData, putRdata_eq, List.length_append, hlen, hfields]
    simp only [putWord_length, Word.size, List.append_assoc, Nat.add_assoc, Nat.reduceAdd]
  have hrd : rdataLen buf record ctx =
      (rdataBytes (buf.length + (nameBytes buf.length record.name ctx).1.length + 10)
          record.data (nameBytes buf.length record.name ctx).2).1.length := by
    rw [rdataLen, hdata]
    simp only [List.length_append, putWord_length, Word.size]
    omega
  refine ⟨hrd, ?_⟩
  rw [putRecord, hrd, hdata]
  dsimp only
  rw [patchU16_append, hfields]
  simp only [recordFields, List.append_assoc]

/-- A record is read from its name, its fixed fields and its data. -/
theorem beRecord_of_parts {origin : Slice} {p : ℕ} {name data x : List UInt8}
    (record : ResourceRecord) {rdlen : UInt16} (hrdlen : rdlen.toNat = data.length)
    (hname : beName ⟨p, name ++ (recordFields record rdlen ++ (data ++ x))⟩ origin =
      .ok ⟨p + name.length, recordFields record rdlen ++ (data ++ x)⟩ record.name)
    (hdata : ∃ q, beRdata origin record.typ rdlen ⟨p + name.length + 10, data⟩ =
      .ok ⟨q, []⟩ record.data) :
    beRecord origin ⟨p, name ++ (recordFields record rdlen ++ (data ++ x))⟩ =
      .ok ⟨p + name.length + 10 + data.length, x⟩ record := by
  obtain ⟨q, hdata⟩ := hdata
  obtain ⟨hclass, htop⟩ := class_classBits record.cls record.multicastUnique
  have hhead : beRecordHead origin ⟨p, name ++ (recordFields record rdlen ++ (data ++ x))⟩ =
      .ok ⟨p + name.length + 10, data ++ x⟩ ⟨record.name, record.typ.toU16,
        classBits record.cls.toU16 record.multicastUnique, record.ttl, rdlen⟩ := by
    rw [beRecordHead, hname, andThen_ok]
    simp only [recordFields, List.append_assoc]
    rw [recognises_u16, andThen_ok, recognises_u16, andThen_ok, recognises_u32, andThen_ok,
      recognises_u16, map_ok]
    simp only [putWord_length, Word.size, Nat.add_assoc, Nat.reduceAdd]
  rw [beRecord, hhead, andThen_ok, beRecordBody, recordType_tryFrom_toU16]
  dsimp only
  have hshort : ¬ Slice.len ⟨p + name.length + 10, data ++ x⟩ < rdlen.toNat := by
    simp only [Slice.len, List.length_append]
    omega
  rw [if_neg hshort, take_append _ hrdlen.symm, andThen_ok, hdata, andThen_ok, if_neg (by simp),
    beRecordClass, hclass]
  simp only [htop, hrdlen]

theorem putRecord_written {buf : List UInt8} {ctx : NameCompression} {record : ResourceRecord}
    (hr : record.WellFormed) (hlen : rdataLen buf record ctx ≤ 65535) (hctx : TableOk buf ctx) :
    ∃ w, putRecord buf record ctx = (buf ++ w, (putRecord buf record ctx).2) ∧
      Written beRecord minResourceRecordWireLen buf w (putRecord buf record ctx).2 record := by
  obtain ⟨hrd, hput⟩ := putRecord_eq buf record ctx
  obtain ⟨hreads, htable⟩ := nameBytes_spec hr.name.labels.1 hctx
  have hpos := nameBytes_pos buf.length record.name ctx
  rw [hrd] at hlen
  rw [hput]
  clear hrd hput
  generalize hname : nameBytes buf.length record.name ctx = name at *
  -- the message up to the data, which the names inside the data are read against
  obtain ⟨rdlen, hrdlen⟩ : ∃ rdlen, UInt16.ofNat
      (rdataBytes (buf.length + name.1.length + 10) record.data name.2).1.length = rdlen :=
    ⟨_, rfl⟩
  have htable' := htable.append (recordFields record rdlen)
  have hstart : (buf ++ name.1 ++ recordFields record rdlen).length =
      buf.length + name.1.length + 10 := by
    rw [List.length_append, List.length_append, recordFields_length]
  have hdtable := rdataBytes_table hr.data htable'
  have hfit : rdlen.toNat =
      (rdataBytes (buf.length + name.1.length + 10) record.data name.2).1.length := by
    rw [← hrdlen, UInt16.toNat_ofNat']
    omega
  have hdreads := fun x => rdataBytes_reads hr.data htable' rdlen
    (by rw [hstart]; exact hfit) x
  rw [hstart] at hdtable hdreads
  rw [hrdlen]
  clear hrdlen
  generalize hdata : rdataBytes (buf.length + name.1.length + 10) record.data name.2 = data at *
  refine ⟨_, rfl, ?_, ?_, ?_⟩
  · simpa only [List.append_assoc] using hdtable
  · intro x
    have hd := hdreads x
    simp only [List.append_assoc] at hd
    have h := beRecord_of_parts record hfit
      (beName_of_reads hr.name hreads (recordFields record rdlen ++ (data.1 ++ x))
        (recordFields record rdlen ++ (data.1 ++ x))) hd
    simpa only [List.append_assoc, List.length_append, recordFields_length, Nat.add_assoc] using h
  · simp only [List.length_append, recordFields_length, minResourceRecordWireLen]
    omega

/-- `holds` is true of every item at the moment when it is written. -/
def WhenWritten {α : Type} (put : List UInt8 → α → NameCompression → List UInt8 × NameCompression)
    (holds : List UInt8 × NameCompression → α → Prop) :
    List α → List UInt8 × NameCompression → Prop
  | [], _ => True
  | item :: items, out => holds out item ∧ WhenWritten put holds items (put out.1 item out.2)

omit [DhttpHome] in
/-- A section that is written item by item is read item by item. -/
theorem putAll_written {α : Type} (parser : Slice → Slice → IResult α) {minLen : ℕ}
    {put : List UInt8 → α → NameCompression → List UInt8 × NameCompression}
    {holds : List UInt8 × NameCompression → α → Prop}
    (hstep : ∀ {buf ctx item}, holds (buf, ctx) item → TableOk buf ctx →
      ∃ w, put buf item ctx = (buf ++ w, (put buf item ctx).2) ∧
        Written parser minLen buf w (put buf item ctx).2 item)
    {items : List α} {buf : List UInt8} {ctx : NameCompression}
    (hall : WhenWritten put holds items (buf, ctx)) (hctx : TableOk buf ctx) :
    ∃ w ctx', putAll put items (buf, ctx) = (buf ++ w, ctx') ∧ TableOk (buf ++ w) ctx' ∧
      (∀ x, parse (parser ⟨0, buf ++ (w ++ x)⟩) items.length ⟨buf.length, w ++ x⟩ =
        (⟨(buf ++ w).length, x⟩, items)) ∧
      items.length * minLen ≤ w.length := by
  induction items generalizing buf ctx with
  | nil =>
    refine ⟨[], ctx, ?_, ?_, ?_, ?_⟩
    · rw [List.append_nil]
      rfl
    · rw [List.append_nil]
      exact hctx
    · intro x
      rw [List.append_nil]
      rfl
    · simp
  | cons item items ih =>
    obtain ⟨hitem, hrest⟩ := hall
    obtain ⟨w, hput, hw⟩ := hstep hitem hctx
    rw [hput] at hrest
    obtain ⟨w', ctx', hall', htable, hreads, hlong⟩ := ih hrest hw.table
    refine ⟨w ++ w', ctx', ?_, ?_, ?_, ?_⟩
    · rw [putAll, List.foldl_cons, hput, ← List.append_assoc]
      exact hall'
    · rw [← List.append_assoc]
      exact htable
    · intro x
      have hfirst := hw.reads (w' ++ x)
      have hothers := hreads x
      rw [List.append_assoc] at hothers
      rw [List.append_assoc, List.length_cons, parse, hfirst]
      dsimp only
      rw [hothers]
      simp only [List.append_assoc]
    · have := hw.long
      rw [List.length_cons, List.length_append, Nat.succ_mul]
      omega

/-- The lengths of the data of records that are written one after the other. -/
def rdataLens : List ResourceRecord → List UInt8 × NameCompression → List ℕ
  | [], _ => []
  | record :: records, out =>
    rdataLen out.1 record out.2 :: rdataLens records (putRecord out.1 record out.2)

/-- The lengths of all record data of a packet as `to_bytes` writes it. -/
def Packet.rdataLens (p : Packet) : List ℕ :=
  Ddns.rdataLens (p.answers ++ p.nameservers ++ p.additional)
    (putAll putQuestion p.questions (putHeader p.header, NameCompression.new))

/-- A packet that the wire format can hold. -/
structure Packet.WellFormed (p : Packet) : Prop where
  questionsCount : p.header.questionsCount.toNat = p.questions.length
  answersCount : p.header.answersCount.toNat = p.answers.length
  nameserversCount : p.header.nameserversCount.toNat = p.nameservers.length
  additionalCount : p.header.additionalCount.toNat = p.additional.length
  questions : ∀ q ∈ p.questions, WellFormedName q.name
  records : ∀ r ∈ p.answers ++ p.nameservers ++ p.additional, r.WellFormed
  rdata : ∀ n ∈ p.rdataLens, n ≤ 65535

/-- What is asked of a record when it is written. -/
def RecordFits (out : List UInt8 × NameCompression) (r : ResourceRecord) : Prop :=
  r.WellFormed ∧ rdataLen out.1 r out.2 ≤ 65535

theorem whenWritten_records {records : List ResourceRecord} (out : List UInt8 × NameCompression)
    (hr : ∀ r ∈ records, r.WellFormed) (hlen : ∀ n ∈ rdataLens records out, n ≤ 65535) :
    WhenWritten putRecord RecordFits records out := by
  induction records generalizing out with
  | nil => trivial
  | cons r records ih =>
    refine ⟨⟨hr r (by simp), hlen _ (by simp [rdataLens])⟩, ih _ ?_ ?_⟩
    · intro r' hmem
      exact hr r' (List.mem_cons_of_mem _ hmem)
    · intro n hmem
      exact hlen n (List.mem_cons_of_mem _ hmem)

omit [DhttpHome] in
theorem WhenWritten.append {α : Type}
    {put : List UInt8 → α → NameCompression → List UInt8 × NameCompression}
    {holds : List UInt8 × NameCompression → α → Prop} {items items' : List α}
    {out : List UInt8 × NameCompression} (h : WhenWritten put holds (items ++ items') out) :
    WhenWritten put holds items out ∧ WhenWritten put holds items' (putAll put items out) := by
  induction items generalizing out with
  | nil => exact ⟨trivial, h⟩
  | cons item items ih =>
    obtain ⟨hitem, hrest⟩ := h
    obtain ⟨h₁, h₂⟩ := ih hrest
    exact ⟨⟨hitem, h₁⟩, h₂⟩

omit [DhttpHome] in
theorem beHeader_put (header : Header) (t : List UInt8) :
    beHeader ⟨0, putHeader header ++ t⟩ = .ok ⟨12, t⟩ header := by
  simp only [beHeader, putHeader, List.append_assoc]
  rw [recognises_u16, andThen_ok, recognises_u16, andThen_ok, recognises_u16, andThen_ok,
    recognises_u16, andThen_ok, recognises_u16, andThen_ok, recognises_u16, map_ok]
  simp only [putWord_length, Word.size]

omit [DhttpHome] in
theorem putHeader_length (header : Header) : (putHeader header).length = 12 := by
  simp [putHeader, Word.size]

omit [DhttpHome] in
/-- Questions can be written wherever they stand. -/
theorem whenWritten_questions {questions : List Question}
    (h : ∀ q ∈ questions, WellFormedName q.name) (out : List UInt8 × NameCompression) :
    WhenWritten putQuestion (fun _ q => WellFormedName q.name) questions out := by
  induction questions generalizing out with
  | nil => trivial
  | cons q questions ih =>
    have hrest := ih (fun q' hmem => h q' (List.mem_cons_of_mem _ hmem)) (putQuestion out.1 q out.2)
    exact ⟨h q List.mem_cons_self, hrest⟩

/-- Decoding inverts encoding, and leaves what follows the packet. -/
theorem bePacket_toBytes (p : Packet) (h : p.WellFormed) (rest : List UInt8) :
    bePacket (wholeSlice (p.toBytes ++ rest)) = .ok ⟨p.toBytes.length, rest⟩ p := by
  have hquestions := whenWritten_questions h.questions (putHeader p.header, NameCompression.new)
  obtain ⟨wq, ctxq, hputq, htq, hreadq, hlongq⟩ := putAll_written beQuestion
    (fun {buf ctx q} hn hc => ⟨_, by rw [putQuestion_eq], by
      rw [putQuestion_eq]
      exact questionBytes_written hn hc⟩)
    hquestions (tableOk_new _)
  have hrecords := whenWritten_records _ h.records h.rdata
  rw [hputq, List.append_assoc] at hrecords
  obtain ⟨hanswers, hrecords⟩ := hrecords.append
  obtain ⟨wa, ctxa, hputa, hta, hreada, hlonga⟩ := putAll_written beRecord
    (fun hr hc => putRecord_written hr.1 hr.2 hc) hanswers htq
  rw [hputa] at hrecords
  obtain ⟨hnameservers, hadditional⟩ := hrecords.append
  obtain ⟨wn, ctxn, hputn, htn, hreadn, hlongn⟩ := putAll_written beRecord
    (fun hr hc => putRecord_written hr.1 hr.2 hc) hnameservers hta
  rw [hputn] at hadditional
  obtain ⟨wd, ctxd, hputd, htd, hreadd, hlongd⟩ := putAll_written beRecord
    (fun hr hc => putRecord_written hr.1 hr.2 hc) hadditional htn
  have hbytes : p.toBytes = putHeader p.header ++ (wq ++ (wa ++ (wn ++ wd))) := by
    rw [Packet.toBytes, hputq, hputa, hputn, hputd]
    simp only [List.append_assoc]
  have hq := hreadq (wa ++ (wn ++ (wd ++ rest)))
  have ha := hreada (wn ++ (wd ++ rest))
  have hn := hreadn (wd ++ rest)
  have hd := hreadd rest
  rw [putHeader_length] at hq
  simp only [List.append_assoc] at hq ha hn hd
  rw [hbytes, wholeSlice, bePacket]
  simp only [List.append_assoc]
  rw [beHeader_put, andThen_ok]
  have hcounts : validateSectionCounts p.header ⟨12, wq ++ (wa ++ (wn ++ (wd ++ rest)))⟩ =
      .ok ⟨12, wq ++ (wa ++ (wn ++ (wd ++ rest)))⟩ () := by
    rw [validateSectionCounts, h.questionsCount, h.answersCount, h.nameserversCount,
      h.additionalCount, if_neg]
    simp only [Slice.len, List.length_append, Nat.add_mul] at *
    omega
  rw [hcounts, andThen_ok, parseSections, h.questionsCount, h.answersCount, h.nameserversCount,
    h.additionalCount]
  dsimp only
  rw [hq]
  dsimp only
  rw [ha]
  dsimp only
  rw [hn]
  dsimp only
  rw [hd]

/-- Every field of a well-formed packet survives the wire, and the bytes after the packet are
left over. -/
theorem packet_round_trip (p : Packet) (h : p.WellFormed) (rest : List UInt8) :
    ∃ remain p', bePacket (wholeSlice (p.toBytes ++ rest)) = .ok remain p' ∧
      remain.bytes = rest ∧ remain.pos = p.toBytes.length ∧ p'.header = p.header ∧
      p'.questions = p.questions ∧ p'.answers = p.answers ∧ p'.nameservers = p.nameservers ∧
      p'.additional = p.additional :=
  ⟨_, p, bePacket_toBytes p h rest, rfl, rfl, rfl, rfl, rfl, rfl, rfl⟩

end Records

section Sample

attribute [local instance] plainHome

/-- A relayed endpoint with a sequence. -/
def relayedEndpoint : EndpointAddr :=
  ((EndpointAddr.natV4 ⟨0xCB00710A, 4433⟩ ⟨0x0A000001, 5353⟩).setMain true).setSequence
    (CertificateSequence.ofU8 7)

/-- A response whose names share suffixes across its sections and inside its data. -/
def sharedSuffixPacket : Packet where
  header := ⟨1573, 0x8180, 1, 1, 1, 1⟩
  questions := [⟨['a', '.', 'b'], true, .e, .in⟩]
  answers := [⟨['a', '.', 'b'], .e, false, .in, 300, .e relayedEndpoint⟩]
  nameservers := [⟨['b'], .ns, true, .ch, 60, .cname ['c', '.', 'a', '.', 'b']⟩]
  additional := [⟨['.'], .srv, false, .in, 0, .srv ⟨1, 2, 3, ['c', '.', 'a', '.', 'b']⟩⟩]

theorem relayedEndpoint_wellFormed : relayedEndpoint.WellFormed := by
  refine ⟨by decide, by decide, by decide, by decide, by decide, ?_, trivial, ?_⟩
  · rintro a ⟨⟩
    decide
  · rintro a ⟨⟩
    trivial

theorem sharedSuffixPacket_wellFormed : sharedSuffixPacket.WellFormed := by
  refine ⟨by decide, by decide, by decide, by decide, by decide, ?_, by decide⟩
  intro r hmem
  rcases List.mem_cons.mp hmem with rfl | hmem
  · exact ⟨by decide, rfl, relayedEndpoint_wellFormed⟩
  rcases List.mem_cons.mp hmem with rfl | hmem
  · exact ⟨by decide, Or.inr rfl, by decide⟩
  · rw [List.mem_singleton.mp hmem]
    exact ⟨by decide, rfl, by decide⟩

theorem packet_round_trip_sharedSuffix :
    ∃ remain p', bePacket (wholeSlice (sharedSuffixPacket.toBytes ++ [1, 2, 3])) = .ok remain p' ∧
      remain.bytes = [1, 2, 3] ∧ p'.answers = sharedSuffixPacket.answers := by
  obtain ⟨remain, p', hok, hbytes, _, _, _, hanswers, _, _⟩ :=
    packet_round_trip sharedSuffixPacket sharedSuffixPacket_wellFormed [1, 2, 3]
  exact ⟨remain, p', hok, hbytes, hanswers⟩

end Sample

end Ddns
