import Ddns.Core.Record

/-! Whole packets: the writer with its shared compression table, and the section loops. -/
namespace Ddns

open Nom BigEndian

/-- `flags` holds the sixteen bits of the bit field, QR first. -/
structure Header where
  id : UInt16
  flags : UInt16
  questionsCount : UInt16
  answersCount : UInt16
  nameserversCount : UInt16
  additionalCount : UInt16
  deriving DecidableEq

def Header.default : Header := ⟨0, 0, 0, 0, 0, 0⟩

/-- `set_query` on the bit field. -/
def setQuery (flags : UInt16) (query : Bool) : UInt16 :=
  if query then flags ||| 0x8000 else flags &&& 0x7FFF

structure Packet [DhttpHome] where
  header : Header
  questions : List Question
  answers : List ResourceRecord
  nameservers : List ResourceRecord
  additional : List ResourceRecord
  deriving DecidableEq

def putHeader (header : Header) : List UInt8 :=
  putWord header.id ++ (putWord header.flags ++ (putWord header.questionsCount ++
    (putWord header.answersCount ++ (putWord header.nameserversCount ++
      putWord header.additionalCount))))

def beHeader (input : Slice) : IResult Header :=
  (beU16 input).andThen fun remain id =>
    (beU16 remain).andThen fun remain flags =>
      (beU16 remain).andThen fun remain questions =>
        (beU16 remain).andThen fun remain answers =>
          (beU16 remain).andThen fun remain nameservers =>
            (beU16 remain).map fun additional =>
              ⟨id, flags, questions, answers, nameservers, additional⟩

/-- A class field with its top bit. -/
def classBits (cls : UInt16) (top : Bool) : UInt16 := if top then cls ||| 0x8000 else cls

def putQuestion (buf : List UInt8) (question : Question) (ctx : NameCompression) :
    List UInt8 × NameCompression :=
  let out := putName buf question.name ctx
  (out.1 ++ putWord question.qtype.toU16 ++
    putWord (classBits question.qclass.toU16 question.preferUnicast), out.2.1)

def putSrv (buf : List UInt8) (srv : Srv) (ctx : NameCompression) :
    List UInt8 × NameCompression :=
  let out := putName (buf ++ putWord srv.priority ++ putWord srv.weight ++ putWord srv.port)
    srv.target ctx
  (out.1, out.2.1)

/-- Overwrites the two bytes at `pos`. -/
def patchU16 (buf : List UInt8) (pos : ℕ) (value : UInt16) : List UInt8 :=
  (buf.set pos (UInt8.ofNat (value.toNat / 256))).set (pos + 1) (UInt8.ofNat value.toNat)

variable [DhttpHome]

def putRdata (buf : List UInt8) (data : RData) (ctx : NameCompression) :
    List UInt8 × NameCompression :=
  match data with
  | .a ip => (buf ++ putWord ip, ctx)
  | .aaaa ip => (buf ++ putWord ip, ctx)
  | .cname name =>
    let out := putName buf name ctx
    (out.1, out.2.1)
  | .txt bytes => (buf ++ bytes, ctx)
  | .srv srv => putSrv buf srv ctx
  | .ptr name =>
    let out := putName buf name ctx
    (out.1, out.2.1)
  | .e endpoint => (buf ++ putEndpointAddr endpoint, ctx)

/-- A record up to its RDLENGTH. -/
def putRecordFields (buf : List UInt8) (record : ResourceRecord) (ctx : NameCompression) :
    List UInt8 × NameCompression :=
  let out := putName buf record.name ctx
  (out.1 ++ putWord record.typ.toU16 ++
    putWord (classBits record.cls.toU16 record.multicastUnique) ++ putWord record.ttl, out.2.1)

/-- A record with its data, and with zero for RDLENGTH. -/
def putRecordData (buf : List UInt8) (record : ResourceRecord) (ctx : NameCompression) :
    List UInt8 × NameCompression :=
  let fields := putRecordFields buf record ctx
  putRdata (fields.1 ++ putWord (0 : UInt16)) record.data fields.2

/-- The number of bytes that the data of a record takes when it is written here. -/
def rdataLen (buf : List UInt8) (record : ResourceRecord) (ctx : NameCompression) : ℕ :=
  let rdlenPos := (putRecordFields buf record ctx).1.length
  (putRecordData buf record ctx).1.length - (rdlenPos + 2)

/-- RDLENGTH is patched once the data is there, as a `u16`. -/
def putRecord (buf : List UInt8) (record : ResourceRecord) (ctx : NameCompression) :
    List UInt8 × NameCompression :=
  let rdlenPos := (putRecordFields buf record ctx).1.length
  let out := putRecordData buf record ctx
  (patchU16 out.1 rdlenPos (UInt16.ofNat (rdataLen buf record ctx)), out.2)

/-- A loop that writes item after item. -/
def putAll {α : Type} (put : List UInt8 → α → NameCompression → List UInt8 × NameCompression)
    (items : List α) (out : List UInt8 × NameCompression) : List UInt8 × NameCompression :=
  items.foldl (fun out item => put out.1 item out.2) out

def Packet.toBytes (p : Packet) : List UInt8 :=
  (putAll putRecord p.additional
    (putAll putRecord p.nameservers
      (putAll putRecord p.answers
        (putAll putQuestion p.questions (putHeader p.header, NameCompression.new))))).1

/-- The section loop: a value is kept, an error moves the cursor to the slice that it carries,
and anything else ends the section. -/
def parse {α : Type} (parser : Slice → IResult α) : ℕ → Slice → Slice × List α
  | 0, input => (input, [])
  | count + 1, input =>
    match parser input with
    | .ok newInput record =>
      let rest := parse parser count newInput
      (rest.1, record :: rest.2)
    | .err (.error remaining _) => parse parser count remaining
    | .err _ => (input, [])

def minQuestionWireLen : ℕ := 5

def minResourceRecordWireLen : ℕ := 11

/-- The sums of at most four 16-bit counts do not overflow. -/
def validateSectionCounts (header : Header) (input : Slice) : IResult Unit :=
  let questionBytes := header.questionsCount.toNat * minQuestionWireLen
  let recordCount := header.answersCount.toNat + header.nameserversCount.toNat +
    header.additionalCount.toNat
  let minimumWireLen := questionBytes + recordCount * minResourceRecordWireLen
  if input.len < minimumWireLen then .err (.failure input .verify) else .ok input ()

/-- The four sections, each taken up where the one before it stopped. -/
def parseSections (origin : Slice) (header : Header) (remain : Slice) : Slice × Packet :=
  let questions := parse (beQuestion origin) header.questionsCount.toNat remain
  let answers := parse (beRecord origin) header.answersCount.toNat questions.1
  let nameservers := parse (beRecord origin) header.nameserversCount.toNat answers.1
  let additional := parse (beRecord origin) header.additionalCount.toNat nameservers.1
  (additional.1, ⟨header, questions.2, answers.2, nameservers.2, additional.2⟩)

def bePacket (input : Slice) : IResult Packet :=
  (beHeader input).andThen fun remain header =>
    (validateSectionCounts header remain).andThen fun remain _ =>
      .ok (parseSections input header remain).1 (parseSections input header remain).2

/-- A byte string as a slice of its own. -/
def wholeSlice (bytes : List UInt8) : Slice := ⟨0, bytes⟩

namespace Packet

def default : Packet := ⟨Header.default, [], [], [], []⟩

/-- The counter wraps around as a `u16`. -/
def addQuestion (p : Packet) (qname : Name) (qtype : QueryType) (qclass : QueryClass)
    (preferUnicast : Bool) : Packet :=
  { p with
    header := { p.header with questionsCount := p.header.questionsCount + 1 }
    questions := p.questions ++ [⟨qname, preferUnicast, qtype, qclass⟩] }

/-- The counter wraps around as a `u16`. -/
def addAnswer (p : Packet) (name : Name) (rtype : RecordType) (rclass : Class) (ttl : UInt32)
    (data : RData) : Packet :=
  { p with
    header :=
      { p.header with
        flags := setQuery p.header.flags true
        answersCount := p.header.answersCount + 1 }
    answers := p.answers ++ [⟨name, rtype, false, rclass, ttl, data⟩] }

/-- `id` is drawn at random by the code. -/
def queryWithId (id : UInt16) (serviceName : Name) : Packet :=
  let p : Packet := { default with
    header := { Header.default with id := id, flags := setQuery Header.default.flags false } }
  p.addQuestion serviceName .a .in false

/-- `hosts` lists the entries of the map in the order of its iterator. -/
def answer (id : UInt16) (hosts : List (Name × List EndpointAddr)) : Packet :=
  let p : Packet := { default with
    header := { Header.default with id := id, flags := setQuery Header.default.flags true } }
  hosts.foldl
    (fun p host => host.2.foldl (fun p ep => p.addAnswer host.1 .e .in 300 (.e ep)) p) p

end Packet

end Ddns
