import Ddns.Core.Endpoint

/-! Questions and resource records, and how they are read. -/
namespace Ddns

open Nom

/-- The recognised values of TYPE. -/
inductive RecordType where
  | a
  | ns
  | aaaa
  | cname
  | txt
  | srv
  | ptr
  | e
  deriving DecidableEq

/-- The older endpoint types 267 to 269 are read as E. -/
def RecordType.tryFrom (value : UInt16) : Option RecordType :=
  match value.toNat with
  | 1 => some .a
  | 2 => some .ns
  | 28 => some .aaaa
  | 5 => some .cname
  | 16 => some .txt
  | 33 => some .srv
  | 12 => some .ptr
  | 266 | 267 | 268 | 269 => some .e
  | _ => none

def RecordType.toU16 : RecordType → UInt16
  | .a => 1
  | .ns => 2
  | .aaaa => 28
  | .cname => 5
  | .txt => 16
  | .srv => 33
  | .ptr => 12
  | .e => 266

/-- The recognised values of CLASS. -/
inductive Class where
  | «in»
  | cs
  | ch
  | hs
  deriving DecidableEq

def Class.tryFrom (value : UInt16) : Option Class :=
  match (value &&& 0x7FFF).toNat with
  | 1 => some .in
  | 2 => some .cs
  | 3 => some .ch
  | 4 => some .hs
  | _ => none

def Class.toU16 : Class → UInt16
  | .in => 1
  | .cs => 2
  | .ch => 3
  | .hs => 4

/-- The recognised values of QTYPE. -/
inductive QueryType where
  | a
  | aaaa
  | cname
  | txt
  | srv
  | ptr
  | e
  | e6
  | ee
  | ee6
  deriving DecidableEq

def QueryType.tryFrom (value : UInt16) : Option QueryType :=
  match value.toNat with
  | 1 => some .a
  | 28 => some .aaaa
  | 5 => some .cname
  | 16 => some .txt
  | 33 => some .srv
  | 12 => some .ptr
  | 266 => some .e
  | 267 => some .e6
  | 268 => some .ee
  | 269 => some .ee6
  | _ => none

def QueryType.toU16 : QueryType → UInt16
  | .a => 1
  | .aaaa => 28
  | .cname => 5
  | .txt => 16
  | .srv => 33
  | .ptr => 12
  | .e => 266
  | .e6 => 267
  | .ee => 268
  | .ee6 => 269

/-- The recognised values of QCLASS. -/
inductive QueryClass where
  | «in»
  | cs
  | ch
  | hs
  | any
  deriving DecidableEq

def QueryClass.tryFrom (value : UInt16) : Option QueryClass :=
  match value.toNat with
  | 1 => some .in
  | 2 => some .cs
  | 3 => some .ch
  | 4 => some .hs
  | 255 => some .any
  | _ => none

def QueryClass.toU16 : QueryClass → UInt16
  | .in => 1
  | .cs => 2
  | .ch => 3
  | .hs => 4
  | .any => 255

structure Question where
  name : Name
  preferUnicast : Bool
  qtype : QueryType
  qclass : QueryClass
  deriving DecidableEq

structure Srv where
  priority : UInt16
  weight : UInt16
  port : UInt16
  target : Name
  deriving DecidableEq

/-- Record data. `ptr` and `txt` hold the fields of their wrapper types. -/
inductive RData [DhttpHome] where
  | a (ip : UInt32)
  | aaaa (ip : BitVec 128)
  | cname (name : Name)
  | txt (bytes : List UInt8)
  | srv (srv : Srv)
  | ptr (name : Name)
  | e (endpoint : EndpointAddr)
  deriving DecidableEq

structure ResourceRecord [DhttpHome] where
  name : Name
  typ : RecordType
  multicastUnique : Bool
  cls : Class
  ttl : UInt32
  data : RData
  deriving DecidableEq

/-- The fixed fields of a question, as they stand on the wire. -/
structure QuestionHead where
  name : Name
  qtype : UInt16
  qclass : UInt16
  deriving DecidableEq

def beQuestionHead (origin input : Slice) : IResult QuestionHead :=
  (beName input origin).andThen fun remain name =>
    (beU16 remain).andThen fun remain qtype =>
      (beU16 remain).map fun qclass => ⟨name, qtype, qclass⟩

/-- The question that the fields stand for, if its type and class are known. -/
def QuestionHead.question (head : QuestionHead) : Option Question :=
  match QueryType.tryFrom head.qtype with
  | none => none
  | some qtype =>
    match QueryClass.tryFrom (head.qclass &&& 0x7FFF) with
    | none => none
    | some qclass => some ⟨head.name, head.qclass &&& 0x8000 = 0x8000, qtype, qclass⟩

def beQuestion (origin input : Slice) : IResult Question :=
  (beQuestionHead origin input).andThen fun remain head =>
    match head.question with
    | none => .err (.error remain .alt)
    | some question => .ok remain question

def beSrv (origin input : Slice) : IResult Srv :=
  (beU16 input).andThen fun remain priority =>
    (beU16 remain).andThen fun remain weight =>
      (beU16 remain).andThen fun remain port =>
        (beName remain origin).map fun target => ⟨priority, weight, port, target⟩

variable [DhttpHome]

/-- Reads the data of a record of type `typ` from exactly its `rdlen` bytes. -/
def beRdata (origin : Slice) (typ : RecordType) (rdlen : UInt16) (input : Slice) :
    IResult RData :=
  match typ with
  | .a => (beU32 input).map .a
  | .aaaa => (beU128 input).map .aaaa
  | .cname => (beName input origin).map .cname
  | .txt => (take rdlen.toNat input).map fun txt => .txt txt.bytes
  | .srv => (beSrv origin input).map .srv
  | .ptr => (beName input origin).map .ptr
  | .ns => (beName input origin).map .cname
  | .e => (beEndpointAddrCompat input rdlen).map .e

/-- The fields of a record before its data, as they stand on the wire. -/
structure RecordHead where
  name : Name
  typ : UInt16
  cls : UInt16
  ttl : UInt32
  rdlen : UInt16
  deriving DecidableEq

omit [DhttpHome] in
def beRecordHead (origin input : Slice) : IResult RecordHead :=
  (beName input origin).andThen fun remain name =>
    (beU16 remain).andThen fun remain typ =>
      (beU16 remain).andThen fun remain cls =>
        (beU32 remain).andThen fun remain ttl =>
          (beU16 remain).map fun rdlen => ⟨name, typ, cls, ttl, rdlen⟩

/-- Leaves out `rdlen` bytes and raises an error there. -/
def skipRdata {α : Type} (rdlen : UInt16) (remain : Slice) : IResult α :=
  if remain.len < rdlen.toNat then .err (.incomplete (rdlen.toNat - remain.len))
  else .err (.error (remain.drop rdlen.toNat) .alt)

/-- The end of `be_record`: the class is looked at after the data has been read. -/
def beRecordClass (head : RecordHead) (typ : RecordType) (rdata : RData) (remain : Slice) :
    IResult ResourceRecord :=
  match Class.tryFrom (head.cls &&& 0x7FFF) with
  | none => skipRdata head.rdlen remain
  | some cls =>
    .ok remain ⟨head.name, typ, head.cls &&& 0x8000 = 0x8000, cls, head.ttl, rdata⟩

/-- The part of `be_record` after the fixed fields. -/
def beRecordBody (origin : Slice) (head : RecordHead) (remain : Slice) : IResult ResourceRecord :=
  match RecordType.tryFrom head.typ with
  | none => skipRdata head.rdlen remain
  | some typ =>
    if remain.len < head.rdlen.toNat then
      .err (.incomplete (head.rdlen.toNat - remain.len))
    else
      (take head.rdlen.toNat remain).andThen fun remainAfterRdata rdataBytes =>
        (beRdata origin typ head.rdlen rdataBytes).andThen fun rdataRemain rdata =>
          if rdataRemain.bytes ≠ [] then .err (.error remainAfterRdata .eof)
          else beRecordClass head typ rdata remainAfterRdata

def beRecord (origin input : Slice) : IResult ResourceRecord :=
  (beRecordHead origin input).andThen fun remain head => beRecordBody origin head remain

end Ddns
