import Ddns.Core.Signature
import Ddns.Library.Format

/-! The response body of a lookup: a counted list of signed DNS packets. -/
namespace Ddns

open Nom BigEndian

structure ResponseRecord where
  signatureFields : SignatureFields
  dns : List UInt8
  cert : List UInt8
  deriving DecidableEq

structure MultiResponse where
  records : List ResponseRecord
  deriving DecidableEq

namespace ResponseRecord

def unsigned (dns cert : List UInt8) : ResponseRecord := ⟨SignatureFields.empty, dns, cert⟩

/-- The five fields in the order of the wire. -/
def fields (record : ResponseRecord) : List (List UInt8) :=
  [record.signatureFields.contentDigest, record.signatureFields.signatureInput,
    record.signatureFields.signature, record.dns, record.cert]

def publisherCertificateChainKey [DhttpHome] [SubjectKey] (record : ResponseRecord) :
    Option CertificateChainKey :=
  if record.cert = [] then none
  else
    match SubjectKey.extract [record.cert] with
    | .ok chain => some chain
    | .error _ => none

end ResponseRecord

/-- The length is cut to a `u32`. -/
def putField (value : List UInt8) : List UInt8 :=
  putWord (UInt32.ofNat value.length) ++ value

def putResponseRecord (record : ResponseRecord) : List UInt8 :=
  putField record.signatureFields.contentDigest ++
    (putField record.signatureFields.signatureInput ++
      (putField record.signatureFields.signature ++
        (putField record.dns ++ putField record.cert)))

namespace MultiResponse

def encodingSize (response : MultiResponse) : ℕ :=
  4 + (response.records.map fun record =>
    4 + record.signatureFields.contentDigest.length + 4 +
      record.signatureFields.signatureInput.length + 4 + record.signatureFields.signature.length +
      4 + record.dns.length + 4 + record.cert.length).sum

/-- The number of records is cut to a `u32`. -/
def encode (response : MultiResponse) : List UInt8 :=
  putWord (UInt32.ofNat response.records.length) ++ response.records.flatMap putResponseRecord

/-- One turn of the loop of `encode_records`: the count, unless it overflows, and the buffer. -/
def encodeRecord (out : UInt32 × List UInt8) (record : ResponseRecord) :
    Option (UInt32 × List UInt8) :=
  if out.1.toNat + 1 < 2 ^ 32 then some (out.1 + 1, out.2 ++ putResponseRecord record) else none

/-- The count is put over the four zeros at the start of the buffer; `none` is the panic of the
count. -/
def encodeRecords (records : List ResponseRecord) : Option (List UInt8) :=
  (records.foldlM encodeRecord (0, putWord (0 : UInt32))).map fun out =>
    putWord out.1 ++ out.2.drop 4

end MultiResponse

def beField (input : Slice) : IResult (List UInt8) :=
  (beU32 input).andThen fun remain len => (take len.toNat remain).map fun value => value.bytes

def beResponseRecord (input : Slice) : IResult ResponseRecord :=
  (beField input).andThen fun remain contentDigest =>
    (beField remain).andThen fun remain signatureInput =>
      (beField remain).andThen fun remain signature =>
        (beField remain).andThen fun remain dns =>
          (beField remain).map fun cert => ⟨⟨contentDigest, signatureInput, signature⟩, dns, cert⟩

def beMultiResponse (input : Slice) : IResult MultiResponse :=
  (beU32 input).andThen fun remain n =>
    (count beResponseRecord n.toNat remain).map fun records => ⟨records⟩

/-- What `encode` can write without cutting a number. -/
structure MultiResponse.Encodable (response : MultiResponse) : Prop where
  count : response.records.length < 2 ^ 32
  fields : ∀ record ∈ response.records, ∀ field ∈ record.fields, field.length < 2 ^ 32

theorem format_field : Format beField putField fun value => value.length < 2 ^ 32 :=
  format_sized UInt32

theorem format_responseRecord : Format beResponseRecord putResponseRecord
    fun record => ∀ field ∈ record.fields, field.length < 2 ^ 32 := by
  have hfields := (format_field.pair (format_field.pair (format_field.pair
    (format_field.pair format_field)))).map
      (fun x => (⟨⟨x.1, x.2.1, x.2.2.1⟩, x.2.2.2.1, x.2.2.2.2⟩ : ResponseRecord))
      (fun record => (record.signatureFields.contentDigest, record.signatureFields.signatureInput,
        record.signatureFields.signature, record.dns, record.cert))
      (fun _ => rfl) (fun _ => rfl)
  refine (hfields.congr ?_ ?_ ?_)
  · intro s
    simp only [beResponseRecord, IResult.map, andThen_andThen, andThen_ok]
  · intro record
    rfl
  · intro record
    simp only [ResponseRecord.fields, List.forall_mem_cons, List.not_mem_nil, false_implies,
      implies_true, and_true]

theorem format_multiResponse :
    Format beMultiResponse MultiResponse.encode MultiResponse.Encodable := by
  have hrecords := (format_responseRecord.counted UInt32).map MultiResponse.mk
    MultiResponse.records (fun _ => rfl) (fun _ => rfl)
  refine hrecords.congr ?_ ?_ ?_
  · intro s
    simp only [beMultiResponse, IResult.map, andThen_andThen]
    rfl
  · intro response
    rfl
  · intro response
    exact ⟨fun h => ⟨h.count, h.fields⟩, fun h => ⟨h.1, h.2⟩⟩

/-- No field is longer than the whole. -/
theorem field_length_lt_encodingSize {response : MultiResponse} {record : ResponseRecord}
    (hrecord : record ∈ response.records) {field : List UInt8} (hfield : field ∈ record.fields) :
    field.length < response.encodingSize := by
  have hsum := List.single_le_sum (fun n _ => Nat.zero_le n) _
    (List.mem_map_of_mem (f := fun record : ResponseRecord =>
      4 + record.signatureFields.contentDigest.length + 4 +
        record.signatureFields.signatureInput.length + 4 +
        record.signatureFields.signature.length + 4 + record.dns.length + 4 + record.cert.length)
      hrecord)
  rw [MultiResponse.encodingSize]
  simp only [ResponseRecord.fields, List.mem_cons, List.not_mem_nil, or_false] at hfield
  rcases hfield with rfl | rfl | rfl | rfl | rfl <;> omega

theorem putField_length (value : List UInt8) : (putField value).length = 4 + value.length := by
  rw [putField, List.length_append, putWord_length]
  rfl

theorem encode_length (response : MultiResponse) :
    response.encode.length = response.encodingSize := by
  obtain ⟨records⟩ := response
  have hrecords : (records.flatMap putResponseRecord).length = (records.map fun record =>
      4 + record.signatureFields.contentDigest.length + 4 +
        record.signatureFields.signatureInput.length + 4 +
        record.signatureFields.signature.length + 4 + record.dns.length + 4 +
        record.cert.length).sum := by
    induction records with
    | nil => rfl
    | cons record records ih =>
      simp only [List.flatMap_cons, List.length_append, putResponseRecord, putField_length, ih,
        List.map_cons, List.sum_cons]
      omega
  rw [MultiResponse.encode, MultiResponse.encodingSize, List.length_append, putWord_length,
    hrecords]
  rfl

/-- The loop counts the records that it writes, as long as they can be counted. -/
theorem foldlM_encodeRecord (records : List ResponseRecord) (count : UInt32) (buf : List UInt8)
    (h : count.toNat + records.length < 2 ^ 32) :
    records.foldlM MultiResponse.encodeRecord (count, buf) =
      some (count + UInt32.ofNat records.length, buf ++ records.flatMap putResponseRecord) := by
  induction records generalizing count buf with
  | nil => simp
  | cons record records ih =>
    rw [List.length_cons] at h
    have hnext : (count + 1).toNat = count.toNat + 1 := by
      rw [UInt32.toNat_add, UInt32.toNat_one]
      omega
    have hfirst : MultiResponse.encodeRecord (count, buf) record =
        some (count + 1, buf ++ putResponseRecord record) := if_pos (by dsimp only; omega)
    have hcount : count + 1 + UInt32.ofNat records.length =
        count + UInt32.ofNat (records.length + 1) := by
      rw [UInt32.add_assoc, UInt32.add_comm 1, UInt32.ofNat_add]
      rfl
    rw [List.foldlM_cons, hfirst, Option.bind_eq_bind, Option.bind_some, ih _ _ (by omega), hcount,
      List.flatMap_cons, List.append_assoc, List.length_cons]

theorem encodeRecords_eq {response : MultiResponse} (h : response.records.length < 2 ^ 32) :
    MultiResponse.encodeRecords response.records = some response.encode := by
  have hloop := foldlM_encodeRecord response.records 0 (putWord (0 : UInt32)) (by simpa using h)
  have hdrop : (putWord (0 : UInt32) ++ response.records.flatMap putResponseRecord).drop 4 =
      response.records.flatMap putResponseRecord := List.drop_left' (putWord_length (0 : UInt32))
  rw [MultiResponse.encodeRecords, hloop, Option.map_some, hdrop, UInt32.zero_add]
  rfl

/-- The size, both encoders and the reader agree, no other bytes are read as a response, and a cut
response is incomplete. -/
theorem multiResponse_bijection :
    (∀ response : MultiResponse, response.Encodable →
      response.encode.length = response.encodingSize ∧
      MultiResponse.encodeRecords response.records = some response.encode ∧
      (∀ p rest, beMultiResponse ⟨p, response.encode ++ rest⟩ =
        .ok ⟨p + response.encode.length, rest⟩ response) ∧
      ∀ p part, part <+: response.encode → part ≠ response.encode →
        ∃ needed, beMultiResponse ⟨p, part⟩ = .err (.incomplete needed)) ∧
    ∀ input remain response, beMultiResponse input = .ok remain response →
      response.Encodable ∧ input.bytes = response.encode ++ remain.bytes := by
  refine ⟨?_, format_multiResponse.writes⟩
  intro response h
  refine ⟨encode_length response, encodeRecords_eq h.count, format_multiResponse.reads response h, ?_⟩
  intro p part hpart hne
  exact format_multiResponse.incomplete_of_cut h p hpart hne

end Ddns
