import Ddns.Core.PacketRoundTrip

/-! Packets of endpoint answers, as publishers and responders send them. -/
namespace Ddns

open Nom BigEndian

variable [DhttpHome]

/-- The answer that carries one endpoint of a host. -/
def answerRecord (name : Name) (ep : EndpointAddr) : ResourceRecord :=
  ⟨name, .e, false, .in, 300, .e ep⟩

/-- The answers for all hosts, in the order of the table. -/
def answerRecords (hosts : List (Name × List EndpointAddr)) : List ResourceRecord :=
  hosts.flatMap fun host => host.2.map (answerRecord host.1)

/-- A packet with answers and nothing else, whose counter may have wrapped around. -/
structure Packet.AnswersOnly (p : Packet) (records : List ResourceRecord) : Prop where
  answers : p.answers = records
  answersCount : p.header.answersCount = UInt16.ofNat records.length
  questions : p.questions = [] ∧ p.header.questionsCount = 0
  nameservers : p.nameservers = [] ∧ p.header.nameserversCount = 0
  additional : p.additional = [] ∧ p.header.additionalCount = 0

theorem Packet.AnswersOnly.addAnswer {p : Packet} {records : List ResourceRecord}
    (h : p.AnswersOnly records) (name : Name) (ep : EndpointAddr) :
    (p.addAnswer name .e .in 300 (.e ep)).AnswersOnly (records ++ [answerRecord name ep]) := by
  refine ⟨?_, ?_, h.questions, h.nameservers, h.additional⟩
  · show p.answers ++ [answerRecord name ep] = records ++ [answerRecord name ep]
    rw [h.answers]
  · show p.header.answersCount + 1 = UInt16.ofNat (records ++ [answerRecord name ep]).length
    rw [h.answersCount, List.length_append, List.length_singleton, UInt16.ofNat_add]
    rfl

theorem Packet.AnswersOnly.addHost {p : Packet} {records : List ResourceRecord}
    (h : p.AnswersOnly records) (name : Name) (eps : List EndpointAddr) :
    (eps.foldl (fun p ep => p.addAnswer name .e .in 300 (.e ep)) p).AnswersOnly
      (records ++ eps.map (answerRecord name)) := by
  induction eps generalizing p records with
  | nil =>
    rw [List.map_nil, List.append_nil]
    exact h
  | cons ep eps ih =>
    have hrest := ih (h.addAnswer name ep)
    rw [List.append_assoc] at hrest
    exact hrest

theorem Packet.AnswersOnly.addHosts {p : Packet} {records : List ResourceRecord}
    (h : p.AnswersOnly records) (hosts : List (Name × List EndpointAddr)) :
    (hosts.foldl (fun p host =>
        host.2.foldl (fun p ep => p.addAnswer host.1 .e .in 300 (.e ep)) p) p).AnswersOnly
      (records ++ answerRecords hosts) := by
  induction hosts generalizing p records with
  | nil =>
    rw [answerRecords, List.flatMap_nil, List.append_nil]
    exact h
  | cons host hosts ih =>
    have hrest := ih (h.addHost host.1 host.2)
    rw [List.append_assoc] at hrest
    exact hrest

theorem answersOnly_answer (id : UInt16) (hosts : List (Name × List EndpointAddr)) :
    (Packet.answer id hosts).AnswersOnly (answerRecords hosts) := by
  have hempty : Packet.AnswersOnly
      { Packet.default with
        header := { Header.default with id := id, flags := setQuery Header.default.flags true } }
      [] := ⟨rfl, rfl, ⟨rfl, rfl⟩, ⟨rfl, rfl⟩, ⟨rfl, rfl⟩⟩
  exact hempty.addHosts hosts

/-- A record as it is published: well formed and without a signature of its own. -/
structure EndpointAddr.Publishable (e : EndpointAddr) : Prop where
  wellFormed : e.WellFormed
  unsigned : e.signature = none

/-- An answer that the wire format holds wherever it is written. -/
def ResourceRecord.IsAnswer (r : ResourceRecord) : Prop :=
  ∃ name ep, r = answerRecord name ep ∧ WellFormedName name ∧ ep.Publishable

theorem ResourceRecord.IsAnswer.wellFormed {r : ResourceRecord} (h : r.IsAnswer) :
    r.WellFormed := by
  obtain ⟨name, ep, rfl, hname, hep⟩ := h
  exact ⟨hname, rfl, hep.wellFormed⟩

theorem ResourceRecord.IsAnswer.rdataLen_le {r : ResourceRecord} (h : r.IsAnswer)
    (buf : List UInt8) (ctx : NameCompression) : rdataLen buf r ctx ≤ 65535 := by
  obtain ⟨name, ep, rfl, _, hep⟩ := h
  have hlen := putEndpointAddr_length_le hep.unsigned
  have hdata : rdataLen buf (answerRecord name ep) ctx = (putEndpointAddr ep).length :=
    (putRecord_eq buf (answerRecord name ep) ctx).1
  omega

theorem rdataLens_le {records : List ResourceRecord} (h : ∀ r ∈ records, r.IsAnswer)
    (out : List UInt8 × NameCompression) : ∀ n ∈ rdataLens records out, n ≤ 65535 := by
  induction records generalizing out with
  | nil =>
    intro n hn
    exact absurd hn List.not_mem_nil
  | cons r records ih =>
    intro n hn
    rcases List.mem_cons.mp hn with rfl | hn
    · exact (h r List.mem_cons_self).rdataLen_le out.1 out.2
    · exact ih (fun r hr => h r (List.mem_cons_of_mem _ hr)) _ n hn

namespace Packet.AnswersOnly

variable {p : Packet} {records : List ResourceRecord}

/-- Each answer takes at least eleven bytes, however many there are. -/
theorem toBytes_length (h : p.AnswersOnly records) (hr : ∀ r ∈ records, r.IsAnswer) :
    12 + records.length * minResourceRecordWireLen ≤ p.toBytes.length := by
  have hwritten := whenWritten_records (putHeader p.header, NameCompression.new)
    (fun r hmem => (hr r hmem).wellFormed) (rdataLens_le hr _)
  obtain ⟨w, ctx, hput, _, _, hlong⟩ := putAll_written beRecord
    (fun hr hc => putRecord_written hr.1 hr.2 hc) hwritten (tableOk_new _)
  have hbytes : p.toBytes = putHeader p.header ++ w := by
    rw [Packet.toBytes, h.questions.1, h.nameservers.1, h.additional.1, h.answers]
    show (putAll putRecord records (putHeader p.header, NameCompression.new)).1 = _
    rw [hput]
  rw [hbytes, List.length_append, putHeader_length]
  omega

/-- As long as the counter does not wrap around, the packet can be read back. -/
theorem wellFormed (h : p.AnswersOnly records) (hr : ∀ r ∈ records, r.IsAnswer)
    (hcount : records.length ≤ 65535) : p.WellFormed := by
  have hrecords : p.answers ++ p.nameservers ++ p.additional = records := by
    rw [h.answers, h.nameservers.1, h.additional.1, List.append_nil, List.append_nil]
  refine ⟨?_, ?_, ?_, ?_, ?_, ?_, ?_⟩
  · rw [h.questions.1, h.questions.2]
    rfl
  · rw [h.answers, h.answersCount, UInt16.toNat_ofNat']
    exact Nat.mod_eq_of_lt (by omega)
  · rw [h.nameservers.1, h.nameservers.2]
    rfl
  · rw [h.additional.1, h.additional.2]
    rfl
  · rw [h.questions.1]
    intro q hq
    exact absurd hq List.not_mem_nil
  · rw [hrecords]
    intro r hmem
    exact (hr r hmem).wellFormed
  · rw [Packet.rdataLens, hrecords]
    exact rdataLens_le hr _

/-- Decoding gives the packet back when it has at most 65535 answers. -/
theorem bePacket_toBytes (h : p.AnswersOnly records) (hr : ∀ r ∈ records, r.IsAnswer)
    (hcount : records.length ≤ 65535) :
    bePacket (wholeSlice p.toBytes) = .ok ⟨p.toBytes.length, []⟩ p := by
  have hread := Ddns.bePacket_toBytes p (h.wellFormed hr hcount) []
  rw [List.append_nil] at hread
  exact hread

/-- A packet of at most 65535 bytes cannot hide a counter that wrapped around. -/
theorem length_le (h : p.AnswersOnly records) (hr : ∀ r ∈ records, r.IsAnswer)
    (hlen : p.toBytes.length ≤ 65535) : records.length ≤ 65535 := by
  have hlong := h.toBytes_length hr
  rw [minResourceRecordWireLen] at hlong
  omega

end Packet.AnswersOnly

theorem isAnswer_of_mem {hosts : List (Name × List EndpointAddr)}
    (h : ∀ host ∈ hosts, WellFormedName host.1 ∧ ∀ ep ∈ host.2, ep.Publishable)
    {r : ResourceRecord} (hr : r ∈ answerRecords hosts) : r.IsAnswer := by
  obtain ⟨host, hhost, hr⟩ := List.mem_flatMap.mp hr
  obtain ⟨ep, hep, rfl⟩ := List.mem_map.mp hr
  obtain ⟨hname, heps⟩ := h host hhost
  exact ⟨host.1, ep, rfl, hname, heps ep hep⟩

end Ddns
