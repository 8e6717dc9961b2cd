import Mathlib.Data.List.AList
import Ddns.Core.Packet
import Ddns.Library.Transition

/-! The packet router: queries wait for their responses under their ids. -/
namespace Ddns

open Transition

section Model

variable [DhttpHome]

def Packet.id (p : Packet) : UInt16 := p.header.id

/-- The bit is set in responses. -/
def Packet.isQuery (p : Packet) : Bool := p.header.flags &&& 0x8000 ≠ 0

abbrev QueryId := { id : UInt16 // id ≠ 0 }

/-- A packet with the address that it came from. -/
abbrev Received := SocketAddr × Packet

def maxDequeSize : ℕ := 64

/-- A bounded channel. It is connected while its receiver is alive. -/
structure Channel where
  waiting : List Received
  connected : Bool
  deriving DecidableEq

namespace Channel

def bounded : Channel := ⟨[], true⟩

def trySend (c : Channel) (item : Received) : Option Channel :=
  if c.connected ∧ c.waiting.length < maxDequeSize then
    some { c with waiting := c.waiting ++ [item] }
  else none

def tryRecv (c : Channel) : Option Received × Channel :=
  (c.waiting.head?, { c with waiting := c.waiting.tail })

end Channel

/-- The stream that is handed to a query. -/
structure Responses where
  queryId : QueryId
  recver : Channel
  deriving DecidableEq

/-- A sender is the number of the stream that it sends to; `streams` holds all that were ever
handed out. -/
structure PacketRouter where
  requests : Channel
  queries : AList fun _ : QueryId => ℕ
  streams : List Responses

namespace PacketRouter

def new : PacketRouter := ⟨.bounded, ∅, []⟩

/-- An older sender under the same id is replaced. -/
def registerQuery (router : PacketRouter) (queryId : QueryId) : PacketRouter :=
  { router with
    queries := router.queries.insert queryId router.streams.length
    streams := router.streams ++ [⟨queryId, .bounded⟩] }

/-- Responses that cannot be sent are dropped. -/
def deliverResponse (router : PacketRouter) (queryId : QueryId) (item : Received) : PacketRouter :=
  match router.queries.lookup queryId with
  | some stream =>
    { router with
      streams := router.streams.modify stream fun responses =>
        match responses.recver.trySend item with
        | some recver => { responses with recver := recver }
        | none => responses }
  | none => router

/-- A full queue of requests loses its oldest one. -/
def deliverRequest (router : PacketRouter) (item : Received) : PacketRouter :=
  match router.requests.trySend item with
  | some requests => { router with requests := requests }
  | none =>
    let requests := router.requests.tryRecv.2
    { router with requests := (requests.trySend item).getD requests }

def deliver (router : PacketRouter) (source : SocketAddr) (packet : Packet) : PacketRouter :=
  if packet.isQuery then
    if hid : packet.id ≠ 0 then router.deliverResponse ⟨packet.id, hid⟩ (source, packet) else router
  else router.deliverRequest (source, packet)

def receiveQuery (router : PacketRouter) : PacketRouter :=
  { router with requests := router.requests.tryRecv.2 }

/-- `poll_next` of a stream. -/
def pollNext (router : PacketRouter) (stream : ℕ) : PacketRouter :=
  { router with
    streams := router.streams.modify stream fun responses =>
      { responses with recver := responses.recver.tryRecv.2 } }

/-- Whatever is registered under the id of a dropped stream is removed. -/
def dropResponses (router : PacketRouter) (stream : ℕ) : PacketRouter :=
  match router.streams[stream]? with
  | some responses =>
    { router with
      queries := router.queries.erase responses.queryId
      streams := router.streams.modify stream fun responses =>
        { responses with recver := { responses.recver with connected := false } } }
  | none => router

/-- The stream was handed out and has not been dropped. -/
def Alive (router : PacketRouter) (stream : ℕ) (responses : Responses) : Prop :=
  router.streams[stream]? = some responses ∧ responses.recver.connected = true

/-- No stream that is alive waits under the id. -/
def Unused (router : PacketRouter) (queryId : QueryId) : Prop :=
  ∀ stream responses, router.Alive stream responses → responses.queryId ≠ queryId

/-- What may happen next, when queries may draw the ids that are `allowed`. -/
inductive Step (allowed : PacketRouter → QueryId → Prop) (router : PacketRouter) :
    PacketRouter → Prop
  | register {queryId : QueryId} (h : allowed router queryId) :
    Step allowed router (router.registerQuery queryId)
  | deliver (source : SocketAddr) (packet : Packet) :
    Step allowed router (router.deliver source packet)
  | receiveQuery : Step allowed router router.receiveQuery
  | poll {stream : ℕ} {responses : Responses} (h : router.Alive stream responses) :
    Step allowed router (router.pollNext stream)
  | drop {stream : ℕ} {responses : Responses} (h : router.Alive stream responses) :
    Step allowed router (router.dropResponses stream)

/-- Every response for a stream that is alive and has room is placed on it. -/
def Routed (router : PacketRouter) : Prop :=
  ∀ stream responses, router.Alive stream responses →
    responses.recver.waiting.length < maxDequeSize →
    ∀ source packet, packet.isQuery = true → packet.id = responses.queryId.val →
      (router.deliver source packet).streams[stream]? =
        some ⟨responses.queryId, ⟨responses.recver.waiting ++ [(source, packet)], true⟩⟩

/-- Every stream that is alive is the one that is registered under its id. -/
def Wired (router : PacketRouter) : Prop :=
  ∀ stream responses, router.Alive stream responses →
    router.queries.lookup responses.queryId = some stream

end PacketRouter

end Model

namespace PacketRouter

section Routing

variable [DhttpHome] {router : PacketRouter}

theorem trySend_eq_some {c sent : Channel} {item : Received} :
    c.trySend item = some sent ↔ (c.connected = true ∧ c.waiting.length < maxDequeSize) ∧
      sent = ⟨c.waiting ++ [item], c.connected⟩ := by
  rw [Channel.trySend, Option.ite_none_right_eq_some, Option.some_inj, @eq_comm _ sent]

/-- A change that keeps the id and connects nothing shows what was alive before. -/
theorem alive_of_modify {changed stream : ℕ} {f : Responses → Responses} {responses : Responses}
    (hf : ∀ before, (f before).queryId = before.queryId ∧
      ((f before).recver.connected = true → before.recver.connected = true))
    (h : (router.streams.modify changed f)[stream]? = some responses)
    (hconnected : responses.recver.connected = true) :
    ∃ before, router.Alive stream before ∧ before.queryId = responses.queryId := by
  rw [List.getElem?_modify] at h
  obtain ⟨before, hbefore, hsame⟩ := Option.map_eq_some_iff.mp h
  by_cases hchanged : changed = stream
  · rw [if_pos hchanged] at hsame
    subst hsame
    exact ⟨before, ⟨hbefore, (hf before).2 hconnected⟩, (hf before).1.symm⟩
  · rw [if_neg hchanged] at hsame
    subst hsame
    exact ⟨before, ⟨hbefore, hconnected⟩, rfl⟩

/-- The same senders serve the same streams. -/
theorem Wired.of_alive {next : PacketRouter} (h : router.Wired)
    (hqueries : next.queries = router.queries)
    (halive : ∀ stream responses, next.Alive stream responses →
      ∃ before, router.Alive stream before ∧ before.queryId = responses.queryId) :
    next.Wired := by
  intro stream responses hnext
  obtain ⟨before, hbefore, hid⟩ := halive stream responses hnext
  rw [hqueries, ← hid]
  exact h stream before hbefore

theorem Wired.registerQuery (h : router.Wired) {queryId : QueryId} (hfree : router.Unused queryId) :
    (router.registerQuery queryId).Wired := by
  rintro stream responses ⟨hstream, hconnected⟩
  dsimp only [PacketRouter.registerQuery] at hstream ⊢
  by_cases hold : stream < router.streams.length
  · rw [List.getElem?_append_left hold] at hstream
    have halive : router.Alive stream responses := ⟨hstream, hconnected⟩
    rw [AList.lookup_insert_ne (hfree stream responses halive)]
    exact h stream responses halive
  · obtain ⟨hlast, _⟩ := List.getElem?_eq_some_iff.mp hstream
    obtain rfl : stream = router.streams.length := by
      rw [List.length_append, List.length_singleton] at hlast
      omega
    rw [List.getElem?_concat_length] at hstream
    obtain rfl := Option.some_inj.mp hstream
    exact AList.lookup_insert _

theorem Wired.deliver (h : router.Wired) (source : SocketAddr) (packet : Packet) :
    (router.deliver source packet).Wired := by
  unfold PacketRouter.deliver
  split
  · split
    · unfold deliverResponse
      split
      · refine h.of_alive rfl ?_
        rintro stream responses ⟨hstream, hconnected⟩
        refine alive_of_modify ?_ hstream hconnected
        intro before
        cases hsent : before.recver.trySend (source, packet) with
        | none => exact ⟨rfl, id⟩
        | some sent =>
          obtain ⟨⟨hconnected, _⟩, _⟩ := trySend_eq_some.mp hsent
          exact ⟨rfl, fun _ => hconnected⟩
      · exact h
    · exact h
  · unfold deliverRequest
    split
    · exact h
    · exact h

theorem Wired.pollNext (h : router.Wired) (stream : ℕ) : (router.pollNext stream).Wired := by
  refine h.of_alive rfl ?_
  rintro other responses ⟨hother, hconnected⟩
  refine alive_of_modify ?_ hother hconnected
  exact fun before => ⟨rfl, id⟩

/-- Only the dropped stream was registered under its id. -/
theorem Wired.dropResponses (h : router.Wired) {stream : ℕ} {responses : Responses}
    (hdropped : router.Alive stream responses) : (router.dropResponses stream).Wired := by
  rintro other waiting ⟨hother, hconnected⟩
  rw [PacketRouter.dropResponses, hdropped.1] at hother ⊢
  dsimp only at hother ⊢
  by_cases hsame : stream = other
  · rw [hsame, List.getElem?_modify_eq] at hother
    obtain ⟨before, _, rfl⟩ := Option.map_eq_some_iff.mp hother
    cases hconnected
  · rw [List.getElem?_modify_ne _ _ hsame] at hother
    have hwired := h other waiting ⟨hother, hconnected⟩
    have hid : waiting.queryId ≠ responses.queryId := by
      intro hid
      rw [hid, h stream responses hdropped] at hwired
      exact hsame (Option.some_inj.mp hwired)
    rw [AList.lookup_erase_ne hid]
    exact hwired

theorem wired_step {next : PacketRouter} (hstep : Step Unused router next) (h : router.Wired) :
    next.Wired := by
  cases hstep with
  | register hfree => exact h.registerQuery hfree
  | deliver source packet => exact h.deliver source packet
  | receiveQuery => exact h
  | poll => exact h.pollNext _
  | drop halive => exact h.dropResponses halive

theorem Wired.routed (h : router.Wired) : router.Routed := by
  intro stream responses halive hroom source packet hresponse hid
  have hlookup := h stream responses halive
  have hsend : responses.recver.trySend (source, packet) =
      some ⟨responses.recver.waiting ++ [(source, packet)], true⟩ := by
    rw [trySend_eq_some, halive.2]
    exact ⟨⟨rfl, hroom⟩, rfl⟩
  have hnonzero : packet.id ≠ 0 := hid ▸ responses.queryId.property
  have hquery : (⟨packet.id, hnonzero⟩ : QueryId) = responses.queryId := Subtype.ext hid
  rw [PacketRouter.deliver, if_pos hresponse, dif_pos hnonzero, hquery, deliverResponse, hlookup]
  dsimp only
  rw [List.getElem?_modify_eq, halive.1, Option.map_eq_map, Option.map_some, hsend]

/-- A response with the id. -/
def responseWithId (queryId : QueryId) : Packet :=
  { Packet.default with header := { Header.default with id := queryId.val, flags := 0x8000 } }

/-- A stream that is alive loses its responses to the query that takes its id. -/
theorem not_routed_registerQuery {stream : ℕ} {responses : Responses}
    (halive : router.Alive stream responses)
    (hroom : responses.recver.waiting.length < maxDequeSize) :
    ¬ (router.registerQuery responses.queryId).Routed := by
  intro hrouted
  obtain ⟨hlt, _⟩ := List.getElem?_eq_some_iff.mp halive.1
  have hstream : (router.registerQuery responses.queryId).streams[stream]? = some responses := by
    rw [registerQuery, List.getElem?_append_left hlt]
    exact halive.1
  have hresponse : (responseWithId responses.queryId).isQuery = true :=
    decide_eq_true (show (0x8000 : UInt16) &&& 0x8000 ≠ 0 by decide)
  have hplaced := hrouted stream responses ⟨hstream, halive.2⟩ hroom (.v4 ⟨0, 0⟩)
    (responseWithId responses.queryId) hresponse rfl
  -- the response goes to the new stream
  have hlookup : (router.registerQuery responses.queryId).queries.lookup responses.queryId =
      some router.streams.length := AList.lookup_insert _
  have hother : router.streams.length ≠ stream := Nat.ne_of_gt hlt
  have hnonzero : (responseWithId responses.queryId).id ≠ 0 := responses.queryId.property
  rw [deliver, if_pos hresponse, dif_pos hnonzero, deliverResponse] at hplaced
  have hquery : (⟨(responseWithId responses.queryId).id, hnonzero⟩ : QueryId) =
      responses.queryId := rfl
  rw [hquery, hlookup] at hplaced
  dsimp only at hplaced
  rw [List.getElem?_modify_ne _ _ hother, hstream] at hplaced
  have hwaiting := congrArg (fun r : Option Responses => r.map fun r => r.recver.waiting.length)
    hplaced
  simp at hwaiting

/-- While no query takes the id of a stream that is alive, every response is placed on the stream
that waits for it; a query that does takes the responses of a stream with room. -/
theorem responses_routed :
    (∀ n router, Run (Step Unused) n new router → router.Routed) ∧
      ∀ (router : PacketRouter) stream responses, router.Alive stream responses →
        responses.recver.waiting.length < maxDequeSize →
        ¬ (router.registerQuery responses.queryId).Routed := by
  constructor
  · intro n router hrun
    have hwired : router.Wired := by
      refine hrun.invariant (fun _ _ => wired_step) ?_
      rintro stream responses ⟨hstream, _⟩
      cases hstream
    exact hwired.routed
  · intro router stream responses halive hroom
    exact not_routed_registerQuery halive hroom

end Routing

section Sample

attribute [local instance] plainHome

/-- Two queries with ids of their own; the second still gets its responses when the first is
gone. -/
theorem responses_routed_two :
    (((new.registerQuery ⟨5, by decide⟩).registerQuery ⟨6, by decide⟩).dropResponses 0).Routed := by
  refine responses_routed.1 3 _ (((Run.refl _).tail (.register ?_)).tail (.register ?_) |>.tail
    (.drop ⟨rfl, rfl⟩))
  · rintro stream responses ⟨hstream, _⟩
    cases hstream
  · rintro stream responses ⟨hstream, _⟩ hid
    obtain ⟨hlt, rfl⟩ := List.getElem?_eq_some_iff.mp hstream
    obtain rfl : stream = 0 := Nat.lt_one_iff.mp hlt
    have hval : (5 : UInt16) = 6 := congrArg Subtype.val hid
    exact absurd hval (by decide)

/-- Two queries draw the same id, the first one ends, and the second one waits for nothing. -/
theorem same_id_unrouted :
    Run (Step fun _ _ => True) 3 new
        (((new.registerQuery ⟨5, by decide⟩).registerQuery ⟨5, by decide⟩).dropResponses 0) ∧
      Alive (((new.registerQuery ⟨5, by decide⟩).registerQuery ⟨5, by decide⟩).dropResponses 0)
        1 ⟨⟨5, by decide⟩, .bounded⟩ ∧
      (deliver (((new.registerQuery ⟨5, by decide⟩).registerQuery ⟨5, by decide⟩).dropResponses 0)
        (.v4 ⟨0x0A000001, 5353⟩) (Packet.answer 5 [])).streams[1]? =
          some ⟨⟨5, by decide⟩, .bounded⟩ ∧
      ¬ (((new.registerQuery ⟨5, by decide⟩).registerQuery
        ⟨5, by decide⟩).dropResponses 0).Routed := by
  have hlost : (deliver (((new.registerQuery ⟨5, by decide⟩).registerQuery
      ⟨5, by decide⟩).dropResponses 0) (.v4 ⟨0x0A000001, 5353⟩) (Packet.answer 5 [])).streams[1]? =
      some ⟨⟨5, by decide⟩, .bounded⟩ := rfl
  refine ⟨?_, ⟨rfl, rfl⟩, hlost, ?_⟩
  · exact (((Run.refl _).tail (.register trivial)).tail (.register trivial)).tail (.drop ⟨rfl, rfl⟩)
  · intro hrouted
    have hplaced := hrouted 1 _ ⟨rfl, rfl⟩ (by decide) (.v4 ⟨0x0A000001, 5353⟩)
      (Packet.answer 5 []) (by decide) rfl
    rw [hlost] at hplaced
    exact absurd hplaced (by decide)

end Sample

end PacketRouter

end Ddns
