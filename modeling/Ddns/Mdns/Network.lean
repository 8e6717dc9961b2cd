import Mathlib.Logic.Function.Basic
import Ddns.Mdns.Protocol

/-! Nodes on one link. The link may lose, delay, repeat and reorder what is sent. -/
namespace Ddns

open Nom Relation

section Routing

theorem map_modify_of_eq {α β : Type} {f : α → β} {g : α → α} (h : ∀ x, f (g x) = f x)
    (items : List α) (index : ℕ) : (items.modify index g).map f = items.map f := by
  apply List.ext_getElem?
  intro i
  rw [List.getElem?_map, List.getElem?_modify, List.getElem?_map]
  by_cases hi : index = i
  · cases items[i]? with
    | none => rfl
    | some x => simp [hi, h]
  · cases items[i]? with
    | none => rfl
    | some x => simp [hi]

variable [DhttpHome] {router : PacketRouter}

/-- The ids of all streams that were handed out. -/
def PacketRouter.streamIds (router : PacketRouter) : List QueryId :=
  router.streams.map Responses.queryId

/-- A sender leads to a stream of its id, and what waits on a stream has the property. -/
structure PacketRouter.Filed (P : QueryId → Received → Prop) (router : PacketRouter) : Prop where
  addressed : ∀ id stream, router.queries.lookup id = some stream →
    router.streamIds[stream]? = some id
  items : ∀ responses ∈ router.streams, ∀ item ∈ responses.recver.waiting,
    P responses.queryId item

namespace PacketRouter

theorem streamIds_registerQuery (queryId : QueryId) :
    (router.registerQuery queryId).streamIds = router.streamIds ++ [queryId] :=
  List.map_append

theorem streamIds_deliver (source : SocketAddr) (packet : Packet) :
    (router.deliver source packet).streamIds = router.streamIds := by
  unfold deliver
  split
  · split
    · unfold deliverResponse
      split
      · apply map_modify_of_eq
        intro responses
        split <;> rfl
      · rfl
    · rfl
  · unfold deliverRequest
    split <;> rfl

theorem streamIds_pollNext (stream : ℕ) : (router.pollNext stream).streamIds = router.streamIds := by
  apply map_modify_of_eq
  intro responses
  rfl

theorem streamIds_dropResponses (stream : ℕ) :
    (router.dropResponses stream).streamIds = router.streamIds := by
  unfold dropResponses
  split
  · apply map_modify_of_eq
    intro responses
    rfl
  · rfl

/-- What waits for the responder was there before or is the packet. -/
theorem mem_requests_deliver {source : SocketAddr} {packet : Packet} {item : Received}
    (h : item ∈ (router.deliver source packet).requests.waiting) :
    item ∈ router.requests.waiting ∨ item = (source, packet) ∧ packet.isQuery = false := by
  unfold deliver at h
  split at h
  · split at h
    · unfold deliverResponse at h
      split at h <;> exact Or.inl h
    · exact Or.inl h
  · rename_i hquery
    have hquery : packet.isQuery = false := Bool.eq_false_of_not_eq_true hquery
    unfold deliverRequest at h
    split at h
    · rename_i sent hsent
      obtain ⟨_, rfl⟩ := trySend_eq_some.mp hsent
      rcases List.mem_append.mp h with h | h
      · exact Or.inl h
      · exact Or.inr ⟨List.mem_singleton.mp h, hquery⟩
    · dsimp only at h
      cases hsent : router.requests.tryRecv.2.trySend (source, packet) with
      | none =>
        rw [hsent] at h
        exact Or.inl (List.mem_of_mem_tail h)
      | some sent =>
        rw [hsent] at h
        obtain ⟨_, rfl⟩ := trySend_eq_some.mp hsent
        rcases List.mem_append.mp h with h | h
        · exact Or.inl (List.mem_of_mem_tail h)
        · exact Or.inr ⟨List.mem_singleton.mp h, hquery⟩

/-- A change of one stream that keeps its id, and that adds to it only what has the property. -/
theorem Filed.modify {P : QueryId → Received → Prop} {next : PacketRouter} (h : router.Filed P)
    (hqueries : ∀ id stream, next.queries.lookup id = some stream →
      router.queries.lookup id = some stream)
    {changed : ℕ} {f : Responses → Responses} (hstreams : next.streams = router.streams.modify changed f)
    (hid : ∀ responses, (f responses).queryId = responses.queryId)
    (hitems : ∀ responses, router.streams[changed]? = some responses →
      ∀ item ∈ (f responses).recver.waiting,
        item ∈ responses.recver.waiting ∨ P responses.queryId item) : next.Filed P := by
  refine ⟨?_, ?_⟩
  · intro id stream hlookup
    rw [streamIds, hstreams, map_modify_of_eq hid]
    exact h.addressed id stream (hqueries id stream hlookup)
  · intro responses hmem item hitem
    obtain ⟨index, hindex⟩ := List.mem_iff_getElem?.mp hmem
    rw [hstreams, List.getElem?_modify] at hindex
    obtain ⟨before, hbefore, hsame⟩ := Option.map_eq_some_iff.mp hindex
    by_cases hchanged : changed = index
    · rw [if_pos hchanged] at hsame
      subst hsame hchanged
      rw [hid]
      rcases hitems before hbefore item hitem with hold | hnew
      · exact h.items before (List.mem_of_getElem? hbefore) item hold
      · exact hnew
    · rw [if_neg hchanged] at hsame
      subst hsame
      exact h.items before (List.mem_of_getElem? hbefore) item hitem

theorem Filed.mono {P Q : QueryId → Received → Prop} (h : router.Filed P)
    (hPQ : ∀ id item, P id item → Q id item) : router.Filed Q :=
  ⟨h.addressed, fun responses hmem item hitem => hPQ _ _ (h.items responses hmem item hitem)⟩

theorem Filed.registerQuery {P : QueryId → Received → Prop} (h : router.Filed P)
    (queryId : QueryId) : (router.registerQuery queryId).Filed P := by
  refine ⟨?_, ?_⟩
  · intro id stream hlookup
    rw [streamIds_registerQuery]
    by_cases hid : id = queryId
    · subst hid
      rw [PacketRouter.registerQuery, AList.lookup_insert] at hlookup
      rw [← Option.some_inj.mp hlookup, List.getElem?_append_right (by simp [streamIds])]
      simp [streamIds]
    · rw [PacketRouter.registerQuery, AList.lookup_insert_ne hid] at hlookup
      have hold := h.addressed id stream hlookup
      obtain ⟨hlt, _⟩ := List.getElem?_eq_some_iff.mp hold
      rw [List.getElem?_append_left hlt]
      exact hold
  · intro responses hmem item hitem
    rcases List.mem_append.mp hmem with hmem | hmem
    · exact h.items responses hmem item hitem
    · rw [List.mem_singleton.mp hmem] at hitem
      exact absurd hitem List.not_mem_nil

theorem Filed.pollNext {P : QueryId → Received → Prop} (h : router.Filed P) (stream : ℕ) :
    (router.pollNext stream).Filed P :=
  h.modify (fun _ _ hlookup => hlookup) rfl (fun _ => rfl)
    fun _ _ _ hitem => Or.inl (List.mem_of_mem_tail hitem)

theorem Filed.dropResponses {P : QueryId → Received → Prop} (h : router.Filed P) (stream : ℕ) :
    (router.dropResponses stream).Filed P := by
  unfold PacketRouter.dropResponses
  split
  · rename_i dropped _
    refine h.modify ?_ rfl (fun _ => rfl) fun _ _ _ hitem => Or.inl hitem
    intro id stream hlookup
    by_cases hid : id = dropped.queryId
    · subst hid
      rw [AList.lookup_erase] at hlookup
      cases hlookup
    · rw [AList.lookup_erase_ne hid] at hlookup
      exact hlookup
  · exact h

/-- A response lands only on a stream of its id. -/
theorem Filed.deliver {P : QueryId → Received → Prop} (h : router.Filed P) {source : SocketAddr}
    {packet : Packet}
    (hP : packet.isQuery = true → ∀ id : QueryId, packet.id = id.val → P id (source, packet)) :
    (router.deliver source packet).Filed P := by
  unfold PacketRouter.deliver
  split
  · rename_i hquery
    split
    · rename_i hid
      unfold deliverResponse
      split
      · rename_i stream hlookup
        refine h.modify (fun _ _ hlookup => hlookup) rfl ?_ ?_
        · intro responses
          split <;> rfl
        · intro responses hresponses item hitem
          cases hsent : responses.recver.trySend (source, packet) with
          | none =>
            rw [hsent] at hitem
            exact Or.inl hitem
          | some sent =>
            rw [hsent] at hitem
            obtain ⟨_, rfl⟩ := trySend_eq_some.mp hsent
            rcases List.mem_append.mp hitem with hitem | hitem
            · exact Or.inl hitem
            · rw [List.mem_singleton.mp hitem]
              have hstream := h.addressed _ _ hlookup
              rw [streamIds, List.getElem?_map, hresponses, Option.map_some,
                Option.some_inj] at hstream
              exact Or.inr (hP hquery _ (by rw [hstream]))
      · exact h
    · exact h
  · unfold deliverRequest
    split
    · exact ⟨h.addressed, h.items⟩
    · exact ⟨h.addressed, h.items⟩

end PacketRouter

end Routing

/-- What is sent to all nodes. -/
structure Datagram where
  source : SocketAddr
  bytes : List UInt8

section Model

variable [DhttpHome] [SubjectKey] [Crypto]

/-- Only names of the overlay are published, with endpoints that a record can hold. The program does
not ask for the second: a record drops the flow information and the scope of an address. -/
def MdnsCall.Proper : MdnsCall → Prop
  | .publish _ name endpoints => DhttpName name ∧ ∀ endpoint ∈ endpoints, endpoint.Plain
  | .remove _ => True

/-- What a node may do next, with what was ever sent on the link, and what it sends. The calls that
are made on its table are any of `calls`. -/
inductive MdnsNode.Step (calls : MdnsCall → Prop) (wire : List Datagram) (node : MdnsNode) :
    MdnsNode → List Datagram → Prop
  | call (c : MdnsCall) (hc : calls c) :
    Step calls wire node { node with resolver := node.resolver.call c } []
  | startQuery (domain : Name) (id : UInt16) {next : MdnsNode}
    (h : node.startQuery domain id = .ok next) : Step calls wire node next []
  | broadcast {index : ℕ} {query : MdnsQuery} {round unsent : ℕ}
    (hquery : node.queries[index]? = some query)
    (hstate : query.state = .running round (unsent + 1)) :
    Step calls wire node (node.setQuery index (.running round unsent))
      [⟨node.addr, query.packet.toBytes⟩]
  | response {index : ℕ} {query : MdnsQuery} {round unsent : ℕ} {responses : Responses}
    {item : Received} (hquery : node.queries[index]? = some query)
    (hstate : query.state = .running round unsent)
    (hstream : node.router.streams[query.stream]? = some responses)
    (hitem : responses.recver.tryRecv.1 = some item) :
    Step calls wire node (node.takeResponse index query round unsent item) []
  | expire {index : ℕ} {query : MdnsQuery} {round unsent : ℕ}
    (hquery : node.queries[index]? = some query)
    (hstate : query.state = .running round unsent) :
    Step calls wire node (node.nextRound index query round unsent) []
  | dropQuery {index : ℕ} {query : MdnsQuery} {round unsent : ℕ}
    (hquery : node.queries[index]? = some query)
    (hstate : query.state = .running round unsent) :
    Step calls wire node (node.endQuery index query .dropped) []
  | deliver {datagram : Datagram} {packet : Packet} (hrouting : node.routing = true)
    (hwire : datagram ∈ wire) (hreceive : receive datagram.bytes = some packet) :
    Step calls wire node { node with router := node.router.deliver datagram.source packet } []
  | takeQuery {item : Received} (hwaiting : node.responder = .waiting)
    (hitem : node.router.requests.tryRecv.1 = some item) :
    Step calls wire node
      { node with router := node.router.receiveQuery, responder := .handling item.2 } []
  | handleQuery {query : Packet} {entries : List (Name × List EndpointAddr)}
    (hhandling : node.responder = .handling query)
    (horder : entries.Perm (hostEntries node.resolver.hosts)) :
    Step calls wire node (node.handleQuery entries query) []
  | sendAnswer {answer : Packet} (hsending : node.responder = .sending answer) :
    Step calls wire node node.awaitQuery [⟨node.addr, answer.toBytes⟩]
  | routeEnds : Step calls wire node { node with routing := false } []
  | shutdown : Step calls wire node node.shutdown []

structure MdnsNetwork where
  nodes : ℕ → MdnsNode
  wire : List Datagram

namespace MdnsNetwork

/-- Every node has just been bound and nothing has been sent. -/
def Initial (s : MdnsNetwork) : Prop :=
  s.wire = [] ∧ ∀ n, ∃ addr serviceName, ∃ valid : validServiceName serviceName = true,
    s.nodes n = .new addr serviceName valid

/-- One node acts. -/
inductive Step (calls : MdnsCall → Prop) (s : MdnsNetwork) : MdnsNetwork → Prop
  | act (n : ℕ) {next : MdnsNode} {sent : List Datagram}
    (h : (s.nodes n).Step calls s.wire next sent) :
    Step calls s ⟨Function.update s.nodes n next, s.wire ++ sent⟩

end MdnsNetwork

end Model

end Ddns
