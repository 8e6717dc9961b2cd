import Ddns.Mdns.Network

/-! Whatever the link does, what a node knows of other nodes was sent by them. -/
namespace Ddns

open Nom Relation

theorem mem_modify {α : Type} {items : List α} {index : ℕ} {f : α → α} {x : α}
    (h : x ∈ items.modify index f) : x ∈ items ∨ ∃ y, items[index]? = some y ∧ x = f y := by
  obtain ⟨i, hi⟩ := List.mem_iff_getElem?.mp h
  rw [List.getElem?_modify] at hi
  obtain ⟨y, hy, rfl⟩ := Option.map_eq_some_iff.mp hi
  by_cases hindex : index = i
  · rw [if_pos hindex]
    exact Or.inr ⟨y, hindex ▸ hy, rfl⟩
  · rw [if_neg hindex]
    exact Or.inl (List.mem_of_getElem? hy)

section Nodes

variable [DhttpHome] {wire wire' : List Datagram} {source : SocketAddr} {packet : Packet}
  {node next : MdnsNode} {index : ℕ} {query : MdnsQuery} {state : QueryState}

/-- A datagram with this source is received as the packet. -/
def Heard (wire : List Datagram) (source : SocketAddr) (packet : Packet) : Prop :=
  ∃ datagram ∈ wire, datagram.source = source ∧ receive datagram.bytes = some packet

theorem Heard.mono (h : Heard wire source packet) (hsub : wire ⊆ wire') :
    Heard wire' source packet := by
  obtain ⟨datagram, hmem, hsource, hreceive⟩ := h
  exact ⟨datagram, hsub hmem, hsource, hreceive⟩

/-- A response with the id was heard. -/
def HeardResponse (wire : List Datagram) (id : QueryId) (item : Received) : Prop :=
  Heard wire item.1 item.2 ∧ item.2.isQuery = true ∧ item.2.id = id.val

/-- A result comes from a response to the query. -/
def Backed (wire : List Datagram) (query : MdnsQuery) (state : QueryState) : Prop :=
  ∀ source result, state = .returned source result →
    ∃ packet, HeardResponse wire query.id (source, packet) ∧
      queryEndpoints query.localName packet ≠ [] ∧
      result = arrangeEndpoints source (queryEndpoints query.localName packet)

theorem Backed.mono (h : Backed wire query state) (hsub : wire ⊆ wire') :
    Backed wire' query state := by
  intro source result hstate
  obtain ⟨packet, ⟨hheard, hresponse⟩, hrest⟩ := h source result hstate
  exact ⟨packet, ⟨hheard.mono hsub, hresponse⟩, hrest⟩

/-- The table can be sent. -/
def MdnsResolver.Sendable (resolver : MdnsResolver) : Prop :=
  ∀ entry ∈ resolver.hosts.entries,
    WellFormedName entry.1 ∧ ∀ record ∈ entry.2, record.Publishable

/-- Everything in a node that came from the link was heard. -/
structure MdnsNode.Sound (wire : List Datagram) (node : MdnsNode) : Prop where
  table : node.resolver.Sendable
  requests : ∀ item ∈ node.router.requests.waiting,
    Heard wire item.1 item.2 ∧ item.2.isQuery = false
  handling : ∀ query, node.responder = .handling query →
    ∃ source, Heard wire source query ∧ query.isQuery = false
  streams : node.router.Filed (HeardResponse wire)
  queries : ∀ query ∈ node.queries, node.router.streamIds[query.stream]? = some query.id
  results : ∀ query ∈ node.queries, Backed wire query query.state

namespace MdnsNode.Sound

theorem mono (h : node.Sound wire) (hsub : wire ⊆ wire') : node.Sound wire' where
  table := h.table
  requests := by
    intro item hitem
    obtain ⟨hheard, hquery⟩ := h.requests item hitem
    exact ⟨hheard.mono hsub, hquery⟩
  handling := by
    intro query hquery
    obtain ⟨source, hheard, hrequest⟩ := h.handling query hquery
    exact ⟨source, hheard.mono hsub, hrequest⟩
  streams := h.streams.mono fun _ _ ⟨hheard, hresponse⟩ => ⟨hheard.mono hsub, hresponse⟩
  queries := h.queries
  results := fun query hquery => (h.results query hquery).mono hsub

theorem setQuery (h : node.Sound wire) (hquery : node.queries[index]? = some query)
    (hstate : Backed wire query state) : (node.setQuery index state).Sound wire where
  table := h.table
  requests := h.requests
  handling := h.handling
  streams := h.streams
  queries := by
    intro query' hquery'
    rcases mem_modify hquery' with hold | ⟨y, hy, rfl⟩
    · exact h.queries query' hold
    · exact h.queries y (List.mem_of_getElem? hy)
  results := by
    intro query' hquery'
    rcases mem_modify hquery' with hold | ⟨y, hy, rfl⟩
    · exact h.results query' hold
    · obtain rfl := Option.some.inj (hy.symm.trans hquery)
      exact hstate

theorem setRouter {router : PacketRouter} (h : node.Sound wire)
    (hrequests : ∀ item ∈ router.requests.waiting, Heard wire item.1 item.2 ∧ item.2.isQuery = false)
    (hstreams : router.Filed (HeardResponse wire)) (hids : router.streamIds = node.router.streamIds) :
    { node with router := router }.Sound wire where
  table := h.table
  requests := hrequests
  handling := h.handling
  streams := hstreams
  queries := by
    intro query hquery
    rw [hids]
    exact h.queries query hquery
  results := h.results

theorem endQuery (h : node.Sound wire) (hquery : node.queries[index]? = some query)
    (hstate : Backed wire query state) : (node.endQuery index query state).Sound wire := by
  refine MdnsNode.Sound.setQuery (h.setRouter ?_ ?_ ?_) hquery hstate
  · intro item hitem
    refine h.requests item ?_
    unfold PacketRouter.dropResponses at hitem
    split at hitem <;> exact hitem
  · exact h.streams.dropResponses _
  · exact PacketRouter.streamIds_dropResponses _

theorem nextRound {round unsent : ℕ} (h : node.Sound wire)
    (hquery : node.queries[index]? = some query) :
    (node.nextRound index query round unsent).Sound wire := by
  unfold MdnsNode.nextRound
  split
  · exact h.setQuery hquery fun _ _ hstate => by cases hstate
  · exact h.endQuery hquery fun _ _ hstate => by cases hstate

theorem pollNext (h : node.Sound wire) (stream : ℕ) :
    { node with router := node.router.pollNext stream }.Sound wire :=
  h.setRouter h.requests (h.streams.pollNext stream) (PacketRouter.streamIds_pollNext stream)

theorem takeResponse {round unsent : ℕ} {responses : Responses} {item : Received}
    (h : node.Sound wire) (hquery : node.queries[index]? = some query)
    (hstream : node.router.streams[query.stream]? = some responses)
    (hitem : responses.recver.tryRecv.1 = some item) :
    (node.takeResponse index query round unsent item).Sound wire := by
  unfold MdnsNode.takeResponse
  dsimp only
  split
  · exact (h.pollNext query.stream).nextRound hquery
  · rename_i hne
    refine (h.pollNext query.stream).endQuery hquery ?_
    intro source result hstate
    cases hstate
    have hid := h.queries query (List.mem_of_getElem? hquery)
    rw [PacketRouter.streamIds, List.getElem?_map, hstream, Option.map_some, Option.some_inj] at hid
    have hheard := h.streams.items responses (List.mem_of_getElem? hstream) item
      (List.mem_of_mem_head? hitem)
    rw [hid] at hheard
    exact ⟨item.2, hheard, hne, rfl⟩

theorem setResponder {responder : Responder} (h : node.Sound wire)
    (hresponder : ∀ query, responder = .handling query →
      ∃ source, Heard wire source query ∧ query.isQuery = false) :
    { node with responder := responder }.Sound wire where
  table := h.table
  requests := h.requests
  handling := hresponder
  streams := h.streams
  queries := h.queries
  results := h.results

theorem awaitQuery (h : node.Sound wire) : node.awaitQuery.Sound wire := by
  refine h.setResponder ?_
  intro query hquery
  split at hquery <;> cases hquery

theorem handleQuery (h : node.Sound wire) (entries : List (Name × List EndpointAddr))
    (query : Packet) : (node.handleQuery entries query).Sound wire := by
  unfold MdnsNode.handleQuery
  split
  · exact h.setResponder fun _ hquery => by cases hquery
  · exact h.awaitQuery

theorem startQuery {domain : Name} {id : UInt16} (h : node.Sound wire)
    (hnext : node.startQuery domain id = .ok next) : next.Sound wire := by
  obtain ⟨queryId, _, rfl⟩ := MdnsNode.startQuery_eq_ok hnext
  refine ⟨h.table, h.requests, h.handling, h.streams.registerQuery _, ?_, ?_⟩
  · intro query hquery
    rw [PacketRouter.streamIds_registerQuery]
    rcases List.mem_append.mp hquery with hold | hnew
    · have hid := h.queries query hold
      obtain ⟨hlt, _⟩ := List.getElem?_eq_some_iff.mp hid
      rw [List.getElem?_append_left hlt]
      exact hid
    · rw [List.mem_singleton.mp hnew, List.getElem?_append_right (by simp [PacketRouter.streamIds])]
      simp [PacketRouter.streamIds]
  · intro query hquery
    rcases List.mem_append.mp hquery with hold | hnew
    · exact h.results query hold
    · rw [List.mem_singleton.mp hnew]
      exact fun _ _ hstate => by cases hstate

end MdnsNode.Sound

/-- A query keeps its id and its name for ever. -/
def MdnsNode.Keeps (node next : MdnsNode) : Prop :=
  node.addr = next.addr ∧ ∀ (index : ℕ) (query : MdnsQuery), node.queries[index]? = some query →
    ∃ query' : MdnsQuery, next.queries[index]? = some query' ∧ query'.id = query.id ∧
      query'.localName = query.localName

theorem keeps_setQuery (node : MdnsNode) (index : ℕ) (state : QueryState) :
    node.Keeps (node.setQuery index state) := by
  refine ⟨rfl, ?_⟩
  intro i query hquery
  rw [MdnsNode.setQuery, List.getElem?_modify, hquery]
  by_cases hi : index = i
  · exact ⟨_, rfl, by simp [hi], by simp [hi]⟩
  · exact ⟨_, rfl, by simp [hi], by simp [hi]⟩

theorem keeps_nextRound (node : MdnsNode) (index : ℕ) (query : MdnsQuery) (round unsent : ℕ) :
    node.Keeps (node.nextRound index query round unsent) := by
  unfold MdnsNode.nextRound
  split
  · exact keeps_setQuery _ _ _
  · exact keeps_setQuery _ _ _

theorem keeps_refl (node : MdnsNode) : node.Keeps node :=
  ⟨rfl, fun _ query hquery => ⟨query, hquery, rfl, rfl⟩⟩

end Nodes

section Steps

variable [DhttpHome] [SubjectKey] [Crypto] {calls : MdnsCall → Prop} {wire sent : List Datagram}
  {node next : MdnsNode}

theorem MdnsResolver.Sendable.call {resolver : MdnsResolver} (h : resolver.Sendable) {c : MdnsCall}
    (hc : c.Proper) : (resolver.call c).Sendable := by
  have hremove : ∀ name, (resolver.removeName name).Sendable :=
    fun name entry hentry => h entry ((List.kerase_sublist _ _).subset hentry)
  cases c with
  | remove name => exact hremove name
  | publish identity name endpoints =>
    obtain ⟨hname, hplain⟩ := hc
    simp only [MdnsResolver.call, MdnsResolver.publishEndpoints]
    cases hrecords : MdnsResolver.publishRecords identity name endpoints with
    | error e => exact h
    | ok records =>
      dsimp only
      split
      · exact hremove name
      · intro entry hentry
        have hentry' : entry ∈ (resolver.hosts.insert (localName resolver.serviceName name)
          records).entries := hentry
        rw [AList.entries_insert] at hentry'
        rcases List.mem_cons.mp hentry' with rfl | hold
        · exact ⟨hname.localName_wellFormed resolver.valid,
            publishRecords_publishable hrecords hplain⟩
        · exact h entry ((List.kerase_sublist _ _).subset hold)

theorem MdnsNode.Sound.step (hproper : ∀ c, calls c → c.Proper) (hs : node.Sound wire)
    (h : node.Step calls wire next sent) : next.Sound wire := by
  cases h with
  | call c hc =>
    exact ⟨hs.table.call (hproper c hc), hs.requests, hs.handling, hs.streams, hs.queries, hs.results⟩
  | startQuery domain id hnext => exact hs.startQuery hnext
  | broadcast hquery hstate => exact hs.setQuery hquery fun _ _ hstate => by cases hstate
  | response hquery hstate hstream hitem => exact hs.takeResponse hquery hstream hitem
  | expire hquery hstate => exact hs.nextRound hquery
  | dropQuery hquery hstate => exact hs.endQuery hquery fun _ _ hstate => by cases hstate
  | @deliver datagram packet hrouting hwire hreceive =>
    have hheard : Heard wire datagram.source packet := ⟨datagram, hwire, rfl, hreceive⟩
    refine hs.setRouter ?_ ?_ (PacketRouter.streamIds_deliver _ _)
    · intro item hitem
      rcases PacketRouter.mem_requests_deliver hitem with hold | ⟨rfl, hquery⟩
      · exact hs.requests item hold
      · exact ⟨hheard, hquery⟩
    · exact hs.streams.deliver fun hresponse id hid => ⟨hheard, hresponse, hid⟩
  | @takeQuery item hwaiting hitem =>
    have hrouter : { node with router := node.router.receiveQuery }.Sound wire :=
      hs.setRouter (fun item hmem => hs.requests item (List.mem_of_mem_tail hmem))
        ⟨hs.streams.addressed, hs.streams.items⟩ rfl
    refine hrouter.setResponder ?_
    intro query hquery
    cases hquery
    exact ⟨item.1, hs.requests item (List.mem_of_mem_head? hitem)⟩
  | handleQuery hhandling horder => exact hs.handleQuery _ _
  | sendAnswer hsending => exact hs.awaitQuery
  | routeEnds =>
    exact ⟨hs.table, hs.requests, hs.handling, hs.streams, hs.queries, hs.results⟩
  | shutdown =>
    have hstopped : { node with responder := .stopped }.Sound wire :=
      hs.setResponder fun _ hquery => by cases hquery
    exact ⟨hs.table, hs.requests, hstopped.handling, hs.streams, hs.queries, hs.results⟩

theorem MdnsNode.Step.keeps (h : node.Step calls wire next sent) : node.Keeps next := by
  cases h with
  | startQuery domain id hnext =>
    obtain ⟨queryId, _, rfl⟩ := MdnsNode.startQuery_eq_ok hnext
    refine ⟨rfl, ?_⟩
    intro index query hquery
    obtain ⟨hlt, _⟩ := List.getElem?_eq_some_iff.mp hquery
    exact ⟨query, (List.getElem?_append_left hlt).trans hquery, rfl, rfl⟩
  | broadcast => exact keeps_setQuery _ _ _
  | @response index query round unsent responses item =>
    unfold MdnsNode.takeResponse
    dsimp only
    split
    · exact keeps_nextRound { node with router := node.router.pollNext query.stream } _ _ _ _
    · exact keeps_setQuery _ _ _
  | expire => exact keeps_nextRound _ _ _ _ _
  | dropQuery => exact keeps_setQuery _ _ _
  | handleQuery =>
    unfold MdnsNode.handleQuery
    split <;> exact keeps_refl node
  | _ => exact keeps_refl node

/-- A node sends its own queries, and the answer that its responder holds. -/
theorem MdnsNode.Step.mem_sent (h : node.Step calls wire next sent) {datagram : Datagram}
    (hmem : datagram ∈ sent) :
    (∃ (index : ℕ) (query : MdnsQuery), node.queries[index]? = some query ∧
        datagram = ⟨node.addr, query.packet.toBytes⟩) ∨
      ∃ answer, node.responder = .sending answer ∧ datagram = ⟨node.addr, answer.toBytes⟩ := by
  cases h with
  | broadcast hquery => exact Or.inl ⟨_, _, hquery, List.mem_singleton.mp hmem⟩
  | sendAnswer hsending => exact Or.inr ⟨_, hsending, List.mem_singleton.mp hmem⟩
  | _ => exact absurd hmem List.not_mem_nil

/-- An answer is made from the table for a query that the responder has taken. -/
theorem MdnsNode.Step.eq_sending (h : node.Step calls wire next sent) {answer : Packet}
    (hsending : next.responder = .sending answer) :
    node.responder = .sending answer ∨
      ∃ query entries, node.responder = .handling query ∧
        entries.Perm (hostEntries node.resolver.hosts) ∧
        answer = Packet.answer query.header.id entries := by
  have hawait : node.awaitQuery.responder ≠ .sending answer := by
    intro heq
    dsimp only [MdnsNode.awaitQuery] at heq
    split at heq <;> cases heq
  have hround : ∀ (node : MdnsNode) index query round unsent,
      (node.nextRound index query round unsent).responder = node.responder := by
    intro node index query round unsent
    unfold MdnsNode.nextRound
    split <;> rfl
  cases h with
  | startQuery domain id hnext =>
    obtain ⟨queryId, _, rfl⟩ := MdnsNode.startQuery_eq_ok hnext
    exact Or.inl hsending
  | response =>
    unfold MdnsNode.takeResponse at hsending
    dsimp only at hsending
    split at hsending
    · rw [hround] at hsending
      exact Or.inl hsending
    · exact Or.inl hsending
  | expire =>
    rw [hround] at hsending
    exact Or.inl hsending
  | takeQuery => cases hsending
  | @handleQuery query entries hhandling horder =>
    unfold MdnsNode.handleQuery at hsending
    split at hsending
    · rename_i made hmade
      cases hsending
      exact Or.inr ⟨query, entries, hhandling, horder, eq_of_respond hmade⟩
    · exact absurd hsending hawait
  | sendAnswer => exact absurd hsending hawait
  | shutdown => cases hsending
  | _ => exact Or.inl hsending

end Steps

namespace MdnsNetwork

section Runs

variable [DhttpHome] [SubjectKey] [Crypto] {calls : MdnsCall → Prop} {start s t : MdnsNetwork}

/-- A query with this id has begun. -/
def Asked (s : MdnsNetwork) (id : UInt16) : Prop :=
  ∃ (n index : ℕ) (query : MdnsQuery), (s.nodes n).queries[index]? = some query ∧ query.id.val = id

/-- The answer was made from the table of the node at some moment of the run, for a query that had
begun. -/
def Answered (calls : MdnsCall → Prop) (start s : MdnsNetwork) (n : ℕ) (answer : Packet) : Prop :=
  ∃ mid entries id, ReflTransGen (Step calls) start mid ∧ ReflTransGen (Step calls) mid s ∧
    entries.Perm (hostEntries (mid.nodes n).resolver.hosts) ∧ answer = Packet.answer id entries ∧
    mid.Asked id

structure Sound (calls : MdnsCall → Prop) (start s : MdnsNetwork) : Prop where
  nodes : ∀ n, (s.nodes n).Sound s.wire
  sending : ∀ n answer, (s.nodes n).responder = .sending answer → Answered calls start s n answer
  wire : ∀ datagram ∈ s.wire,
    (∃ (n index : ℕ) (query : MdnsQuery), (s.nodes n).queries[index]? = some query ∧
      datagram = ⟨(s.nodes n).addr, query.packet.toBytes⟩) ∨
    ∃ n answer, datagram = ⟨(s.nodes n).addr, answer.toBytes⟩ ∧ Answered calls start s n answer

theorem Answered.step {n : ℕ} {answer : Packet} (h : Answered calls start s n answer)
    (hstep : Step calls s t) : Answered calls start t n answer := by
  obtain ⟨mid, entries, id, hbefore, hafter, hrest⟩ := h
  exact ⟨mid, entries, id, hbefore, hafter.tail hstep, hrest⟩

theorem keeps_step (h : Step calls s t) (n : ℕ) : (s.nodes n).Keeps (t.nodes n) := by
  cases h with
  | @act m next sent hact =>
    dsimp only
    by_cases hn : n = m
    · subst hn
      rw [Function.update_self]
      exact hact.keeps
    · rw [Function.update_of_ne hn]
      exact keeps_refl _

theorem sound_initial (h : start.Initial) : Sound calls start start := by
  obtain ⟨hwire, hnodes⟩ := h
  refine ⟨?_, ?_, ?_⟩
  · intro n
    obtain ⟨addr, serviceName, valid, hnode⟩ := hnodes n
    rw [hnode]
    refine ⟨?_, ?_, ?_, ⟨?_, ?_⟩, ?_, ?_⟩
    · exact fun entry hentry => absurd hentry List.not_mem_nil
    · exact fun item hitem => absurd hitem List.not_mem_nil
    · exact fun query hquery => by cases hquery
    · exact fun id stream hlookup => by cases hlookup
    · exact fun responses hmem => absurd hmem List.not_mem_nil
    · exact fun query hquery => absurd hquery List.not_mem_nil
    · exact fun query hquery => absurd hquery List.not_mem_nil
  · intro n answer hsending
    obtain ⟨addr, serviceName, valid, hnode⟩ := hnodes n
    rw [hnode] at hsending
    cases hsending
  · rw [hwire]
    exact fun datagram hmem => absurd hmem List.not_mem_nil

/-- What a responder has taken was asked by some query. -/
theorem Sound.asked (h : Sound calls start s) {source : SocketAddr} {packet : Packet}
    (hheard : Heard s.wire source packet) (hquery : packet.isQuery = false) :
    s.Asked packet.header.id := by
  obtain ⟨datagram, hmem, _, hreceive⟩ := hheard
  rcases h.wire datagram hmem with ⟨n, index, query, hindex, rfl⟩ | ⟨n, answer, rfl, hanswered⟩
  · refine ⟨n, index, query, hindex, ?_⟩
    rw [header_of_receive hreceive]
    rfl
  · obtain ⟨_, entries, id, _, _, _, rfl, _⟩ := hanswered
    have hresponse := (isQuery_answer id entries).1
    rw [Packet.isQuery, header_of_receive hreceive] at hquery
    rw [Packet.isQuery, hquery] at hresponse
    cases hresponse

theorem sound_step (hproper : ∀ c, calls c → c.Proper) (hrun : ReflTransGen (Step calls) start s)
    (h : Sound calls start s) (hstep : Step calls s t) : Sound calls start t := by
  have hkeeps := keeps_step hstep
  have hanswered : ∀ n answer, Answered calls start s n answer → Answered calls start t n answer :=
    fun n answer hold => hold.step hstep
  cases hstep with
  | @act m next sent hact =>
    have hsub : s.wire ⊆ s.wire ++ sent := List.subset_append_left _ _
    refine ⟨?_, ?_, ?_⟩
    · intro n
      by_cases hn : n = m
      · subst hn
        dsimp only
        rw [Function.update_self]
        exact ((h.nodes n).step hproper hact).mono hsub
      · dsimp only
        rw [Function.update_of_ne hn]
        exact (h.nodes n).mono hsub
    · intro n answer hsending
      dsimp only at hsending
      by_cases hn : n = m
      · subst hn
        rw [Function.update_self] at hsending
        rcases hact.eq_sending hsending with hold | ⟨query, entries, hhandling, horder, rfl⟩
        · exact hanswered n answer (h.sending n answer hold)
        · obtain ⟨source, hheard, hrequest⟩ := (h.nodes n).handling query hhandling
          exact ⟨s, entries, query.header.id, hrun, .single (.act n hact), horder, rfl,
            h.asked hheard hrequest⟩
      · rw [Function.update_of_ne hn] at hsending
        exact hanswered n answer (h.sending n answer hsending)
    · intro datagram hmem
      have hquery : ∀ (n index : ℕ) (query : MdnsQuery), (s.nodes n).queries[index]? = some query →
          ∃ (index' : ℕ) (query' : MdnsQuery),
            (Function.update s.nodes m next n).queries[index']? = some query' ∧
            (⟨(s.nodes n).addr, query.packet.toBytes⟩ : Datagram) =
              ⟨(Function.update s.nodes m next n).addr, query'.packet.toBytes⟩ := by
        intro n index query hindex
        obtain ⟨haddr, hqueries⟩ := hkeeps n
        obtain ⟨query', hindex', hid, hname⟩ := hqueries index query hindex
        refine ⟨index, query', hindex', ?_⟩
        rw [haddr, MdnsQuery.packet, MdnsQuery.packet, hid, hname]
      rcases List.mem_append.mp hmem with hold | hnew
      · rcases h.wire datagram hold with ⟨n, index, query, hindex, rfl⟩ | ⟨n, answer, rfl, hans⟩
        · obtain ⟨index', query', hindex', heq⟩ := hquery n index query hindex
          exact Or.inl ⟨n, index', query', hindex', heq⟩
        · exact Or.inr ⟨n, answer, by rw [(hkeeps n).1], hanswered n answer hans⟩
      · rcases hact.mem_sent hnew with ⟨index, query, hindex, rfl⟩ | ⟨answer, hsending, rfl⟩
        · obtain ⟨index', query', hindex', heq⟩ := hquery m index query hindex
          exact Or.inl ⟨m, index', query', hindex', heq⟩
        · exact Or.inr ⟨m, answer, by rw [(hkeeps m).1],
            hanswered m answer (h.sending m answer hsending)⟩

theorem sound_run (hproper : ∀ c, calls c → c.Proper) (hstart : start.Initial)
    (hrun : ReflTransGen (Step calls) start s) : Sound calls start s := by
  induction hrun with
  | refl => exact sound_initial hstart
  | tail hbefore hlast ih => exact sound_step hproper hbefore ih hlast

omit [SubjectKey] [Crypto] in
/-- The records of a sendable table are answers. -/
theorem isAnswer_of_sendable {resolver : MdnsResolver} (h : resolver.Sendable)
    {entries : List (Name × List EndpointAddr)}
    (horder : entries.Perm (hostEntries resolver.hosts)) :
    ∀ r ∈ answerRecords entries, r.IsAnswer := by
  intro r hr
  refine isAnswer_of_mem ?_ hr
  intro host hhost
  obtain ⟨entry, hentry, rfl⟩ := List.mem_map.mp (horder.mem_iff.mp hhost)
  exact h entry hentry

end Runs

end MdnsNetwork

end Ddns
