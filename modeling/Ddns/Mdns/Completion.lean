import Ddns.Mdns.NetworkInvariant

/-! A name that is published on the link can be found, as long as nothing is lost. -/
namespace Ddns

open Nom Relation

section Nodes

variable [DhttpHome] {node next : MdnsNode} {index : ℕ} {query : MdnsQuery}

/-- The query has been sent once and waits for its first response. -/
structure MdnsNode.Asks (node : MdnsNode) (index : ℕ) (query : MdnsQuery) : Prop where
  listening : node.routing = true
  entry : node.queries[index]? = some query
  state : query.state = .running 1 0
  sender : node.router.queries.lookup query.id = some query.stream
  stream : node.router.streams[query.stream]? = some ⟨query.id, .bounded⟩

theorem MdnsNode.Asks.congr (h : node.Asks index query) (hrouting : next.routing = node.routing)
    (hqueries : next.queries = node.queries) (hsenders : next.router.queries = node.router.queries)
    (hstreams : next.router.streams = node.router.streams) : next.Asks index query := by
  refine ⟨?_, ?_, h.state, ?_, ?_⟩
  · rw [hrouting]
    exact h.listening
  · rw [hqueries]
    exact h.entry
  · rw [hsenders]
    exact h.sender
  · rw [hstreams]
    exact h.stream

/-- A response to a query that waits lands on its stream. -/
theorem MdnsNode.Asks.deliver (h : node.Asks index query) {packet : Packet}
    (hresponse : packet.isQuery = true) (hid : packet.id = query.id.val) (source : SocketAddr) :
    (node.router.deliver source packet).streams[query.stream]? =
      some ⟨query.id, ⟨[(source, packet)], true⟩⟩ := by
  have hnonzero : packet.id ≠ 0 := hid ▸ query.id.property
  have hquery : (⟨packet.id, hnonzero⟩ : QueryId) = query.id := Subtype.ext hid
  rw [PacketRouter.deliver, if_pos hresponse, dif_pos hnonzero, hquery,
    PacketRouter.deliverResponse, h.sender]
  dsimp only
  rw [List.getElem?_modify_eq, h.stream]
  rfl

/-- The responder is idle. -/
structure MdnsNode.Idle (node : MdnsNode) : Prop where
  listening : node.routing = true
  responder : node.responder = .waiting
  requests : node.router.requests = .bounded

theorem deliver_request {router : PacketRouter} (h : router.requests = .bounded)
    {packet : Packet} (hquery : packet.isQuery = false) (source : SocketAddr) :
    router.deliver source packet = { router with requests := ⟨[(source, packet)], true⟩ } := by
  have hresponse : ¬ packet.isQuery = true := by simp [hquery]
  rw [PacketRouter.deliver, if_neg hresponse, PacketRouter.deliverRequest, h]
  rfl

variable {resolver : MdnsResolver} {name : Name}

/-- A query that fits into a datagram is heard as it was sent. -/
theorem receive_queryWithId (hname : DhttpName name) (id : UInt16)
    (hfits : (Packet.queryWithId id (localName resolver.serviceName name)).toBytes.length ≤
      maxMdnsDnsMessageLen) :
    receive (Packet.queryWithId id (localName resolver.serviceName name)).toBytes =
      some (Packet.queryWithId id (localName resolver.serviceName name)) := by
  rw [receive, if_neg (Nat.not_lt.mpr hfits),
    bePacket_query id (hname.localName_wellFormed resolver.valid)]

/-- A query for a name in the table is answered with the records of the name among others. -/
theorem exists_answer (htable : resolver.Sendable) (hname : DhttpName name)
    {records : List EndpointAddr}
    (hrecords : resolver.hosts.lookup (localName resolver.serviceName name) = some records)
    (id : UInt16)
    (hfits : (Packet.answer id (hostEntries resolver.hosts)).toBytes.length ≤
      maxMdnsDnsMessageLen) :
    ∃ answer, resolver.respond (hostEntries resolver.hosts)
        (Packet.queryWithId id (localName resolver.serviceName name)) = some answer ∧
      receive answer.toBytes = some answer ∧ answer.isQuery = true ∧ answer.id = id ∧
      queryEndpoints (localName resolver.serviceName name) answer = records := by
  obtain ⟨answer, hresponds⟩ := Option.isSome_iff_exists.mp
    (respond_isSome hname (by rw [hrecords]; rfl) (hostEntries resolver.hosts) id)
  obtain rfl : answer = Packet.answer id (hostEntries resolver.hosts) := eq_of_respond hresponds
  have honly := answersOnly_answer id (hostEntries resolver.hosts)
  have hall := MdnsNetwork.isAnswer_of_sendable htable (List.Perm.refl _)
  obtain ⟨hresponse, hid⟩ := isQuery_answer id (hostEntries resolver.hosts)
  refine ⟨_, hresponds, ?_, hresponse, hid, ?_⟩
  · rw [receive, if_neg (Nat.not_lt.mpr hfits),
      honly.bePacket_toBytes hall (honly.length_le hall (hfits.trans (by decide)))]
  · rw [queryEndpoints_answerRecords honly.answers, flatMap_lookup (List.Perm.refl _), hrecords,
      Option.getD_some]

end Nodes

namespace MdnsNetwork

section Runs

variable [DhttpHome] [SubjectKey] [Crypto] {calls : MdnsCall → Prop} {start s : MdnsNetwork}

/-- The network after one node has acted. -/
def act (s : MdnsNetwork) (n : ℕ) (next : MdnsNode) (sent : List Datagram) : MdnsNetwork :=
  ⟨Function.update s.nodes n next, s.wire ++ sent⟩

omit [SubjectKey] [Crypto] in
theorem act_self (s : MdnsNetwork) (n : ℕ) (next : MdnsNode) (sent : List Datagram) :
    (s.act n next sent).nodes n = next := Function.update_self ..

omit [SubjectKey] [Crypto] in
theorem act_act (s : MdnsNetwork) (n : ℕ) (next next' : MdnsNode) (sent sent' : List Datagram) :
    (s.act n next sent).act n next' sent' = s.act n next' (sent ++ sent') := by
  simp only [act, Function.update_idem, List.append_assoc]

omit [SubjectKey] [Crypto] in
/-- What the acting node keeps of itself, the network keeps of every node. -/
theorem act_of {P : MdnsNode → Prop} {n m : ℕ} {next : MdnsNode} {sent : List Datagram}
    (hm : P (s.nodes m)) (hnext : m = n → P next) : P ((s.act n next sent).nodes m) := by
  by_cases h : m = n
  · subst h
    rw [act_self]
    exact hnext rfl
  · have hother : (s.act n next sent).nodes m = s.nodes m := Function.update_of_ne h _ _
    rw [hother]
    exact hm

theorem acts_refl (calls : MdnsCall → Prop) (s : MdnsNetwork) (n : ℕ) :
    ReflTransGen (Step calls) s (s.act n (s.nodes n) []) := by
  rw [act, Function.update_eq_self, List.append_nil]

/-- One more step of a node that acts alone. -/
theorem acts_tail {n : ℕ} {node next : MdnsNode} {sent sent' : List Datagram}
    (h : ReflTransGen (Step calls) s (s.act n node sent)) (hstep : node.Step calls (s.wire ++ sent) next sent') :
    ReflTransGen (Step calls) s (s.act n next (sent ++ sent')) := by
  rw [← act_act s n node next sent sent']
  refine h.tail (.act n ?_)
  rw [act_self]
  exact hstep

/-- A query is asked and sent once. -/
theorem exists_asked {n : ℕ} (hproto : (s.nodes n).proto = true)
    (hlistening : (s.nodes n).routing = true) (domain : Name) (id : QueryId) :
    ∃ next query, ReflTransGen (Step calls) s
        (s.act n next [⟨(s.nodes n).addr, query.packet.toBytes⟩]) ∧
      next.Asks (s.nodes n).queries.length query ∧
      query.localName = queryName (s.nodes n).resolver.serviceName domain ∧ query.id = id ∧
      next.resolver = (s.nodes n).resolver ∧ next.addr = (s.nodes n).addr ∧
      ((s.nodes n).Idle → next.Idle) := by
  generalize hnode : s.nodes n = node at *
  have halive : node.routerAlive = true := by
    rw [MdnsNode.routerAlive, hlistening]
    rfl
  have hstart : node.startQuery domain id.val = .ok { node with
      router := node.router.registerQuery id
      queries := node.queries ++
        [⟨queryName node.resolver.serviceName domain, id, node.router.streams.length,
          .running 1 1⟩] } := by
    rw [MdnsNode.startQuery, if_neg (by simp [hproto]), if_neg (by simp [halive]),
      dif_neg id.property]
  have hrefl := acts_refl calls s n
  rw [hnode] at hrefl
  have hstarted := acts_tail hrefl (.startQuery domain id.val hstart)
  have hlast : (node.queries ++
      [(⟨queryName node.resolver.serviceName domain, id, node.router.streams.length,
        .running 1 1⟩ : MdnsQuery)])[node.queries.length]? =
      some ⟨queryName node.resolver.serviceName domain, id, node.router.streams.length,
        .running 1 1⟩ := List.getElem?_concat_length
  have hsent := acts_tail hstarted (.broadcast hlast rfl)
  refine ⟨_, ⟨queryName node.resolver.serviceName domain, id, node.router.streams.length,
    .running 1 0⟩, hsent, ⟨hlistening, ?_, rfl, ?_, ?_⟩, rfl, rfl, rfl, rfl, ?_⟩
  · rw [MdnsNode.setQuery, List.getElem?_modify_eq, hlast]
    rfl
  · exact AList.lookup_insert _
  · exact List.getElem?_concat_length
  · rintro ⟨hlistening, hresponder, hrequests⟩
    exact ⟨hlistening, hresponder, hrequests⟩

/-- An idle responder that knows the name answers, and does nothing else. -/
theorem exists_answered {m : ℕ} (hidle : (s.nodes m).Idle) {datagram : Datagram}
    (hmem : datagram ∈ s.wire) {packet answer : Packet}
    (hreceive : receive datagram.bytes = some packet) (hquery : packet.isQuery = false)
    (hanswer : (s.nodes m).resolver.respond (hostEntries (s.nodes m).resolver.hosts) packet =
      some answer) :
    ∃ next, ReflTransGen (Step calls) s (s.act m next [⟨(s.nodes m).addr, answer.toBytes⟩]) ∧
      ∀ index query, (s.nodes m).Asks index query → next.Asks index query := by
  generalize hnode : s.nodes m = node at *
  have hrefl := acts_refl calls s m
  rw [hnode] at hrefl
  have hmem' : datagram ∈ s.wire ++ [] := List.mem_append_left _ hmem
  have hdelivered := acts_tail hrefl (.deliver hidle.listening hmem' hreceive)
  rw [deliver_request hidle.requests hquery] at hdelivered
  have htaken : ReflTransGen (Step calls) s (s.act m { node with
      router := { node.router with requests := .bounded }
      responder := .handling packet } []) :=
    acts_tail hdelivered (@MdnsNode.Step.takeQuery _ _ _ _ _
      { node with router := { node.router with requests := ⟨[(datagram.source, packet)], true⟩ } }
      (datagram.source, packet) hidle.responder rfl)
  have hhandled := acts_tail htaken (.handleQuery rfl (List.Perm.refl _))
  rw [MdnsNode.handleQuery, hanswer] at hhandled
  have hsent := acts_tail hhandled (.sendAnswer rfl)
  refine ⟨_, hsent, ?_⟩
  intro index query hasks
  exact hasks.congr rfl rfl rfl rfl

/-- A response with endpoints for the name ends the query that waits for it. -/
theorem exists_returned {n index : ℕ} {query : MdnsQuery} (hasks : (s.nodes n).Asks index query)
    {datagram : Datagram} (hmem : datagram ∈ s.wire) {packet : Packet}
    (hreceive : receive datagram.bytes = some packet) (hresponse : packet.isQuery = true)
    (hid : packet.id = query.id.val) (hne : queryEndpoints query.localName packet ≠ []) :
    ∃ t, ReflTransGen (Step calls) s t ∧ (t.nodes n).queries[index]? = some { query with
      state := .returned datagram.source
        (arrangeEndpoints datagram.source (queryEndpoints query.localName packet)) } := by
  generalize hnode : s.nodes n = node at *
  have hrefl := acts_refl calls s n
  rw [hnode] at hrefl
  have hmem' : datagram ∈ s.wire ++ [] := List.mem_append_left _ hmem
  have hdelivered := acts_tail hrefl (.deliver hasks.listening hmem' hreceive)
  have hplaced := hasks.deliver hresponse hid datagram.source
  have htaken := acts_tail hdelivered (.response hasks.entry hasks.state hplaced rfl)
  refine ⟨_, htaken, ?_⟩
  rw [act_self, MdnsNode.takeResponse]
  dsimp only
  rw [if_neg hne, MdnsNode.endQuery, MdnsNode.setQuery]
  dsimp only
  rw [List.getElem?_modify_eq, hasks.entry]
  rfl

/-- A node that is not shut down finds what another one, or the same, has in its table, when the
packets fit and none is lost. -/
theorem exists_completed (hproper : ∀ c, calls c → c.Proper) (hstart : start.Initial)
    (hrun : ReflTransGen (Step calls) start s) {n m : ℕ} (hproto : (s.nodes n).proto = true)
    (hlistening : (s.nodes n).routing = true) (hidle : (s.nodes m).Idle)
    (hservice : (s.nodes n).resolver.serviceName = (s.nodes m).resolver.serviceName)
    {name : Name} (hname : DhttpName name) {records : List EndpointAddr}
    (hrecords : (s.nodes m).resolver.hosts.lookup
      (localName (s.nodes m).resolver.serviceName name) = some records) (hne : records ≠ [])
    (id : QueryId)
    (hquery : (Packet.queryWithId id.val
      (localName (s.nodes m).resolver.serviceName name)).toBytes.length ≤ maxMdnsDnsMessageLen)
    (hanswer : (Packet.answer id.val (hostEntries (s.nodes m).resolver.hosts)).toBytes.length ≤
      maxMdnsDnsMessageLen) :
    ∃ t query, ReflTransGen (Step calls) s t ∧
      (t.nodes n).queries[(s.nodes n).queries.length]? = some query ∧
      query.localName = queryName (s.nodes n).resolver.serviceName name ∧
      query.state = .returned (s.nodes m).addr (arrangeEndpoints (s.nodes m).addr records) := by
  have htable := ((sound_run hproper hstart hrun).nodes m).table
  obtain ⟨asking, query, hasked, hasks, hlocal, hid, hresolver, haddr, hkeeps⟩ :=
    exists_asked hproto hlistening name id
  have hlocal' := hlocal
  rw [hname.queryName_eq, hservice] at hlocal'
  generalize hu : s.act n asking [⟨(s.nodes n).addr, query.packet.toBytes⟩] = u at hasked
  have hsent : ⟨(s.nodes n).addr, query.packet.toBytes⟩ ∈ u.wire := by
    rw [← hu]
    exact List.mem_append_right _ (List.mem_singleton.mpr rfl)
  have hu_n : (u.nodes n).Asks (s.nodes n).queries.length query := by
    rw [← hu, act_self]
    exact hasks
  obtain ⟨hu_resolver, hu_addr, hu_idle⟩ : (u.nodes m).resolver = (s.nodes m).resolver ∧
      (u.nodes m).addr = (s.nodes m).addr ∧ (u.nodes m).Idle := by
    rw [← hu]
    apply act_of (P := fun node => node.resolver = (s.nodes m).resolver ∧
      node.addr = (s.nodes m).addr ∧ node.Idle) ⟨rfl, rfl, hidle⟩
    rintro rfl
    exact ⟨hresolver, haddr, hkeeps hidle⟩
  -- the responder parses the query and answers it
  have hpacket : query.packet =
      .queryWithId id.val (localName (s.nodes m).resolver.serviceName name) := by
    rw [MdnsQuery.packet, hid, hlocal']
  have hheard := receive_queryWithId hname id.val hquery
  obtain ⟨answer, hresponds, hback, hresponse, hanswerId, hendpoints⟩ :=
    exists_answer htable hname hrecords id.val hanswer
  rw [← hpacket] at hheard hresponds
  obtain ⟨answered, hanswered, hkept⟩ := exists_answered hu_idle hsent hheard
    (isQuery_packet query).1 (by rw [hu_resolver]; exact hresponds)
  rw [hu_addr] at hanswered
  generalize hv : u.act m answered [⟨(s.nodes m).addr, answer.toBytes⟩] = v at hanswered
  have hreply : ⟨(s.nodes m).addr, answer.toBytes⟩ ∈ v.wire := by
    rw [← hv]
    exact List.mem_append_right _ (List.mem_singleton.mpr rfl)
  have hv_n : (v.nodes n).Asks (s.nodes n).queries.length query := by
    rw [← hv]
    apply act_of (P := fun node => node.Asks (s.nodes n).queries.length query) hu_n
    rintro rfl
    exact hkept _ _ hu_n
  -- the answer comes back and is the one that the query waits for
  rw [← hlocal'] at hendpoints
  obtain ⟨t, hreturned, hentry⟩ := exists_returned hv_n hreply hback hresponse
    (by rw [hanswerId, hid]) (by rw [hendpoints]; exact hne)
  refine ⟨t, _, (hasked.trans hanswered).trans hreturned, hentry, hlocal, ?_⟩
  rw [hendpoints]

/-- From every state of every run in which names and endpoints are proper: once a node with an idle
responder has published a name, every node of the same service that listens and is not shut down can
find exactly what was published. -/
theorem published_name_can_be_found (hproper : ∀ c, calls c → c.Proper) (hstart : start.Initial)
    (hrun : ReflTransGen (Step calls) start s) {n m : ℕ} (hproto : (s.nodes n).proto = true)
    (hlistening : (s.nodes n).routing = true) (hidle : (s.nodes m).Idle)
    (hservice : (s.nodes n).resolver.serviceName = (s.nodes m).resolver.serviceName)
    {identity : LocalAuthority} {name : Name} {endpoints : List DquicEndpointAddr}
    (hcall : calls (.publish identity name endpoints)) {records : List EndpointAddr}
    (hpublish : MdnsResolver.publishRecords identity name endpoints = .ok records)
    (hne : records ≠ []) (id : QueryId)
    (hquery : (Packet.queryWithId id.val
      (localName (s.nodes m).resolver.serviceName name)).toBytes.length ≤ maxMdnsDnsMessageLen)
    (hanswer : (Packet.answer id.val (hostEntries
      ((s.nodes m).resolver.publishEndpoints identity name endpoints).2.hosts)).toBytes.length ≤
        maxMdnsDnsMessageLen) :
    ∃ (t : MdnsNetwork) (index : ℕ) (query : MdnsQuery) (arranged : List EndpointAddr),
      ReflTransGen (Step calls) s t ∧ (t.nodes n).queries[index]? = some query ∧
      query.localName = queryName (s.nodes n).resolver.serviceName name ∧
      query.state = .returned (s.nodes m).addr (.ok arranged) ∧
      arrangeEndpoints (s.nodes m).addr records = .ok arranged ∧ arranged.Perm records := by
  obtain ⟨hname, _⟩ := hproper _ hcall
  generalize hnode : s.nodes m = node at *
  have hpublished : (node.resolver.publishEndpoints identity name endpoints).2 =
      node.resolver.insertHost name records := by
    rw [MdnsResolver.publishEndpoints, hpublish]
    exact if_neg hne
  have hstep : ReflTransGen (Step calls) s (s.act m { node with
      resolver := node.resolver.insertHost name records } []) := by
    rw [← hpublished]
    refine ReflTransGen.single (.act m ?_)
    rw [hnode]
    exact MdnsNode.Step.call _ hcall
  rw [hpublished] at hanswer
  generalize hu : s.act m _ [] = u at hstep
  have hu_m : u.nodes m = { node with resolver := node.resolver.insertHost name records } := by
    rw [← hu, act_self]
  obtain ⟨hu_proto, hu_listening, hu_service⟩ : (u.nodes n).proto = true ∧
      (u.nodes n).routing = true ∧
      (u.nodes n).resolver.serviceName = (s.nodes n).resolver.serviceName := by
    rw [← hu]
    apply act_of (P := fun other => other.proto = true ∧ other.routing = true ∧
      other.resolver.serviceName = (s.nodes n).resolver.serviceName) ⟨hproto, hlistening, rfl⟩
    rintro rfl
    subst hnode
    exact ⟨hproto, hlistening, rfl⟩
  obtain ⟨t, query, hcompleted, hentry, hlocal, hreturned⟩ :=
    exists_completed hproper hstart (hrun.trans hstep) (n := n) (m := m) hu_proto hu_listening
      (by rw [hu_m]; exact ⟨hidle.listening, hidle.responder, hidle.requests⟩)
      (by rw [hu_service, hu_m]; exact hservice) hname
      (by rw [hu_m]; exact AList.lookup_insert _) hne id
      (by rw [hu_m]; exact hquery) (by rw [hu_m]; exact hanswer)
  rw [hu_service] at hlocal
  rw [hu_m] at hreturned
  obtain ⟨arranged, hok, hperm, _⟩ := arrangeEndpoints_spec node.addr hne
  exact ⟨t, _, query, arranged, hstep.trans hcompleted, hentry, hlocal, hok ▸ hreturned, hok, hperm⟩

end Runs

section Sample

attribute [local instance] plainHome plainCrypto plainSubjectKey

/-- Node 1 is at `10.0.0.2`. -/
def linkAddr : ℕ → SocketAddr
  | 1 => .v4 ⟨0x0A000002, 5353⟩
  | _ => .v4 ⟨0x0A000001, 5353⟩

theorem validServiceName_s : validServiceName ('s' :: localText) = true := by decide

/-- Nodes that have just been bound. -/
def freshLink : MdnsNetwork :=
  ⟨fun n => .new (linkAddr n) ('s' :: localText) validServiceName_s, []⟩

theorem freshLink_initial : freshLink.Initial := ⟨rfl, fun _ => ⟨_, _, _, rfl⟩⟩

/-- Two endpoints, the second one at the address of node 1. -/
def linkEndpoints : List DquicEndpointAddr :=
  [.direct (.v4 ⟨0xCB00710A, 4433⟩), .direct (.v4 ⟨0x0A000002, 4433⟩)]

theorem linkEndpoints_plain : ∀ endpoint ∈ linkEndpoints, endpoint.Plain := by
  simp [linkEndpoints, DquicEndpointAddr.Plain, SocketAddr.Plain]

/-- The one call that is made. -/
def linkCalls (c : MdnsCall) : Prop :=
  c = .publish (plainAuthority mdnsHost) mdnsHost linkEndpoints

theorem linkCalls_proper : ∀ c, linkCalls c → c.Proper := by
  rintro _ rfl
  exact ⟨dhttpName_mdnsHost, linkEndpoints_plain⟩

theorem published_name_can_be_found_mdnsHost :
    ∃ (t : MdnsNetwork) (index : ℕ) (query : MdnsQuery) (arranged : List EndpointAddr),
      ReflTransGen (Step linkCalls) freshLink t ∧ (t.nodes 0).queries[index]? = some query ∧
      query.state = .returned (.v4 ⟨0x0A000002, 5353⟩) (.ok arranged) ∧ arranged.length = 2 := by
  obtain ⟨records, hpublish, hlength⟩ : ∃ records,
      MdnsResolver.publishRecords (plainAuthority mdnsHost) mdnsHost linkEndpoints = .ok records ∧
      records.length = 2 := ⟨_, rfl, rfl⟩
  have hne : records ≠ [] := List.ne_nil_of_length_pos (by omega)
  obtain ⟨t, index, query, arranged, hrun, hquery, _, hreturned, _, hperm⟩ :=
    published_name_can_be_found (n := 0) (m := 1) linkCalls_proper freshLink_initial .refl rfl rfl
      ⟨rfl, rfl, rfl⟩ rfl rfl hpublish hne ⟨7, by decide⟩ (by decide +kernel) (by decide +kernel)
  exact ⟨t, index, query, arranged, hrun, hquery, hreturned, hperm.length_eq.trans hlength⟩

end Sample

end MdnsNetwork

end Ddns
