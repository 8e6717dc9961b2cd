import Ddns.Mdns.Publication
import Ddns.Mdns.ResolverSet
import Ddns.Mdns.Router

/-! One mDNS node: what its socket takes in, its queries in rounds, and its responder. -/
namespace Ddns

open Nom

def maxMdnsDnsMessageLen : ℕ := 9000

/-- How often a query is sent. -/
def queryRounds : ℕ := 3

/-- `swap(0, index)` -/
def swapFront {α : Type} (items : List α) (index : ℕ) : List α :=
  match items[0]?, items[index]? with
  | some first, some found => (items.set 0 found).set index first
  | _, _ => items

def SocketAddr.ip : SocketAddr → IpAddr
  | .v4 addr => .v4 addr.ip
  | .v6 addr => .v6 addr.ip

section Model

variable [DhttpHome]

/-- What `MdnsSocket::receive` makes of one datagram; what is too long or cannot be parsed is
skipped. -/
def receive (bytes : List UInt8) : Option Packet :=
  if maxMdnsDnsMessageLen < bytes.length then none
  else
    match bePacket (wholeSlice bytes) with
    | .ok _ packet => some packet
    | .err _ => none

inductive MdnsQueryError where
  | shutDown
  | disconnected
  | zeroQueryId
  | timedOut
  | emptyResult
  deriving DecidableEq

/-- An endpoint at the address of the answer goes to the front. -/
def arrangeEndpoints (source : SocketAddr) (endpoints : List EndpointAddr) :
    Except MdnsQueryError (List EndpointAddr) :=
  let arranged :=
    match endpoints.findIdx? fun endpoint => endpoint.primary.ip = source.ip with
    | some index => swapFront endpoints index
    | none => endpoints
  if arranged = [] then .error .emptyResult else .ok arranged

/-- A query in its `round` has `unsent` broadcasts that wait for their task to run. -/
inductive QueryState where
  | running (round unsent : ℕ)
  | returned (source : SocketAddr) (result : Except MdnsQueryError (List EndpointAddr))
  | timedOut
  | dropped

def QueryState.isRunning : QueryState → Bool
  | .running _ _ => true
  | _ => false

/-- A call of `query` that has drawn its id and registered its stream. -/
structure MdnsQuery where
  localName : Name
  id : QueryId
  stream : ℕ
  state : QueryState

def MdnsQuery.packet (query : MdnsQuery) : Packet := .queryWithId query.id.val query.localName

/-- Where the task of `spawn_responder` stands. -/
inductive Responder where
  | waiting
  | handling (query : Packet)
  | sending (answer : Packet)
  | stopped

def Responder.isWaiting : Responder → Bool
  | .waiting => true
  | _ => false

/-- `proto` says that the resolver has not been shut down, and `routing` that the task which reads
the socket still runs. -/
structure MdnsNode where
  addr : SocketAddr
  resolver : MdnsResolver
  router : PacketRouter
  proto : Bool
  routing : Bool
  responder : Responder
  queries : List MdnsQuery

namespace MdnsNode

def new (addr : SocketAddr) (serviceName : Name) (valid : validServiceName serviceName = true) :
    MdnsNode :=
  ⟨addr, .new serviceName valid, .new, true, true, .waiting, []⟩

/-- Somebody holds the router: the task that reads the socket, the responder while it waits, or a
query. -/
def routerAlive (node : MdnsNode) : Bool :=
  node.routing || node.responder.isWaiting || node.queries.any fun query => query.state.isRunning

/-- The beginning of a query, with the id that it draws and its first broadcast. -/
def startQuery (node : MdnsNode) (domain : Name) (id : UInt16) :
    Except MdnsQueryError MdnsNode :=
  if ¬ node.proto then .error .shutDown
  else if ¬ node.routerAlive then .error .disconnected
  else if hid : id = 0 then .error .zeroQueryId
  else
    .ok { node with
      router := node.router.registerQuery ⟨id, hid⟩
      queries := node.queries ++
        [⟨queryName node.resolver.serviceName domain, ⟨id, hid⟩, node.router.streams.length,
          .running 1 1⟩] }

def setQuery (node : MdnsNode) (index : ℕ) (state : QueryState) : MdnsNode :=
  { node with queries := node.queries.modify index fun query => { query with state := state } }

/-- The end of a query drops its stream, and with it the broadcasts that were not sent. -/
def endQuery (node : MdnsNode) (index : ℕ) (query : MdnsQuery) (state : QueryState) : MdnsNode :=
  { node with router := node.router.dropResponses query.stream }.setQuery index state

/-- A round without a usable answer is followed by the next one. -/
def nextRound (node : MdnsNode) (index : ℕ) (query : MdnsQuery) (round unsent : ℕ) : MdnsNode :=
  if round < queryRounds then node.setQuery index (.running (round + 1) (unsent + 1))
  else node.endQuery index query .timedOut

/-- A response that the stream of a query yields. -/
def takeResponse (node : MdnsNode) (index : ℕ) (query : MdnsQuery) (round unsent : ℕ)
    (item : Received) : MdnsNode :=
  let node' := { node with router := node.router.pollNext query.stream }
  let endpoints := queryEndpoints query.localName item.2
  if endpoints = [] then node'.nextRound index query round unsent
  else node'.endQuery index query (.returned item.1 (arrangeEndpoints item.1 endpoints))

/-- The responder goes on as long as there is a router. -/
def awaitQuery (node : MdnsNode) : MdnsNode :=
  { node with
    responder :=
      if { node with responder := .stopped }.routerAlive then .waiting else .stopped }

/-- What the responder makes of the query that it has taken, for the table listed as `entries`. -/
def handleQuery (node : MdnsNode) (entries : List (Name × List EndpointAddr)) (query : Packet) :
    MdnsNode :=
  match node.resolver.respond entries query with
  | some answer => { node with responder := .sending answer }
  | none => node.awaitQuery

def shutdown (node : MdnsNode) : MdnsNode :=
  { node with proto := false, routing := false, responder := .stopped }

end MdnsNode

/-- A query that begins is registered under its id, with a stream of its own. -/
theorem MdnsNode.startQuery_eq_ok {node next : MdnsNode} {domain : Name} {id : UInt16}
    (h : node.startQuery domain id = .ok next) :
    ∃ queryId : QueryId, queryId.val = id ∧
      next = { node with
        router := node.router.registerQuery queryId
        queries := node.queries ++
          [⟨queryName node.resolver.serviceName domain, queryId, node.router.streams.length,
            .running 1 1⟩] } := by
  unfold MdnsNode.startQuery at h
  split at h
  · cases h
  split at h
  · cases h
  split at h
  · cases h
  rename_i hid
  cases h
  exact ⟨⟨id, hid⟩, rfl, rfl⟩

end Model

section Arrangement

/-- Exchanging two items keeps all of them. -/
theorem swapFront_perm {α : Type} (items : List α) (index : ℕ) :
    (swapFront items index).Perm items := by
  unfold swapFront
  split
  · rename_i first found hfirst hfound
    cases items with
    | nil => cases hfirst
    | cons head rest =>
      obtain rfl := Option.some.inj hfirst
      cases index with
      | zero =>
        obtain rfl := Option.some.inj hfound
        exact List.Perm.refl _
      | succ index =>
        rw [List.getElem?_cons_succ] at hfound
        obtain ⟨hlt, hget⟩ := List.getElem?_eq_some_iff.mp hfound
        have hrest : rest = rest.take index ++ found :: rest.drop (index + 1) := by
          rw [← hget, List.getElem_cons_drop hlt, List.take_append_drop]
        have hset : rest.set index head = rest.take index ++ head :: rest.drop (index + 1) :=
          List.set_eq_take_append_cons_drop.trans (if_pos hlt)
        show (found :: rest.set index head).Perm (head :: rest)
        rw [hset]
        nth_rewrite 3 [hrest]
        exact ((List.perm_middle.cons found).trans (List.Perm.swap _ _ _)).trans
          (List.perm_middle.symm.cons head)
  · exact List.Perm.refl _

theorem swapFront_head {α : Type} {items : List α} {index : ℕ} {found : α}
    (h : items[index]? = some found) : (swapFront items index).head? = some found := by
  cases items with
  | nil => cases h
  | cons head rest =>
    rw [swapFront, h]
    cases index with
    | zero => exact h
    | succ index => rfl

variable [DhttpHome]

/-- A result keeps all endpoints, and begins with one at the address of the answer if there is
any. -/
theorem arrangeEndpoints_spec (source : SocketAddr) {endpoints : List EndpointAddr}
    (hne : endpoints ≠ []) :
    ∃ arranged, arrangeEndpoints source endpoints = .ok arranged ∧ arranged.Perm endpoints ∧
      ((∃ endpoint ∈ endpoints, endpoint.primary.ip = source.ip) →
        ∃ first ∈ arranged.head?, first.primary.ip = source.ip) := by
  unfold arrangeEndpoints
  dsimp only
  split
  · rename_i index hindex
    obtain ⟨hlt, hfound, _⟩ := List.findIdx?_eq_some_iff_getElem.mp hindex
    have hperm := swapFront_perm endpoints index
    have hne' : swapFront endpoints index ≠ [] := fun hnil => hne (hperm.symm.trans (by rw [hnil])).eq_nil
    refine ⟨_, if_neg hne', hperm, ?_⟩
    intro _
    exact ⟨endpoints[index], swapFront_head (List.getElem?_eq_getElem hlt), of_decide_eq_true hfound⟩
  · rename_i hnone
    refine ⟨endpoints, if_neg hne, List.Perm.refl _, ?_⟩
    rintro ⟨endpoint, hmem, hip⟩
    exact absurd (decide_eq_true hip) (by simpa using List.findIdx?_eq_none_iff.mp hnone endpoint hmem)

end Arrangement

section Wire

variable [DhttpHome]

omit [DhttpHome] in
/-- Items that are appended one by one leave what was there before them. -/
theorem putAll_append {α : Type}
    {put : List UInt8 → α → NameCompression → List UInt8 × NameCompression}
    (hput : ∀ buf item ctx, ∃ w, (put buf item ctx).1 = buf ++ w) (items : List α)
    (out : List UInt8 × NameCompression) : ∃ w, (putAll put items out).1 = out.1 ++ w := by
  induction items generalizing out with
  | nil => exact ⟨[], (List.append_nil _).symm⟩
  | cons item items ih =>
    obtain ⟨w, hw⟩ := hput out.1 item out.2
    obtain ⟨w', hw'⟩ := ih (put out.1 item out.2)
    refine ⟨w ++ w', ?_⟩
    rw [← List.append_assoc, ← hw]
    exact hw'

/-- Every packet begins with its header, whatever its names and records are. -/
theorem toBytes_eq_putHeader (packet : Packet) :
    ∃ w, packet.toBytes = putHeader packet.header ++ w := by
  have hrecord : ∀ buf record ctx, ∃ w, (putRecord buf record ctx).1 = buf ++ w :=
    fun buf record ctx => ⟨_, congrArg Prod.fst (putRecord_eq buf record ctx).2⟩
  have hquestion : ∀ buf question ctx, ∃ w, (putQuestion buf question ctx).1 = buf ++ w :=
    fun buf question ctx => ⟨_, congrArg Prod.fst (putQuestion_eq buf question ctx)⟩
  obtain ⟨w, hw⟩ := putAll_append hquestion packet.questions
    (putHeader packet.header, NameCompression.new)
  obtain ⟨wa, ha⟩ := putAll_append hrecord packet.answers (putAll putQuestion packet.questions
    (putHeader packet.header, NameCompression.new))
  obtain ⟨wn, hn⟩ := putAll_append hrecord packet.nameservers (putAll putRecord packet.answers
    (putAll putQuestion packet.questions (putHeader packet.header, NameCompression.new)))
  obtain ⟨wd, hd⟩ := putAll_append hrecord packet.additional (putAll putRecord packet.nameservers
    (putAll putRecord packet.answers
      (putAll putQuestion packet.questions (putHeader packet.header, NameCompression.new))))
  refine ⟨w ++ (wa ++ (wn ++ wd)), ?_⟩
  rw [Packet.toBytes, hd, hn, ha, hw]
  simp only [List.append_assoc]

theorem receive_eq_some {bytes : List UInt8} {packet : Packet} (h : receive bytes = some packet) :
    bytes.length ≤ maxMdnsDnsMessageLen ∧
      ∃ remain, bePacket (wholeSlice bytes) = .ok remain packet := by
  unfold receive at h
  split at h
  · cases h
  · rename_i hlen
    split at h
    · rename_i remain parsed hparsed
      obtain rfl := Option.some.inj h
      exact ⟨Nat.le_of_not_lt hlen, remain, hparsed⟩
    · cases h

/-- The header of a packet reaches every receiver that can parse the packet at all. -/
theorem header_of_receive {sent received : Packet} (h : receive sent.toBytes = some received) :
    received.header = sent.header := by
  obtain ⟨_, remain, hparsed⟩ := receive_eq_some h
  obtain ⟨w, hw⟩ := toBytes_eq_putHeader sent
  rw [hw, wholeSlice, bePacket, beHeader_put, andThen_ok] at hparsed
  obtain ⟨rest, _, _, hsections⟩ := andThen_eq_ok.mp hparsed
  cases hsections
  rfl

theorem flags_addAnswers {packet : Packet} (h : packet.header.flags = 0x8000) (name : Name)
    (eps : List EndpointAddr) :
    let out := eps.foldl (fun p ep => p.addAnswer name .e .in 300 (.e ep)) packet
    out.header.id = packet.header.id ∧ out.header.flags = 0x8000 := by
  induction eps generalizing packet with
  | nil => exact ⟨rfl, h⟩
  | cons ep eps ih =>
    refine ih ?_
    show setQuery packet.header.flags true = 0x8000
    rw [h]
    rfl

theorem flags_addHosts {packet : Packet} (h : packet.header.flags = 0x8000)
    (entries : List (Name × List EndpointAddr)) :
    let out := entries.foldl (fun p host =>
      host.2.foldl (fun p ep => p.addAnswer host.1 .e .in 300 (.e ep)) p) packet
    out.header.id = packet.header.id ∧ out.header.flags = 0x8000 := by
  induction entries generalizing packet with
  | nil => exact ⟨rfl, h⟩
  | cons host entries ih =>
    obtain ⟨hid, hflags⟩ := flags_addAnswers h host.1 host.2
    obtain ⟨hid', hflags'⟩ := ih hflags
    exact ⟨hid'.trans hid, hflags'⟩

/-- An answer is a response with the id of its query. -/
theorem isQuery_answer (id : UInt16) (entries : List (Name × List EndpointAddr)) :
    (Packet.answer id entries).isQuery = true ∧ (Packet.answer id entries).id = id := by
  have hempty : ({ Header.default with
      id := id, flags := setQuery Header.default.flags true } : Header).flags = 0x8000 := rfl
  obtain ⟨hid, hflags⟩ := @flags_addHosts _ { Packet.default with header := _ } hempty entries
  refine ⟨?_, hid⟩
  rw [Packet.isQuery, Packet.answer, hflags]
  rfl

/-- A query is none. -/
theorem isQuery_packet (query : MdnsQuery) :
    query.packet.isQuery = false ∧ query.packet.id = query.id.val := by
  refine ⟨?_, rfl⟩
  show decide ((0 : UInt16) &&& 0x7FFF &&& 0x8000 ≠ 0) = false
  decide

end Wire

end Ddns
