import Ddns.Mdns.Completion

/-! A node that was shut down only winds up the queries that were running. -/
namespace Ddns

open Relation

/-- How many broadcasts a query may still send. -/
def QueryState.sendsLeft [DhttpHome] : QueryState → ℕ
  | .running round unsent => unsent + (queryRounds - round)
  | _ => 0

namespace MdnsNode

variable [DhttpHome]

def sendsLeft (node : MdnsNode) : ℕ := (node.queries.map fun query => query.state.sendsLeft).sum

/-- The node was shut down. -/
structure ShutDown (node : MdnsNode) : Prop where
  proto : node.proto = false
  routing : node.routing = false
  responder : node.responder = .stopped

/-- What may have become of a query since the node was as at the start: it is as it was, or it was
running, and what it returned had been received by then. -/
structure Continues (start : MdnsNode) (query query' : MdnsQuery) : Prop where
  localName : query'.localName = query.localName
  id : query'.id = query.id
  stream : query'.stream = query.stream
  running : query'.state = query.state ∨ query.state.isRunning = true
  returned : ∀ source result, query'.state = .returned source result →
    query.state = .returned source result ∨
      ∃ packet responses, start.router.streams[query.stream]? = some responses ∧
        (source, packet) ∈ responses.recver.waiting ∧
        result = arrangeEndpoints source (queryEndpoints query.localName packet)

/-- A node that was shut down, after some more steps. -/
structure WindsUp (start node : MdnsNode) : Prop where
  shutDown : node.ShutDown
  addr : node.addr = start.addr
  streams : ∀ (stream : ℕ) (responses : Responses), node.router.streams[stream]? = some responses →
    ∃ responses₀ : Responses, start.router.streams[stream]? = some responses₀ ∧
      responses.recver.waiting ⊆ responses₀.recver.waiting
  queries : ∀ (index : ℕ) (query : MdnsQuery), node.queries[index]? = some query →
    ∃ query₀, start.queries[index]? = some query₀ ∧ start.Continues query₀ query

variable {start node : MdnsNode} {index round unsent : ℕ} {query : MdnsQuery} {state : QueryState}

theorem WindsUp.refl (h : node.ShutDown) : node.WindsUp node where
  shutDown := h
  addr := rfl
  streams := fun _ responses hresponses => ⟨responses, hresponses, fun _ hitem => hitem⟩
  queries := fun _ query hquery =>
    ⟨query, hquery, rfl, rfl, rfl, Or.inl rfl, fun _ _ hstate => Or.inl hstate⟩

theorem WindsUp.setQuery (h : start.WindsUp node) (hquery : node.queries[index]? = some query)
    (hrunning : query.state.isRunning = true)
    (hstate : ∀ source result, state = .returned source result →
      ∃ packet responses, start.router.streams[query.stream]? = some responses ∧
        (source, packet) ∈ responses.recver.waiting ∧
        result = arrangeEndpoints source (queryEndpoints query.localName packet)) :
    start.WindsUp (node.setQuery index state) where
  shutDown := ⟨h.shutDown.proto, h.shutDown.routing, h.shutDown.responder⟩
  addr := h.addr
  streams := h.streams
  queries := by
    intro i query' hquery'
    rw [MdnsNode.setQuery, List.getElem?_modify] at hquery'
    obtain ⟨before, hbefore, hsame⟩ := Option.map_eq_some_iff.mp hquery'
    obtain ⟨query₀, hquery₀, hcontinues⟩ := h.queries i before hbefore
    refine ⟨query₀, hquery₀, ?_⟩
    by_cases hi : index = i
    · rw [if_pos hi] at hsame
      subst hi hsame
      obtain rfl := Option.some.inj (hquery.symm.trans hbefore)
      refine ⟨hcontinues.localName, hcontinues.id, hcontinues.stream, Or.inr ?_, ?_⟩
      · rcases hcontinues.running with hsame | hrunning'
        · rwa [← hsame]
        · exact hrunning'
      · intro source result hreturned
        rw [← hcontinues.stream, ← hcontinues.localName]
        exact Or.inr (hstate source result hreturned)
    · rw [if_neg hi] at hsame
      subst hsame
      exact hcontinues

theorem WindsUp.setRouter {router : PacketRouter} (h : start.WindsUp node)
    (hstreams : ∀ (stream : ℕ) (responses : Responses), router.streams[stream]? = some responses →
      ∃ before : Responses, node.router.streams[stream]? = some before ∧
        responses.recver.waiting ⊆ before.recver.waiting) :
    start.WindsUp { node with router := router } where
  shutDown := ⟨h.shutDown.proto, h.shutDown.routing, h.shutDown.responder⟩
  addr := h.addr
  streams := by
    intro stream responses hresponses
    obtain ⟨before, hbefore, hsub⟩ := hstreams stream responses hresponses
    obtain ⟨responses₀, hresponses₀, hsub₀⟩ := h.streams stream before hbefore
    exact ⟨responses₀, hresponses₀, fun _ hitem => hsub₀ (hsub hitem)⟩
  queries := h.queries

theorem streams_modify {streams : List Responses} {changed stream : ℕ} {f : Responses → Responses}
    {responses : Responses} (h : (streams.modify changed f)[stream]? = some responses)
    (hf : ∀ responses, (f responses).recver.waiting ⊆ responses.recver.waiting) :
    ∃ before : Responses, streams[stream]? = some before ∧
      responses.recver.waiting ⊆ before.recver.waiting := by
  rw [List.getElem?_modify] at h
  obtain ⟨before, hbefore, hsame⟩ := Option.map_eq_some_iff.mp h
  refine ⟨before, hbefore, ?_⟩
  by_cases hchanged : changed = stream
  · rw [if_pos hchanged] at hsame
    rw [← hsame]
    exact hf before
  · rw [if_neg hchanged] at hsame
    rw [← hsame]
    exact fun _ hitem => hitem

theorem WindsUp.dropResponses (h : start.WindsUp node) (stream : ℕ) :
    start.WindsUp { node with router := node.router.dropResponses stream } := by
  refine h.setRouter ?_
  intro i responses hresponses
  unfold PacketRouter.dropResponses at hresponses
  split at hresponses
  · exact streams_modify hresponses fun _ _ hitem => hitem
  · exact ⟨responses, hresponses, fun _ hitem => hitem⟩

theorem WindsUp.pollNext (h : start.WindsUp node) (stream : ℕ) :
    start.WindsUp { node with router := node.router.pollNext stream } := by
  refine h.setRouter ?_
  intro i responses hresponses
  exact streams_modify hresponses fun _ _ hitem => List.mem_of_mem_tail hitem

theorem WindsUp.nextRound (h : start.WindsUp node) (hquery : node.queries[index]? = some query)
    (hrunning : query.state.isRunning = true) :
    start.WindsUp (node.nextRound index query round unsent) := by
  unfold MdnsNode.nextRound
  split
  · exact h.setQuery hquery hrunning fun _ _ hstate => by cases hstate
  · exact (h.dropResponses query.stream).setQuery hquery hrunning fun _ _ hstate => by cases hstate

theorem WindsUp.takeResponse {responses : Responses} {item : Received} (h : start.WindsUp node)
    (hquery : node.queries[index]? = some query) (hrunning : query.state.isRunning = true)
    (hstream : node.router.streams[query.stream]? = some responses)
    (hitem : responses.recver.tryRecv.1 = some item) :
    start.WindsUp (node.takeResponse index query round unsent item) := by
  obtain ⟨source, packet⟩ := item
  have hpolled := h.pollNext query.stream
  unfold MdnsNode.takeResponse
  dsimp only
  split
  · exact hpolled.nextRound hquery hrunning
  · refine (hpolled.dropResponses query.stream).setQuery hquery hrunning ?_
    intro source' result hreturned
    cases hreturned
    obtain ⟨responses₀, hresponses₀, hsub⟩ := h.streams _ _ hstream
    exact ⟨packet, responses₀, hresponses₀, hsub (List.mem_of_mem_head? hitem), rfl⟩

omit [DhttpHome] in
theorem sum_map_modify {α : Type} {items : List α} {i : ℕ} {x : α} (f : α → α) (g : α → ℕ)
    (h : items[i]? = some x) :
    ((items.modify i f).map g).sum + g x = (items.map g).sum + g (f x) := by
  induction items generalizing i with
  | nil => cases h
  | cons item items ih =>
    cases i with
    | zero =>
      obtain rfl := Option.some.inj h
      rw [List.modify_zero_cons, List.map_cons, List.map_cons, List.sum_cons, List.sum_cons]
      omega
    | succ i =>
      have hrest := ih h
      rw [List.modify_succ_cons, List.map_cons, List.map_cons, List.sum_cons, List.sum_cons]
      omega

/-- A change of the state of one query changes the count by what it changes there. -/
theorem sendsLeft_setQuery (hquery : node.queries[index]? = some query) :
    (node.setQuery index state).sendsLeft + query.state.sendsLeft =
      node.sendsLeft + state.sendsLeft :=
  sum_map_modify _ _ hquery

/-- A query that has ended sends nothing any more. -/
theorem sendsLeft_endQuery (hquery : node.queries[index]? = some query)
    (hstate : state.sendsLeft = 0) : (node.endQuery index query state).sendsLeft ≤ node.sendsLeft := by
  have hset := @sendsLeft_setQuery _ { node with router := node.router.dropResponses query.stream }
    index query state hquery
  rw [hstate] at hset
  exact Nat.le_of_add_right_le (Nat.le_of_eq hset)

theorem sendsLeft_nextRound (hquery : node.queries[index]? = some query)
    (hstate : query.state = .running round unsent) :
    (node.nextRound index query round unsent).sendsLeft ≤ node.sendsLeft := by
  unfold MdnsNode.nextRound
  split
  · rename_i hround
    have hset := @sendsLeft_setQuery _ node index query (.running (round + 1) (unsent + 1)) hquery
    rw [hstate, QueryState.sendsLeft, QueryState.sendsLeft] at hset
    omega
  · exact sendsLeft_endQuery hquery rfl

section Steps

variable [SubjectKey] [Crypto] {calls : MdnsCall → Prop} {wire sent : List Datagram}
  {next : MdnsNode}

theorem Step.windsUp (h : node.Step calls wire next sent) (hs : start.WindsUp node) :
    start.WindsUp next := by
  obtain ⟨⟨hproto, hrouting, hresponder⟩, haddr, hstreams, hqueries⟩ := hs
  have hs : start.WindsUp node := ⟨⟨hproto, hrouting, hresponder⟩, haddr, hstreams, hqueries⟩
  cases h with
  | call => exact ⟨⟨hproto, hrouting, hresponder⟩, haddr, hstreams, hqueries⟩
  | startQuery domain id hnext =>
    rw [MdnsNode.startQuery, if_pos (by rw [hproto]; exact Bool.false_ne_true)] at hnext
    cases hnext
  | broadcast hquery hstate =>
    exact hs.setQuery hquery (by rw [hstate]; rfl) fun _ _ hreturned => by cases hreturned
  | response hquery hstate hstream hitem =>
    exact hs.takeResponse hquery (by rw [hstate]; rfl) hstream hitem
  | expire hquery hstate => exact hs.nextRound hquery (by rw [hstate]; rfl)
  | @dropQuery _ query _ _ hquery hstate =>
    exact (hs.dropResponses query.stream).setQuery hquery (by rw [hstate]; rfl)
      fun _ _ hreturned => by cases hreturned
  | deliver hlistening =>
    rw [hrouting] at hlistening
    cases hlistening
  | takeQuery hwaiting =>
    rw [hresponder] at hwaiting
    cases hwaiting
  | handleQuery hhandling =>
    rw [hresponder] at hhandling
    cases hhandling
  | sendAnswer hsending =>
    rw [hresponder] at hsending
    cases hsending
  | routeEnds => exact ⟨⟨hproto, rfl, hresponder⟩, haddr, hstreams, hqueries⟩
  | shutdown => exact ⟨⟨rfl, rfl, rfl⟩, haddr, hstreams, hqueries⟩

/-- What a node that was shut down sends is a broadcast that a running query has left. -/
theorem Step.sent_shutDown (h : node.Step calls wire next sent) (hs : node.ShutDown) :
    sent.length + next.sendsLeft ≤ node.sendsLeft ∧
      ∀ datagram ∈ sent, ∃ (index : ℕ) (query : MdnsQuery), node.queries[index]? = some query ∧
        query.state.isRunning = true ∧ datagram = ⟨node.addr, query.packet.toBytes⟩ := by
  cases h with
  | startQuery domain id hnext =>
    rw [MdnsNode.startQuery, if_pos (by rw [hs.proto]; exact Bool.false_ne_true)] at hnext
    cases hnext
  | @broadcast index query round unsent hquery hstate =>
    constructor
    · have hset := @sendsLeft_setQuery _ node index query (.running round unsent) hquery
      rw [hstate, QueryState.sendsLeft, QueryState.sendsLeft] at hset
      rw [List.length_singleton]
      omega
    · intro datagram hmem
      exact ⟨index, query, hquery, by rw [hstate]; rfl, List.mem_singleton.mp hmem⟩
  | @response index query round unsent responses item hquery hstate =>
    refine ⟨?_, by simp⟩
    rw [List.length_nil, Nat.zero_add]
    unfold MdnsNode.takeResponse
    dsimp only
    split
    · exact @sendsLeft_nextRound _ { node with router := node.router.pollNext query.stream } index
        round unsent query hquery hstate
    · exact @sendsLeft_endQuery _ { node with router := node.router.pollNext query.stream } index
        query _ hquery rfl
  | expire hquery hstate =>
    refine ⟨?_, by simp⟩
    rw [List.length_nil, Nat.zero_add]
    exact sendsLeft_nextRound hquery hstate
  | @dropQuery index query _ _ hquery =>
    refine ⟨?_, by simp⟩
    rw [List.length_nil, Nat.zero_add]
    exact sendsLeft_endQuery hquery rfl
  | handleQuery hhandling =>
    rw [hs.responder] at hhandling
    cases hhandling
  | sendAnswer hsending =>
    rw [hs.responder] at hsending
    cases hsending
  | _ => exact ⟨Nat.le_of_eq (Nat.zero_add _), by simp⟩

/-- A query sends at most one broadcast in each round. -/
theorem Step.sendsLeft_le (h : node.Step calls wire next sent)
    (hs : ∀ query ∈ node.queries, query.state.sendsLeft ≤ queryRounds) :
    ∀ query ∈ next.queries, query.state.sendsLeft ≤ queryRounds := by
  have hset : ∀ (node : MdnsNode) (index : ℕ) (query : MdnsQuery) (state : QueryState),
      (∀ query ∈ node.queries, query.state.sendsLeft ≤ queryRounds) →
      node.queries[index]? = some query → state.sendsLeft ≤ query.state.sendsLeft →
      ∀ query ∈ (node.setQuery index state).queries, query.state.sendsLeft ≤ queryRounds := by
    intro node index query state hs hquery hle query' hquery'
    rcases mem_modify hquery' with hold | ⟨y, hy, rfl⟩
    · exact hs query' hold
    · exact hle.trans (hs query (List.mem_of_getElem? hquery))
  have hround : ∀ (node : MdnsNode) (index : ℕ) (query : MdnsQuery) (round unsent : ℕ),
      (∀ query ∈ node.queries, query.state.sendsLeft ≤ queryRounds) →
      node.queries[index]? = some query → query.state = .running round unsent →
      ∀ query' ∈ (node.nextRound index query round unsent).queries,
        query'.state.sendsLeft ≤ queryRounds := by
    intro node index query round unsent hs hquery hstate
    unfold MdnsNode.nextRound
    split
    · refine hset node index query _ hs hquery ?_
      rw [hstate, QueryState.sendsLeft, QueryState.sendsLeft]
      omega
    · exact hset _ index query _ hs hquery (Nat.zero_le _)
  cases h with
  | startQuery domain id hnext =>
    obtain ⟨queryId, _, rfl⟩ := MdnsNode.startQuery_eq_ok hnext
    intro query hquery
    rcases List.mem_append.mp hquery with hold | hnew
    · exact hs query hold
    · rw [List.mem_singleton.mp hnew]
      exact Nat.le_refl _
  | @broadcast index query _ _ hquery hstate =>
    refine hset node index query _ hs hquery ?_
    rw [hstate, QueryState.sendsLeft, QueryState.sendsLeft]
    omega
  | @response index query round unsent _ item hquery hstate =>
    unfold MdnsNode.takeResponse
    dsimp only
    split
    · exact hround { node with router := node.router.pollNext query.stream } index query round
        unsent hs hquery hstate
    · exact hset _ index query _ hs hquery (Nat.zero_le _)
  | @expire index query round unsent hquery hstate =>
    exact hround node index query round unsent hs hquery hstate
  | @dropQuery index query _ _ hquery => exact hset _ index query _ hs hquery (Nat.zero_le _)
  | handleQuery =>
    unfold MdnsNode.handleQuery
    split <;> exact hs
  | _ => exact hs

omit [SubjectKey] [Crypto] in
/-- Only the queries that are running count. -/
theorem sendsLeft_le_running {queries : List MdnsQuery}
    (h : ∀ query ∈ queries, query.state.sendsLeft ≤ queryRounds) :
    (queries.map fun query => query.state.sendsLeft).sum ≤
      queryRounds * (queries.filter fun query => query.state.isRunning).length := by
  induction queries with
  | nil => exact Nat.le_refl _
  | cons query queries ih =>
    have hfirst := h query List.mem_cons_self
    have hrest := ih fun query hquery => h query (List.mem_cons_of_mem _ hquery)
    rw [List.map_cons, List.sum_cons]
    by_cases hrunning : query.state.isRunning = true
    · rw [List.filter_cons, if_pos hrunning, List.length_cons, Nat.mul_succ]
      omega
    · have hnone : query.state.sendsLeft = 0 := by
        cases hstate : query.state with
        | running => rw [hstate] at hrunning; exact absurd rfl hrunning
        | _ => rfl
      rw [List.filter_cons, if_neg hrunning, hnone]
      omega

end Steps

end MdnsNode

namespace MdnsNetwork

section Runs

variable [DhttpHome] [SubjectKey] [Crypto] {calls : MdnsCall → Prop} {start s t : MdnsNetwork}
  {n : ℕ} {sent : List Datagram}

/-- A run of the network, with what one node sends in it. -/
inductive Sends (calls : MdnsCall → Prop) (n : ℕ) (s : MdnsNetwork) :
    List Datagram → MdnsNetwork → Prop
  | refl : Sends calls n s [] s
  | own {sent more : List Datagram} {t : MdnsNetwork} {next : MdnsNode}
    (run : Sends calls n s sent t) (h : (t.nodes n).Step calls t.wire next more) :
    Sends calls n s (sent ++ more) (t.act n next more)
  | other {sent more : List Datagram} {t : MdnsNetwork} {m : ℕ} {next : MdnsNode} (hm : m ≠ n)
    (run : Sends calls n s sent t) (h : (t.nodes m).Step calls t.wire next more) :
    Sends calls n s sent (t.act m next more)

theorem sendsLeft_le_run (hstart : start.Initial) (hrun : ReflTransGen (Step calls) start s)
    (n : ℕ) :
    ∀ query ∈ (s.nodes n).queries, query.state.sendsLeft ≤ queryRounds := by
  induction hrun generalizing n with
  | refl =>
    obtain ⟨addr, serviceName, valid, hnode⟩ := hstart.2 n
    rw [hnode]
    intro query hquery
    cases hquery
  | tail _ hstep ih =>
    cases hstep with
    | act m h =>
      refine act_of (P := fun node => ∀ query ∈ node.queries,
        query.state.sendsLeft ≤ queryRounds) (ih n) ?_
      intro _
      exact h.sendsLeft_le (ih m)

/-- What a node sends after it was shut down, and where it is then. -/
theorem windsUp_of_sends (hdown : (s.nodes n).ShutDown) (hrun : Sends calls n s sent t) :
    (s.nodes n).WindsUp (t.nodes n) ∧
      sent.length + (t.nodes n).sendsLeft ≤ (s.nodes n).sendsLeft ∧
      ∀ datagram ∈ sent, ∃ query ∈ (s.nodes n).queries, query.state.isRunning = true ∧
        datagram = ⟨(s.nodes n).addr, query.packet.toBytes⟩ := by
  induction hrun with
  | refl => exact ⟨.refl hdown, Nat.le_of_eq (Nat.zero_add _), by simp⟩
  | own _ h ih =>
    obtain ⟨hwinds, hcount, hsent⟩ := ih
    obtain ⟨hmore, hdatagrams⟩ := h.sent_shutDown hwinds.shutDown
    rw [act_self]
    refine ⟨h.windsUp hwinds, ?_, ?_⟩
    · rw [List.length_append]
      omega
    · intro datagram hmem
      rcases List.mem_append.mp hmem with hmem | hmem
      · exact hsent datagram hmem
      · obtain ⟨index, query, hquery, hrunning, rfl⟩ := hdatagrams datagram hmem
        obtain ⟨query₀, hquery₀, hcontinues⟩ := hwinds.queries index query hquery
        refine ⟨query₀, List.mem_of_getElem? hquery₀, ?_, ?_⟩
        · rcases hcontinues.running with hsame | hrunning₀
          · rwa [← hsame]
          · exact hrunning₀
        · rw [hwinds.addr, MdnsQuery.packet, MdnsQuery.packet, hcontinues.id, hcontinues.localName]
  | other hm _ h ih =>
    obtain ⟨hwinds, hcount, hsent⟩ := ih
    rw [show (MdnsNetwork.act _ _ _ _).nodes n = _ from Function.update_of_ne hm.symm _ _]
    exact ⟨hwinds, hcount, hsent⟩

/-- After a node was shut down it stays so, whatever is published and whatever the others do: it
never answers again and asks nothing new, it sends at most the three broadcasts of each query that
was running, and a query returns only what had been received by then. -/
theorem shutdown_is_final (hstart : start.Initial) (hreach : ReflTransGen (Step calls) start s)
    (hdown : (s.nodes n).ShutDown) (hrun : Sends calls n s sent t) :
    (t.nodes n).ShutDown ∧
      sent.length ≤ 3 * ((s.nodes n).queries.filter fun query => query.state.isRunning).length ∧
      (∀ datagram ∈ sent, ∃ query ∈ (s.nodes n).queries, query.state.isRunning = true ∧
        datagram = ⟨(s.nodes n).addr, query.packet.toBytes⟩) ∧
      ∀ (index : ℕ) (query : MdnsQuery) source result, (t.nodes n).queries[index]? = some query →
        query.state = .returned source result →
        ∃ query₀ : MdnsQuery, (s.nodes n).queries[index]? = some query₀ ∧
          (query₀.state = .returned source result ∨
            ∃ packet responses, (s.nodes n).router.streams[query₀.stream]? = some responses ∧
              (source, packet) ∈ responses.recver.waiting ∧
              result = arrangeEndpoints source (queryEndpoints query₀.localName packet)) := by
  obtain ⟨hwinds, hcount, hsent⟩ := windsUp_of_sends hdown hrun
  have hleft := MdnsNode.sendsLeft_le_running (sendsLeft_le_run hstart hreach n)
  refine ⟨hwinds.shutDown, ?_, hsent, ?_⟩
  · have hsum : (s.nodes n).sendsLeft ≤ 3 * _ := hleft
    omega
  · intro index query source result hquery hstate
    obtain ⟨query₀, hquery₀, hcontinues⟩ := hwinds.queries index query hquery
    exact ⟨query₀, hquery₀, hcontinues.returned source result hstate⟩

end Runs

section Sample

attribute [local instance] plainHome plainCrypto plainSubjectKey

theorem seven_ne_zero : (7 : UInt16) ≠ 0 := by decide

/-- Node 0 was shut down while it was asking. -/
def stoppedNode : MdnsNode :=
  { freshLink.nodes 0 with
    router := (freshLink.nodes 0).router.registerQuery ⟨7, seven_ne_zero⟩
    proto := false
    routing := false
    responder := .stopped
    queries := [⟨queryName ('s' :: localText) mdnsHost, ⟨7, seven_ne_zero⟩, 0, .running 1 1⟩] }

theorem stoppedNode_reachable :
    ReflTransGen (Step fun _ => True) freshLink (freshLink.act 0 stoppedNode []) := by
  have hstarted := acts_tail (acts_refl (fun _ => True) freshLink 0) (.startQuery mdnsHost 7 rfl)
  exact acts_tail hstarted .shutdown

/-- The broadcast that was not sent yet still is. -/
theorem shutdown_is_final_stoppedNode :
    ∃ (t : MdnsNetwork) (sent : List Datagram),
      Sends (fun _ => True) 0 (freshLink.act 0 stoppedNode []) sent t ∧
      (t.nodes 0).ShutDown ∧ sent.length = 1 ∧ sent.length ≤ 3 := by
  have hbroadcast : stoppedNode.Step (fun _ => True) [] _ _ :=
    @MdnsNode.Step.broadcast _ _ _ _ _ _ 0 _ _ _ rfl rfl
  have hrun : Sends (fun _ => True) 0 (freshLink.act 0 stoppedNode []) _ _ := .own .refl hbroadcast
  obtain ⟨hdown, hlength, _⟩ :=
    shutdown_is_final freshLink_initial stoppedNode_reachable ⟨rfl, rfl, rfl⟩ hrun
  exact ⟨_, _, hrun, hdown, rfl, hlength⟩

end Sample

end MdnsNetwork

end Ddns
