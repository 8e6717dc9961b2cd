import Ddns.Mdns.Router

/-! The queue of requests while one task delivers queries and others receive them. Each operation
on the channel is a step of its own. -/
namespace Ddns

open Transition

section Model

variable [DhttpHome]

/-- Where a call of `deliver` with a query stands: before `try_send`, before `try_recv`, before the
second `try_send`, or before it returns. -/
inductive Delivering where
  | idle
  | sending (item : Received)
  | full (item : Received)
  | resending (item : Received)
  | returning

namespace Delivering

def item : Delivering → Option Received
  | .sending item | .full item | .resending item => some item
  | .idle | .returning => none

/-- The packets that are still to be sent. -/
def pending : Delivering → ℕ
  | .sending _ | .full _ | .resending _ => 1
  | .idle | .returning => 0

/-- How many operations on the channel may still come in this call. -/
def operationsLeft : Delivering → ℕ
  | .sending _ => 3
  | .full _ => 2
  | .resending _ => 1
  | .idle | .returning => 0

end Delivering

/-- A packet that a receiver got, and in which delivery it came. -/
structure Receipt where
  receiver : ℕ
  delivery : ℕ
  item : Received

/-- The delivery whose packet was thrown away, and the one that did it. -/
structure Eviction where
  delivery : ℕ
  during : ℕ

/-- The last four fields are not in the program: the packets of all calls of `deliver`, and by the
numbers of these calls what waits, what was received and what was thrown away. -/
structure RequestQueue where
  requests : Channel
  task : Delivering
  delivered : List Received
  queued : List ℕ
  received : List Receipt
  evicted : List Eviction

namespace RequestQueue

def initial : RequestQueue := ⟨.bounded, .idle, [], [], [], []⟩

/-- The number of the last call of `deliver`. -/
def current (s : RequestQueue) : ℕ := s.delivered.length - 1

/-- How many packets have left the queue. -/
def taken (s : RequestQueue) : ℕ := s.received.length + s.evicted.length

/-- The next operation of `deliver`; it does not look at the results of the last two. -/
def advance (s : RequestQueue) : RequestQueue :=
  match s.task with
  | .idle => s
  | .sending item =>
    match s.requests.trySend item with
    | some requests =>
      { s with requests := requests, task := .returning, queued := s.queued ++ [s.current] }
    | none => { s with task := .full item }
  | .full item =>
    { s with
      requests := s.requests.tryRecv.2
      task := .resending item
      queued := s.queued.tail
      evicted := s.evicted ++ (s.queued.head?.map fun delivery => ⟨delivery, s.current⟩).toList }
  | .resending item =>
    match s.requests.trySend item with
    | some requests =>
      { s with requests := requests, task := .returning, queued := s.queued ++ [s.current] }
    | none => { s with task := .returning }
  | .returning => { s with task := .idle }

/-- A receiver takes the oldest packet. -/
def receiveQuery (s : RequestQueue) (receiver : ℕ) (item : Received) : RequestQueue :=
  { s with
    requests := s.requests.tryRecv.2
    queued := s.queued.tail
    received := s.received ++ [⟨receiver, s.queued.headD 0, item⟩] }

inductive Step (s : RequestQueue) : RequestQueue → Prop
  | call (source : SocketAddr) (packet : Packet) (hidle : s.task = .idle)
    (hquery : packet.isQuery = false) :
    Step s { s with
      task := .sending (source, packet)
      delivered := s.delivered ++ [(source, packet)] }
  | advance (hbusy : s.task ≠ .idle) : Step s s.advance
  | receive (receiver : ℕ) {item : Received} (hitem : s.requests.tryRecv.1 = some item) :
    Step s (s.receiveQuery receiver item)

/-- One call of `deliver` under way: so many operations of its own on the channel, and any number
of receives before, between and after them. -/
inductive During (s : RequestQueue) : ℕ → RequestQueue → Prop
  | start : During s 0 s
  | operation {k : ℕ} {t : RequestQueue} (h : During s k t) (hbusy : t.task.pending = 1) :
    During s (k + 1) t.advance
  | receive {k : ℕ} {t : RequestQueue} (h : During s k t) (receiver : ℕ) {item : Received}
    (hitem : t.requests.tryRecv.1 = some item) : During s k (t.receiveQuery receiver item)

/-- The packets that left the queue are the oldest ones, and what waits is the newest ones. -/
structure Invariant (s : RequestQueue) : Prop where
  connected : s.requests.connected = true
  bounded : s.requests.waiting.length ≤ maxDequeSize
  room : ∀ item, s.task = .resending item → s.requests.waiting.length < maxDequeSize
  last : ∀ item, s.task.item = some item → s.delivered.getLast? = some item
  contents : s.queued.map (s.delivered[·]?) = s.requests.waiting.map some
  newest : s.queued = List.range' s.taken s.queued.length
  count : s.taken + s.queued.length + s.task.pending = s.delivered.length
  oldest : (s.received.map Receipt.delivery ++ s.evicted.map Eviction.delivery).Perm
    (List.range s.taken)
  ordered : (s.received.map Receipt.delivery).Pairwise (· < ·)
  receipts : ∀ receipt ∈ s.received, s.delivered[receipt.delivery]? = some receipt.item
  evictions : ∀ eviction ∈ s.evicted,
    eviction.delivery < eviction.during ∧ eviction.during < s.delivered.length

end RequestQueue

end Model

namespace RequestQueue

section Steps

variable [DhttpHome] {s t : RequestQueue}

theorem invariant_initial : initial.Invariant where
  connected := rfl
  bounded := Nat.zero_le _
  room := fun _ h => by cases h
  last := fun _ h => by cases h
  contents := rfl
  newest := rfl
  count := rfl
  oldest := List.Perm.refl _
  ordered := List.Pairwise.nil
  receipts := fun _ h => absurd h List.not_mem_nil
  evictions := fun _ h => absurd h List.not_mem_nil

theorem Invariant.queued_lt (h : s.Invariant) {delivery : ℕ} (hmem : delivery ∈ s.queued) :
    delivery < s.delivered.length := by
  rw [h.newest, List.mem_range'_1] at hmem
  have hcount := h.count
  omega

/-- A packet that is sent is the newest one in the queue. -/
theorem Invariant.push (h : s.Invariant) {item : Received} (hitem : s.task.item = some item)
    (hpending : s.task.pending = 1) {requests : Channel}
    (hsent : s.requests.trySend item = some requests) :
    Invariant { s with
      requests := requests
      task := .returning
      queued := s.queued ++ [s.current] } := by
  obtain ⟨⟨hconnected, hroom⟩, rfl⟩ := PacketRouter.trySend_eq_some.mp hsent
  have hcount := h.count
  have hcurrent : s.current = s.taken + s.queued.length := by
    unfold current
    omega
  have hlast : s.delivered[s.current]? = some item := by
    rw [current, ← List.getLast?_eq_getElem?]
    exact h.last item hitem
  refine ⟨hconnected, ?_, ?_, ?_, ?_, ?_, ?_, h.oldest, h.ordered, h.receipts, h.evictions⟩
  · rw [List.length_append, List.length_singleton]
    exact hroom
  · intro other hother
    cases hother
  · intro other hother
    cases hother
  · rw [List.map_append, List.map_append, h.contents, List.map_singleton, hlast]
    rfl
  · rw [List.length_append, List.length_singleton, List.range'_concat, Nat.one_mul, hcurrent]
    exact congrArg (· ++ _) h.newest
  · rw [List.length_append, List.length_singleton]
    change s.taken + (s.queued.length + 1) + 0 = s.delivered.length
    omega

/-- What the queue has at its front, when it is not empty, is the oldest packet in it. -/
theorem Invariant.front (h : s.Invariant) {item : Received} {more : List Received}
    (hwaiting : s.requests.waiting = item :: more) :
    ∃ rest, s.queued = s.taken :: rest ∧ s.delivered[s.taken]? = some item ∧
      rest.map (s.delivered[·]?) = more.map some ∧
      rest = List.range' (s.taken + 1) rest.length := by
  have hcontents := h.contents
  have hnewest := h.newest
  cases hqueued : s.queued with
  | nil =>
    rw [hqueued, hwaiting] at hcontents
    cases hcontents
  | cons first rest =>
    rw [hqueued, hwaiting, List.map_cons, List.map_cons, List.cons.injEq] at hcontents
    rw [hqueued, List.length_cons, List.range'_succ, List.cons.injEq] at hnewest
    obtain ⟨hfirst, hrest⟩ := hnewest
    subst hfirst
    exact ⟨rest, rfl, hcontents.1, hcontents.2, hrest⟩

theorem Invariant.taken_before (h : s.Invariant) {delivery : ℕ}
    (hmem : delivery ∈ s.received.map Receipt.delivery) : delivery < s.taken :=
  List.mem_range.mp (h.oldest.mem_iff.mp (List.mem_append_left _ hmem))

theorem Invariant.call (h : s.Invariant) (hidle : s.task = .idle) (item : Received) :
    Invariant { s with task := .sending item, delivered := s.delivered ++ [item] } := by
  have hcount := h.count
  rw [hidle] at hcount
  have hold : ∀ delivery < s.delivered.length,
      (s.delivered ++ [item])[delivery]? = s.delivered[delivery]? := by
    intro delivery hlt
    exact List.getElem?_append_left hlt
  refine ⟨h.connected, h.bounded, ?_, ?_, ?_, h.newest, ?_, h.oldest, h.ordered, ?_, ?_⟩
  · intro other hother
    cases hother
  · intro other hother
    cases hother
    exact List.getLast?_concat
  · rw [← h.contents]
    exact List.map_congr_left fun delivery hmem => hold delivery (h.queued_lt hmem)
  · rw [List.length_append, List.length_singleton, ← hcount]
    rfl
  · intro receipt hreceipt
    have hitem := h.receipts receipt hreceipt
    obtain ⟨hlt, _⟩ := List.getElem?_eq_some_iff.mp hitem
    rw [hold _ hlt]
    exact hitem
  · intro eviction heviction
    obtain ⟨hless, hduring⟩ := h.evictions eviction heviction
    rw [List.length_append, List.length_singleton]
    exact ⟨hless, by omega⟩

/-- The oldest packet leaves the queue, whoever takes it. -/
theorem Invariant.pop (h : s.Invariant) {item : Received} {more : List Received}
    (hwaiting : s.requests.waiting = item :: more) {task : Delivering} {received : List Receipt}
    {evicted : List Eviction} (hitem : task.item = s.task.item)
    (hpending : task.pending = s.task.pending)
    (hplaces : (received.map Receipt.delivery ++ evicted.map Eviction.delivery).Perm
      (s.received.map Receipt.delivery ++ s.evicted.map Eviction.delivery ++ [s.taken]))
    (hordered : (received.map Receipt.delivery).Pairwise (· < ·))
    (hreceipts : ∀ receipt ∈ received, s.delivered[receipt.delivery]? = some receipt.item)
    (hevictions : ∀ eviction ∈ evicted,
      eviction.delivery < eviction.during ∧ eviction.during < s.delivered.length) :
    Invariant ⟨s.requests.tryRecv.2, task, s.delivered, s.queued.tail, received, evicted⟩ := by
  obtain ⟨rest, hqueued, hfirst, hrest, hnewest⟩ := h.front hwaiting
  have hcount := h.count
  have hbounded := h.bounded
  have htaken : received.length + evicted.length = s.taken + 1 := by
    have hlength := hplaces.length_eq
    simp only [List.length_append, List.length_map, List.length_singleton] at hlength
    exact hlength
  rw [hqueued, List.length_cons] at hcount
  rw [hwaiting, List.length_cons] at hbounded
  rw [hqueued, List.tail_cons, Channel.tryRecv, hwaiting, List.tail_cons]
  refine ⟨h.connected, ?_, ?_, ?_, hrest, ?_, ?_, ?_, hordered, hreceipts, hevictions⟩
  · exact Nat.le_of_succ_le hbounded
  · intro _ _
    exact hbounded
  · intro other hother
    exact h.last other (hitem.symm.trans hother)
  · refine hnewest.trans ?_
    unfold taken
    rw [htaken]
    rfl
  · change received.length + evicted.length + rest.length + task.pending = s.delivered.length
    omega
  · change (received.map Receipt.delivery ++ evicted.map Eviction.delivery).Perm
      (List.range (received.length + evicted.length))
    rw [htaken, List.range_succ]
    exact hplaces.trans (h.oldest.append_right _)

/-- A receiver gets the oldest packet in the queue. -/
theorem Invariant.receive (h : s.Invariant) (receiver : ℕ) {item : Received}
    (hitem : s.requests.tryRecv.1 = some item) : (s.receiveQuery receiver item).Invariant := by
  obtain ⟨more, hwaiting⟩ := List.head?_eq_some_iff.mp hitem
  obtain ⟨rest, hqueued, hfirst, _, _⟩ := h.front hwaiting
  have hhead : s.queued.headD 0 = s.taken := by
    rw [hqueued]
    rfl
  rw [receiveQuery, hhead]
  refine h.pop hwaiting rfl rfl ?_ ?_ ?_ h.evictions
  · rw [List.map_append, List.map_singleton, List.append_assoc, List.append_assoc]
    exact List.perm_append_comm.append_left _
  · rw [List.map_append, List.map_singleton, List.pairwise_append]
    refine ⟨h.ordered, List.pairwise_singleton _ _, ?_⟩
    intro earlier hearlier later hlater
    rw [List.mem_singleton.mp hlater]
    exact h.taken_before hearlier
  · intro receipt hreceipt
    rcases List.mem_append.mp hreceipt with hreceipt | hreceipt
    · exact h.receipts receipt hreceipt
    · rw [List.mem_singleton.mp hreceipt]
      exact hfirst

/-- The delivery throws the oldest packet away, unless receivers have emptied the queue. -/
theorem Invariant.evict (h : s.Invariant) {item : Received} (hfull : s.task = .full item) :
    Invariant { s with
      requests := s.requests.tryRecv.2
      task := .resending item
      queued := s.queued.tail
      evicted := s.evicted ++
        (s.queued.head?.map fun delivery => ⟨delivery, s.current⟩).toList } := by
  have hitem : s.task.item = some item := by
    rw [hfull]
    rfl
  have hpending : s.task.pending = 1 := by
    rw [hfull]
    rfl
  have hcount := h.count
  cases hwaiting : s.requests.waiting with
  | nil =>
    have hempty : s.queued = [] := by
      have hcontents := h.contents
      rw [hwaiting] at hcontents
      exact List.map_eq_nil_iff.mp hcontents
    have hnone : s.evicted ++
        ((([] : List ℕ).head?.map fun delivery => (⟨delivery, s.current⟩ : Eviction)).toList) =
        s.evicted := List.append_nil _
    rw [hempty, hpending] at hcount
    rw [hempty, hnone, Channel.tryRecv, hwaiting]
    refine ⟨h.connected, Nat.zero_le _, ?_, ?_, rfl, rfl, hcount, h.oldest, h.ordered, h.receipts,
      h.evictions⟩
    · intro _ _
      exact Nat.zero_lt_succ _
    · intro other hother
      exact h.last other (hitem.trans hother)
  | cons oldest more =>
    obtain ⟨rest, hqueued, _, _, _⟩ := h.front hwaiting
    rw [hqueued, List.length_cons, hpending] at hcount
    have hhead : s.queued.head? = some s.taken := by
      rw [hqueued]
      rfl
    rw [hhead]
    refine h.pop hwaiting hitem.symm hpending.symm ?_ h.ordered h.receipts ?_
    · rw [List.append_assoc]
      exact List.Perm.of_eq (congrArg _ List.map_append)
    · intro eviction heviction
      rcases List.mem_append.mp heviction with heviction | heviction
      · exact h.evictions eviction heviction
      · rw [List.mem_singleton.mp heviction]
        change s.taken < s.current ∧ s.current < s.delivered.length
        unfold current
        omega

/-- After the eviction there is room: only the task that delivers puts packets into the queue. -/
theorem Invariant.resend (h : s.Invariant) {item : Received} (htask : s.task = .resending item) :
    ∃ requests, s.requests.trySend item = some requests :=
  ⟨_, PacketRouter.trySend_eq_some.mpr ⟨⟨h.connected, h.room item htask⟩, rfl⟩⟩

theorem Invariant.advance (h : s.Invariant) : s.advance.Invariant := by
  unfold RequestQueue.advance
  split
  · exact h
  · rename_i item htask
    split
    · rename_i requests hsent
      exact h.push (by rw [htask]; rfl) (by rw [htask]; rfl) hsent
    · have hcount := h.count
      have hlast := h.last
      rw [htask] at hcount hlast
      refine ⟨h.connected, h.bounded, ?_, hlast, h.contents, h.newest, hcount, h.oldest, h.ordered,
        h.receipts, h.evictions⟩
      intro other hother
      cases hother
  · rename_i item htask
    exact h.evict htask
  · rename_i item htask
    obtain ⟨requests, hsent⟩ := h.resend htask
    rw [hsent]
    exact h.push (by rw [htask]; rfl) (by rw [htask]; rfl) hsent
  · rename_i htask
    have hcount := h.count
    rw [htask] at hcount
    refine ⟨h.connected, h.bounded, ?_, ?_, h.contents, h.newest, hcount, h.oldest, h.ordered,
      h.receipts, h.evictions⟩
    · intro other hother
      cases hother
    · intro other hother
      cases hother

theorem invariant_step (hstep : Step s t) (h : s.Invariant) : t.Invariant := by
  cases hstep with
  | call source packet hidle hquery => exact h.call hidle (source, packet)
  | advance hbusy => exact h.advance
  | receive receiver hitem => exact h.receive receiver hitem

/-- What the queue promises: `placed` is about the last packet when its delivery returns, and
`lost` about the packets of all deliveries that have sent theirs. -/
structure NewestKept (s : RequestQueue) : Prop where
  bounded : s.requests.waiting.length ≤ maxDequeSize
  resent : ∀ item, s.task = .resending item → ∃ requests, s.requests.trySend item = some requests
  placed : ∀ last, s.delivered.length = last + 1 → s.task = .returning ∨ s.task = .idle →
    last ∈ s.queued ∨ last ∈ s.received.map Receipt.delivery
  waiting : s.queued.map (s.delivered[·]?) = s.requests.waiting.map some
  receipts : ∀ receipt ∈ s.received, s.delivered[receipt.delivery]? = some receipt.item
  ordered : (s.received.map Receipt.delivery ++ s.queued).Pairwise (· < ·)
  newest : ∃ first, s.queued = List.range' first s.queued.length ∧
    first + s.queued.length + s.task.pending = s.delivered.length
  lost : ∀ delivery, delivery + s.task.pending < s.delivered.length → delivery ∉ s.queued →
    delivery ∉ s.received.map Receipt.delivery →
    ∃ eviction ∈ s.evicted, eviction.delivery = delivery ∧ delivery < eviction.during

/-- A packet that was sent waits, or has left the queue in one of two ways. -/
theorem Invariant.places (h : s.Invariant) {delivery : ℕ}
    (hsent : delivery + s.task.pending < s.delivered.length) :
    delivery ∈ s.queued ∨ delivery ∈ s.received.map Receipt.delivery ∨
      ∃ eviction ∈ s.evicted, eviction.delivery = delivery := by
  have hcount := h.count
  by_cases htaken : delivery < s.taken
  · have hmem := h.oldest.mem_iff.mpr (List.mem_range.mpr htaken)
    rcases List.mem_append.mp hmem with hreceived | hevicted
    · exact Or.inr (Or.inl hreceived)
    · exact Or.inr (Or.inr (List.mem_map.mp hevicted))
  · refine Or.inl ?_
    rw [h.newest, List.mem_range'_1]
    omega

theorem Invariant.newestKept (h : s.Invariant) : s.NewestKept where
  bounded := h.bounded
  resent := fun _ => h.resend
  placed := by
    intro last hlast htask
    have hnone : s.task.pending = 0 := by
      rcases htask with htask | htask <;> rw [htask] <;> rfl
    rcases h.places (show last + s.task.pending < s.delivered.length by omega) with
      hqueued | hreceived | ⟨eviction, hmem, heq⟩
    · exact Or.inl hqueued
    · exact Or.inr hreceived
    · -- nothing is delivered after the last packet
      obtain ⟨hless, hduring⟩ := h.evictions eviction hmem
      omega
  waiting := h.contents
  receipts := h.receipts
  ordered := by
    rw [List.pairwise_append]
    refine ⟨h.ordered, ?_, ?_⟩
    · rw [h.newest]
      exact List.pairwise_lt_range'
    · intro earlier hearlier later hlater
      have hbefore := h.taken_before hearlier
      rw [h.newest, List.mem_range'_1] at hlater
      omega
  newest := ⟨s.taken, h.newest, h.count⟩
  lost := by
    intro delivery hsent hqueued hreceived
    rcases h.places hsent with hmem | hmem | ⟨eviction, hmem, rfl⟩
    · exact absurd hmem hqueued
    · exact absurd hmem hreceived
    · exact ⟨eviction, hmem, rfl, (h.evictions eviction hmem).1⟩

/-- What a call of `deliver` that began at `s` promises after `k` operations of its own: `goes` and
`returns` say that it never hangs, `steps` that nothing but its operations and receives can happen
before it returns. -/
structure Delivers (s : RequestQueue) (k : ℕ) (t : RequestQueue) : Prop where
  bounded : k ≤ 3
  goes : t.task = .returning ∨ k < 3 ∧ Step t t.advance ∧ During s (k + 1) t.advance
  returns : t.task = .returning → Step t t.advance ∧ t.advance.task = .idle
  placed : t.task = .returning →
    s.current ∈ t.queued ∨ s.current ∈ t.received.map Receipt.delivery
  steps : t.task ≠ .returning → ∀ u, Step t u → During s k u ∨ During s (k + 1) u

theorem pending_ne_idle {task : Delivering} (h : task.pending = 1) : task ≠ .idle := by
  rintro rfl
  cases h

theorem operationsLeft_pos {task : Delivering} (h : task.pending = 1) :
    0 < task.operationsLeft := by
  cases task with
  | idle => cases h
  | returning => cases h
  | _ => exact Nat.zero_lt_succ _

theorem delivered_advance (s : RequestQueue) : s.advance.delivered = s.delivered := by
  unfold advance
  split
  · rfl
  · split <;> rfl
  · rfl
  · split <;> rfl
  · rfl

/-- Each operation of a call brings it nearer to its end, whatever its result is. -/
theorem operationsLeft_advance (hbusy : s.task.pending = 1) :
    s.advance.task.operationsLeft < s.task.operationsLeft ∧
      (s.advance.task.pending = 1 ∨ s.advance.task = .returning) := by
  cases htask : s.task with
  | idle =>
    rw [htask] at hbusy
    cases hbusy
  | returning =>
    rw [htask] at hbusy
    cases hbusy
  | sending item =>
    rw [advance, htask]
    dsimp only
    cases s.requests.trySend item with
    | some requests => exact ⟨Nat.zero_lt_succ _, Or.inr rfl⟩
    | none => exact ⟨Nat.lt_succ_self _, Or.inl rfl⟩
  | full item =>
    rw [advance, htask]
    exact ⟨Nat.lt_succ_self _, Or.inl rfl⟩
  | resending item =>
    rw [advance, htask]
    dsimp only
    cases s.requests.trySend item with
    | some requests => exact ⟨Nat.zero_lt_succ _, Or.inr rfl⟩
    | none => exact ⟨Nat.zero_lt_succ _, Or.inr rfl⟩

/-- What does not change while a call is under way, and how far it has come. -/
theorem During.kept {k : ℕ} (h : During s k t) (hs : s.Invariant)
    (hcalled : ∃ item, s.task = .sending item) :
    t.Invariant ∧ t.delivered = s.delivered ∧ k + t.task.operationsLeft ≤ 3 ∧
      (t.task.pending = 1 ∨ t.task = .returning) := by
  induction h with
  | start =>
    obtain ⟨item, hitem⟩ := hcalled
    rw [hitem]
    exact ⟨hs, rfl, Nat.le_refl _, Or.inl rfl⟩
  | @operation k t _ hbusy ih =>
    obtain ⟨hinvariant, hdelivered, hleft, _⟩ := ih
    obtain ⟨hless, htask⟩ := operationsLeft_advance hbusy
    exact ⟨hinvariant.advance, (delivered_advance t).trans hdelivered, by omega, htask⟩
  | receive _ receiver hitem ih =>
    obtain ⟨hinvariant, hdelivered, hleft, htask⟩ := ih
    exact ⟨hinvariant.receive receiver hitem, hdelivered, hleft, htask⟩

theorem During.delivers {k : ℕ} (h : During s k t) (hs : s.Invariant)
    (hcalled : ∃ item, s.task = .sending item) : Delivers s k t := by
  obtain ⟨hinvariant, hdelivered, hleft, htask⟩ := h.kept hs hcalled
  refine ⟨by omega, ?_, ?_, ?_, ?_⟩
  · rcases htask with hbusy | hreturning
    · have hpos := operationsLeft_pos hbusy
      exact Or.inr ⟨by omega, .advance (pending_ne_idle hbusy), .operation h hbusy⟩
    · exact Or.inl hreturning
  · intro hreturning
    refine ⟨.advance ?_, ?_⟩
    · rw [hreturning]
      simp
    · rw [advance, hreturning]
  · intro hreturning
    have hlength : t.delivered.length = s.current + 1 := by
      obtain ⟨item, hitem⟩ := hcalled
      have hlast := hs.last item (by rw [hitem]; rfl)
      have hpos := List.length_pos_of_ne_nil (List.ne_nil_of_mem (List.mem_of_getLast? hlast))
      rw [hdelivered, current]
      omega
    exact hinvariant.newestKept.placed s.current hlength (Or.inl hreturning)
  · intro hnot u hstep
    have hbusy := htask.resolve_right hnot
    cases hstep with
    | call source packet hidle hquery => exact absurd hidle (pending_ne_idle hbusy)
    | advance => exact Or.inr (.operation h hbusy)
    | receive receiver hitem => exact Or.inl (.receive h receiver hitem)

/-- In every state that any order of deliveries and receives leads to, the queue has the newest
queries in their order, and an older one was received or made room for a later one. A delivery that
has begun returns after at most three operations of its own, whatever the receivers do meanwhile,
and its packet is then in the queue or received. -/
theorem request_queue_keeps_newest {n : ℕ} (h : Run Step n initial s) :
    s.NewestKept ∧
      ∀ item, s.task = .sending item → ∀ k t, During s k t → Delivers s k t := by
  have hinvariant := h.invariant (fun _ _ => invariant_step) invariant_initial
  refine ⟨hinvariant.newestKept, ?_⟩
  intro item hitem k t hduring
  exact hduring.delivers hinvariant ⟨item, hitem⟩

/-- Operations that nobody interrupts make up the delivery of the router. -/
theorem advance_deliverRequest {router : PacketRouter} {item : Received}
    (hrequests : router.requests = s.requests) (htask : s.task = .sending item) :
    ∃ k, (RequestQueue.advance^[k] s).task = .returning ∧
      (RequestQueue.advance^[k] s).requests = (router.deliverRequest item).requests := by
  unfold PacketRouter.deliverRequest
  rw [hrequests]
  cases hsent : s.requests.trySend item with
  | some requests =>
    refine ⟨1, ?_⟩
    simp [RequestQueue.advance, htask, hsent]
  | none =>
    refine ⟨3, ?_⟩
    cases hagain : s.requests.tryRecv.2.trySend item with
    | some requests => simp [RequestQueue.advance, htask, hsent, hagain]
    | none => simp [RequestQueue.advance, htask, hsent, hagain]

end Steps

section Sample

attribute [local instance] plainHome

def numberedRequest (k : ℕ) : Received := (.v4 ⟨0x0A000001, UInt16.ofNat k⟩, Packet.default)

/-- The first `k` queries wait and nobody has received any. -/
def filledQueue (k : ℕ) : RequestQueue where
  requests := ⟨(List.range k).map numberedRequest, true⟩
  task := .idle
  delivered := (List.range k).map numberedRequest
  queued := List.range k
  received := []
  evicted := []

/-- The next query is to be delivered. -/
def calledQueue (k : ℕ) : RequestQueue :=
  { filledQueue k with
    task := .sending (numberedRequest k)
    delivered := (List.range k).map numberedRequest ++ [numberedRequest k] }

theorem call_filledQueue (k : ℕ) : Step (filledQueue k) (calledQueue k) :=
  .call (.v4 ⟨0x0A000001, UInt16.ofNat k⟩) Packet.default rfl (by decide)

/-- There is room for the packet. -/
theorem advance_calledQueue {k : ℕ} (hk : k < maxDequeSize) :
    (calledQueue k).advance = { filledQueue (k + 1) with task := .returning } := by
  have hsent : (calledQueue k).requests.trySend (numberedRequest k) =
      some ⟨(List.range k).map numberedRequest ++ [numberedRequest k], true⟩ :=
    PacketRouter.trySend_eq_some.mpr ⟨⟨rfl, by simpa [calledQueue, filledQueue] using hk⟩, rfl⟩
  have htask : (calledQueue k).task = .sending (numberedRequest k) := rfl
  rw [advance, htask]
  dsimp only
  rw [hsent]
  simp [calledQueue, filledQueue, current, List.range_succ]

theorem filledQueue_reachable {k : ℕ} (hk : k ≤ maxDequeSize) :
    Run Step (3 * k) initial (filledQueue k) := by
  induction k with
  | zero => exact .refl _
  | succ k ih =>
    have hcalled := (ih (Nat.le_of_succ_le hk)).tail (call_filledQueue k)
    have hsent := hcalled.tail (.advance (pending_ne_idle rfl))
    rw [advance_calledQueue hk] at hsent
    exact hsent.tail (.advance (by simp))

/-- The queue is full, so the oldest query makes room for the 65th. -/
theorem request_queue_keeps_newest_full :
    ∃ t, Run Step 193 initial (calledQueue 64) ∧ During (calledQueue 64) 3 t ∧
      t.task = .returning ∧ t.evicted = [⟨0, 64⟩] ∧ t.queued = List.range' 1 64 ∧
      Delivers (calledQueue 64) 3 t ∧ t.NewestKept := by
  have hcalled : Run Step 193 initial (calledQueue 64) :=
    (filledQueue_reachable (Nat.le_refl _)).tail (call_filledQueue 64)
  have hsend : During (calledQueue 64) 1 (calledQueue 64).advance := .operation .start rfl
  have hevict : During (calledQueue 64) 2 (calledQueue 64).advance.advance := .operation hsend rfl
  have hresend : During (calledQueue 64) 3 (calledQueue 64).advance.advance.advance :=
    .operation hevict rfl
  have hrun : Run Step 196 initial (calledQueue 64).advance.advance.advance :=
    ((hcalled.tail (.advance (pending_ne_idle rfl))).tail (.advance (pending_ne_idle rfl))).tail
      (.advance (pending_ne_idle rfl))
  refine ⟨_, hcalled, hresend, rfl, rfl, rfl, ?_, ?_⟩
  · exact (request_queue_keeps_newest hcalled).2 _ rfl 3 _ hresend
  · exact (request_queue_keeps_newest hrun).1

end Sample

end RequestQueue

end Ddns
