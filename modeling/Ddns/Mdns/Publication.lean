import Ddns.Core.NameWriter
import Ddns.Mdns.Service

/-! Whole runs of one mDNS resolver: a query finds what was published last. -/
namespace Ddns

open Nom

/-- A lower-case name of the overlay. -/
structure DhttpName (name : Name) : Prop where
  lowerCase : Text.toAsciiLowercase name = name
  labels : ∃ labels, labels ≠ [] ∧ WellFormedLabels labels ∧ name = dotJoin labels ++ dhttpSuffixText

section LocalNames

variable [DhttpHome] {serviceName name other : Name}

theorem localName_append (serviceName stem : Name) :
    localName serviceName (stem ++ dhttpSuffixText) = stem ++ '.' :: serviceName := by
  have hstrip : DhttpHome.dhttpSuffix.isSuffixOf? (stem ++ dhttpSuffixText) = some stem := by
    rw [DhttpHome.dhttpSuffix_eq]
    exact List.isSuffixOf?_eq_some_iff_append_eq.mpr rfl
  rw [localName, hstrip]

theorem DhttpName.localName_eq (h : DhttpName name) (serviceName : Name) :
    ∃ labels, labels ≠ [] ∧ WellFormedLabels labels ∧ name = dotJoin labels ++ dhttpSuffixText ∧
      localName serviceName name = dotJoin labels ++ '.' :: serviceName := by
  obtain ⟨labels, hne, hw, rfl⟩ := h.labels
  exact ⟨labels, hne, hw, rfl, localName_append serviceName _⟩

/-- Different names have different local names. -/
theorem DhttpName.localName_injective (h : DhttpName name) (h' : DhttpName other)
    (heq : localName serviceName name = localName serviceName other) : name = other := by
  obtain ⟨labels, _, _, rfl, hlocal⟩ := h.localName_eq serviceName
  obtain ⟨labels', _, _, rfl, hlocal'⟩ := h'.localName_eq serviceName
  rw [hlocal, hlocal'] at heq
  rw [List.append_cancel_right heq]

/-- The querier computes the local name that the publisher uses. -/
theorem DhttpName.queryName_eq (h : DhttpName name) (serviceName : Name) :
    queryName serviceName name = localName serviceName name := by
  have htrim : Text.trimEndMatches (· = '.') name = name := by
    obtain ⟨labels, _, _, rfl⟩ := h.labels
    have hlast : dotJoin labels ++ dhttpSuffixText =
        (dotJoin labels ++ dhttpSuffixText.dropLast) ++ ['t'] := by
      rw [List.append_assoc]
      rfl
    rw [hlast]
    exact List.rdropWhile_concat_neg _ _ _ (by decide)
  rw [queryName, htrim, h.lowerCase]

omit [DhttpHome] in
theorem serviceName_labels (h : validServiceName serviceName = true) :
    WellFormedLabels (serviceName.splitOn '.') := by
  intro label hlabel
  simp only [validServiceName, Bool.decide_and, Bool.and_eq_true, decide_eq_true_eq,
    List.all_eq_true] at h
  obtain ⟨hne, hshort, _⟩ := h.2.2 label hlabel
  exact ⟨hne, Text.not_mem_of_mem_splitOn hlabel, hshort⟩

omit [DhttpHome] in
/-- A service name does not end as a name of the overlay does. -/
theorem serviceName_last (h : validServiceName serviceName = true) :
    ∃ start last, serviceName = start ++ [last] ∧ last.toLower = 'l' := by
  simp only [validServiceName, Bool.decide_and, Bool.and_eq_true, decide_eq_true_eq] at h
  obtain ⟨front, hfront⟩ := List.isSuffixOf_iff_suffix.mp h.2.1
  rw [show localText = localText.dropLast ++ ['l'] from rfl, ← List.append_assoc,
    Text.toAsciiLowercase] at hfront
  obtain ⟨start, last, rfl, _, hlast⟩ := List.map_eq_append_iff.mp hfront.symm
  obtain ⟨c, rfl, hc⟩ := List.map_eq_singleton_iff.mp hlast
  exact ⟨start, c, rfl, hc⟩

/-- The responder leaves the local names in its table as they are. -/
theorem DhttpName.localName_localName (h : DhttpName name)
    (hs : validServiceName serviceName = true) :
    localName serviceName (localName serviceName name) = localName serviceName name := by
  obtain ⟨labels, _, _, _, hlocal⟩ := h.localName_eq serviceName
  obtain ⟨start, last, hservice, hlast⟩ := serviceName_last hs
  rw [hlocal]
  cases hstrip : DhttpHome.dhttpSuffix.isSuffixOf? (dotJoin labels ++ '.' :: serviceName) with
  | none => rw [localName, hstrip]
  | some stem =>
    have heq := List.isSuffixOf?_eq_some_iff_append_eq.mp hstrip
    rw [DhttpHome.dhttpSuffix_eq, hservice] at heq
    have hends := congrArg List.getLast? heq
    rw [show dhttpSuffixText = dhttpSuffixText.dropLast ++ ['t'] from rfl, ← List.append_assoc,
      ← List.cons_append, ← List.append_assoc, List.getLast?_concat, List.getLast?_concat] at hends
    rw [← Option.some.inj hends] at hlast
    exact absurd hlast (by decide)

theorem DhttpName.localName_wellFormed (h : DhttpName name)
    (hs : validServiceName serviceName = true) : WellFormedName (localName serviceName name) := by
  obtain ⟨labels, hne, hw, _, hlocal⟩ := h.localName_eq serviceName
  have hws := serviceName_labels hs
  have hservice : dotJoin (serviceName.splitOn '.') = serviceName := List.intercalate_splitOn '.'
  refine Or.inr ⟨labels ++ serviceName.splitOn '.', ?_, ?_, ?_⟩
  · exact List.append_ne_nil_of_left_ne_nil hne _
  · intro label hlabel
    rcases List.mem_append.mp hlabel with hlabel | hlabel
    · exact hw label hlabel
    · exact hws label hlabel
  · rw [dotJoin_append hne (List.splitOn_ne_nil _ _), hservice, hlocal]

end LocalNames

section Answers

variable [DhttpHome]

/-- The records of a name among the answers for one host. -/
theorem endpoints_of_host (name : Name) (host : Name × List EndpointAddr) :
    ((host.2.map (answerRecord host.1)).filter fun answer => answer.name = name).filterMap
        (fun answer => endpointOf answer.data) = if host.1 = name then host.2 else [] := by
  by_cases hn : host.1 = name
  · rw [if_pos hn, List.filter_eq_self.mpr (by simp [answerRecord, hn]), List.filterMap_map]
    exact List.filterMap_some
  · rw [if_neg hn, List.filter_eq_nil_iff.mpr (by simp [answerRecord, hn]), List.filterMap_nil]

theorem queryEndpoints_answerRecords {p : Packet} {entries : List (Name × List EndpointAddr)}
    (h : p.answers = answerRecords entries) (name : Name) :
    queryEndpoints name p = entries.flatMap fun host => if host.1 = name then host.2 else [] := by
  rw [queryEndpoints, h, answerRecords]
  clear h
  induction entries with
  | nil => rfl
  | cons host entries ih =>
    rw [List.flatMap_cons, List.filter_append, List.filterMap_append, endpoints_of_host, ih,
      List.flatMap_cons]

/-- With distinct keys, only the entry of the name counts. -/
theorem flatMap_entry {entries : List (Name × List EndpointAddr)} (name : Name)
    (hnodup : (entries.map Prod.fst).Nodup) :
    (∀ records, (name, records) ∈ entries →
        (entries.flatMap fun host => if host.1 = name then host.2 else []) = records) ∧
      (name ∉ entries.map Prod.fst →
        (entries.flatMap fun host => if host.1 = name then host.2 else []) = []) := by
  induction entries with
  | nil => exact ⟨fun records h => absurd h List.not_mem_nil, fun _ => rfl⟩
  | cons host entries ih =>
    rw [List.map_cons, List.nodup_cons] at hnodup
    obtain ⟨hsome, hnone⟩ := ih hnodup.2
    refine ⟨?_, ?_⟩
    · intro records hmem
      rw [List.flatMap_cons]
      rcases List.mem_cons.mp hmem with rfl | hmem
      · rw [if_pos rfl, hnone hnodup.1, List.append_nil]
      · have hne : host.1 ≠ name := by
          rintro rfl
          exact hnodup.1 (List.mem_map.mpr ⟨_, hmem, rfl⟩)
        rw [if_neg hne, hsome records hmem, List.nil_append]
    · intro hnot
      rw [List.map_cons, List.mem_cons, not_or] at hnot
      rw [List.flatMap_cons, if_neg (Ne.symm hnot.1), hnone hnot.2, List.nil_append]

/-- Whatever the order of the iterator, the answers for a name are the entry of the table. -/
theorem flatMap_lookup {hosts : HostRecords} {entries : List (Name × List EndpointAddr)}
    (horder : entries.Perm (hostEntries hosts)) (name : Name) :
    (entries.flatMap fun host => if host.1 = name then host.2 else []) =
      (hosts.lookup name).getD [] := by
  have hkeys : (hostEntries hosts).map Prod.fst = hosts.keys := by
    rw [hostEntries, List.map_map]
    rfl
  have hnodup : (entries.map Prod.fst).Nodup := by
    refine (horder.map Prod.fst).nodup_iff.mpr ?_
    rw [hkeys]
    exact hosts.keys_nodup
  obtain ⟨hsome, hnone⟩ := flatMap_entry name hnodup
  cases hl : hosts.lookup name with
  | none =>
    refine hnone fun hmem => ?_
    have hmem' := ((horder.map Prod.fst).mem_iff).mp hmem
    rw [hkeys] at hmem'
    exact AList.lookup_eq_none.mp hl (AList.mem_keys.mpr hmem')
  | some records =>
    refine hsome records (horder.mem_iff.mpr ?_)
    exact List.mem_map.mpr ⟨⟨name, records⟩, AList.mem_lookup_iff.mp hl, rfl⟩

end Answers

section Runs

variable [DhttpHome] [SubjectKey] [Crypto]

inductive MdnsCall where
  | publish (identity : LocalAuthority) (name : Name) (endpoints : List DquicEndpointAddr)
  | remove (name : Name)

/-- The state that a call leaves, whether it fails or not. -/
def MdnsResolver.call (resolver : MdnsResolver) : MdnsCall → MdnsResolver
  | .publish identity name endpoints => (resolver.publishEndpoints identity name endpoints).2
  | .remove name => resolver.removeName name

def MdnsResolver.run (resolver : MdnsResolver) (calls : List MdnsCall) : MdnsResolver :=
  calls.foldl MdnsResolver.call resolver

/-- The call is for a name of the overlay, with endpoints that a record can hold. -/
def MdnsCall.Legal : MdnsCall → Prop
  | .publish _ name endpoints => DhttpName name ∧ ∀ endpoint ∈ endpoints, endpoint.Plain
  | .remove name => DhttpName name

/-- What a call makes of the current records of `name`. -/
def MdnsCall.effect (name : Name) (current : List EndpointAddr) : MdnsCall → List EndpointAddr
  | .publish identity target endpoints =>
    if target = name then
      match MdnsResolver.publishRecords identity target endpoints with
      | .ok records => records
      | .error _ => current
    else current
  | .remove target => if target = name then [] else current

/-- The records of the last successful publication of `name`, unless it was removed since. -/
def currentRecords (name : Name) (calls : List MdnsCall) : List EndpointAddr :=
  calls.foldl (MdnsCall.effect name) []

/-- The table holds the current records of every name, and nothing else. -/
structure MdnsResolver.Holds (resolver : MdnsResolver) (current : Name → List EndpointAddr) :
    Prop where
  entries : ∀ entry ∈ resolver.hosts.entries,
    (∃ name, DhttpName name ∧ entry.1 = localName resolver.serviceName name) ∧
      ∀ record ∈ entry.2, record.Publishable
  lookup : ∀ name, DhttpName name →
    resolver.hosts.lookup (localName resolver.serviceName name) =
      if current name = [] then none else some (current name)

theorem MdnsResolver.call_serviceName (resolver : MdnsResolver) (c : MdnsCall) :
    (resolver.call c).serviceName = resolver.serviceName := by
  cases c with
  | remove name => rfl
  | publish identity name endpoints =>
    simp only [MdnsResolver.call, MdnsResolver.publishEndpoints]
    cases MdnsResolver.publishRecords identity name endpoints with
    | error e => rfl
    | ok records =>
      dsimp only
      split <;> rfl

theorem MdnsResolver.run_serviceName (resolver : MdnsResolver) (calls : List MdnsCall) :
    (resolver.run calls).serviceName = resolver.serviceName := by
  induction calls generalizing resolver with
  | nil => rfl
  | cons c calls ih => exact (ih (resolver.call c)).trans (resolver.call_serviceName c)

theorem publishRecords_publishable {identity : LocalAuthority} {name : Name}
    {endpoints : List DquicEndpointAddr} {records : List EndpointAddr}
    (h : MdnsResolver.publishRecords identity name endpoints = .ok records)
    (hp : ∀ endpoint ∈ endpoints, endpoint.Plain) : ∀ record ∈ records, record.Publishable := by
  unfold MdnsResolver.publishRecords at h
  split at h
  · cases h
  split at h
  · cases h
  split at h
  · cases h
  · rename_i encoded hencoded
    obtain rfl := Except.ok.inj h
    obtain ⟨_, chain, _, hstamped⟩ := dnsEndpointsForAuthority_ok hencoded hp
    intro record hrecord
    exact Stamped.publishable_of_mem hstamped hrecord

omit [SubjectKey] [Crypto] in
theorem holds_new (serviceName : Name) (valid : validServiceName serviceName = true) :
    (MdnsResolver.new serviceName valid).Holds fun _ => [] :=
  ⟨fun _ h => absurd h List.not_mem_nil, fun _ _ => rfl⟩

omit [SubjectKey] [Crypto] in
theorem MdnsResolver.Holds.removeName {resolver : MdnsResolver}
    {current : Name → List EndpointAddr} (h : resolver.Holds current) {target : Name}
    (ht : DhttpName target) :
    (resolver.removeName target).Holds fun name => if target = name then [] else current name := by
  refine ⟨?_, ?_⟩
  · intro entry hentry
    exact h.entries entry ((List.kerase_sublist _ _).subset hentry)
  · intro name hname
    show (resolver.hosts.erase _).lookup (localName resolver.serviceName name) = _
    by_cases hsame : target = name
    · rw [hsame, AList.lookup_erase, if_pos rfl, if_pos rfl]
    · have hne : localName resolver.serviceName name ≠ localName resolver.serviceName target :=
        fun heq => hsame (hname.localName_injective ht heq).symm
      rw [AList.lookup_erase_ne hne, h.lookup name hname, if_neg hsame]

omit [SubjectKey] [Crypto] in
theorem MdnsResolver.Holds.insertHost {resolver : MdnsResolver}
    {current : Name → List EndpointAddr} (h : resolver.Holds current) {target : Name}
    (ht : DhttpName target) {records : List EndpointAddr} (hne : records ≠ [])
    (hrecords : ∀ record ∈ records, record.Publishable) :
    (resolver.insertHost target records).Holds fun name =>
      if target = name then records else current name := by
  refine ⟨?_, ?_⟩
  · intro entry hentry
    have hentry' : entry ∈ (resolver.hosts.insert (localName resolver.serviceName target)
      records).entries := hentry
    rw [AList.entries_insert] at hentry'
    rcases List.mem_cons.mp hentry' with rfl | hold
    · exact ⟨⟨target, ht, rfl⟩, hrecords⟩
    · exact h.entries entry ((List.kerase_sublist _ _).subset hold)
  · intro name hname
    show (resolver.hosts.insert _ _).lookup (localName resolver.serviceName name) = _
    by_cases hsame : target = name
    · rw [hsame, AList.lookup_insert, if_pos rfl, if_neg hne]
    · have hdiff : localName resolver.serviceName name ≠ localName resolver.serviceName target :=
        fun heq => hsame (hname.localName_injective ht heq).symm
      rw [AList.lookup_insert_ne hdiff, h.lookup name hname, if_neg hsame]

/-- One call changes the records of its own name, and only when it succeeds. -/
theorem MdnsResolver.Holds.call {resolver : MdnsResolver} {current : Name → List EndpointAddr}
    (h : resolver.Holds current) {c : MdnsCall} (hc : c.Legal) :
    (resolver.call c).Holds fun name => c.effect name (current name) := by
  cases c with
  | remove target => exact h.removeName hc
  | publish identity target endpoints =>
    obtain ⟨htarget, hplain⟩ := hc
    simp only [MdnsResolver.call, MdnsResolver.publishEndpoints, MdnsCall.effect]
    cases hrecords : MdnsResolver.publishRecords identity target endpoints with
    | error e =>
      simp only [ite_self]
      exact h
    | ok records =>
      dsimp only
      by_cases hempty : records = []
      · rw [if_pos hempty, hempty]
        exact h.removeName htarget
      · rw [if_neg hempty]
        exact h.insertHost htarget hempty (publishRecords_publishable hrecords hplain)

theorem MdnsResolver.Holds.run {resolver : MdnsResolver} {current : Name → List EndpointAddr}
    (h : resolver.Holds current) {calls : List MdnsCall} (hc : ∀ c ∈ calls, c.Legal) :
    (resolver.run calls).Holds fun name => calls.foldl (MdnsCall.effect name) (current name) := by
  induction calls generalizing resolver current with
  | nil => exact h
  | cons c calls ih =>
    exact ih (h.call (hc c List.mem_cons_self)) fun c' hc' => hc c' (List.mem_cons_of_mem _ hc')

omit [SubjectKey] [Crypto] in
/-- The table can be sent as an answer. -/
theorem MdnsResolver.Holds.isAnswer {resolver : MdnsResolver}
    {current : Name → List EndpointAddr} (h : resolver.Holds current)
    {entries : List (Name × List EndpointAddr)} (horder : entries.Perm (hostEntries resolver.hosts)) :
    ∀ r ∈ answerRecords entries, r.IsAnswer := by
  intro r hr
  refine isAnswer_of_mem ?_ hr
  intro host hhost
  obtain ⟨entry, hentry, rfl⟩ := List.mem_map.mp (horder.mem_iff.mp hhost)
  obtain ⟨⟨name, hname, hlocal⟩, hrecords⟩ := h.entries entry hentry
  refine ⟨?_, hrecords⟩
  rw [show (entry.1, entry.2).1 = entry.1 from rfl, hlocal]
  exact hname.localName_wellFormed resolver.valid

omit [SubjectKey] [Crypto] in
/-- A query for a well-formed name reaches the responder as it was sent. -/
theorem bePacket_query (id : UInt16) {name : Name} (h : WellFormedName name) :
    bePacket (wholeSlice (Packet.queryWithId id name).toBytes) =
      .ok ⟨(Packet.queryWithId id name).toBytes.length, []⟩ (Packet.queryWithId id name) := by
  have hwf : (Packet.queryWithId id name).WellFormed := by
    refine ⟨rfl, rfl, rfl, rfl, ?_, fun r hr => absurd hr List.not_mem_nil,
      fun n hn => absurd hn List.not_mem_nil⟩
    intro q hq
    rw [List.mem_singleton.mp hq]
    exact h
  have hread := bePacket_toBytes _ hwf []
  rw [List.append_nil] at hread
  exact hread

omit [SubjectKey] [Crypto] in
/-- The responder answers every query for a name that is in its table. -/
theorem respond_isSome {resolver : MdnsResolver} {name : Name} (hname : DhttpName name)
    (hhost : (resolver.hosts.lookup (localName resolver.serviceName name)).isSome)
    (entries : List (Name × List EndpointAddr)) (id : UInt16) :
    (resolver.respond entries
      (Packet.queryWithId id (localName resolver.serviceName name))).isSome := by
  have hkey : localName resolver.serviceName name ∈
      resolver.hosts.keys.map (localName resolver.serviceName) := by
    refine List.mem_map.mpr ⟨localName resolver.serviceName name, ?_, ?_⟩
    · exact AList.mem_keys.mp (AList.lookup_isSome.mp hhost)
    · exact hname.localName_localName resolver.valid
  have hmatch : ((Packet.queryWithId id (localName resolver.serviceName name)).questions.any
      fun question => (resolver.hosts.keys.map (localName resolver.serviceName)).any
        fun local' => question.name <:+: local') = true := by
    refine List.any_eq_true.mpr ⟨_, List.mem_singleton.mpr rfl, ?_⟩
    exact List.any_eq_true.mpr ⟨_, hkey, decide_eq_true (List.infix_refl _)⟩
  rw [MdnsResolver.respond, if_pos hmatch]
  rfl

omit [SubjectKey] [Crypto] in
/-- An answer always carries the whole table. -/
theorem eq_of_respond {resolver : MdnsResolver} {entries : List (Name × List EndpointAddr)}
    {query answer : Packet} (h : resolver.respond entries query = some answer) :
    answer = Packet.answer query.header.id entries := by
  simp only [MdnsResolver.respond] at h
  split at h
  · exact (Option.some.inj h).symm
  · cases h

/-- After any run, a query is answered when the name is published, and the answer holds exactly
the records of its last publication. -/
theorem query_finds_last_publication (serviceName : Name)
    (valid : validServiceName serviceName = true) (calls : List MdnsCall)
    (hcalls : ∀ c ∈ calls, c.Legal) (name : Name) (hname : DhttpName name)
    (entries : List (Name × List EndpointAddr))
    (horder : entries.Perm (hostEntries ((MdnsResolver.new serviceName valid).run calls).hosts))
    (id : UInt16) :
    ∃ remain query,
      bePacket (wholeSlice (Packet.queryWithId id (queryName serviceName name)).toBytes) =
        .ok remain query ∧
      (currentRecords name calls ≠ [] →
        (((MdnsResolver.new serviceName valid).run calls).respond entries query).isSome) ∧
      ∀ answer, ((MdnsResolver.new serviceName valid).run calls).respond entries query =
          some answer → answer.answers.length ≤ 65535 →
        ∃ remain packet, bePacket (wholeSlice answer.toBytes) = .ok remain packet ∧
          queryEndpoints (queryName serviceName name) packet = currentRecords name calls := by
  have hholds := (holds_new serviceName valid).run hcalls
  have hservice : ((MdnsResolver.new serviceName valid).run calls).serviceName = serviceName :=
    MdnsResolver.run_serviceName _ calls
  generalize (MdnsResolver.new serviceName valid).run calls = resolver at hholds hservice horder ⊢
  have hlookup := hholds.lookup name hname
  rw [hservice] at hlookup
  rw [hname.queryName_eq]
  refine ⟨_, _, bePacket_query id (hname.localName_wellFormed valid), ?_, ?_⟩
  · intro hcurrent
    rw [← hservice]
    refine respond_isSome hname ?_ entries id
    rw [hservice, hlookup]
    exact (congrArg Option.isSome (if_neg hcurrent)).trans rfl
  · intro answer hanswer hcount
    obtain rfl : answer = Packet.answer id entries := eq_of_respond hanswer
    have honly := answersOnly_answer id entries
    have hall := hholds.isAnswer horder
    refine ⟨_, _, honly.bePacket_toBytes hall (honly.answers ▸ hcount), ?_⟩
    rw [queryEndpoints_answerRecords honly.answers, flatMap_lookup horder, hlookup]
    show Option.getD (if currentRecords name calls = [] then none else _) [] = _
    by_cases hcurrent : currentRecords name calls = []
    · rw [if_pos hcurrent, hcurrent]
      rfl
    · rw [if_neg hcurrent]
      rfl

end Runs

section Sample

attribute [local instance] plainHome plainCrypto plainSubjectKey

/-- The name `a.dhttp.net` -/
def mdnsHost : Name := 'a' :: dhttpSuffixText

/-- The name `b.a.dhttp.net` -/
def mdnsSubhost : Name := 'b' :: '.' :: 'a' :: dhttpSuffixText

/-- Two hosts are published; a relay of mixed families and a foreign name are refused, and the
second host is removed again. -/
def mdnsCalls : List MdnsCall :=
  [.publish (plainAuthority mdnsHost) mdnsHost [.direct (.v4 ⟨0xCB00710A, 4433⟩)],
    .publish (plainAuthority mdnsSubhost) mdnsSubhost [.direct (.v4 ⟨0xCB00710B, 4433⟩)],
    .publish (plainAuthority mdnsHost) mdnsHost
      [.mediate (.v4 ⟨0x0A000001, 5353⟩) (.v6 ⟨1, 443, 0, 0⟩)],
    .publish (plainAuthority mdnsSubhost) mdnsHost [],
    .remove mdnsSubhost]

theorem dhttpName_mdnsHost : DhttpName mdnsHost :=
  ⟨by decide, [['a']], by decide, by decide, rfl⟩

theorem dhttpName_mdnsSubhost : DhttpName mdnsSubhost :=
  ⟨by decide, [['b'], ['a']], by decide, by decide, rfl⟩

theorem mdnsCalls_legal : ∀ c ∈ mdnsCalls, c.Legal := by
  intro c hc
  simp only [mdnsCalls, List.mem_cons, List.not_mem_nil, or_false] at hc
  rcases hc with rfl | rfl | rfl | rfl | rfl
  · exact ⟨dhttpName_mdnsHost, by simp [DquicEndpointAddr.Plain, SocketAddr.Plain]⟩
  · exact ⟨dhttpName_mdnsSubhost, by simp [DquicEndpointAddr.Plain, SocketAddr.Plain]⟩
  · exact ⟨dhttpName_mdnsHost, by simp [DquicEndpointAddr.Plain, SocketAddr.Plain]⟩
  · exact ⟨dhttpName_mdnsHost, by simp⟩
  · exact dhttpName_mdnsSubhost

/-- The resolver after these calls. -/
def mdnsResolver : MdnsResolver := (MdnsResolver.new ('s' :: localText) (by decide)).run mdnsCalls

/-- The first host is found with the endpoint that was published for it. -/
theorem query_finds_last_publication_mdnsHost :
    ∃ remain query record,
      bePacket (wholeSlice (Packet.queryWithId 7
        (queryName ('s' :: localText) mdnsHost)).toBytes) = .ok remain query ∧
      (mdnsResolver.respond (hostEntries mdnsResolver.hosts) query).isSome ∧
      DquicEndpointAddr.tryFrom record = some (.direct (.v4 ⟨0xCB00710A, 4433⟩)) ∧
      ∀ answer, mdnsResolver.respond (hostEntries mdnsResolver.hosts) query = some answer →
        answer.answers.length ≤ 65535 →
        ∃ remain packet, bePacket (wholeSlice answer.toBytes) = .ok remain packet ∧
          queryEndpoints (queryName ('s' :: localText) mdnsHost) packet = [record] := by
  obtain ⟨record, hrecords, hendpoint⟩ : ∃ record, currentRecords mdnsHost mdnsCalls = [record] ∧
      DquicEndpointAddr.tryFrom record = some (.direct (.v4 ⟨0xCB00710A, 4433⟩)) := ⟨_, rfl, rfl⟩
  obtain ⟨remain, query, hquery, hsome, hanswer⟩ := query_finds_last_publication ('s' :: localText)
    (by decide) mdnsCalls mdnsCalls_legal mdnsHost dhttpName_mdnsHost _ (List.Perm.refl _) 7
  rw [hrecords] at hsome hanswer
  exact ⟨remain, query, record, hquery, hsome (List.cons_ne_nil _ _), hendpoint, hanswer⟩

end Sample

end Ddns
