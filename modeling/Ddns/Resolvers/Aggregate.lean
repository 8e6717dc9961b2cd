import Ddns.Core.Endpoint
import Ddns.Library.Futures
import Ddns.Library.Transition

/-! The lookup that asks several resolvers at once and merges their answers. -/
namespace Ddns

open Futures Transition

abbrev LookupRecord (Source : Type) := Source × DquicEndpointAddr

/-- The lookup of one resolver: its label, and what it will answer. -/
abbrev PendingLookup (Source Error : Type) := Name × Except Error (List (LookupRecord Source))

structure LookupState (Source Error : Type) where
  pending : List (PendingLookup Source Error)
  streams : List (List (LookupRecord Source))
  seen : List (LookupRecord Source)

/-- What one turn of the loop of `next_unique_record` comes to. -/
inductive TurnResult (Source Error : Type) where
  | record (record : LookupRecord Source) (state : LookupState Source Error)
  | again (state : LookupState Source Error)
  | finished

/-- A call of `Resolvers::lookup` and the stream that it returns, with the items so far. -/
inductive AggregateLookup (Source Error : Type) where
  | waiting (state : LookupState Source Error) (errors : List (Name × Error))
  | failed (errors : List (Name × Error))
  | streaming (state : LookupState Source Error) (items : List (LookupRecord Source))
  | ended (items : List (LookupRecord Source))

variable {Source Error : Type}

namespace LookupState

/-- A resolver has answered; an error is only logged. -/
def completed (state : LookupState Source Error) (pending : List (PendingLookup Source Error)) :
    Option (PendingLookup Source Error) → LookupState Source Error
  | some (_, .ok records) =>
    { state with pending := pending, streams := state.streams ++ [records] }
  | some (_, .error _) => { state with pending := pending }
  | none => { state with pending := pending }

end LookupState

/-- One turn of the loop of `next_unique_record`: what is awaited depends on which of the two
collections is empty. When the futures win against the streams, the streams may have been
polled before. -/
inductive NextUniqueRecord (state : LookupState Source Error) : TurnResult Source Error → Prop
  | streamsRecord {record : LookupRecord Source} {streams : List (List (LookupRecord Source))}
    (hpending : state.pending = []) (hnext : SelectNext state.streams (some record) streams) :
    NextUniqueRecord state (.record record { state with streams := streams })
  | streamsNone {streams : List (List (LookupRecord Source))}
    (hpending : state.pending = []) (hnext : SelectNext state.streams none streams) :
    NextUniqueRecord state .finished
  | pending {result : Option (PendingLookup Source Error)}
    {pending : List (PendingLookup Source Error)}
    (hpending : state.pending ≠ []) (hstreams : state.streams = [])
    (hnext : UnorderedNext state.pending result pending) :
    NextUniqueRecord state (.again (state.completed pending result))
  | selectRecord {record : LookupRecord Source} {streams : List (List (LookupRecord Source))}
    (hpending : state.pending ≠ []) (hstreams : state.streams ≠ [])
    (hnext : SelectNext state.streams (some record) streams) :
    NextUniqueRecord state (.record record { state with streams := streams })
  | selectNone {streams : List (List (LookupRecord Source))}
    (hpending : state.pending ≠ []) (hstreams : state.streams ≠ [])
    (hnext : SelectNext state.streams none streams) :
    NextUniqueRecord state (.again { state with streams := streams })
  | selectPending {result : Option (PendingLookup Source Error)}
    {pending : List (PendingLookup Source Error)} {streams : List (List (LookupRecord Source))}
    (hpending : state.pending ≠ []) (hstreams : state.streams ≠ [])
    (hdropped : Dropped state.streams streams)
    (hnext : UnorderedNext state.pending result pending) :
    NextUniqueRecord state (.again ({ state with streams := streams }.completed pending result))

namespace AggregateLookup

variable [DecidableEq Source]

/-- What becomes of the stream after a turn: a record that was seen before is not returned. -/
def turned (items : List (LookupRecord Source)) :
    TurnResult Source Error → AggregateLookup Source Error
  | .record record state =>
    if record ∈ state.seen then .streaming state items
    else .streaming { state with seen := record :: state.seen } (items ++ [record])
  | .again state => .streaming state items
  | .finished => .ended items

def start (resolvers : List (PendingLookup Source Error)) : AggregateLookup Source Error :=
  .waiting ⟨resolvers, [], []⟩ []

inductive Step : AggregateLookup Source Error → AggregateLookup Source Error → Prop
  | answered {state : LookupState Source Error} {errors : List (Name × Error)} {label : Name}
    {records : List (LookupRecord Source)} {pending : List (PendingLookup Source Error)}
    (hnext : UnorderedNext state.pending (some (label, .ok records)) pending) :
    Step (.waiting state errors)
      (.streaming { state with pending := pending, streams := state.streams ++ [records] } [])
  | refused {state : LookupState Source Error} {errors : List (Name × Error)} {label : Name}
    {error : Error} {pending : List (PendingLookup Source Error)}
    (hnext : UnorderedNext state.pending (some (label, .error error)) pending) :
    Step (.waiting state errors)
      (.waiting { state with pending := pending } (errors ++ [(label, error)]))
  | exhausted {state : LookupState Source Error} {errors : List (Name × Error)}
    {pending : List (PendingLookup Source Error)}
    (hnext : UnorderedNext state.pending none pending) :
    Step (.waiting state errors) (.failed errors)
  | turn {state : LookupState Source Error} {items : List (LookupRecord Source)}
    {result : TurnResult Source Error} (hturn : NextUniqueRecord state result) :
    Step (.streaming state items) (turned items result)

end AggregateLookup

section Turns

variable {state : LookupState Source Error} {resolvers lookups : List (PendingLookup Source Error)}
  {pending : List (PendingLookup Source Error)} {streams : List (List (LookupRecord Source))}

/-- One of the resolvers answers with this record. -/
def Answers (lookups : List (PendingLookup Source Error)) (record : LookupRecord Source) : Prop :=
  ∃ label records, (label, Except.ok records) ∈ lookups ∧ record ∈ records

/-- The record is still to come. -/
def LookupState.Ahead (state : LookupState Source Error) (record : LookupRecord Source) : Prop :=
  record ∈ state.streams.flatten ∨ Answers state.pending record

/-- How many events a lookup brings: its completion, and those of its stream. -/
def PendingLookup.weight : PendingLookup Source Error → ℕ
  | (_, .ok records) => records.length + 2
  | (_, .error _) => 1

def LookupState.weight (state : LookupState Source Error) : ℕ :=
  (state.pending.map PendingLookup.weight).sum + Futures.weight state.streams

theorem answers_ok {label : Name} {records : List (LookupRecord Source)}
    (h : lookups.Perm ((label, .ok records) :: pending)) (record : LookupRecord Source) :
    Answers lookups record ↔ record ∈ records ∨ Answers pending record := by
  constructor
  · rintro ⟨label', records', hmem, hrecord⟩
    rcases List.mem_cons.mp (h.mem_iff.mp hmem) with heq | hmem
    · cases heq
      exact Or.inl hrecord
    · exact Or.inr ⟨label', records', hmem, hrecord⟩
  · rintro (hrecord | ⟨label', records', hmem, hrecord⟩)
    · exact ⟨label, records, h.mem_iff.mpr List.mem_cons_self, hrecord⟩
    · exact ⟨label', records', h.mem_iff.mpr (List.mem_cons_of_mem _ hmem), hrecord⟩

theorem answers_error {label : Name} {error : Error}
    (h : lookups.Perm ((label, .error error) :: pending)) (record : LookupRecord Source) :
    Answers lookups record ↔ Answers pending record := by
  constructor
  · rintro ⟨label', records', hmem, hrecord⟩
    rcases List.mem_cons.mp (h.mem_iff.mp hmem) with heq | hmem
    · cases heq
    · exact ⟨label', records', hmem, hrecord⟩
  · rintro ⟨label', records', hmem, hrecord⟩
    exact ⟨label', records', h.mem_iff.mpr (List.mem_cons_of_mem _ hmem), hrecord⟩

theorem weight_of_perm {lookup : PendingLookup Source Error}
    (h : lookups.Perm (lookup :: pending)) :
    (lookups.map PendingLookup.weight).sum =
      PendingLookup.weight lookup + (pending.map PendingLookup.weight).sum := by
  rw [(h.map _).sum_eq, List.map_cons, List.sum_cons]

/-- The answer of a resolver moves its records to the streams and nothing else. -/
theorem completed_spec (state : LookupState Source Error)
    {result : Option (PendingLookup Source Error)}
    (hnext : UnorderedNext state.pending result pending) (hne : state.pending ≠ []) :
    (state.completed pending result).seen = state.seen ∧
      (∀ record, (state.completed pending result).Ahead record ↔ state.Ahead record) ∧
      (state.completed pending result).weight < state.weight := by
  cases result with
  | none => exact absurd (unorderedNext_none hnext).1 hne
  | some lookup =>
    obtain ⟨label, answer⟩ := lookup
    have hsum := weight_of_perm hnext.perm
    cases answer with
    | error error =>
      refine ⟨rfl, ?_, ?_⟩
      · intro record
        exact or_congr_right (answers_error hnext.perm record).symm
      · simp only [LookupState.weight, LookupState.completed, hsum, PendingLookup.weight]
        omega
    | ok records =>
      refine ⟨rfl, ?_, ?_⟩
      · intro record
        simp only [LookupState.Ahead, LookupState.completed, List.flatten_append,
          List.flatten_singleton, List.mem_append, answers_ok hnext.perm record, or_assoc]
      · simp only [LookupState.weight, LookupState.completed, hsum, Futures.weight_append,
          Futures.weight, PendingLookup.weight]
        omega

/-- An item of the streams was ahead, and it is one less to come. -/
theorem selected_spec {record : LookupRecord Source}
    (hnext : SelectNext state.streams (some record) streams) :
    (∀ r, state.Ahead r ↔ r = record ∨ { state with streams := streams }.Ahead r) ∧
      { state with streams := streams }.weight < state.weight := by
  constructor
  · intro r
    simp only [LookupState.Ahead, hnext.perm.mem_iff, List.mem_cons, or_assoc]
  · have hless := hnext.weight_lt
    simp only [LookupState.weight]
    omega

theorem dropped_spec (hdropped : Dropped state.streams streams) :
    (∀ r, { state with streams := streams }.Ahead r ↔ state.Ahead r) ∧
      { state with streams := streams }.weight ≤ state.weight := by
  constructor
  · intro r
    simp only [LookupState.Ahead, hdropped.flatten_eq]
  · have hle := hdropped.weight_le
    simp only [LookupState.weight]
    omega

/-- What a result of one turn says about the state before it. -/
def TurnResult.Follows (state : LookupState Source Error) : TurnResult Source Error → Prop
  | .record item next => next.seen = state.seen ∧
      (∀ r, state.Ahead r ↔ r = item ∨ next.Ahead r) ∧ next.weight < state.weight
  | .again next => next.seen = state.seen ∧
      (∀ r, next.Ahead r ↔ state.Ahead r) ∧ next.weight < state.weight
  | .finished => ∀ r, ¬ state.Ahead r

/-- No turn loses a record, and every turn makes the rest smaller. -/
theorem NextUniqueRecord.follows {result : TurnResult Source Error}
    (h : NextUniqueRecord state result) : result.Follows state := by
  cases h with
  | streamsRecord hpending hnext => exact ⟨rfl, selected_spec hnext⟩
  | streamsNone hpending hnext =>
    rintro r (hstream | ⟨label, records, hmem, _⟩)
    · rw [(selectNext_none hnext).1] at hstream
      exact List.not_mem_nil hstream
    · rw [hpending] at hmem
      exact List.not_mem_nil hmem
  | pending hpending hstreams hnext => exact completed_spec state hnext hpending
  | selectRecord hpending hstreams hnext => exact ⟨rfl, selected_spec hnext⟩
  | selectNone hpending hstreams hnext =>
    obtain ⟨hempty, rfl⟩ := selectNext_none hnext
    refine ⟨rfl, ?_, ?_⟩
    · intro r
      simp only [LookupState.Ahead, hempty, List.flatten_nil]
    · have hpos := weight_pos hstreams
      simp only [LookupState.weight, Futures.weight]
      omega
  | @selectPending _ _ streams hpending hstreams hdropped hnext =>
    obtain ⟨hahead, hle⟩ := dropped_spec hdropped
    obtain ⟨hseen, hahead', hless⟩ := completed_spec { state with streams := streams } hnext hpending
    exact ⟨hseen, fun r => (hahead' r).trans (hahead r), hless.trans_le hle⟩

/-- The loop never waits for nothing. -/
theorem exists_nextUniqueRecord (state : LookupState Source Error) :
    ∃ result, NextUniqueRecord state result := by
  obtain ⟨x, streams, hstreams⟩ := exists_selectNext state.streams
  by_cases hpending : state.pending = []
  · cases x with
    | none => exact ⟨_, .streamsNone hpending hstreams⟩
    | some record => exact ⟨_, .streamsRecord hpending hstreams⟩
  · obtain ⟨lookup, pending, hnext⟩ := exists_unorderedNext hpending
    by_cases hempty : state.streams = []
    · exact ⟨_, .pending hpending hempty hnext⟩
    · exact ⟨_, .selectPending hpending hempty (.refl _) hnext⟩

end Turns

namespace AggregateLookup

variable [DecidableEq Source] {resolvers : List (PendingLookup Source Error)}
  {s t : AggregateLookup Source Error}

/-- Some resolver answers. -/
def AnyOk (resolvers : List (PendingLookup Source Error)) : Prop :=
  ∃ label records, (label, Except.ok records) ∈ resolvers

/-- The errors as the lookups that they come from. -/
def failures (errors : List (Name × Error)) : List (PendingLookup Source Error) :=
  errors.map fun failure => (failure.1, .error failure.2)

/-- Every resolver is pending, failed or streaming, and every record is returned or ahead. -/
def Invariant (resolvers : List (PendingLookup Source Error)) :
    AggregateLookup Source Error → Prop
  | .waiting state errors => state.streams = [] ∧ state.seen = [] ∧
      (state.pending ++ failures errors).Perm resolvers
  | .failed errors => (failures errors).Perm resolvers
  | .streaming state items => AnyOk resolvers ∧ items.Nodup ∧ (∀ r, r ∈ state.seen ↔ r ∈ items) ∧
      ∀ r, Answers resolvers r ↔ r ∈ items ∨ state.Ahead r
  | .ended items => AnyOk resolvers ∧ items.Nodup ∧ ∀ r, r ∈ items ↔ Answers resolvers r

omit [DecidableEq Source] in
/-- Errors are no answers. -/
theorem answers_append_failures (lookups : List (PendingLookup Source Error))
    (errors : List (Name × Error)) (r : LookupRecord Source) :
    Answers (lookups ++ failures errors) r ↔ Answers lookups r := by
  constructor
  · rintro ⟨label, records, hmem, hr⟩
    rcases List.mem_append.mp hmem with hmem | hmem
    · exact ⟨label, records, hmem, hr⟩
    · obtain ⟨failure, _, heq⟩ := List.mem_map.mp hmem
      cases heq
  · rintro ⟨label, records, hmem, hr⟩
    exact ⟨label, records, List.mem_append_left _ hmem, hr⟩

omit [DecidableEq Source] in
theorem invariant_start : Invariant resolvers (start resolvers) := by
  refine ⟨rfl, rfl, ?_⟩
  rw [failures, List.map_nil, List.append_nil]

/-- A turn of the loop keeps the account of the records. -/
theorem invariant_turned {state : LookupState Source Error} {items : List (LookupRecord Source)}
    {result : TurnResult Source Error} (hs : Invariant resolvers (.streaming state items))
    (h : result.Follows state) : Invariant resolvers (turned items result) := by
  obtain ⟨hany, hnodup, hseen, hahead⟩ := hs
  cases result with
  | finished =>
    refine ⟨hany, hnodup, ?_⟩
    intro r
    rw [hahead r]
    exact ⟨Or.inl, fun hr => hr.resolve_right (h r)⟩
  | again next =>
    obtain ⟨hsame, hnext, _⟩ := h
    refine ⟨hany, hnodup, ?_, ?_⟩
    · intro r
      rw [hsame, hseen r]
    · intro r
      rw [hahead r, hnext r]
  | record item next =>
    obtain ⟨hsame, hnext, _⟩ := h
    have hnew : item ∈ next.seen ↔ item ∈ items := by rw [hsame, hseen item]
    rw [turned]
    split
    · -- the record was returned before
      rename_i hold
      refine ⟨hany, hnodup, ?_, ?_⟩
      · intro r
        rw [hsame, hseen r]
      · intro r
        rw [hahead r, hnext r]
        constructor
        · rintro (hr | rfl | hr)
          · exact Or.inl hr
          · exact Or.inl (hnew.mp hold)
          · exact Or.inr hr
        · rintro (hr | hr)
          · exact Or.inl hr
          · exact Or.inr (Or.inr hr)
    · rename_i hfirst
      refine ⟨hany, ?_, ?_, ?_⟩
      · rw [List.nodup_append]
        refine ⟨hnodup, List.nodup_singleton item, ?_⟩
        intro r hr r' hr' heq
        rw [List.mem_singleton.mp hr'] at heq
        rw [heq] at hr
        exact hfirst (hnew.mpr hr)
      · intro r
        rw [List.mem_cons, hsame, hseen r, List.mem_append, List.mem_singleton, or_comm]
      · intro r
        rw [hahead r, hnext r, List.mem_append, List.mem_singleton, or_assoc]
        rfl

theorem invariant_step (h : Step s t) (hs : Invariant resolvers s) : Invariant resolvers t := by
  cases h with
  | @answered state errors label records pending hnext =>
    obtain ⟨hstreams, hseen, hperm⟩ := hs
    have htaken : resolvers.Perm ((label, .ok records) :: (pending ++ failures errors)) :=
      hperm.symm.trans (hnext.perm.append_right _)
    refine ⟨⟨label, records, htaken.mem_iff.mpr List.mem_cons_self⟩, List.nodup_nil, ?_, ?_⟩
    · intro r
      rw [hseen]
    · intro r
      simp only [answers_ok htaken r, answers_append_failures, LookupState.Ahead, hstreams,
        List.nil_append, List.flatten_singleton, List.not_mem_nil, false_or]
  | @refused state errors label error pending hnext =>
    obtain ⟨hstreams, hseen, hperm⟩ := hs
    refine ⟨hstreams, hseen, ?_⟩
    have hlast : pending ++ failures (errors ++ [(label, error)]) =
        (pending ++ failures errors) ++ [(label, .error error)] := by
      rw [failures, List.map_append, List.append_assoc]
      rfl
    have hfirst : (state.pending ++ failures errors).Perm
        ((label, .error error) :: (pending ++ failures errors)) := hnext.perm.append_right _
    rw [hlast]
    exact (List.perm_append_singleton _ _).trans (hfirst.symm.trans hperm)
  | exhausted hnext =>
    obtain ⟨_, _, hperm⟩ := hs
    rw [(unorderedNext_none hnext).1, List.nil_append] at hperm
    exact hperm
  | turn hturn => exact invariant_turned hs hturn.follows

/-- How many steps are left at most. -/
def measure : AggregateLookup Source Error → ℕ
  | .waiting state _ => state.weight + 1
  | .failed _ => 0
  | .streaming state _ => state.weight + 1
  | .ended _ => 0

theorem measure_step (h : Step s t) : t.measure < s.measure := by
  cases h with
  | answered hnext =>
    have hless := (completed_spec _ hnext (List.ne_nil_of_mem
      (hnext.perm.mem_iff.mpr List.mem_cons_self))).2.2
    exact Nat.succ_lt_succ hless
  | refused hnext =>
    have hless := (completed_spec _ hnext (List.ne_nil_of_mem
      (hnext.perm.mem_iff.mpr List.mem_cons_self))).2.2
    exact Nat.succ_lt_succ hless
  | exhausted hnext => exact Nat.succ_pos _
  | @turn state items result hturn =>
    have hfollows := hturn.follows
    cases result with
    | finished => exact Nat.succ_pos _
    | again next => exact Nat.succ_lt_succ hfollows.2.2
    | record item next =>
      rw [turned]
      split
      · exact Nat.succ_lt_succ hfollows.2.2
      · exact Nat.succ_lt_succ hfollows.2.2

/-- What a lookup of these resolvers may be found to be at any time: returned as it should, or
able to go on. -/
def Right (resolvers : List (PendingLookup Source Error)) : AggregateLookup Source Error → Prop
  | .waiting state errors => ∃ next, Step (.waiting state errors) next
  | .failed errors => ¬ AnyOk resolvers ∧ (failures errors).Perm resolvers
  | .streaming state items => AnyOk resolvers ∧ items.Nodup ∧
      (∀ record ∈ items, Answers resolvers record) ∧ ∃ next, Step (.streaming state items) next
  | .ended items => AnyOk resolvers ∧ items.Nodup ∧
      ∀ record, record ∈ items ↔ Answers resolvers record

theorem right_of_invariant (h : Invariant resolvers s) : Right resolvers s := by
  cases s with
  | waiting state errors =>
    by_cases hempty : state.pending = []
    · have hnext : UnorderedNext state.pending none [] := by
        rw [hempty]
        exact .empty
      exact ⟨_, .exhausted hnext⟩
    · obtain ⟨⟨label, answer⟩, pending, hnext⟩ := exists_unorderedNext hempty
      cases answer with
      | error error => exact ⟨_, .refused hnext⟩
      | ok records => exact ⟨_, .answered hnext⟩
  | failed errors =>
    refine ⟨?_, h⟩
    rintro ⟨label, records, hmem⟩
    obtain ⟨failure, _, heq⟩ := List.mem_map.mp (h.mem_iff.mpr hmem)
    cases heq
  | streaming state items =>
    obtain ⟨hany, hnodup, _, hahead⟩ := h
    obtain ⟨result, hturn⟩ := exists_nextUniqueRecord state
    refine ⟨hany, hnodup, ?_, _, .turn hturn⟩
    intro record hrecord
    exact (hahead record).mpr (Or.inl hrecord)
  | ended items => exact h

/-- However the completions and the items come: every run is finite, goes on until it has
returned, and returns one error for each resolver when none of them answers, and otherwise the
records of all that answer, each once. -/
theorem lookup_merges_answers (resolvers : List (PendingLookup Source Error)) {n : ℕ}
    {final : AggregateLookup Source Error} (h : Run Step n (start resolvers) final) :
    n ≤ (start resolvers).measure ∧ Right resolvers final := by
  constructor
  · have hlength := h.length_le measure fun _ _ => measure_step
    omega
  · exact right_of_invariant (h.invariant (fun _ _ => invariant_step) invariant_start)

section Sample

/-- `192.0.2.1:443` -/
def sampleItem : LookupRecord Unit := ((), .direct (.v4 ⟨3221225985, 443⟩))

def failingLookup : PendingLookup Unit Unit := (['a'], .error ())

def emptyLookup : PendingLookup Unit Unit := (['b'], .ok [])

def repeatingLookup : PendingLookup Unit Unit := (['c'], .ok [sampleItem, sampleItem])

/-- The last resolver answers when the stream of the second one is exhausted. -/
theorem repeatingLookup_merged :
    Run Step 7 (start [failingLookup, emptyLookup, repeatingLookup]) (.ended [sampleItem]) ∧
      7 ≤ (start [failingLookup, emptyLookup, repeatingLookup]).measure ∧
      Right [failingLookup, emptyLookup, repeatingLookup] (.ended [sampleItem]) := by
  have hfails : Step (start [failingLookup, emptyLookup, repeatingLookup])
      (.waiting ⟨[emptyLookup, repeatingLookup], [], []⟩ [(['a'], ())]) :=
    .refused (.taken [] _ _)
  have hfirst : Step (.waiting ⟨[emptyLookup, repeatingLookup], [], []⟩ [(['a'], ())])
      (.streaming ⟨[repeatingLookup], [[]], []⟩ []) :=
    .answered (.taken [] _ _)
  have hdry : Step (.streaming ⟨[repeatingLookup], [[]], []⟩ [])
      (.streaming ⟨[repeatingLookup], [], []⟩ []) :=
    .turn (.selectNone (List.cons_ne_nil _ _) (List.cons_ne_nil _ _)
      (.exhausted (.ended [] [] (.refl []))))
  have hanswer : NextUniqueRecord ⟨[repeatingLookup], [], []⟩
      (.again (LookupState.completed ⟨[repeatingLookup], [], []⟩ [] (some repeatingLookup))) :=
    .pending (List.cons_ne_nil _ _) rfl (.taken [] repeatingLookup [])
  have hlate : Step (.streaming ⟨[repeatingLookup], [], []⟩ [])
      (.streaming ⟨[], [[sampleItem, sampleItem]], []⟩ []) := .turn hanswer
  have hitem : Step (.streaming (⟨[], [[sampleItem, sampleItem]], []⟩ : LookupState Unit Unit) [])
      (.streaming ⟨[], [[sampleItem]], [sampleItem]⟩ [sampleItem]) :=
    .turn (.streamsRecord rfl (.item [] sampleItem [sampleItem] [] (.refl _)))
  have hagain : Step
      (.streaming (⟨[], [[sampleItem]], [sampleItem]⟩ : LookupState Unit Unit) [sampleItem])
      (.streaming ⟨[], [[]], [sampleItem]⟩ [sampleItem]) :=
    .turn (.streamsRecord rfl (.item [] sampleItem [] [] (.refl _)))
  have hend : Step (.streaming (⟨[], [[]], [sampleItem]⟩ : LookupState Unit Unit) [sampleItem])
      (.ended [sampleItem]) :=
    .turn (.streamsNone rfl (.exhausted (.ended [] [] (.refl []))))
  have hrun : Run Step 7 (start [failingLookup, emptyLookup, repeatingLookup])
      (.ended [sampleItem]) :=
    .tail (.tail (.tail (.tail (.tail (.tail (.tail (.refl _) hfails) hfirst) hdry) hlate) hitem)
      hagain) hend
  exact ⟨hrun, lookup_merges_answers _ hrun⟩

end Sample

end AggregateLookup

end Ddns
