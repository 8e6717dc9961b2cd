import Ddns.Library.Interleaving
import Ddns.Library.Transition
import Ddns.Mdns.Lookup
import Ddns.Resolvers.AggregateCandidates

/-! The plain lookup of a set of mDNS resolvers: the first answer begins a stream that the later
ones join. -/
namespace Ddns

open Futures Interleaving Relation Transition

inductive SetLookupError (Error : Type) where
  | unsupportedName
  | noResolversAvailable
  | resolver (error : MdnsLookupError Error)

/-- What one resolver streams. -/
abbrev MdnsAnswer := List (MdnsSource × DquicEndpointAddr)

/-- A call of `MdnsResolverSet::lookup` and the stream that it returns, with the items so far. The
stream selects between the first answer and the later ones, which are flattened. -/
inductive SetLookup (Error : Type) where
  | waiting (pending : List (Except (MdnsLookupError Error) MdnsAnswer))
    (error : SetLookupError Error)
  | failed (error : SetLookupError Error)
  | streaming (first : MdnsAnswer) (pending : List (Except (MdnsLookupError Error) MdnsAnswer))
    (streams : List MdnsAnswer) (items : MdnsAnswer)
  | ended (items : MdnsAnswer)

namespace SetLookup

variable {Error : Type}

/-- The lookups of the resolvers of the family. -/
def pending [DhttpHome] [PkiTypes] (set : MdnsResolverSet)
    (query : MdnsInstance → Name → Except Error (List EndpointAddr)) (hostname : Name)
    (family : Option Family) : List (Except (MdnsLookupError Error) MdnsAnswer) :=
  (set.values.filter fun resolver => ∀ f ∈ family, resolver.family = f).map fun resolver =>
    resolver.lookup (query resolver) hostname family

def start [DhttpHome] [PkiTypes] (set : MdnsResolverSet)
    (query : MdnsInstance → Name → Except Error (List EndpointAddr)) (hostname : Name)
    (family : Option Family) : SetLookup Error :=
  match mdnsLookupParts hostname with
  | none => .failed .unsupportedName
  | some _ => .waiting (pending set query hostname family) .noResolversAvailable

/-- Whichever future or stream is ready comes next; an error behind the first answer is dropped. -/
inductive Step : SetLookup Error → SetLookup Error → Prop
  | answered {pending pending' : List (Except (MdnsLookupError Error) MdnsAnswer)}
    {error : SetLookupError Error} {answer : MdnsAnswer}
    (next : UnorderedNext pending (some (.ok answer)) pending') :
    Step (.waiting pending error) (.streaming answer pending' [] [])
  | refused {pending pending' : List (Except (MdnsLookupError Error) MdnsAnswer)}
    {error : SetLookupError Error} {failed : MdnsLookupError Error}
    (next : UnorderedNext pending (some (.error failed)) pending') :
    Step (.waiting pending error) (.waiting pending' (.resolver failed))
  | exhausted {pending pending' : List (Except (MdnsLookupError Error) MdnsAnswer)}
    {error : SetLookupError Error} (next : UnorderedNext pending none pending') :
    Step (.waiting pending error) (.failed error)
  | first {x : MdnsSource × DquicEndpointAddr} {first items : MdnsAnswer}
    {pending : List (Except (MdnsLookupError Error) MdnsAnswer)} {streams : List MdnsAnswer} :
    Step (.streaming (x :: first) pending streams items)
      (.streaming first pending streams (items ++ [x]))
  | joined {answer first items : MdnsAnswer}
    {pending pending' : List (Except (MdnsLookupError Error) MdnsAnswer)}
    {streams : List MdnsAnswer} (next : UnorderedNext pending (some (.ok answer)) pending') :
    Step (.streaming first pending streams items)
      (.streaming first pending' (streams ++ [answer]) items)
  | dropped {first items : MdnsAnswer} {failed : MdnsLookupError Error}
    {pending pending' : List (Except (MdnsLookupError Error) MdnsAnswer)}
    {streams : List MdnsAnswer} (next : UnorderedNext pending (some (.error failed)) pending') :
    Step (.streaming first pending streams items) (.streaming first pending' streams items)
  | later {x : MdnsSource × DquicEndpointAddr} {first items : MdnsAnswer}
    {pending : List (Except (MdnsLookupError Error) MdnsAnswer)}
    {streams streams' : List MdnsAnswer} (next : SelectNext streams (some x) streams') :
    Step (.streaming first pending streams items)
      (.streaming first pending streams' (items ++ [x]))
  | ended {items : MdnsAnswer} {streams streams' : List MdnsAnswer}
    (next : SelectNext streams none streams') :
    Step (.streaming [] [] streams items) (.ended items)

/-- The items that may still come when the lookup is to end with `items`. -/
def Completes : SetLookup Error → MdnsAnswer → Prop
  | .waiting pending _, items =>
    okAnswers pending ≠ [] ∧ ∃ answers, answers.Perm (okAnswers pending) ∧ Interleaves answers items
  | .failed _, _ => False
  | .streaming first pending streams emitted, items =>
    ∃ answers rest, answers.Perm (okAnswers pending) ∧ items = emitted ++ rest ∧
      Interleaves (first :: (streams ++ answers)) rest
  | .ended emitted, items => items = emitted

/-- What may be the error of a lookup that is to fail. -/
def FailsWith : SetLookup Error → SetLookupError Error → Prop
  | .waiting pending current, error =>
    okAnswers pending = [] ∧
      (pending = [] ∧ error = current ∨ ∃ failed, .error failed ∈ pending ∧ error = .resolver failed)
  | .failed current, error => error = current
  | _, _ => False

section Answers

variable {pending pending' : List (Except (MdnsLookupError Error) MdnsAnswer)}
  {answer : MdnsAnswer} {failed : MdnsLookupError Error}

theorem okAnswers_perm (h : pending.Perm pending') :
    (okAnswers pending).Perm (okAnswers pending') := h.filterMap _

theorem okAnswers_of_ok (h : UnorderedNext pending (some (.ok answer)) pending') :
    (okAnswers pending).Perm (answer :: okAnswers pending') := okAnswers_perm h.perm

theorem okAnswers_of_error (h : UnorderedNext pending (some (.error failed)) pending') :
    (okAnswers pending).Perm (okAnswers pending') := by
  change (okAnswers pending).Perm (okAnswers (.error failed :: pending'))
  exact okAnswers_perm h.perm

end Answers

variable {s t : SetLookup Error} {items : MdnsAnswer} {error : SetLookupError Error}

theorem completes_of_step (h : Step s t) (ht : Completes t items) : Completes s items := by
  cases h with
  | @answered pending pending' _ answer hnext =>
    obtain ⟨answers, rest, hperm, rfl, hrest⟩ := ht
    have hanswers := okAnswers_of_ok hnext
    refine ⟨?_, answer :: answers, (hperm.cons answer).trans hanswers.symm, hrest⟩
    intro hnil
    rw [hnil] at hanswers
    exact List.cons_ne_nil _ _ hanswers.nil_eq.symm
  | @refused pending pending' _ _ hnext =>
    obtain ⟨hne, answers, hperm, hitems⟩ := ht
    have hanswers := okAnswers_of_error hnext
    refine ⟨?_, answers, hperm.trans hanswers.symm, hitems⟩
    intro hnil
    rw [hnil] at hanswers
    exact hne hanswers.nil_eq.symm
  | exhausted => exact ht.elim
  | first =>
    obtain ⟨answers, rest, hperm, rfl, hrest⟩ := ht
    exact ⟨answers, _, hperm, List.append_assoc .., .cons [] _ _ _ hrest⟩
  | joined hnext =>
    obtain ⟨answers, rest, hperm, rfl, hrest⟩ := ht
    refine ⟨_, rest, (hperm.cons _).trans (okAnswers_of_ok hnext).symm, rfl, ?_⟩
    simpa using hrest
  | dropped hnext =>
    obtain ⟨answers, rest, hperm, rfl, hrest⟩ := ht
    exact ⟨answers, rest, hperm.trans (okAnswers_of_error hnext).symm, rfl, hrest⟩
  | @later x first _ _ _ _ hnext =>
    obtain ⟨answers, rest, hperm, rfl, hrest⟩ := ht
    refine ⟨answers, _, hperm, List.append_assoc .., ?_⟩
    cases hnext with
    | item before _ stream after hdropped =>
      have hcons := Interleaves.cons (first :: before) x stream (after ++ answers) (by simpa using hrest)
      exact @Interleaves.of_dropped _ _ _ _ [first] answers hdropped (by simpa using hcons)
  | @ended items streams _ hnext =>
    obtain rfl := ht
    have hempty := List.flatten_eq_nil_iff.mp (selectNext_none hnext).1
    refine ⟨[], [], .nil, (List.append_nil _).symm, .nil ?_⟩
    intro stream hstream
    rcases List.mem_cons.mp hstream with rfl | hstream
    · rfl
    · exact hempty stream (by simpa using hstream)

theorem failsWith_of_step (h : Step s t) (ht : FailsWith t error) : FailsWith s error := by
  cases h with
  | answered | first | joined | dropped | later | ended => exact ht.elim
  | @refused pending pending' _ failed hnext =>
    obtain ⟨hnone, herror⟩ := ht
    refine ⟨(okAnswers_of_error hnext).trans (by rw [hnone]) |>.eq_nil, Or.inr ?_⟩
    rcases herror with ⟨_, rfl⟩ | ⟨failed', hmem, rfl⟩
    · exact ⟨failed, hnext.perm.mem_iff.mpr List.mem_cons_self, rfl⟩
    · exact ⟨failed', hnext.perm.mem_iff.mpr (List.mem_cons_of_mem _ hmem), rfl⟩
  | exhausted hnext =>
    obtain rfl := (unorderedNext_none hnext).1
    exact ⟨rfl, Or.inl ⟨rfl, ht⟩⟩

/-- An answer that is still awaited counts with its items, an error as one event. -/
def eventsOf : Except (MdnsLookupError Error) MdnsAnswer → ℕ
  | .ok answer => answer.length + 2
  | .error _ => 1

/-- An upper bound for the number of steps to go. -/
def measure : SetLookup Error → ℕ
  | .waiting pending _ => (pending.map eventsOf).sum + 2
  | .failed _ => 0
  | .streaming first pending streams _ =>
    first.length + (pending.map eventsOf).sum + weight streams + 1
  | .ended _ => 0

theorem eventsOf_next {pending pending' : List (Except (MdnsLookupError Error) MdnsAnswer)}
    {result : Except (MdnsLookupError Error) MdnsAnswer}
    (h : UnorderedNext pending (some result) pending') :
    (pending.map eventsOf).sum = eventsOf result + (pending'.map eventsOf).sum := by
  rw [(h.perm.map eventsOf).sum_eq, List.map_cons, List.sum_cons]

theorem measure_step (h : Step s t) : t.measure < s.measure := by
  cases h with
  | answered hnext =>
    have hsum := eventsOf_next hnext
    simp only [measure, hsum, eventsOf, weight]
    omega
  | refused hnext =>
    have hsum := eventsOf_next hnext
    simp only [measure, hsum, eventsOf]
    omega
  | exhausted => simp only [measure]; omega
  | first =>
    simp only [measure, List.length_cons]
    omega
  | joined hnext =>
    have hsum := eventsOf_next hnext
    simp only [measure, hsum, eventsOf, weight_append, weight]
    omega
  | dropped hnext =>
    have hsum := eventsOf_next hnext
    simp only [measure, hsum, eventsOf]
    omega
  | later hnext =>
    have hless := hnext.weight_lt
    simp only [measure]
    omega
  | ended => simp only [measure]; omega

/-- The lookup has returned an error, or its stream has ended. -/
def Returned : SetLookup Error → Prop
  | .failed _ => True
  | .ended _ => True
  | _ => False

/-- Until then something can always come next. -/
theorem exists_step (h : ¬ Returned s) : ∃ t, Step s t := by
  cases s with
  | failed | ended => exact absurd trivial h
  | waiting pending error =>
    by_cases hne : pending = []
    · rw [hne]
      exact ⟨_, .exhausted .empty⟩
    · obtain ⟨result, pending', hnext⟩ := exists_unorderedNext hne
      rcases result with failed | answer
      · exact ⟨_, .refused hnext⟩
      · exact ⟨_, .answered hnext⟩
  | streaming first pending streams items =>
    by_cases hne : pending = []
    · rw [hne]
      cases first with
      | cons x first => exact ⟨_, .first⟩
      | nil =>
        obtain ⟨x, streams', hnext⟩ := exists_selectNext streams
        cases x with
        | some x => exact ⟨_, .later hnext⟩
        | none => exact ⟨_, .ended hnext⟩
    · obtain ⟨result, pending', hnext⟩ := exists_unorderedNext hne
      rcases result with failed | answer
      · exact ⟨_, .dropped hnext⟩
      · exact ⟨_, .joined hnext⟩

/-- What a lookup that has run to its end must have come to. -/
def Right (pending : List (Except (MdnsLookupError Error) MdnsAnswer)) : SetLookup Error → Prop
  | .ended items =>
    okAnswers pending ≠ [] ∧ items.Perm (okAnswers pending).flatten ∧
      ∀ answer ∈ okAnswers pending, answer.Sublist items
  | .failed error =>
    okAnswers pending = [] ∧ (pending = [] ∧ error = .noResolversAvailable ∨
      ∃ failed, .error failed ∈ pending ∧ error = .resolver failed)
  | _ => False

theorem right_of_run {pending : List (Except (MdnsLookupError Error) MdnsAnswer)}
    (h : ReflTransGen Step (.waiting pending .noResolversAvailable) s) (hs : Returned s) :
    Right pending s := by
  cases s with
  | waiting | streaming => exact hs.elim
  | failed error =>
    exact h.head_induction_on (motive := fun s _ => FailsWith s error) rfl
      fun hstep _ hfails => failsWith_of_step hstep hfails
  | ended items =>
    obtain ⟨hne, answers, hperm, hitems⟩ : Completes (.waiting pending .noResolversAvailable) items :=
      h.head_induction_on (motive := fun s _ => Completes s items) rfl
        fun hstep _ hcompletes => completes_of_step hstep hcompletes
    refine ⟨hne, hitems.perm.trans hperm.flatten, ?_⟩
    intro answer hanswer
    exact hitems.sublist (hperm.mem_iff.mpr hanswer)

variable [DhttpHome] [PkiTypes]

/-- However the answers and their items come: a lookup of a supported name takes finitely many steps
and goes on until it has returned. It fails, with the error of one of the resolvers, exactly when
none of them answers, and otherwise it streams every item of every answer once, those of one
resolver in their order. -/
theorem lookup_streams_every_answer (set : MdnsResolverSet)
    (query : MdnsInstance → Name → Except Error (List EndpointAddr)) (hostname : Name)
    (family : Option Family) :
    (mdnsLookupParts hostname = none ∧ start set query hostname family = .failed .unsupportedName) ∨
      (∀ n final, Run Step n (start set query hostname family) final →
        n ≤ (start set query hostname family).measure ∧
        ((∃ next, Step final next) ∨ Right (pending set query hostname family) final)) := by
  cases hparts : mdnsLookupParts hostname with
  | none => exact Or.inl ⟨rfl, by rw [start, hparts]⟩
  | some parts =>
    have hstart : start set query hostname family =
        .waiting (pending set query hostname family) .noResolversAvailable := by rw [start, hparts]
    refine Or.inr ?_
    intro n final hrun
    constructor
    · have hlength := hrun.length_le measure fun _ _ => measure_step
      omega
    · by_cases hreturned : Returned final
      · rw [hstart] at hrun
        exact Or.inr (right_of_run hrun.reflTransGen hreturned)
      · exact Or.inl (exists_step hreturned)

end SetLookup

end Ddns
