import Ddns.H3.Cache
import Ddns.Library.History

/-! The cache behaves as an ideal map whose values expire. -/
namespace Ddns

open History

/-- The names are equal up to ASCII case and the dots at their ends. -/
def SameName (name name' : Name) : Prop :=
  Text.eqIgnoreAsciiCase (trimDots name) (trimDots name') = true

instance (name name' : Name) : Decidable (SameName name name') :=
  inferInstanceAs (Decidable (_ = true))

section History

variable [DhttpHome] {Source : Type}

/-- A call on the cache. -/
inductive CacheOp (Source : Type) where
  | insert (name : Name) (lookup : EndpointLookup) (candidates : EndpointCandidates Source)
    (ttl : ℕ)
  | get (name : Name) (lookup : EndpointLookup)
  | invalidateName (name : Name)
  | clear

namespace CacheOp

/-- The call decides what is found under the key of the name and the lookup. -/
def Affects (name : Name) (lookup : EndpointLookup) : CacheOp Source → Prop
  | .insert name' lookup' _ ttl => LookupKey.new name' lookup' = LookupKey.new name lookup ∧ ttl ≠ 0
  | .get _ _ => False
  | .invalidateName name' => SameName name' name
  | .clear => True

/-- What a call at some time does to the ideal map. -/
def effect (call : ℕ × CacheOp Source) (key : LookupKey) : Option (Option (CachedAnswer Source)) :=
  match call.2 with
  | .insert name lookup candidates ttl =>
    if LookupKey.new name lookup = key ∧ ttl ≠ 0 then some (some ⟨candidates, call.1 + ttl⟩) else none
  | .get _ _ => none
  | .invalidateName name =>
    if Text.eqIgnoreAsciiCase key.name (trimDots name) then some none else none
  | .clear => some none

end CacheOp

namespace LookupCache

def apply (cache : LookupCache Source) (call : ℕ × CacheOp Source) : LookupCache Source :=
  match call.2 with
  | .insert name lookup candidates ttl =>
    cache.insert call.1 (LookupKey.new name lookup) candidates ttl
  | .get name lookup => (cache.get call.1 (LookupKey.new name lookup)).2
  | .invalidateName name => cache.invalidateName name
  | .clear => cache.clear

/-- The cache after the calls, each with its time. -/
def run (history : List (ℕ × CacheOp Source)) : LookupCache Source := history.foldl apply ∅

/-- What has not expired is the same in the cache and in the ideal map. -/
def Represents (cache : LookupCache Source) (now : ℕ)
    (ideal : LookupKey → Option (CachedAnswer Source)) : Prop :=
  ∀ key answer, now < answer.expiresAt → (cache.lookup key = some answer ↔ ideal key = some answer)

end LookupCache

section Refinement

namespace LookupCache

variable {cache : LookupCache Source} {now : ℕ} {ideal : LookupKey → Option (CachedAnswer Source)}

theorem get_eq_some {key : LookupKey} {candidates : EndpointCandidates Source} :
    (cache.get now key).1 = some candidates ↔
      ∃ answer, cache.lookup key = some answer ∧ now < answer.expiresAt ∧
        answer.candidates = candidates := by
  unfold get
  cases hlookup : cache.lookup key with
  | none => simp
  | some answer =>
    by_cases hfresh : now < answer.expiresAt
    · simp [hfresh]
    · simp [hfresh]

theorem lookup_invalidateName (name : Name) (key : LookupKey) :
    (cache.invalidateName name).lookup key =
      if Text.eqIgnoreAsciiCase key.name (trimDots name) then none else cache.lookup key := by
  ext answer
  rw [← Option.mem_def, ← Option.mem_def, AList.mem_lookup_iff, invalidateName, mem_retainKeys]
  by_cases hsame : Text.eqIgnoreAsciiCase key.name (trimDots name) = true
  · simp [hsame]
  · rw [if_neg hsame, AList.mem_lookup_iff]
    simp [hsame]

theorem Represents.mono {later : ℕ} (h : cache.Represents now ideal) (hle : now ≤ later) :
    cache.Represents later ideal :=
  fun key answer hfresh => h key answer (lt_of_le_of_lt hle hfresh)

/-- One call, on the cache and on the ideal map. -/
theorem Represents.step {call : ℕ × CacheOp Source} (h : cache.Represents call.1 ideal) :
    (cache.apply call).Represents call.1 fun key => (CacheOp.effect call key).getD (ideal key) := by
  obtain ⟨now, op⟩ := call
  intro key answer hfresh
  have hsame := h key answer hfresh
  cases op with
  | insert name lookup candidates ttl =>
    dsimp only [apply, CacheOp.effect, insert]
    by_cases hzero : ttl = 0
    · simp [hzero, hsame]
    · by_cases hkey : LookupKey.new name lookup = key
      · subst hkey
        simp [hzero]
      · have hne : key ≠ LookupKey.new name lookup := fun heq => hkey heq.symm
        simp [hzero, hkey, AList.lookup_insert_ne hne, hsame]
  | get name lookup =>
    dsimp only [apply, CacheOp.effect, Option.getD_none, get]
    cases hlookup : cache.lookup (LookupKey.new name lookup) with
    | none => exact hsame
    | some found =>
      dsimp only
      by_cases hlive : now < found.expiresAt
      · rw [if_pos hlive]
        exact hsame
      · rw [if_neg hlive]
        by_cases hkey : key = LookupKey.new name lookup
        · -- what is removed has expired
          subst hkey
          rw [AList.lookup_erase, ← hsame, hlookup]
          refine iff_of_false (by simp) ?_
          intro hfound
          obtain rfl := Option.some_inj.mp hfound
          exact hlive hfresh
        · rw [AList.lookup_erase_ne hkey]
          exact hsame
  | invalidateName name =>
    dsimp only [apply, CacheOp.effect]
    rw [lookup_invalidateName]
    by_cases hname : Text.eqIgnoreAsciiCase key.name (trimDots name) = true
    · simp [hname]
    · simp [hname, hsame]
  | clear =>
    dsimp only [apply, CacheOp.effect, clear]
    simp

/-- A whole history at times that never decrease. -/
theorem represents_run {history : List (ℕ × CacheOp Source)}
    (htimes : (history.map Prod.fst ++ [now]).Pairwise (· ≤ ·)) :
    (run history).Represents now (final CacheOp.effect history) := by
  induction history using List.reverseRecOn generalizing now with
  | nil =>
    intro key answer _
    simp [run, final]
  | append_singleton history call ih =>
    rw [List.map_append, List.pairwise_append] at htimes
    obtain ⟨hbefore, _, hnow⟩ := htimes
    have hle : call.1 ≤ now := hnow call.1 (by simp) now (by simp)
    have hstep := (ih hbefore).step.mono hle
    intro key answer hfresh
    rw [final_snoc, run, List.foldl_append]
    exact hstep key answer hfresh

end LookupCache

/-- The key of a name is hit by the invalidation of every spelling of it, and of nothing else. -/
theorem sameName_iff {name name' : Name} (lookup : EndpointLookup) :
    SameName name name' ↔
      Text.eqIgnoreAsciiCase (LookupKey.new name' lookup).name (trimDots name) = true := by
  unfold SameName Text.eqIgnoreAsciiCase LookupKey.new
  rw [Text.toAsciiLowercase_idem, decide_eq_true_iff, decide_eq_true_iff]
  exact eq_comm

theorem CacheOp.effect_eq_none_iff {call : ℕ × CacheOp Source} {name : Name}
    {lookup : EndpointLookup} :
    CacheOp.effect call (LookupKey.new name lookup) = none ↔ ¬ call.2.Affects name lookup := by
  obtain ⟨now, op⟩ := call
  cases op with
  | insert name' lookup' candidates ttl => simp [CacheOp.effect, CacheOp.Affects]
  | get name' lookup' => simp [CacheOp.effect, CacheOp.Affects]
  | invalidateName name' =>
    rw [CacheOp.Affects, sameName_iff lookup]
    simp [CacheOp.effect]
  | clear => simp [CacheOp.effect, CacheOp.Affects]

theorem CacheOp.effect_eq_value_iff {call : ℕ × CacheOp Source} {name : Name}
    {lookup : EndpointLookup} {answer : CachedAnswer Source} :
    CacheOp.effect call (LookupKey.new name lookup) = some (some answer) ↔
      ∃ name' lookup' ttl, call.2 = .insert name' lookup' answer.candidates ttl ∧
        call.2.Affects name lookup ∧ call.1 + ttl = answer.expiresAt := by
  obtain ⟨now, op⟩ := call
  cases op with
  | insert name' lookup' candidates ttl =>
    obtain ⟨found, expiresAt⟩ := answer
    simp only [CacheOp.effect, Option.ite_none_right_eq_some, Option.some_inj, CachedAnswer.mk.injEq]
    constructor
    · rintro ⟨haffects, rfl, hexpires⟩
      exact ⟨name', lookup', ttl, rfl, haffects, hexpires⟩
    · rintro ⟨_, _, _, hop, haffects, hexpires⟩
      cases hop
      exact ⟨haffects, rfl, hexpires⟩
  | get name' lookup' => simp [CacheOp.effect]
  | invalidateName name' => simp [CacheOp.effect]
  | clear => simp [CacheOp.effect]

/-- An answer is found exactly when the last call that affects its key inserted it and it has not
expired; an invalidation hits every lookup and every spelling of its name, and nothing else. -/
theorem cache_refines_expiring_map {history : List (ℕ × CacheOp Source)} {now : ℕ}
    (htimes : (history.map Prod.fst ++ [now]).Pairwise (· ≤ ·)) (name : Name)
    (lookup : EndpointLookup) :
    (∀ candidates, ((LookupCache.run history).get now (LookupKey.new name lookup)).1 =
        some candidates ↔
      ∃ before s name' lookup' ttl after,
        history = before ++ (s, .insert name' lookup' candidates ttl) :: after ∧
        (CacheOp.insert name' lookup' candidates ttl).Affects name lookup ∧
        (∀ later ∈ after, ¬ later.2.Affects name lookup) ∧ now < s + ttl) ∧
      ∀ invalidated, ((LookupCache.run (history ++ [(now, .invalidateName invalidated)])).get now
          (LookupKey.new name lookup)).1 =
        if SameName invalidated name then none
        else ((LookupCache.run history).get now (LookupKey.new name lookup)).1 := by
  have hideal := LookupCache.represents_run htimes
  constructor
  · intro candidates
    rw [LookupCache.get_eq_some]
    constructor
    · rintro ⟨answer, hlookup, hfresh, rfl⟩
      rw [hideal _ _ hfresh, final_eq_some_iff] at hlookup
      obtain ⟨before, ⟨s, op⟩, after, rfl, hop, hlater⟩ := hlookup
      obtain ⟨name', lookup', ttl, rfl, haffects, hexpires⟩ := CacheOp.effect_eq_value_iff.mp hop
      refine ⟨before, s, name', lookup', ttl, after, rfl, haffects, ?_, hexpires ▸ hfresh⟩
      intro later hmem
      exact CacheOp.effect_eq_none_iff.mp (hlater later hmem)
    · rintro ⟨before, s, name', lookup', ttl, after, rfl, haffects, hlater, hfresh⟩
      refine ⟨⟨candidates, s + ttl⟩, ?_, hfresh, rfl⟩
      rw [hideal _ _ hfresh, final_eq_some_iff]
      refine ⟨before, _, after, rfl, ?_, ?_⟩
      · exact CacheOp.effect_eq_value_iff.mpr ⟨name', lookup', ttl, rfl, haffects, rfl⟩
      · intro later hmem
        exact CacheOp.effect_eq_none_iff.mpr (hlater later hmem)
  · intro invalidated
    have hrun : LookupCache.run (history ++ [(now, .invalidateName invalidated)]) =
        (LookupCache.run history).invalidateName invalidated := List.foldl_append
    ext candidates
    rw [hrun, LookupCache.get_eq_some, LookupCache.lookup_invalidateName]
    by_cases hsame : SameName invalidated name
    · rw [if_pos ((sameName_iff lookup).mp hsame), if_pos hsame]
      simp
    · rw [if_neg (fun hkey => hsame ((sameName_iff lookup).mpr hkey)), if_neg hsame,
        LookupCache.get_eq_some]

end Refinement

end History

section Sample

attribute [local instance] plainHome

/-- Another spelling of the name finds the answer, and another name's invalidation leaves it. -/
theorem cache_refines_expiring_map_spelling :
    ((LookupCache.run [(0, .insert ['A', '.'] .default (⟨[]⟩ : EndpointCandidates Unit) 10),
      (5, .get ['a'] .default), (6, .invalidateName ['b'])]).get 8
        (LookupKey.new ['a'] .default)).1 = some ⟨[]⟩ := by
  refine ((cache_refines_expiring_map (by decide) _ _).1 _).mpr
    ⟨[], 0, ['A', '.'], .default, 10, _, rfl, ⟨by decide, by decide⟩, ?_, by decide⟩
  intro later hmem
  rcases List.mem_pair.mp hmem with rfl | rfl
  · exact id
  · exact (by decide : ¬ SameName ['b'] ['a'])

end Sample

end Ddns
