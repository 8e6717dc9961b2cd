import Mathlib.Data.List.AList
import Ddns.Library.Text
import Ddns.Resolvers.EndpointCandidates

/-! The cache of positive lookup answers. Times are in nanoseconds. -/
namespace Ddns

section Retain

variable {κ : Type} {β : κ → Type}

/-- Keeps the entries whose keys pass the test. -/
def retainKeys (keep : κ → Bool) (m : AList β) : AList β :=
  ⟨m.entries.filter fun entry => keep entry.1, m.nodupKeys.sublist List.filter_sublist⟩

theorem mem_retainKeys {keep : κ → Bool} {m : AList β} {entry : Sigma β} :
    entry ∈ (retainKeys keep m).entries ↔ entry ∈ m.entries ∧ keep entry.1 = true :=
  List.mem_filter

end Retain

variable [DhttpHome]

structure LookupKey where
  name : Name
  lookup : EndpointLookup
  deriving DecidableEq

/-- A name without the dots at its end. -/
def trimDots (name : Name) : Name := Text.trimEndMatches (· = '.') name

def LookupKey.new (name : Name) (lookup : EndpointLookup) : LookupKey :=
  ⟨Text.toAsciiLowercase (trimDots name), lookup⟩

structure CachedAnswer (Source : Type) where
  candidates : EndpointCandidates Source
  expiresAt : ℕ

abbrev LookupCache (Source : Type) := AList fun _ : LookupKey => CachedAnswer Source

namespace LookupCache

variable {Source : Type}

/-- An answer that has expired is removed. -/
def get (cache : LookupCache Source) (now : ℕ) (key : LookupKey) :
    Option (EndpointCandidates Source) × LookupCache Source :=
  match cache.lookup key with
  | none => (none, cache)
  | some answer =>
    if now < answer.expiresAt then (some answer.candidates, cache) else (none, cache.erase key)

/-- An answer that may not be kept is not. -/
def insert (cache : LookupCache Source) (now : ℕ) (key : LookupKey)
    (candidates : EndpointCandidates Source) (ttl : ℕ) : LookupCache Source :=
  if ttl = 0 then cache else AList.insert key ⟨candidates, now + ttl⟩ cache

def invalidateName (cache : LookupCache Source) (name : Name) : LookupCache Source :=
  retainKeys (fun key => !Text.eqIgnoreAsciiCase key.name (trimDots name)) cache

def clear (_ : LookupCache Source) : LookupCache Source := ∅

theorem mem_of_get {cache : LookupCache Source} {now : ℕ} {key : LookupKey}
    {candidates : EndpointCandidates Source} (h : (cache.get now key).1 = some candidates) :
    ∃ answer, ⟨key, answer⟩ ∈ cache.entries ∧ answer.candidates = candidates := by
  unfold get at h
  cases hl : cache.lookup key with
  | none =>
    rw [hl] at h
    cases h
  | some answer =>
    rw [hl] at h
    dsimp only at h
    split at h
    · exact ⟨answer, AList.mem_lookup_iff.mp hl, Option.some.inj h⟩
    · cases h

/-- Looking up a key adds nothing. -/
theorem get_subset (cache : LookupCache Source) (now : ℕ) (key : LookupKey) :
    (cache.get now key).2.entries ⊆ cache.entries := by
  unfold get
  cases cache.lookup key with
  | none => exact List.Subset.refl _
  | some answer =>
    dsimp only
    split
    · exact List.Subset.refl _
    · exact (List.kerase_sublist _ _).subset

theorem mem_insert {cache : LookupCache Source} {now ttl : ℕ} {key : LookupKey}
    {candidates : EndpointCandidates Source} {entry : Sigma fun _ : LookupKey => CachedAnswer Source}
    (h : entry ∈ (cache.insert now key candidates ttl).entries) :
    entry ∈ cache.entries ∨ ttl ≠ 0 ∧ entry = ⟨key, candidates, now + ttl⟩ := by
  unfold insert at h
  split at h
  · exact Or.inl h
  · rename_i hzero
    rw [AList.entries_insert] at h
    rcases List.mem_cons.mp h with rfl | h
    · exact Or.inr ⟨hzero, rfl⟩
    · exact Or.inl ((List.kerase_sublist _ _).subset h)

end LookupCache

end Ddns
