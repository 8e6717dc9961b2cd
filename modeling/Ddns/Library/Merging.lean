import Mathlib.Data.List.Dedup
import Mathlib.Data.List.Induction
import Mathlib.Data.List.Nodup

/-! Merging items one after another, those with the same key into one. -/
namespace Merging

section Union

variable {β : Type} [DecidableEq β] {x : β} {xs ys : List β}

/-- What is new in the second list goes to the end of the first one. -/
def union (xs ys : List β) : List β := xs ++ ys.filter fun y => y ∉ xs

theorem mem_union : x ∈ union xs ys ↔ x ∈ xs ∨ x ∈ ys := by
  by_cases h : x ∈ xs <;> simp [union, h]

theorem nodup_union (hxs : xs.Nodup) (hys : ys.Nodup) : (union xs ys).Nodup := by
  refine hxs.append (hys.filter _) ?_
  intro y hy hnew
  exact of_decide_eq_true (List.mem_filter.mp hnew).2 hy

theorem mem_foldl_union {rest : List (List β)} :
    x ∈ rest.foldl union xs ↔ x ∈ xs ∨ ∃ ys ∈ rest, x ∈ ys := by
  induction rest generalizing xs with
  | nil => simp
  | cons ys rest ih => rw [List.foldl_cons, ih, mem_union, or_assoc, List.exists_mem_cons_iff]

theorem nodup_foldl_union {rest : List (List β)} (hxs : xs.Nodup) (hrest : ∀ ys ∈ rest, ys.Nodup) :
    (rest.foldl union xs).Nodup := by
  induction rest generalizing xs with
  | nil => exact hxs
  | cons ys rest ih =>
    refine ih (nodup_union hxs (hrest ys List.mem_cons_self)) ?_
    exact fun zs hzs => hrest zs (List.mem_cons_of_mem _ hzs)

theorem length_foldl_union_le {rest : List (List β)} {n : ℕ} (hxs : xs.length ≤ n)
    (hrest : ∀ ys ∈ rest, ys.length ≤ n) :
    (rest.foldl union xs).length ≤ n * (rest.length + 1) := by
  have hstep : ∀ (zs : List β) (m : ℕ), zs.length ≤ m →
      (rest.foldl union zs).length ≤ m + n * rest.length := by
    induction rest with
    | nil =>
      intro zs m hzs
      exact hzs
    | cons ys rest ih =>
      intro zs m hzs
      have hys := hrest ys List.mem_cons_self
      have hlen : (union zs ys).length ≤ m + n := by
        have hfilter := List.length_filter_le (fun y => decide (y ∉ zs)) ys
        rw [union, List.length_append]
        omega
      have hih := ih (fun ws hws => hrest ws (List.mem_cons_of_mem _ hws)) (union zs ys) (m + n) hlen
      rw [List.foldl_cons, List.length_cons, Nat.mul_add]
      omega
  have hall := hstep xs n hxs
  rw [Nat.mul_add]
  omega

end Union

variable {α K : Type} [DecidableEq K] {key : α → K} {combine : α → α → α}

/-- The item is combined with the one of its key, or goes to the end. -/
def insert (key : α → K) (combine : α → α → α) : List α → α → List α
  | [], x => [x]
  | y :: ys, x => if key y = key x then combine y x :: ys else y :: insert key combine ys x

def all (key : α → K) (combine : α → α → α) (xs : List α) : List α :=
  xs.foldl (insert key combine) []

/-- What `xs` are merged into: one item for each key, combined of those with this key in their
order. -/
structure MergeOf (key : α → K) (combine : α → α → α) (xs target : List α) : Prop where
  nodup : (target.map key).Nodup
  keys : ∀ k, k ∈ target.map key ↔ k ∈ xs.map key
  items : ∀ y ∈ target, ∃ x rest, xs.filter (fun z => key z = key y) = x :: rest ∧
    y = rest.foldl combine x

variable {xs target : List α} {x : α}

theorem insert_of_notMem (h : key x ∉ target.map key) :
    insert key combine target x = target ++ [x] := by
  induction target with
  | nil => rfl
  | cons y ys ih =>
    rw [List.map_cons, List.mem_cons, not_or] at h
    rw [insert, if_neg (Ne.symm h.1), ih h.2, List.cons_append]

theorem insert_of_mem (combine : α → α → α) (h : key x ∈ target.map key) :
    ∃ before y after, target = before ++ y :: after ∧ key y = key x ∧
      insert key combine target x = before ++ combine y x :: after := by
  induction target with
  | nil => cases h
  | cons y ys ih =>
    by_cases hy : key y = key x
    · exact ⟨[], y, ys, rfl, hy, if_pos hy⟩
    · rw [List.map_cons, List.mem_cons] at h
      obtain ⟨before, z, after, rfl, hz, hinsert⟩ := ih (h.resolve_left (Ne.symm hy))
      refine ⟨y :: before, z, after, rfl, hz, ?_⟩
      rw [insert, if_neg hy, hinsert, List.cons_append]

theorem filter_snoc_of_ne {k : K} (h : key x ≠ k) :
    (xs ++ [x]).filter (fun z => key z = k) = xs.filter (fun z => key z = k) := by
  simp [List.filter_append, h]

/-- One more item of a key that is there. -/
theorem MergeOf.snoc_of_mem (hkey : ∀ y x, key (combine y x) = key y)
    (h : MergeOf key combine xs target) (hmem : key x ∈ target.map key) :
    MergeOf key combine (xs ++ [x]) (insert key combine target x) := by
  obtain ⟨before, y, after, rfl, hy, hinsert⟩ := insert_of_mem combine hmem
  have hkeys : (before ++ combine y x :: after).map key = (before ++ y :: after).map key := by
    simp [hkey]
  rw [hinsert]
  refine ⟨hkeys ▸ h.nodup, ?_, ?_⟩
  · intro k
    rw [hkeys, h.keys k, List.map_append, List.mem_append]
    refine ⟨Or.inl, ?_⟩
    rintro (hk | hk)
    · exact hk
    · obtain rfl : k = key x := by simpa using hk
      exact (h.keys _).mp hmem
  · have hnodup := h.nodup
    rw [List.map_append, List.map_cons, List.nodup_append, List.nodup_cons] at hnodup
    obtain ⟨_, ⟨hafter, _⟩, hdisjoint⟩ := hnodup
    -- the others have other keys
    have hother : ∀ z ∈ before ++ after, key x ≠ key z := by
      intro z hz heq
      rcases List.mem_append.mp hz with hz | hz
      · exact hdisjoint (key z) (List.mem_map_of_mem hz) (key y) List.mem_cons_self
          (heq.symm.trans hy.symm)
      · exact hafter ((hy.trans heq) ▸ List.mem_map_of_mem hz)
    have hkeep : ∀ z ∈ before ++ after, ∃ first rest,
        (xs ++ [x]).filter (fun w => key w = key z) = first :: rest ∧
          z = rest.foldl combine first := by
      intro z hz
      rw [filter_snoc_of_ne (hother z hz)]
      refine h.items z ?_
      rcases List.mem_append.mp hz with hz | hz
      · exact List.mem_append_left _ hz
      · exact List.mem_append_right _ (List.mem_cons_of_mem _ hz)
    intro z hz
    rcases List.mem_append.mp hz with hz | hz
    · exact hkeep z (List.mem_append_left _ hz)
    rcases List.mem_cons.mp hz with rfl | hz
    · obtain ⟨first, rest, hfilter, hfold⟩ := h.items y (by simp)
      refine ⟨first, rest ++ [x], ?_, ?_⟩
      · rw [hkey, List.filter_append, hfilter]
        simp [hy]
      · rw [List.foldl_append, ← hfold]
        rfl
    · exact hkeep z (List.mem_append_right _ hz)

/-- One more item of a new key. -/
theorem MergeOf.snoc_of_notMem (h : MergeOf key combine xs target)
    (hmem : key x ∉ target.map key) :
    MergeOf key combine (xs ++ [x]) (insert key combine target x) := by
  rw [insert_of_notMem hmem]
  have hnew : key x ∉ xs.map key := fun hin => hmem ((h.keys _).mpr hin)
  refine ⟨?_, ?_, ?_⟩
  · rw [List.map_append, List.map_singleton]
    refine h.nodup.append (List.nodup_singleton _) ?_
    rw [List.disjoint_singleton]
    exact hmem
  · intro k
    rw [List.map_append, List.map_append, List.mem_append, List.mem_append, h.keys k]
  · intro z hz
    rcases List.mem_append.mp hz with hz | hz
    · have hne : key x ≠ key z := by
        intro heq
        exact hmem (heq ▸ List.mem_map_of_mem hz)
      rw [filter_snoc_of_ne hne]
      exact h.items z hz
    · obtain rfl := List.mem_singleton.mp hz
      refine ⟨z, [], ?_, rfl⟩
      rw [List.filter_append, List.filter_eq_nil_iff.mpr ?_]
      · simp
      · intro w hw heq
        exact hnew ((of_decide_eq_true heq) ▸ List.mem_map_of_mem hw)

theorem mergeOf_all (hkey : ∀ y x, key (combine y x) = key y) (xs : List α) :
    MergeOf key combine xs (all key combine xs) := by
  induction xs using List.reverseRecOn with
  | nil => exact ⟨List.nodup_nil, fun _ => Iff.rfl, fun _ hy => (by cases hy)⟩
  | append_singleton xs x ih =>
    have hall : all key combine (xs ++ [x]) = insert key combine (all key combine xs) x :=
      List.foldl_append
    rw [hall]
    by_cases hmem : key x ∈ (all key combine xs).map key
    · exact ih.snoc_of_mem hkey hmem
    · exact ih.snoc_of_notMem hmem

/-- There are as many items as keys. -/
theorem MergeOf.length_eq (h : MergeOf key combine xs target) :
    target.length = (xs.map key).dedup.length := by
  have hperm : (target.map key).Perm (xs.map key).dedup := by
    rw [List.perm_ext_iff_of_nodup h.nodup (List.nodup_dedup _)]
    intro k
    rw [List.mem_dedup]
    exact h.keys k
  rw [← List.length_map key]
  exact hperm.length_eq

end Merging
