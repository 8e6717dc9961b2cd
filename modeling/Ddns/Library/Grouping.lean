import Mathlib.Data.List.Basic
import Mathlib.Data.List.Induction
import Mathlib.Data.List.Pairwise

/-! Sorting keyed items into groups, in the order in which the keys appear. -/
namespace Grouping

variable {K I : Type} [DecidableEq K]

/-- The item goes to the group of its key, or to a new group at the end. -/
def push (key : K) (item : I) : List (K × List I) → List (K × List I)
  | [] => [(key, [item])]
  | group :: groups =>
    if group.1 = key then (group.1, group.2 ++ [item]) :: groups
    else group :: push key item groups

def group (xs : List (K × I)) : List (K × List I) :=
  xs.foldl (fun groups x => push x.1 x.2 groups) []

/-- The groups are those of the items `xs`: one for each key, with its items in their order, and
ordered by the first item of each. -/
structure GroupsOf (xs : List (K × I)) (groups : List (K × List I)) : Prop where
  items : ∀ g ∈ groups, g.2 = (xs.filter fun x => x.1 = g.1).map Prod.snd
  order : groups.Pairwise fun g h =>
    (xs.map Prod.fst).idxOf g.1 < (xs.map Prod.fst).idxOf h.1
  keys : ∀ k, k ∈ groups.map Prod.fst ↔ k ∈ xs.map Prod.fst

variable {xs : List (K × I)} {groups : List (K × List I)} {key : K} {item : I}

theorem push_of_notMem (h : key ∉ groups.map Prod.fst) :
    push key item groups = groups ++ [(key, [item])] := by
  induction groups with
  | nil => rfl
  | cons g groups ih =>
    rw [List.map_cons, List.mem_cons, not_or] at h
    rw [push, if_neg (Ne.symm h.1), ih h.2, List.cons_append]

/-- Where the keys are distinct, only the group of the key changes. -/
theorem push_of_mem (h : key ∈ groups.map Prod.fst) (hnodup : (groups.map Prod.fst).Nodup) :
    push key item groups =
      groups.map fun g => if g.1 = key then (g.1, g.2 ++ [item]) else g := by
  induction groups with
  | nil => simp at h
  | cons g groups ih =>
    rw [List.map_cons, List.nodup_cons] at hnodup
    rw [push, List.map_cons]
    by_cases hg : g.1 = key
    · have hrest : groups.map (fun g => if g.1 = key then (g.1, g.2 ++ [item]) else g) = groups := by
        refine (List.map_congr_left ?_).trans (List.map_id groups)
        intro g' hg'
        refine if_neg ?_
        intro heq
        rw [← hg] at heq
        exact hnodup.1 (List.mem_map.mpr ⟨g', hg', heq⟩)
      rw [if_pos hg, if_pos hg, hrest]
    · have hmem : key ∈ groups.map Prod.fst := by
        rw [List.map_cons, List.mem_cons] at h
        exact h.resolve_left (Ne.symm hg)
      rw [if_neg hg, if_neg hg, ih hmem hnodup.2]

theorem GroupsOf.nodup (h : GroupsOf xs groups) : (groups.map Prod.fst).Nodup := by
  rw [List.Nodup, List.pairwise_map]
  refine h.order.imp ?_
  intro g g' hlt heq
  rw [heq] at hlt
  exact absurd hlt (Nat.lt_irrefl _)

theorem idxOf_snoc {k : K} (h : k ∈ xs.map Prod.fst) (x : K × I) :
    ((xs ++ [x]).map Prod.fst).idxOf k = (xs.map Prod.fst).idxOf k := by
  rw [List.map_append, List.idxOf_append_of_mem h]

theorem filter_snoc (k : K) :
    ((xs ++ [(key, item)]).filter fun x => x.1 = k).map Prod.snd =
      ((xs.filter fun x => x.1 = k).map Prod.snd) ++ if key = k then [item] else [] := by
  rw [List.filter_append, List.map_append]
  by_cases hk : key = k
  · rw [if_pos hk, List.filter_cons_of_pos (by simpa using hk)]
    rfl
  · rw [if_neg hk, List.filter_cons_of_neg (by simpa using hk)]
    rfl

/-- The order of the groups there are is not changed by an item that follows. -/
theorem GroupsOf.order_snoc (h : GroupsOf xs groups) (x : K × I) :
    groups.Pairwise fun g g' =>
      ((xs ++ [x]).map Prod.fst).idxOf g.1 < ((xs ++ [x]).map Prod.fst).idxOf g'.1 := by
  refine h.order.imp_of_mem ?_
  intro g g' hg hg' hlt
  rw [idxOf_snoc ((h.keys g.1).mp (List.mem_map_of_mem hg)),
    idxOf_snoc ((h.keys g'.1).mp (List.mem_map_of_mem hg'))]
  exact hlt

theorem GroupsOf.push_mem (h : GroupsOf xs groups) (hkey : key ∈ groups.map Prod.fst) :
    GroupsOf (xs ++ [(key, item)]) (push key item groups) := by
  rw [push_of_mem hkey h.nodup]
  have hfst : ∀ g : K × List I,
      (if g.1 = key then (g.1, g.2 ++ [item]) else g).1 = g.1 := fun g => by split <;> rfl
  have hkeys : (groups.map fun g => if g.1 = key then (g.1, g.2 ++ [item]) else g).map Prod.fst =
      groups.map Prod.fst := by
    rw [List.map_map]
    exact List.map_congr_left fun g _ => hfst g
  refine ⟨?_, ?_, ?_⟩
  · intro g hg
    obtain ⟨g, hmem, rfl⟩ := List.mem_map.mp hg
    rw [hfst, filter_snoc, ← h.items g hmem]
    by_cases hk : g.1 = key
    · rw [if_pos hk, if_pos hk.symm]
    · rw [if_neg hk, if_neg (Ne.symm hk), List.append_nil]
  · rw [List.pairwise_map]
    refine (h.order_snoc (key, item)).imp ?_
    intro g g' hlt
    rw [hfst, hfst]
    exact hlt
  · intro k
    rw [hkeys, h.keys, List.map_append, List.mem_append]
    constructor
    · exact Or.inl
    · rintro (hk | hk)
      · exact hk
      · rw [List.map_singleton, List.mem_singleton] at hk
        rw [hk]
        exact (h.keys key).mp hkey

theorem GroupsOf.push_notMem (h : GroupsOf xs groups) (hkey : key ∉ groups.map Prod.fst) :
    GroupsOf (xs ++ [(key, item)]) (push key item groups) := by
  rw [push_of_notMem hkey]
  have hnew : key ∉ xs.map Prod.fst := fun hmem => hkey ((h.keys key).mpr hmem)
  refine ⟨?_, ?_, ?_⟩
  · intro g hg
    rw [filter_snoc]
    rcases List.mem_append.mp hg with hold | hlast
    · have hne : key ≠ g.1 := by
        intro heq
        exact hkey (List.mem_map.mpr ⟨g, hold, heq.symm⟩)
      rw [if_neg hne, List.append_nil, ← h.items g hold]
    · obtain rfl := List.mem_singleton.mp hlast
      have hnone : xs.filter (fun x => x.1 = key) = [] := by
        refine List.filter_eq_nil_iff.mpr ?_
        intro x hx hk
        exact hnew (List.mem_map.mpr ⟨x, hx, of_decide_eq_true hk⟩)
      rw [if_pos rfl, hnone]
      rfl
  · refine List.pairwise_append.mpr ⟨h.order_snoc (key, item), List.pairwise_singleton _ _, ?_⟩
    intro g hg g' hg'
    obtain rfl := List.mem_singleton.mp hg'
    have hmem := (h.keys g.1).mp (List.mem_map_of_mem hg)
    rw [idxOf_snoc hmem, List.map_append, List.idxOf_append_of_notMem hnew]
    exact Nat.lt_add_right _ (List.idxOf_lt_length_of_mem hmem)
  · intro k
    rw [List.map_append, List.mem_append, h.keys, List.map_append, List.mem_append]
    rfl

theorem groupsOf_foldl (h : GroupsOf xs groups) (ys : List (K × I)) :
    GroupsOf (xs ++ ys) (ys.foldl (fun groups y => push y.1 y.2 groups) groups) := by
  induction ys generalizing xs groups with
  | nil =>
    rw [List.append_nil]
    exact h
  | cons y ys ih =>
    have hstep : GroupsOf (xs ++ [y]) (push y.1 y.2 groups) := by
      by_cases hy : y.1 ∈ groups.map Prod.fst
      · exact h.push_mem hy
      · exact h.push_notMem hy
    have hrest := ih hstep
    rw [List.append_assoc] at hrest
    exact hrest

theorem groupsOf_group (xs : List (K × I)) : GroupsOf xs (group xs) := by
  have hnil : GroupsOf ([] : List (K × I)) [] := ⟨by simp, List.Pairwise.nil, by simp⟩
  exact groupsOf_foldl hnil xs

section Selection

variable {J : Type}

theorem group_snoc (x : K × I) : group (xs ++ [x]) = push x.1 x.2 (group xs) :=
  List.foldl_append

theorem push_filter (p : K → Bool) :
    (push key item groups).filter (fun g => p g.1) =
      if p key then push key item (groups.filter fun g => p g.1)
      else groups.filter fun g => p g.1 := by
  induction groups with
  | nil => by_cases hp : p key = true <;> simp [push, hp]
  | cons g groups ih =>
    by_cases hg : g.1 = key
    · subst hg
      by_cases hp : p g.1 = true <;> simp [push, hp]
    · rw [push, if_neg hg]
      by_cases hp : p g.1 = true
      · rw [List.filter_cons_of_pos (by exact hp), List.filter_cons_of_pos (by exact hp), ih, push,
          if_neg hg]
        split <;> rfl
      · rw [List.filter_cons_of_neg (by exact hp), List.filter_cons_of_neg (by exact hp), ih]

/-- Some of the keys have the groups of their items. -/
theorem group_filter (p : K → Bool) (xs : List (K × I)) :
    (group xs).filter (fun g => p g.1) = group (xs.filter fun x => p x.1) := by
  induction xs using List.reverseRecOn with
  | nil => rfl
  | append_singleton xs x ih =>
    rw [group_snoc, push_filter, ih, List.filter_append]
    by_cases hp : p x.1 = true
    · rw [if_pos hp, List.filter_cons_of_pos (by exact hp)]
      exact (group_snoc x).symm
    · rw [if_neg hp, List.filter_cons_of_neg (by exact hp), List.filter_nil, List.append_nil]

theorem push_map (f : I → J) :
    (push key item groups).map (fun g => (g.1, g.2.map f)) =
      push key (f item) (groups.map fun g => (g.1, g.2.map f)) := by
  induction groups with
  | nil => rfl
  | cons g groups ih =>
    by_cases hg : g.1 = key
    · simp [push, hg]
    · simp only [push, if_neg hg, List.map_cons, ih]

/-- The groups of other items with the same keys. -/
theorem group_map (f : I → J) (xs : List (K × I)) :
    group (xs.map fun x => (x.1, f x.2)) = (group xs).map fun g => (g.1, g.2.map f) := by
  induction xs using List.reverseRecOn with
  | nil => rfl
  | append_singleton xs x ih =>
    rw [List.map_append, List.map_singleton, group_snoc, group_snoc, ih, push_map]

/-- The first group is the one of the first item. -/
theorem group_cons (x : K × I) (xs : List (K × I)) :
    ∃ rest, group (x :: xs) = (x.1, ((x :: xs).filter fun y => y.1 = x.1).map Prod.snd) :: rest := by
  have hhead : ∃ items rest, group (x :: xs) = (x.1, items) :: rest := by
    induction xs using List.reverseRecOn with
    | nil => exact ⟨[x.2], [], rfl⟩
    | append_singleton xs y ih =>
      obtain ⟨items, rest, hgroup⟩ := ih
      rw [← List.cons_append, group_snoc, hgroup, push]
      by_cases hy : x.1 = y.1
      · exact ⟨_, _, if_pos hy⟩
      · exact ⟨_, _, if_neg hy⟩
  obtain ⟨items, rest, hgroup⟩ := hhead
  have hitems := (groupsOf_group (x :: xs)).items (x.1, items) (by simp [hgroup])
  refine ⟨rest, ?_⟩
  rw [hgroup]
  exact congrArg (fun items => (x.1, items) :: rest) hitems

/-- The group of the first item comes first, and then those of the other keys. -/
theorem group_cons_filter (x : K × I) (xs : List (K × I)) :
    group (x :: xs) = (x.1, ((x :: xs).filter fun y => y.1 = x.1).map Prod.snd) ::
      group (xs.filter fun y => y.1 ≠ x.1) := by
  obtain ⟨rest, hgroup⟩ := group_cons x xs
  have hnodup := (groupsOf_group (x :: xs)).nodup
  rw [hgroup, List.map_cons, List.nodup_cons] at hnodup
  have hrest : rest.filter (fun g => decide (g.1 ≠ x.1)) = rest := by
    rw [List.filter_eq_self]
    intro g hg
    refine decide_eq_true ?_
    intro heq
    exact hnodup.1 (heq ▸ List.mem_map_of_mem hg)
  have hothers := group_filter (fun k => decide (k ≠ x.1)) (x :: xs)
  rw [hgroup, List.filter_cons_of_neg (by simp), hrest, List.filter_cons_of_neg (by simp)] at hothers
  rw [hgroup, hothers]

/-- The groups as they are defined: each key in the order of its first item, with its items. -/
theorem group_eq (xs : List (K × I)) :
    group xs = (xs.map Prod.fst).eraseDups.map fun k =>
      (k, (xs.filter fun x => x.1 = k).map Prod.snd) := by
  induction hn : xs.length using Nat.strongRecOn generalizing xs with
  | ind n ih =>
    cases xs with
    | nil => rfl
    | cons x xs =>
      have hlt : (xs.filter fun y => y.1 ≠ x.1).length < n := by
        have hle := List.length_filter_le (fun y => decide (y.1 ≠ x.1)) xs
        rw [List.length_cons] at hn
        omega
      have hkeys : (xs.map Prod.fst).filter (fun k => !k == x.1) =
          (xs.filter fun y => y.1 ≠ x.1).map Prod.fst := by
        rw [List.filter_map]
        congr 2
        funext y
        by_cases hy : y.1 = x.1 <;> simp [hy]
      rw [group_cons_filter, ih _ hlt _ rfl, List.map_cons, List.eraseDups_cons, List.map_cons, hkeys]
      congr 1
      refine List.map_congr_left ?_
      intro k hk
      -- none of the other keys is that of the first item
      have hne : k ≠ x.1 := by
        obtain ⟨y, hy, rfl⟩ := List.mem_map.mp (List.mem_eraseDups.mp hk)
        exact of_decide_eq_true (List.mem_filter.mp hy).2
      rw [List.filter_cons_of_neg (by simpa using Ne.symm hne), List.filter_filter]
      congr 3
      funext y
      by_cases hy : y.1 = k <;> simp [hy, hne]

/-- Looking a key up gives its items. -/
theorem find?_group (k : K) (xs : List (K × I)) :
    (((group xs).find? fun g => g.1 = k).map Prod.snd).getD [] =
      (xs.filter fun x => x.1 = k).map Prod.snd := by
  have hgroups := groupsOf_group xs
  cases hfind : (group xs).find? fun g => g.1 = k with
  | some g =>
    have hkey : g.1 = k := by simpa using List.find?_some hfind
    rw [Option.map_some, Option.getD_some, hgroups.items g (List.mem_of_find?_eq_some hfind), hkey]
  | none =>
    have hnone : xs.filter (fun x => x.1 = k) = [] := by
      rw [List.filter_eq_nil_iff]
      intro x hx hkey
      have hmem := (hgroups.keys k).mpr (of_decide_eq_true hkey ▸ List.mem_map_of_mem hx)
      obtain ⟨g, hg, heq⟩ := List.mem_map.mp hmem
      exact List.find?_eq_none.mp hfind g hg (decide_eq_true heq)
    rw [hnone]
    rfl

end Selection

end Grouping
