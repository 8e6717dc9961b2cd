import Ddns.Api

/-! What the lines of Cache-Control say together, and what the freshness of an answer takes
from them. -/
namespace Ddns

/-- The directives of lines of Cache-Control. -/
def cacheDirectives (lines : List (List UInt8)) : List Name :=
  (lines.filterMap headerStr).flatMap (·.splitOn ',')

/-- One line with commas between the given ones. -/
def joinLines (lines : List (List UInt8)) : List UInt8 := [44].intercalate lines

namespace HeaderMap

/-- The same message with its lines of Cache-Control in one. -/
def joinCacheControl (headers : HeaderMap) : HeaderMap :=
  (.cacheControl, joinLines (getAll headers .cacheControl)) ::
    headers.filter fun field => field.1 ≠ .cacheControl

def ageSeconds (headers : HeaderMap) : ℕ :=
  (((get headers .age).bind headerStr).bind Text.parseU64).getD 0

theorem getAll_cons (field : HeaderName × List UInt8) (headers : HeaderMap) (name : HeaderName) :
    getAll (field :: headers) name =
      if field.1 = name then field.2 :: getAll headers name else getAll headers name := by
  by_cases h : field.1 = name <;> simp [getAll, h]

theorem getAll_filter_ne (headers : HeaderMap) {removed name : HeaderName} (h : name ≠ removed) :
    getAll (headers.filter fun field => field.1 ≠ removed) name = getAll headers name := by
  unfold getAll
  rw [List.filter_filter]
  congr 2
  funext field
  by_cases hname : field.1 = name
  · simp [hname, h]
  · simp [hname]

theorem getAll_filter_self (headers : HeaderMap) (removed : HeaderName) :
    getAll (headers.filter fun field => field.1 ≠ removed) removed = [] := by
  unfold getAll
  rw [List.filter_filter]
  simp

theorem getAll_joinCacheControl (headers : HeaderMap) :
    getAll (joinCacheControl headers) .cacheControl =
      [joinLines (getAll headers .cacheControl)] := by
  unfold joinCacheControl
  rw [getAll_cons, if_pos rfl, getAll_filter_self]

theorem ageSeconds_joinCacheControl (headers : HeaderMap) :
    ageSeconds (joinCacheControl headers) = ageSeconds headers := by
  have hage : getAll (joinCacheControl headers) .age = getAll headers .age := by
    unfold joinCacheControl
    rw [getAll_cons, if_neg (by simp), getAll_filter_ne headers (by simp)]
  unfold ageSeconds get
  rw [hage]

end HeaderMap

theorem headerStr_append {before after : List UInt8} {start rest : Name}
    (hbefore : headerStr before = some start) (hafter : headerStr after = some rest) :
    headerStr (before ++ 44 :: after) = some (start ++ ',' :: rest) := by
  unfold headerStr at hbefore hafter ⊢
  split at hbefore
  · rename_i hstart
    split at hafter
    · rename_i hrest
      cases hbefore
      cases hafter
      rw [if_pos (by rw [List.all_append, List.all_cons, hstart, hrest]; decide), List.map_append,
        List.map_cons]
      rfl
    · cases hafter
  · cases hbefore

theorem cacheDirectives_cons {line : List UInt8} {text : Name} (h : headerStr line = some text)
    (lines : List (List UInt8)) :
    cacheDirectives (line :: lines) = text.splitOn ',' ++ cacheDirectives lines := by
  unfold cacheDirectives
  rw [List.filterMap_cons_some h, List.flatMap_cons]

theorem cacheDirectives_append (lines more : List (List UInt8)) :
    cacheDirectives (lines ++ more) = cacheDirectives lines ++ cacheDirectives more := by
  unfold cacheDirectives
  rw [List.filterMap_append, List.flatMap_append]

/-- A line of lines has the directives of all of them. -/
theorem headerStr_joinLines (line : List UInt8) (lines : List (List UInt8))
    (h : ∀ value ∈ line :: lines, (headerStr value).isSome) :
    ∃ text, headerStr (joinLines (line :: lines)) = some text ∧
      text.splitOn ',' = cacheDirectives (line :: lines) := by
  induction lines generalizing line with
  | nil =>
    obtain ⟨text, htext⟩ := Option.isSome_iff_exists.mp (h line List.mem_cons_self)
    refine ⟨text, ?_, ?_⟩
    · unfold joinLines
      rw [List.intercalate_singleton]
      exact htext
    · rw [cacheDirectives_cons htext]
      exact (List.append_nil _).symm
  | cons next lines ih =>
    obtain ⟨start, hstart⟩ := Option.isSome_iff_exists.mp (h line List.mem_cons_self)
    obtain ⟨rest, hrest, hdirectives⟩ := ih next fun value hvalue =>
      h value (List.mem_cons_of_mem _ hvalue)
    refine ⟨start ++ ',' :: rest, ?_, ?_⟩
    · have hjoin : joinLines (line :: next :: lines) = line ++ 44 :: joinLines (next :: lines) := by
        unfold joinLines
        rw [List.intercalate_cons_cons, List.append_assoc, List.singleton_append]
      rw [hjoin]
      exact headerStr_append hstart hrest
    · rw [List.splitOn_append_cons_self, hdirectives, ← cacheDirectives_cons hstart]

/-- A single line counts as the lines that it joins. -/
theorem joined_directives {lines : List (List UInt8)}
    (h : ∀ line ∈ lines, (headerStr line).isSome) :
    (cacheDirectives [joinLines lines]).any forbidsCaching =
        (cacheDirectives lines).any forbidsCaching ∧
      (cacheDirectives [joinLines lines]).findSome? maxAgeOf =
        (cacheDirectives lines).findSome? maxAgeOf := by
  cases lines with
  | nil => decide
  | cons line lines =>
    obtain ⟨text, htext, hdirectives⟩ := headerStr_joinLines line lines h
    rw [cacheDirectives_cons htext, hdirectives]
    exact ⟨by simp [cacheDirectives], by simp [cacheDirectives]⟩

/-- The directives that forbid are read in every line, and the age in the first one. -/
theorem freshness_eq (dnsTtl : ℕ) (headers : HeaderMap) :
    freshness dnsTtl headers =
      if (cacheDirectives (HeaderMap.getAll headers .cacheControl)).any forbidsCaching then 0
      else ((cacheDirectives ((HeaderMap.getAll headers .cacheControl).take 1)).findSome?
        maxAgeOf).elim dnsTtl (min dnsTtl) - HeaderMap.ageSeconds headers := by
  have hfirst : (((HeaderMap.get headers .cacheControl).bind headerStr).bind fun value =>
      (value.splitOn ',').findSome? maxAgeOf) =
      (cacheDirectives ((HeaderMap.getAll headers .cacheControl).take 1)).findSome? maxAgeOf := by
    unfold HeaderMap.get
    cases HeaderMap.getAll headers .cacheControl with
    | nil => rfl
    | cons line lines =>
      cases hline : headerStr line with
      | none => simp [cacheDirectives, hline]
      | some text => simp [cacheDirectives, hline]
  unfold freshness
  rw [hfirst]
  rfl

/-- A second age is without effect when the first one is there, or when the time to live is
over before it. -/
theorem second_age_iff (dnsTtl age : ℕ) (first later : Option ℕ) :
    first.elim dnsTtl (min dnsTtl) - age = (first.or later).elim dnsTtl (min dnsTtl) - age ↔
      first.isSome ∨ ∀ maxAge, later = some maxAge → dnsTtl ≤ maxAge ∨ dnsTtl ≤ age := by
  cases first with
  | some first => simp
  | none =>
    cases later with
    | none => simp
    | some later =>
      simp only [Option.elim, Option.or, Option.isSome_none, Bool.false_eq_true, false_or,
        Option.some.injEq, forall_eq']
      omega

/-- Lines that are told apart count as one line exactly when a directive forbids caching, the
first line gives an age, or no other line gives an age that would matter. -/
theorem freshness_split_lines_iff (dnsTtl : ℕ) (headers : HeaderMap)
    (hvisible : ∀ line ∈ HeaderMap.getAll headers .cacheControl, (headerStr line).isSome) :
    freshness dnsTtl headers = freshness dnsTtl (HeaderMap.joinCacheControl headers) ↔
      (∃ directive ∈ cacheDirectives (HeaderMap.getAll headers .cacheControl),
        forbidsCaching directive = true) ∨
      (∃ directive ∈ cacheDirectives ((HeaderMap.getAll headers .cacheControl).take 1),
        (maxAgeOf directive).isSome) ∨
      ∀ maxAge, (cacheDirectives ((HeaderMap.getAll headers .cacheControl).drop 1)).findSome?
        maxAgeOf = some maxAge → dnsTtl ≤ maxAge ∨ dnsTtl ≤ HeaderMap.ageSeconds headers := by
  obtain ⟨hforbids, hage⟩ := joined_directives hvisible
  have hjoined : (HeaderMap.getAll (HeaderMap.joinCacheControl headers) .cacheControl).take 1 =
      [joinLines (HeaderMap.getAll headers .cacheControl)] := by
    rw [HeaderMap.getAll_joinCacheControl]
    rfl
  have hlines : (cacheDirectives (HeaderMap.getAll headers .cacheControl)).findSome? maxAgeOf =
      ((cacheDirectives ((HeaderMap.getAll headers .cacheControl).take 1)).findSome? maxAgeOf).or
        ((cacheDirectives ((HeaderMap.getAll headers .cacheControl).drop 1)).findSome?
          maxAgeOf) := by
    rw [← List.findSome?_append, ← cacheDirectives_append, List.take_append_drop]
  rw [freshness_eq, freshness_eq, hjoined, HeaderMap.getAll_joinCacheControl,
    HeaderMap.ageSeconds_joinCacheControl, hforbids, hage, hlines, ← List.any_eq_true,
    ← List.findSome?_isSome_iff]
  by_cases hstop : (cacheDirectives (HeaderMap.getAll headers .cacheControl)).any forbidsCaching
  · simp [hstop]
  · rw [if_neg hstop, if_neg hstop, second_age_iff]
    simp [hstop]

/-- The bytes of `public` -/
def publicLine : List UInt8 := [112, 117, 98, 108, 105, 99]

/-- The bytes of `max-age=10` -/
def maxAgeTenLine : List UInt8 := [109, 97, 120, 45, 97, 103, 101, 61, 49, 48]

/-- An age in the second line is not read. -/
theorem later_max_age_ignored :
    (∀ line ∈ [publicLine, maxAgeTenLine], (headerStr line).isSome) ∧
    freshness 300 [(.cacheControl, publicLine), (.cacheControl, maxAgeTenLine)] = 300 ∧
    freshness 300 (HeaderMap.joinCacheControl
      [(.cacheControl, publicLine), (.cacheControl, maxAgeTenLine)]) = 10 := by
  decide +kernel

theorem freshness_split_lines_iff_public :
    (∀ line ∈ [maxAgeTenLine, publicLine], (headerStr line).isSome) ∧
    freshness 300 [(.cacheControl, maxAgeTenLine), (.cacheControl, publicLine)] =
      freshness 300 (HeaderMap.joinCacheControl
        [(.cacheControl, maxAgeTenLine), (.cacheControl, publicLine)]) :=
  ⟨by decide +kernel, (freshness_split_lines_iff 300 _ (by decide +kernel)).mpr
    (Or.inr (Or.inl (by decide +kernel)))⟩

end Ddns
