import Diverge.Assoc

/-!
# Associations seen through their values

The values of an association may be names of something else.  `Assoc.mapValues`
replaces names by what they stand for, and putting, erasing and looking up commute
with it.  In an association that has each key once, what is found is what is an
entry, and changing what one name stands for is putting the new value.
-/

namespace Diverge

namespace Assoc

variable {κ ν ω : Type} [DecidableEq κ]

/-- Each key has one entry. -/
def HasOnce (entries : Assoc κ ν) : Prop :=
  (entries.map Prod.fst).Nodup

/-- Replace every value. -/
def mapValues (change : ν → ω) (entries : Assoc κ ν) : Assoc κ ω :=
  entries.map fun entry => (entry.1, change entry.2)

/-- What is found after the values have changed is the changed value of what was found. -/
theorem get?_mapValues
    (change : ν → ω)
    (entries : Assoc κ ν)
    (key : κ) :
    (entries.mapValues change).get? key = (entries.get? key).map change := by
  induction entries with
  | nil => rfl
  | cons entry rest inductionHypothesis =>
      by_cases same : entry.1 = key
      · simp [mapValues, get?, same]
      · simpa [mapValues, get?, same] using inductionHypothesis

omit [DecidableEq κ] in
theorem keys_mapValues
    (change : ν → ω)
    (entries : Assoc κ ν) :
    (entries.mapValues change).map Prod.fst = entries.map Prod.fst := by
  unfold mapValues
  rw [List.map_map]
  rfl

/-- It does not matter whether a value is changed before or after it is put in. -/
theorem put_mapValues
    (change : ν → ω)
    (entries : Assoc κ ν)
    (key : κ)
    (value : ν) :
    (entries.put key value).mapValues change =
      (entries.mapValues change).put key (change value) := by
  induction entries with
  | nil => rfl
  | cons entry rest inductionHypothesis =>
      by_cases same : entry.1 = key
      · simp [mapValues, put, same]
      · simpa [mapValues, put, same] using inductionHypothesis

theorem erase_mapValues
    (change : ν → ω)
    (entries : Assoc κ ν)
    (key : κ) :
    (entries.erase key).mapValues change = (entries.mapValues change).erase key := by
  induction entries with
  | nil => rfl
  | cons entry rest inductionHypothesis =>
      by_cases same : entry.1 = key
      · simpa [mapValues, erase, same] using inductionHypothesis
      · simpa [mapValues, erase, same] using inductionHypothesis

theorem mem_of_get?
    {entries : Assoc κ ν}
    {key : κ}
    {value : ν}
    (found : entries.get? key = some value) :
    (key, value) ∈ entries := by
  induction entries with
  | nil => simp [get?] at found
  | cons entry rest inductionHypothesis =>
      obtain ⟨other, old⟩ := entry
      by_cases same : other = key
      · simp only [get?, same, if_true, Option.some.injEq] at found
        rw [same, found]
        exact List.mem_cons_self
      · simp only [get?, same, if_false] at found
        exact List.mem_cons_of_mem _ (inductionHypothesis found)

/-- If no key occurs twice, every entry is found by its key. -/
theorem HasOnce.get?_of_mem
    {entries : Assoc κ ν}
    (once : entries.HasOnce)
    {key : κ}
    {value : ν}
    (member : (key, value) ∈ entries) :
    entries.get? key = some value := by
  induction entries with
  | nil => simp at member
  | cons entry rest inductionHypothesis =>
      obtain ⟨other, old⟩ := entry
      simp only [HasOnce, List.map_cons, List.nodup_cons] at once
      rcases List.mem_cons.1 member with same | inRest
      · cases same
        simp [get?]
      · have different : other ≠ key := by
          rintro rfl
          exact once.1 (List.mem_map.2 ⟨_, inRest, rfl⟩)
        simp only [get?, different, if_false]
        exact inductionHypothesis once.2 inRest

/-- The keys are those by which something is found. -/
theorem mem_keys_iff
    {entries : Assoc κ ν}
    {key : κ} :
    key ∈ entries.map Prod.fst ↔ entries.get? key ≠ none := by
  induction entries with
  | nil => simp [get?]
  | cons entry rest inductionHypothesis =>
      by_cases same : entry.1 = key
      · simp [get?, same]
      · have different : ¬ key = entry.1 := fun equal => same equal.symm
        simp only [List.map_cons, List.mem_cons, different, false_or, get?, same, if_false]
        exact inductionHypothesis

/-- An entry after putting is the new one, or an old one. -/
theorem mem_put
    {entries : Assoc κ ν}
    {key other : κ}
    {value old : ν}
    (member : (other, old) ∈ entries.put key value) :
    (other = key ∧ old = value) ∨ (other, old) ∈ entries := by
  induction entries with
  | nil =>
      simp only [put, List.mem_singleton, Prod.mk.injEq] at member
      exact Or.inl member
  | cons entry rest inductionHypothesis =>
      by_cases same : entry.1 = key
      · simp only [put, same, if_true, List.mem_cons, Prod.mk.injEq] at member
        rcases member with new | inRest
        · exact Or.inl new
        · exact Or.inr (List.mem_cons_of_mem _ inRest)
      · simp only [put, same, if_false] at member
        rcases List.mem_cons.1 member with here | inRest
        · exact Or.inr (here ▸ List.mem_cons_self)
        · rcases inductionHypothesis inRest with new | before
          · exact Or.inl new
          · exact Or.inr (List.mem_cons_of_mem _ before)

theorem mem_of_mem_erase
    {entries : Assoc κ ν}
    {key : κ}
    {entry : κ × ν}
    (member : entry ∈ entries.erase key) :
    entry ∈ entries := by
  induction entries with
  | nil => exact member
  | cons first rest inductionHypothesis =>
      by_cases same : first.1 = key
      · simp only [erase, same, if_true] at member
        exact List.mem_cons_of_mem _ (inductionHypothesis member)
      · simp only [erase, same, if_false] at member
        rcases List.mem_cons.1 member with rfl | inRest
        · exact List.mem_cons_self
        · exact List.mem_cons_of_mem _ (inductionHypothesis inRest)

theorem HasOnce.erase
    {entries : Assoc κ ν}
    (once : entries.HasOnce)
    (key : κ) :
    (Assoc.erase entries key).HasOnce := by
  induction entries with
  | nil => exact once
  | cons entry rest inductionHypothesis =>
      simp only [HasOnce, List.map_cons, List.nodup_cons] at once
      by_cases same : entry.1 = key
      · simp only [Assoc.erase, same, if_true]
        exact inductionHypothesis once.2
      · simp only [Assoc.erase, same, if_false, HasOnce, List.map_cons, List.nodup_cons]
        refine ⟨?_, inductionHypothesis once.2⟩
        intro member
        obtain ⟨found, inRest, equal⟩ := List.mem_map.1 member
        exact once.1 (List.mem_map.2 ⟨found, mem_of_mem_erase inRest, equal⟩)

/-- Putting keeps the keys if there is such a key, and else adds it. -/
theorem keys_put
    (entries : Assoc κ ν)
    (key : κ)
    (value : ν) :
    (entries.put key value).map Prod.fst =
      if key ∈ entries.map Prod.fst then entries.map Prod.fst
      else entries.map Prod.fst ++ [key] := by
  induction entries with
  | nil => simp [put]
  | cons entry rest inductionHypothesis =>
      by_cases same : entry.1 = key
      · simp [put, same]
      · have different : key ≠ entry.1 := fun equal => same equal.symm
        simp only [put, same, if_false, List.map_cons, inductionHypothesis,
          List.mem_cons, different, false_or]
        split
        · rfl
        · rfl

/-- Putting never makes a key occur twice: a key that is there keeps its place. -/
theorem HasOnce.put
    {entries : Assoc κ ν}
    (once : entries.HasOnce)
    (key : κ)
    (value : ν) :
    (Assoc.put entries key value).HasOnce := by
  unfold HasOnce
  rw [keys_put]
  split
  · exact once
  · rename_i absent
    refine List.nodup_append.2 ⟨once, by simp, ?_⟩
    intro other inside new isNew
    rw [List.mem_singleton.1 isNew]
    rintro rfl
    exact absent inside

/-- Putting in what is there already changes nothing. -/
theorem put_of_get?
    {entries : Assoc κ ν}
    {key : κ}
    {value : ν}
    (found : entries.get? key = some value) :
    entries.put key value = entries := by
  induction entries with
  | nil => simp [get?] at found
  | cons entry rest inductionHypothesis =>
      obtain ⟨other, old⟩ := entry
      by_cases same : other = key
      · simp only [get?, same, if_true, Option.some.injEq] at found
        simp only [put, same, if_true, found]
      · simp only [get?, same, if_false] at found
        simp only [put, same, if_false, inductionHypothesis found]

theorem keys_erase
    (entries : Assoc κ ν)
    (key : κ) :
    (entries.erase key).map Prod.fst = (entries.map Prod.fst).filter (· ≠ key) := by
  induction entries with
  | nil => rfl
  | cons entry rest inductionHypothesis =>
      by_cases same : entry.1 = key
      · simpa [erase, same] using inductionHypothesis
      · simpa [erase, same] using inductionHypothesis

/-- A key that is not there comes last. -/
theorem put_of_not_mem
    {entries : Assoc κ ν}
    {key : κ}
    (absent : key ∉ entries.map Prod.fst)
    (value : ν) :
    entries.put key value = entries ++ [(key, value)] := by
  induction entries with
  | nil => rfl
  | cons entry rest inductionHypothesis =>
      obtain ⟨other, old⟩ := entry
      simp only [List.map_cons, List.mem_cons, not_or] at absent
      have different : other ≠ key := fun equal => absent.1 equal.symm
      simp only [put, different, if_false, inductionHypothesis absent.2, List.cons_append]

/-- Putting entries with new and distinct keys one after another appends them. -/
theorem foldl_put_of_hasOnce
    (known entries : Assoc κ ν)
    (once : HasOnce (known ++ entries)) :
    entries.foldl (fun known entry => known.put entry.1 entry.2) known = known ++ entries := by
  induction entries generalizing known with
  | nil => rw [List.foldl_nil, List.append_nil]
  | cons entry rest inductionHypothesis =>
      have absent : entry.1 ∉ known.map Prod.fst := by
        intro member
        simp only [HasOnce, List.map_append, List.map_cons, List.nodup_append] at once
        exact once.2.2 _ member _ List.mem_cons_self rfl
      rw [List.foldl_cons, put_of_not_mem absent, inductionHypothesis _ (by simpa using once)]
      simp

/-- Changing what the value of one entry stands for is putting the new value. -/
theorem HasOnce.mapValues_eq_put
    {entries : Assoc κ ν}
    (once : entries.HasOnce)
    {key : κ}
    {value : ν}
    (member : (key, value) ∈ entries)
    (before after : ν → ω)
    (agree : ∀ entry ∈ entries, entry.1 ≠ key → after entry.2 = before entry.2) :
    entries.mapValues after = (entries.mapValues before).put key (after value) := by
  induction entries with
  | nil => simp at member
  | cons entry rest inductionHypothesis =>
      obtain ⟨other, old⟩ := entry
      simp only [HasOnce, List.map_cons, List.nodup_cons] at once
      have restAgrees : ∀ entry ∈ rest, entry.1 ≠ key → after entry.2 = before entry.2 :=
        fun entry inRest => agree entry (List.mem_cons_of_mem _ inRest)
      by_cases same : other = key
      · subst same
        have here : value = old := by
          rcases List.mem_cons.1 member with equal | inRest
          · exact (Prod.mk.inj equal).2
          · exact (once.1 (List.mem_map.2 ⟨_, inRest, rfl⟩)).elim
        subst here
        have unchanged : mapValues after rest = mapValues before rest := by
          refine List.map_congr_left fun entry inRest => ?_
          rw [restAgrees entry inRest]
          rintro rfl
          exact once.1 (List.mem_map.2 ⟨_, inRest, rfl⟩)
        simp only [mapValues, List.map_cons, Assoc.put, if_true] at unchanged ⊢
        rw [unchanged]
      · have inRest : (key, value) ∈ rest := by
          rcases List.mem_cons.1 member with equal | inRest
          · exact (same (Prod.mk.inj equal).1.symm).elim
          · exact inRest
        have tail := inductionHypothesis once.2 inRest restAgrees
        have head : after old = before old := agree _ List.mem_cons_self same
        simp only [mapValues, List.map_cons, Assoc.put, same, if_false] at tail ⊢
        rw [tail, head]

end Assoc

/-! ## First occurrences -/

section

variable {α : Type} [DecidableEq α]

theorem eraseDups_of_nodup
    {elements : List α}
    (distinct : elements.Nodup) :
    elements.eraseDups = elements := by
  induction elements with
  | nil => rfl
  | cons first rest inductionHypothesis =>
      rw [List.nodup_cons] at distinct
      have others : rest.filter (fun other => !other == first) = rest := by
        rw [List.filter_eq_self]
        intro other member
        simpa using fun same : other = first => distinct.1 (same ▸ member)
      rw [List.eraseDups_cons, others, inductionHypothesis distinct.2]

/-- Distinct elements that come later are kept unless they came before. -/
theorem eraseDups_append_of_nodup
    (earlier : List α)
    {later : List α}
    (distinct : later.Nodup) :
    (earlier ++ later).eraseDups =
      earlier.eraseDups ++ later.filter (· ∉ earlier.eraseDups) := by
  have fresh : later.removeAll earlier = later.filter (· ∉ earlier.eraseDups) := by
    simp [List.removeAll]
  rw [List.eraseDups_append, fresh, eraseDups_of_nodup (distinct.filter _)]

theorem nodup_eraseDups :
    (elements : List α) → elements.eraseDups.Nodup
  | [] => List.nodup_nil
  | first :: rest => by
      rw [List.eraseDups_cons, List.nodup_cons]
      exact ⟨by simp, nodup_eraseDups _⟩
termination_by elements => elements.length
decreasing_by exact Nat.lt_succ_of_le (List.length_filter_le ..)

end

/-! ## Associations given by their keys and a function -/

namespace Assoc

variable {κ ν : Type} [DecidableEq κ]

/-- Keys in the order in which they first occur, each with the value of a function. -/
def tabulate (keys : List κ) (value : κ → ν) : Assoc κ ν :=
  keys.eraseDups.map fun key => (key, value key)

theorem tabulate_congr
    {keys : List κ}
    {value other : κ → ν}
    (same : ∀ key ∈ keys, value key = other key) :
    tabulate keys value = tabulate keys other := by
  apply List.map_congr_left
  intro key member
  rw [same key (List.mem_eraseDups.1 member)]

theorem get?_map
    (keys : List κ)
    (value : κ → ν)
    (key : κ) :
    get? (keys.map fun key => (key, value key)) key =
      if key ∈ keys then some (value key) else none := by
  induction keys with
  | nil => rfl
  | cons first rest inductionHypothesis =>
      by_cases same : first = key
      · simp [get?, same]
      · have different : ¬ key = first := fun equal => same equal.symm
        simp [get?, same, different, inductionHypothesis]

/-- A table gives every key of its list the value of the function, and no other key any. -/
theorem get?_tabulate
    (keys : List κ)
    (value : κ → ν)
    (key : κ) :
    (tabulate keys value).get? key = if key ∈ keys then some (value key) else none := by
  simp only [tabulate, get?_map, List.mem_eraseDups]

/-- Putting into a table at one of its keys changes the function there. -/
theorem put_map
    {keys : List κ}
    (distinct : keys.Nodup)
    (value : κ → ν)
    {key : κ}
    (member : key ∈ keys)
    (new : ν) :
    put (keys.map fun key => (key, value key)) key new =
      keys.map fun other => (other, if other = key then new else value other) := by
  induction keys with
  | nil => exact absurd member List.not_mem_nil
  | cons first rest inductionHypothesis =>
      rw [List.nodup_cons] at distinct
      by_cases same : first = key
      · subst same
        simp only [List.map_cons, put, if_true]
        refine congrArg _ (List.map_congr_left fun other inRest => ?_)
        rw [if_neg fun equal : other = first => distinct.1 (equal ▸ inRest)]
      · have inRest : key ∈ rest :=
          (List.mem_cons.1 member).resolve_left fun equal => same equal.symm
        simp only [List.map_cons, put, same, if_false, inductionHypothesis distinct.2 inRest]

/-- Putting a key changes the value of the function there, and adds the key if it is new. -/
theorem put_tabulate
    (keys : List κ)
    (value : κ → ν)
    (key : κ)
    (new : ν) :
    (tabulate keys value).put key new =
      tabulate (keys ++ [key]) fun other => if other = key then new else value other := by
  have single : [key].Nodup := by simp
  unfold tabulate
  rw [eraseDups_append_of_nodup keys single]
  by_cases member : key ∈ keys.eraseDups
  · have known : [key].filter (· ∉ keys.eraseDups) = [] := by simp [List.mem_eraseDups.1 member]
    rw [put_map (nodup_eraseDups keys) value member, known, List.append_nil]
  · have absent : key ∉ (keys.eraseDups.map fun key => (key, value key)).map Prod.fst := by
      simpa [List.map_map] using member
    have isNew : [key].filter (· ∉ keys.eraseDups) = [key] := by
      simpa using fun inside => member (List.mem_eraseDups.2 inside)
    rw [put_of_not_mem absent, isNew, List.map_append, List.map_singleton]
    dsimp only
    rw [if_pos rfl]
    congr 1
    refine List.map_congr_left fun other inside => ?_
    rw [if_neg fun equal : other = key => member (equal ▸ inside)]

end Assoc

end Diverge
