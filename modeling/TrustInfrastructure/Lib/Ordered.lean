import Mathlib

/-!
# Ordered sets and maps

What the ordered collections of the standard library say as lists. A set collected from a list holds its members once
and ascending, so it is the list's `dedup` up to order (`toList_ofList_perm`), has as many elements as the list exactly
when the list repeats nothing, and two such sets list alike exactly when they hold the same. A map lists its keys once.
-/

namespace TrustInfrastructure.Lib

open Std

variable {α β : Type}

/-- Two ascending lists with the same members are the same. -/
theorem eq_of_ascending {r : α → α → Prop} [Std.Asymm r] {xs ys : List α} (hx : xs.Pairwise r) (hy : ys.Pairwise r)
    (h : ∀ a, a ∈ xs ↔ a ∈ ys) : xs = ys := by
  have hperm : xs.Perm ys := (List.perm_ext_iff_of_nodup hx.nodup hy.nodup).mpr h
  exact hperm.eq_of_pairwise (fun a b _ _ hab hba => absurd hba (asymm hab)) hx hy

variable {cmp : α → α → Ordering} [LawfulEqCmp cmp]

theorem distinct_of_nodup {xs : List (α × β)} (h : (xs.map Prod.fst).Nodup) :
    xs.Pairwise fun a b => ¬cmp a.1 b.1 = .eq :=
  (List.pairwise_map.mp h).imp fun {_ _} hne heq => hne (LawfulEqCmp.eq_of_compare heq)

variable [TransCmp cmp]

theorem nodup_elements (t : TreeSet α cmp) : t.toList.Nodup := by
  refine TreeSet.distinct_toList.imp fun {a b} h heq => h ?_
  rw [heq]
  exact ReflCmp.compare_self

theorem nodup_keys (t : TreeMap α β cmp) : t.keys.Nodup := by
  refine TreeMap.distinct_keys.imp fun {a b} h heq => h ?_
  rw [heq]
  exact ReflCmp.compare_self

omit [LawfulEqCmp cmp] in
instance asymm_lt : Std.Asymm fun a b => cmp a b = .lt := ⟨fun _ _ => OrientedCmp.not_lt_of_lt⟩

theorem getElem?_insert_cases {m : TreeMap α β cmp} {k a : α} {v w : β} (h : (m.insert k v)[a]? = some w) :
    a = k ∧ w = v ∨ m[a]? = some w := by
  rw [TreeMap.getElem?_insert] at h
  split at h
  case isTrue heq =>
    cases h
    exact .inl ⟨(LawfulEqCmp.eq_of_compare heq).symm, rfl⟩
  case isFalse => exact .inr h

variable [DecidableEq α]

theorem mem_toList_ofList {xs : List α} {a : α} : a ∈ (TreeSet.ofList xs cmp).toList ↔ a ∈ xs := by
  rw [TreeSet.mem_toList, TreeSet.mem_ofList, List.contains_iff_mem]

theorem toList_ofList_perm (xs : List α) : (TreeSet.ofList xs cmp).toList.Perm xs.dedup := by
  rw [List.perm_ext_iff_of_nodup (nodup_elements _) (List.nodup_dedup xs)]
  intro a
  rw [mem_toList_ofList, List.mem_dedup]

theorem size_ofList_eq_length {xs : List α} : (TreeSet.ofList xs cmp).size = xs.length ↔ xs.Nodup := by
  rw [← TreeSet.length_toList, (toList_ofList_perm xs).length_eq, ← List.dedup_eq_self]
  exact ⟨(List.dedup_sublist xs).eq_of_length, congrArg List.length⟩

theorem toList_ofList_eq_iff {xs ys : List α} :
    (TreeSet.ofList xs cmp).toList = (TreeSet.ofList ys cmp).toList ↔ ∀ a, a ∈ xs ↔ a ∈ ys := by
  constructor
  · intro h a
    have hmem : a ∈ (TreeSet.ofList xs cmp).toList ↔ a ∈ (TreeSet.ofList ys cmp).toList := by rw [h]
    rwa [mem_toList_ofList, mem_toList_ofList] at hmem
  · intro h
    refine eq_of_ascending TreeSet.ordered_toList TreeSet.ordered_toList fun a => ?_
    rw [mem_toList_ofList, mem_toList_ofList, h]

/-- A map collected from a list without repeated keys answers with the list's pairs. -/
theorem getElem?_ofList {xs : List (α × β)} (h : (xs.map Prod.fst).Nodup) {k : α} {v : β} :
    (TreeMap.ofList xs cmp)[k]? = some v ↔ (k, v) ∈ xs := by
  have hmem : ∀ v, (k, v) ∈ xs → (TreeMap.ofList xs cmp)[k]? = some v := fun v =>
    TreeMap.getElem?_ofList_of_mem ReflCmp.compare_self (distinct_of_nodup h)
  refine ⟨fun hget => ?_, hmem v⟩
  have hkey : k ∈ xs.map Prod.fst := by
    have hin : k ∈ TreeMap.ofList xs cmp := by
      rw [TreeMap.mem_iff_isSome_getElem?, hget]
      rfl
    exact List.contains_iff_mem.mp (TreeMap.mem_ofList.mp hin)
  obtain ⟨⟨_, w⟩, hw, rfl⟩ := List.mem_map.mp hkey
  rw [hmem w hw] at hget
  cases hget
  exact hw

end TrustInfrastructure.Lib
