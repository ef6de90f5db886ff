import Mathlib

/-!
# What the rows of a table add up to

A counter kept beside a table is meant to be the sum of something over its rows. `tally w m` is that sum, for a
weight `w` of a row in any commutative additive monoid, so that a counter of several fields is one sum. The lemmas say
how it moves when one row is written or removed. They are stated as equations between sums, the row that was there
added on the side it left, so that the arithmetic of a step is linear and no subtraction has to be justified.

Keys of several parts are compared part by part.
-/

namespace TrustInfrastructure.Lib

open Std (ExtTreeMap)

instance instOrdPair {α β : Type} [Ord α] [Ord β] : Ord (α × β) := lexOrd

instance instTransOrdPair {α β : Type} [Ord α] [Ord β] [Std.TransOrd α] [Std.TransOrd β] : Std.TransOrd (α × β) :=
  inferInstanceAs (@Std.TransOrd (α × β) lexOrd)

instance instLawfulEqOrdPair {α β : Type} [Ord α] [Ord β] [Std.LawfulEqOrd α] [Std.LawfulEqOrd β] :
    Std.LawfulEqOrd (α × β) :=
  inferInstanceAs (@Std.LawfulEqOrd (α × β) lexOrd)

section
variable {K V M : Type} [Ord K] [Std.TransOrd K] [AddCommMonoid M]

/-- The sum of `w` over the rows. -/
def tally (w : K → V → M) (m : ExtTreeMap K V) : M := (m.toList.map fun row => w row.1 row.2).sum

/-- What the row under `key` adds, if there is one. -/
def weightAt (w : K → V → M) (m : ExtTreeMap K V) (key : K) : M := m[key]?.elim 0 (w key)

variable {w w' : K → V → M} {m : ExtTreeMap K V} {key : K} {v : V}

theorem weightAt_some (h : m[key]? = some v) : weightAt w m key = w key v := by rw [weightAt, h, Option.elim_some]

theorem weightAt_none (h : m[key]? = none) : weightAt w m key = 0 := by rw [weightAt, h, Option.elim_none]

theorem map_tally {N : Type} [AddCommMonoid N] (f : M →+ N) : f (tally w m) = tally (fun key v => f (w key v)) m := by
  rw [tally, map_list_sum, List.map_map]
  rfl

theorem absent_fewer {m' : ExtTreeMap K V} (hsub : ∀ v, m'[key]? = some v → m[key]? = some v)
    (hnone : m[key]? = none) : m'[key]? = none :=
  Option.eq_none_iff_forall_ne_some.mpr fun v hv => nomatch (hsub v hv).symm.trans hnone

variable [Std.LawfulEqOrd K]

section
variable [DecidableEq K] {key' : K}

/-- What is under a key once another, or the same, is written. -/
theorem getElem?_insert_eq : (m.insert key v)[key']? = if key = key' then some v else m[key']? := by
  rw [ExtTreeMap.getElem?_insert]
  simp only [Std.LawfulEqOrd.compare_eq_iff_eq]

theorem getElem?_erase_eq : (m.erase key)[key']? = if key = key' then none else m[key']? := by
  rw [ExtTreeMap.getElem?_erase]
  simp only [Std.LawfulEqOrd.compare_eq_iff_eq]

/-- A table with a row written holds that row and, under the other keys, what it held. -/
theorem insert_cases {v' : V} (h : (m.insert key v)[key']? = some v') :
    key = key' ∧ v = v' ∨ key ≠ key' ∧ m[key']? = some v' := by
  rw [getElem?_insert_eq] at h
  by_cases hkey : key = key'
  · rw [if_pos hkey] at h
    exact .inl ⟨hkey, Option.some.inj h⟩
  · rw [if_neg hkey] at h
    exact .inr ⟨hkey, h⟩

theorem erase_cases {v' : V} (h : (m.erase key)[key']? = some v') : key ≠ key' ∧ m[key']? = some v' := by
  rw [getElem?_erase_eq] at h
  exact Option.ite_none_left_eq_some.mp h

theorem erase_sub (hrow : (m.erase key)[key']? = some v) : m[key']? = some v := (erase_cases hrow).2

theorem insert_other (hne : key ≠ key') : (m.insert key v)[key']? = m[key']? := by
  rw [getElem?_insert_eq, if_neg hne]

theorem erase_other (hne : key ≠ key') : (m.erase key)[key']? = m[key']? := by
  rw [getElem?_erase_eq, if_neg hne]

end

theorem getElem?_filter_eq {p : K → V → Bool} : (m.filter p)[key]? = m[key]?.filter (p key) := by
  rw [ExtTreeMap.getElem?_filter]
  simp only [ExtTreeMap.getKey_eq, Option.pfilter_eq_filter]

theorem filter_sub {p : K → V → Bool} (hrow : (m.filter p)[key]? = some v) : m[key]? = some v := by
  rw [getElem?_filter_eq] at hrow
  exact (Option.filter_eq_some_iff.mp hrow).1

theorem filter_other {p : K → V → Bool} (hp : ∀ v, p key v = true) : (m.filter p)[key]? = m[key]? := by
  rw [getElem?_filter_eq]
  cases m[key]? with
  | none => rfl
  | some v => rw [Option.filter_some, if_pos (hp v)]

theorem nodup_toList (m : ExtTreeMap K V) : m.toList.Nodup := by
  have hkeys := ExtTreeMap.distinct_keys_toList (t := m)
  refine hkeys.imp fun hne heq => hne ?_
  rw [heq]
  exact Std.ReflCmp.compare_self

theorem perm_toList_insert : (m.insert key v).toList.Perm ((key, v) :: (m.erase key).toList) := by
  refine (List.perm_ext_iff_of_nodup (nodup_toList _) ?_).mpr fun row => ?_
  · refine List.nodup_cons.mpr ⟨fun hmem => ?_, nodup_toList _⟩
    rw [ExtTreeMap.mem_toList_iff_getElem?_eq_some, ExtTreeMap.getElem?_erase_self] at hmem
    cases hmem
  · rcases row with ⟨key', v'⟩
    rw [List.mem_cons, ExtTreeMap.mem_toList_iff_getElem?_eq_some, ExtTreeMap.mem_toList_iff_getElem?_eq_some,
      ExtTreeMap.getElem?_insert, ExtTreeMap.getElem?_erase]
    by_cases hkey : key = key'
    · subst hkey
      simp [Prod.ext_iff, eq_comm]
    · simp [hkey, Ne.symm hkey, Prod.ext_iff]

/-- Writing a row: what was there goes, what is written comes. -/
theorem tally_insert_erase : tally w (m.insert key v) = w key v + tally w (m.erase key) := by
  unfold tally
  rw [((perm_toList_insert (m := m)).map _).sum_eq, List.map_cons, List.sum_cons]

/-- Removing a row takes away what it added. -/
theorem tally_erase : tally w (m.erase key) + weightAt w m key = tally w m := by
  cases hrow : m[key]? with
  | none =>
    rw [weightAt_none hrow, add_zero]
    have herase : m.erase key = m := by
      refine ExtTreeMap.ext_getElem? fun key' => ?_
      rw [ExtTreeMap.getElem?_erase]
      split
      · rename_i hkey
        rw [Std.LawfulEqOrd.compare_eq_iff_eq] at hkey
        rw [← hkey, hrow]
      · rfl
    rw [herase]
  | some v =>
    have hinsert : m.insert key v = m := by
      refine ExtTreeMap.ext_getElem? fun key' => ?_
      rw [ExtTreeMap.getElem?_insert]
      split
      · rename_i hkey
        rw [Std.LawfulEqOrd.compare_eq_iff_eq] at hkey
        rw [← hkey, hrow]
      · rfl
    rw [weightAt_some hrow, add_comm, ← tally_insert_erase, hinsert]

/-- A row adds no more than all the rows together. -/
theorem weightAt_le_tally {w : K → V → Nat} : weightAt w m key ≤ tally w m := by
  have herase : tally w (m.erase key) + weightAt w m key = tally w m := tally_erase
  omega

theorem tally_erase_of_weightAt (hzero : weightAt w m key = 0) : tally w (m.erase key) = tally w m := by
  have herase : tally w (m.erase key) + weightAt w m key = tally w m := tally_erase
  rwa [hzero, add_zero] at herase

theorem tally_insert : tally w (m.insert key v) + weightAt w m key = tally w m + w key v := by
  have herase : tally w (m.erase key) + weightAt w m key = tally w m := tally_erase
  rw [tally_insert_erase, add_assoc, herase, add_comm]

theorem tally_eq_sum {keys : Finset K} (hkeys : ∀ key v, m[key]? = some v → key ∈ keys) :
    tally w m = ∑ key ∈ keys, weightAt w m key := by
  classical
  have hrows : tally w m = ∑ key ∈ m.keys.toFinset, weightAt w m key := by
    rw [List.sum_toFinset _ ExtTreeMap.nodup_keys, ← ExtTreeMap.map_fst_toList_eq_keys, List.map_map, tally]
    congr 1
    refine List.map_congr_left fun row hrow => ?_
    exact (weightAt_some (ExtTreeMap.mem_toList_iff_getElem?_eq_some.mp hrow)).symm
  rw [hrows]
  refine Finset.sum_subset (fun key hkey => ?_) fun key _ hkey => ?_
  · rw [List.mem_toFinset, ExtTreeMap.mem_keys] at hkey
    exact hkeys key _ (ExtTreeMap.getElem?_eq_some_getElem hkey)
  · rw [List.mem_toFinset, ExtTreeMap.mem_keys] at hkey
    exact weightAt_none (ExtTreeMap.getElem?_eq_none hkey)

/-- Tables whose rows weigh the same key by key add up to the same, whatever the rows are. -/
theorem tally_eq_of_weightAt {V' : Type} {w' : K → V' → M} {m' : ExtTreeMap K V'}
    (h : ∀ key, weightAt w m key = weightAt w' m' key) : tally w m = tally w' m' := by
  classical
  have hleft (key : K) (v : V) (hrow : m[key]? = some v) : key ∈ m.keys.toFinset ∪ m'.keys.toFinset := by
    rw [Finset.mem_union, List.mem_toFinset, ExtTreeMap.mem_keys]
    exact .inl (ExtTreeMap.isSome_getElem?_iff_mem.mp (by rw [hrow]; rfl))
  have hright (key : K) (v : V') (hrow : m'[key]? = some v) : key ∈ m.keys.toFinset ∪ m'.keys.toFinset := by
    rw [Finset.mem_union, List.mem_toFinset, List.mem_toFinset, ExtTreeMap.mem_keys, ExtTreeMap.mem_keys]
    exact .inr (ExtTreeMap.isSome_getElem?_iff_mem.mp (by rw [hrow]; rfl))
  rw [tally_eq_sum hleft, tally_eq_sum hright]
  exact Finset.sum_congr rfl fun key _ => h key

theorem tally_eq_zero (h : ∀ key v, m[key]? = some v → w key v = 0) : tally w m = 0 := by
  unfold tally
  rw [List.sum_eq_zero]
  intro n hn
  obtain ⟨row, hrow, rfl⟩ := List.mem_map.mp hn
  exact h row.1 row.2 (ExtTreeMap.mem_toList_iff_getElem?_eq_some.mp hrow)

end

end TrustInfrastructure.Lib
