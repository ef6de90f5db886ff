import Mathlib.Data.Set.Function
import Mathlib.Tactic

/-!
# Hash trees whose odd node is promoted

A list of nodes is climbed level by level: adjacent pairs become their parent, and an odd last node goes up
unchanged (`levelUp`), until one node is left (`apex`). `path` collects the siblings met on the way up from
one index, and `replay` folds them back over a leaf.

`levelUp` and `apex` are generic in the operation `node`, and commute with any map that turns one operation
into another (`apex_map`). The shape of the tree is therefore itself an `apex`, the one of the free operation
`Tree.node`; its hash and its leaves are its images under two such maps. So nothing about the shape has to be
known: two trees of one hash are equal by structural recursion (`Tree.eq_of_hash_eq`), whatever their
sizes, and a path of any length that reaches the hash of a tree ends in one of its leaves
(`Tree.mem_leaves_of_replay`), provided `node` is injective on the pairs involved and hits no leaf involved.
-/

namespace TrustInfrastructure.Lib.Merkle

variable {H K : Type}

/-! ### Climbing -/

/-- One level up: adjacent pairs become their parent, an odd last node is promoted unchanged. -/
def levelUp (node : H → H → H) : List H → List H
  | [] => []
  | [odd] => [odd]
  | left :: right :: rest => node left right :: levelUp node rest

theorem length_levelUp (node : H → H → H) (level : List H) :
    (levelUp node level).length = (level.length + 1) / 2 := by
  induction level using levelUp.induct with
  | case1 => simp only [levelUp, List.length_nil, Nat.zero_add, Nat.reduceDiv]
  | case2 => simp only [levelUp, List.length_singleton, Nat.reduceAdd, Nat.reduceDiv]
  | case3 _ _ _ ih =>
    rw [levelUp, List.length_cons, ih, List.length_cons, List.length_cons]
    omega

def apex (node : H → H → H) (level : List H) : Option H :=
  match level with
  | [] => none
  | [top] => some top
  | left :: right :: rest => apex node (levelUp node (left :: right :: rest))
termination_by level.length
decreasing_by
  rw [length_levelUp]
  simp only [List.length_cons]
  omega

/-- The node above position `i`: the parent of a pair, or the promoted odd node. -/
theorem getElem?_levelUp (node : H → H → H) (level : List H) (i : Nat) :
    (levelUp node level)[i]? =
      (level[2 * i]?).map fun left => ((level[2 * i + 1]?).map (node left)).getD left := by
  induction level using levelUp.induct generalizing i with
  | case1 => rfl
  | case2 => cases i <;> rfl
  | case3 _ _ _ ih =>
    cases i with
    | zero => rfl
    | succ =>
      rw [levelUp, List.getElem?_cons_succ, ih, Nat.mul_succ, List.getElem?_cons_succ,
        List.getElem?_cons_succ, List.getElem?_cons_succ, List.getElem?_cons_succ]

section Homomorphism

variable (node : H → H → H) (join : K → K → K) (f : H → K)

theorem levelUp_map (hf : ∀ a b, f (node a b) = join (f a) (f b)) (level : List H) :
    levelUp join (level.map f) = (levelUp node level).map f := by
  induction level using levelUp.induct with
  | case1 | case2 => rfl
  | case3 _ _ _ ih =>
    rw [List.map_cons, List.map_cons, levelUp, levelUp, List.map_cons, ih, hf]

/-- Climbing commutes with a map that turns one operation into another. -/
theorem apex_map (hf : ∀ a b, f (node a b) = join (f a) (f b)) (level : List H) :
    apex join (level.map f) = (apex node level).map f := by
  induction level using apex.induct node with
  | case1 => simp only [List.map_nil, apex, Option.map_none]
  | case2 => simp only [List.map_cons, List.map_nil, apex, Option.map_some]
  | case3 _ _ _ ih =>
    rw [← levelUp_map node join f hf] at ih
    rw [List.map_cons, List.map_cons, apex, apex, ← ih, List.map_cons, List.map_cons]

end Homomorphism

theorem flatten_levelUp (lists : List (List H)) : (levelUp List.append lists).flatten = lists.flatten := by
  induction lists using levelUp.induct with
  | case1 | case2 => rfl
  | case3 left right rest ih =>
    rw [levelUp, List.flatten_cons, ih, List.flatten_cons, List.flatten_cons]
    exact List.append_assoc left right rest.flatten

/-- Climbing lists by concatenation collects them in order. -/
theorem apex_append (lists : List (List H)) (hne : lists ≠ []) :
    apex List.append lists = some lists.flatten := by
  induction lists using apex.induct List.append with
  | case1 => exact absurd rfl hne
  | case2 => rw [apex, List.flatten_cons, List.flatten_nil, List.append_nil]
  | case3 _ _ _ ih =>
    rw [apex, ih (by rw [levelUp]; exact List.cons_ne_nil _ _), flatten_levelUp]

/-! ### The recursive form

RFC 6962 splits a list at the largest power of two below its length. A climb pairs neighbours, so a split at a power of
two `2 ^ m` survives `m` levels, and then its two parts are the last pair. -/

section Recursion

variable (node : H → H → H)

/-- The largest power of two below `n`. -/
def split (n : Nat) : Nat := 2 ^ Nat.log2 (n - 1)

theorem split_spec {n : Nat} (h : 2 ≤ n) : 0 < split n ∧ split n < n ∧ n ≤ 2 * split n := by
  have hle := Nat.log2_self_le (n := n - 1) (by omega)
  have hlt := Nat.lt_log2_self (n := n - 1)
  rw [Nat.pow_succ] at hlt
  unfold split
  omega

/-- The hash of the empty list, the leaf itself, or the node of the two parts. -/
def mth (empty : H) (leaves : List H) : H :=
  if 2 ≤ leaves.length then
    node (mth empty (leaves.take (split leaves.length))) (mth empty (leaves.drop (split leaves.length)))
  else leaves.headD empty
termination_by leaves.length
decreasing_by
  all_goals
    have hspec := split_spec ‹_›
    simp only [List.length_take, List.length_drop]
    omega

theorem apex_levelUp (level : List H) : apex node (levelUp node level) = apex node level := by
  rcases level with _ | ⟨left, _ | ⟨right, rest⟩⟩
  · rfl
  · rfl
  · rw [apex.eq_3]

theorem levelUp_append (xs ys : List H) (heven : xs.length % 2 = 0) :
    levelUp node (xs ++ ys) = levelUp node xs ++ levelUp node ys := by
  induction xs using levelUp.induct with
  | case1 => rfl
  | case2 => cases heven
  | case3 _ _ _ ih =>
    simp only [List.length_cons] at heven
    simp only [List.cons_append, levelUp, ih (by omega)]

theorem apex_split (m : Nat) (xs ys : List H) (hxs : xs.length = 2 ^ m) (hne : 0 < ys.length)
    (hys : ys.length ≤ 2 ^ m) :
    apex node (xs ++ ys) = Option.map₂ node (apex node xs) (apex node ys) := by
  induction m generalizing xs ys with
  | zero =>
    obtain ⟨x, rfl⟩ := List.length_eq_one_iff.mp hxs
    obtain ⟨y, rfl⟩ := List.length_eq_one_iff.mp (Nat.le_antisymm hys hne)
    simp only [List.cons_append, List.nil_append, apex, levelUp, Option.map₂_some_some]
  | succ _ ih =>
    rw [Nat.pow_succ] at hxs hys
    rw [← apex_levelUp, levelUp_append node xs ys (by omega), ih, apex_levelUp, apex_levelUp]
    all_goals
      rw [length_levelUp]
      omega

theorem apex_eq_mth (empty : H) (leaves : List H) (hne : 0 < leaves.length) :
    apex node leaves = some (mth node empty leaves) := by
  induction leaves using mth.induct with
  | case1 leaves h ihl ihr =>
    obtain ⟨hpos, hlt, hle⟩ := split_spec h
    have htake : (leaves.take (split leaves.length)).length = split leaves.length := List.length_take_of_le hlt.le
    have hdrop : (leaves.drop (split leaves.length)).length = leaves.length - split leaves.length := List.length_drop
    have hsplit := apex_split node _ _ (leaves.drop (split leaves.length)) htake (by omega) (by rw [← split]; omega)
    rw [List.take_append_drop, ihl (by omega), ihr (by omega)] at hsplit
    rw [mth, if_pos h, hsplit, Option.map₂_some_some]
  | case2 leaves h =>
    obtain ⟨leaf, rfl⟩ := List.length_eq_one_iff.mp (show leaves.length = 1 by omega)
    rw [apex, mth, if_neg h, List.headD_cons]

end Recursion

/-! ### Paths -/

structure Step (H : Type) where
  sibling : H
  siblingIsLeft : Bool
deriving DecidableEq

/-- The parent of `current` and the step's sibling. -/
def Step.parent (node : H → H → H) (current : H) (step : Step H) : H :=
  if step.siblingIsLeft then node step.sibling current else node current step.sibling

/-- The pair whose hash is the parent. -/
def Step.children (current : H) (step : Step H) : H × H :=
  if step.siblingIsLeft then (step.sibling, current) else (current, step.sibling)

theorem Step.parent_eq (node : H → H → H) (current : H) (step : Step H) :
    step.parent node current = node (step.children current).1 (step.children current).2 := by
  rw [Step.parent, Step.children]
  split <;> rfl

/-- The node reached from `leaf` along `steps`. -/
def replay (node : H → H → H) (leaf : H) (steps : List (Step H)) : H :=
  steps.foldl (Step.parent node) leaf

/-- The step position `idx` takes out of `level`, none for a promoted node. An access outside the level fails. -/
def stepAt (level : List H) (idx : Nat) : Option (List (Step H)) :=
  if idx = level.length - 1 ∧ level.length % 2 = 1 then some []
  else
    let siblingIsLeft := idx % 2 = 1
    let siblingIdx := if siblingIsLeft then idx - 1 else idx + 1
    (level[siblingIdx]?).map fun sibling => [⟨sibling, siblingIsLeft⟩]

/-- The steps from position `idx` up to the apex. -/
def path (node : H → H → H) (level : List H) (idx : Nat) : Option (List (Step H)) :=
  if level.length ≤ 1 then some []
  else do
    let steps ← stepAt level idx
    let rest ← path node (levelUp node level) (idx / 2)
    some (steps ++ rest)
termination_by level.length
decreasing_by
  rw [length_levelUp]
  omega

variable (node : H → H → H)

/-- The step taken at a position leads to the node above it. -/
theorem stepAt_levelUp (level : List H) (idx : Nat) (h : H) (hget : level[idx]? = some h) :
    ∃ steps, stepAt level idx = some steps ∧
      (levelUp node level)[idx / 2]? = some (replay node h steps) := by
  obtain ⟨hlt, -⟩ := List.getElem?_eq_some_iff.mp hget
  rcases Nat.mod_two_eq_zero_or_one idx with heven | hodd
  · have hidx : 2 * (idx / 2) = idx := by omega
    by_cases hlast : idx = level.length - 1
    · -- an even last position: the list has odd length, and the node is promoted
      refine ⟨[], if_pos ⟨hlast, by omega⟩, ?_⟩
      have hnone : level[idx + 1]? = none := List.getElem?_eq_none (by omega)
      rw [getElem?_levelUp, hidx, hget, hnone]
      rfl
    · obtain ⟨sibling, hsibling⟩ : ∃ sibling, level[idx + 1]? = some sibling :=
        ⟨_, List.getElem?_eq_getElem (by omega)⟩
      refine ⟨[⟨sibling, false⟩], ?_, ?_⟩
      · rw [stepAt, if_neg (fun h => hlast h.1)]
        simp only [heven, zero_ne_one, if_false, hsibling, Option.map_some, decide_false]
      · rw [getElem?_levelUp, hidx, hget, hsibling]
        rfl
  · have hidx : 2 * (idx / 2) = idx - 1 := by omega
    obtain ⟨sibling, hsibling⟩ : ∃ sibling, level[idx - 1]? = some sibling :=
      ⟨_, List.getElem?_eq_getElem (by omega)⟩
    refine ⟨[⟨sibling, true⟩], ?_, ?_⟩
    · rw [stepAt, if_neg (by omega)]
      simp only [hodd, if_true, hsibling, Option.map_some, decide_true]
    · rw [getElem?_levelUp, hidx, hsibling, show idx - 1 + 1 = idx by omega, hget]
      rfl

theorem path_complete (level : List H) (idx : Nat) (h : H) (hget : level[idx]? = some h) :
    ∃ steps, path node level idx = some steps ∧ apex node level = some (replay node h steps) := by
  induction level using apex.induct node generalizing idx h with
  | case1 => exact absurd hget (by simp)
  | case2 top =>
    have hh : top = h := by
      cases idx with
      | zero => exact Option.some.inj hget
      | succ => exact absurd hget (by simp)
    refine ⟨[], ?_, ?_⟩
    · rw [path, if_pos (by simp)]
    · rw [apex, hh]
      rfl
  | case3 _ _ _ ih =>
    obtain ⟨steps, hsteps, hup⟩ := stepAt_levelUp node _ idx h hget
    obtain ⟨above, habove, htop⟩ := ih (idx / 2) _ hup
    refine ⟨steps ++ above, ?_, ?_⟩
    · rw [path, if_neg (by simp), hsteps, Option.bind_eq_bind, Option.bind_some, habove]
      rfl
    · rw [apex, htop, replay, replay, replay, List.foldl_append]

/-! ### The tree -/

inductive Tree (H : Type)
  | leaf (hash : H)
  | node (left right : Tree H)

namespace Tree

def hash : Tree H → H
  | .leaf hash => hash
  | .node left right => node left.hash right.hash

def leaves : Tree H → List H
  | .leaf hash => [hash]
  | .node left right => left.leaves ++ right.leaves

def pairs : Tree H → List (H × H)
  | .leaf _ => []
  | .node left right => (left.hash node, right.hash node) :: (left.pairs ++ right.pairs)

end Tree

def treeOf (leaves : List H) : Option (Tree H) :=
  apex Tree.node (leaves.map Tree.leaf)

theorem treeOf_nil : treeOf ([] : List H) = none := by
  simp only [treeOf, List.map_nil, apex]

theorem apex_nil : apex node [] = none := by
  rw [apex]

theorem treeOf_spec (leaves : List H) (hne : leaves ≠ []) :
    ∃ tree, treeOf leaves = some tree ∧ tree.leaves = leaves ∧ apex node leaves = some (tree.hash node) := by
  have hhash := apex_map Tree.node node (Tree.hash node) (fun _ _ => rfl) (leaves.map Tree.leaf)
  have hleaves := apex_map Tree.node List.append Tree.leaves (fun _ _ => rfl) (leaves.map Tree.leaf)
  rw [List.map_map, show Tree.hash node ∘ Tree.leaf = id from rfl, List.map_id] at hhash
  have hflat : (leaves.map fun hash => [hash]).flatten = leaves := by
    rw [← List.flatMap_def, List.flatMap_singleton']
  rw [List.map_map, show Tree.leaves ∘ Tree.leaf = fun hash : H => [hash] from rfl,
    apex_append _ (by simpa using hne), hflat] at hleaves
  obtain ⟨tree, htree, hmem⟩ := Option.map_eq_some_iff.mp hleaves.symm
  refine ⟨tree, htree, hmem, ?_⟩
  rw [hhash, htree]
  rfl

/-! ### Binding -/

/-- `node` has no collision among `pairs`, and none of them hashes to one of `leaves`. -/
structure Separated (pairs : Set (H × H)) (leaves : Set H) : Prop where
  injective : Set.InjOn (fun pair => node pair.1 pair.2) pairs
  apart : ∀ pair ∈ pairs, node pair.1 pair.2 ∉ leaves

structure Tree.Within (pairs : Set (H × H)) (leaves : Set H) (tree : Tree H) : Prop where
  pairs_subset : ∀ pair ∈ tree.pairs node, pair ∈ pairs
  leaves_subset : ∀ hash ∈ tree.leaves, hash ∈ leaves

variable {node} {pairs : Set (H × H)} {leaves : Set H}

theorem Tree.Within.children {left right : Tree H} (h : (Tree.node left right).Within node pairs leaves) :
    (left.hash node, right.hash node) ∈ pairs ∧ left.Within node pairs leaves ∧
      right.Within node pairs leaves := by
  refine ⟨h.pairs_subset _ List.mem_cons_self, ⟨fun pair hpair => ?_, fun hash hhash => ?_⟩,
    fun pair hpair => ?_, fun hash hhash => ?_⟩
  · exact h.pairs_subset _ (List.mem_cons_of_mem _ (List.mem_append_left _ hpair))
  · exact h.leaves_subset _ (List.mem_append_left _ hhash)
  · exact h.pairs_subset _ (List.mem_cons_of_mem _ (List.mem_append_right _ hpair))
  · exact h.leaves_subset _ (List.mem_append_right _ hhash)

theorem Tree.eq_of_hash_eq (hsep : Separated node pairs leaves) (t u : Tree H)
    (ht : t.Within node pairs leaves) (hu : u.Within node pairs leaves)
    (heq : t.hash node = u.hash node) : t = u := by
  induction t generalizing u with
  | leaf x =>
    cases u with
    | leaf => exact congrArg Tree.leaf heq
    | node left right =>
      -- a node posing as a leaf
      have hx : x ∈ leaves := ht.leaves_subset x List.mem_cons_self
      rw [show x = node (left.hash node) (right.hash node) from heq] at hx
      exact absurd hx (hsep.apart _ hu.children.1)
  | node left right ihl ihr =>
    cases u with
    | leaf y =>
      have hy : y ∈ leaves := hu.leaves_subset y List.mem_cons_self
      rw [show y = node (left.hash node) (right.hash node) from heq.symm] at hy
      exact absurd hy (hsep.apart _ ht.children.1)
    | node left' right' =>
      obtain ⟨htp, htl, htr⟩ := ht.children
      obtain ⟨hup, hul, hur⟩ := hu.children
      have hpair := Prod.mk.inj (hsep.injective htp hup heq)
      rw [ihl left' htl hul hpair.1, ihr right' htr hur hpair.2]

/-- The pairs hashed in replaying `steps` from `leaf`. -/
def replayPairs (node : H → H → H) (leaf : H) : List (Step H) → List (H × H)
  | [] => []
  | step :: steps => step.children leaf :: replayPairs node (step.parent node leaf) steps

theorem replayPairs_append (leaf : H) (steps more : List (Step H)) :
    replayPairs node leaf (steps ++ more) =
      replayPairs node leaf steps ++ replayPairs node (replay node leaf steps) more := by
  induction steps generalizing leaf with
  | nil => rfl
  | cons _ _ ih => exact congrArg (_ :: ·) (ih _)

theorem replay_concat (node : H → H → H) (leaf : H) (steps : List (Step H)) (last : Step H) :
    last.children (replay node leaf steps) ∈ replayPairs node leaf (steps ++ [last]) ∧
      replay node leaf (steps ++ [last]) =
        node (last.children (replay node leaf steps)).1 (last.children (replay node leaf steps)).2 := by
  constructor
  · rw [replayPairs_append]
    exact List.mem_append_right _ List.mem_cons_self
  · rw [← Step.parent_eq node, replay, replay, List.foldl_append, List.foldl_cons, List.foldl_nil]

theorem Tree.mem_leaves_of_replay (hsep : Separated node pairs leaves) (t : Tree H)
    (ht : t.Within node pairs leaves) (x : H) (hx : x ∈ leaves) (steps : List (Step H))
    (hsteps : ∀ pair ∈ replayPairs node x steps, pair ∈ pairs)
    (heq : t.hash node = replay node x steps) : x ∈ t.leaves := by
  -- from the top down: the last step is matched against the root, the steps before it against a child
  induction steps using List.reverseRecOn generalizing t with
  | nil =>
    cases t with
    | leaf => exact List.mem_singleton.mpr heq.symm
    | node left right =>
      rw [show x = node (left.hash node) (right.hash node) from heq.symm] at hx
      exact absurd hx (hsep.apart _ ht.children.1)
  | append_singleton steps last ih =>
    obtain ⟨hmem, hlast⟩ := replay_concat node x steps last
    have hbefore : ∀ pair ∈ replayPairs node x steps, pair ∈ pairs := by
      intro pair hpair
      rw [replayPairs_append] at hsteps
      exact hsteps pair (List.mem_append_left _ hpair)
    rw [hlast] at heq
    cases t with
    | leaf y =>
      have hy : y ∈ leaves := ht.leaves_subset y List.mem_cons_self
      rw [show y = _ from heq] at hy
      exact absurd hy (hsep.apart _ (hsteps _ hmem))
    | node left right =>
      obtain ⟨htp, htl, htr⟩ := ht.children
      have hpair := hsep.injective htp (hsteps _ hmem) heq
      rw [Step.children] at hpair
      split at hpair
      · exact List.mem_append_right _ (ih right htr hbefore (Prod.mk.inj hpair).2)
      · exact List.mem_append_left _ (ih left htl hbefore (Prod.mk.inj hpair).1)

end TrustInfrastructure.Lib.Merkle
