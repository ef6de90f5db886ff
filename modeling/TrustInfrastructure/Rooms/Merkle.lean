import TrustInfrastructure.Lib.Except
import TrustInfrastructure.Lib.Merkle
import TrustInfrastructure.Rooms.Wire

/-!
# The data commitment

A room's commitment is the root of a hash tree over its records. A leaf is the hash of `0x00` and the
canonical form of a committed record, a node the hash of `0x01` and its two children, and the root of no
records the hash of the empty string. `rootOf` and `inclusionProof` are the source's two climbs of the
levels, at the library's `apex` and `path`.

SHA-256 and the canonicaliser are parameters (`Digests`). Proofs are complete for any of them. Binding asks
that SHA-256 has no collision *among the inputs hashed*: no function into 32 bytes is injective outright. The
prefixes then keep leaves, nodes and the empty root apart, which is all the library's trees need.
-/

namespace TrustInfrastructure.Rooms

open Lib Lib.Merkle

variable {record : CommittedRecord} {records : List CommittedRecord} {inputs : List (List UInt8)}

def leafPrefix : UInt8 := 0x00

def nodePrefix : UInt8 := 0x01

/-- A SHA-256 digest. -/
abbrev Hash := Vector UInt8 32

variable {leaves : List Hash} {leaf : Hash}

structure Digests where
  sha256 : List UInt8 → Hash
  canonical : CommittedRecord → Except String (List UInt8)

inductive MerkleError where
  | canonicalise (key source : String)
  deriving DecidableEq

abbrev ProofStep := Step Hash

abbrev InclusionProof := List ProofStep

def nodeInput (left right : Hash) : List UInt8 := nodePrefix :: (left.toList ++ right.toList)

def leafInput (canonical : List UInt8) : List UInt8 := leafPrefix :: canonical

section
variable (digests : Digests)

def leafHash (record : CommittedRecord) : Except MerkleError Hash :=
  match digests.canonical record with
  | .error source => .error (.canonicalise record.key source)
  | .ok canonical => .ok (digests.sha256 (leafInput canonical))

def nodeHash (left right : Hash) : Hash := digests.sha256 (nodeInput left right)

def emptyRoot : Hash := digests.sha256 []

/-- The data commitment over the leaves of the records in key order. -/
def rootOf (leaves : List Hash) : Hash := (apex (nodeHash digests) leaves).getD (emptyRoot digests)

/-- The proof for the leaf at `index`; none for an index outside the tree. -/
def inclusionProof (leaves : List Hash) (index : Nat) : Option InclusionProof :=
  if index ≥ leaves.length then none else path (nodeHash digests) leaves index

/-- Replay `proof` from `leaf` and report whether it reaches `root`. -/
def verifyInclusion (root leaf : Hash) (proof : InclusionProof) : Bool :=
  replay (nodeHash digests) leaf proof == root

end

/-! ### The tree head -/

/-- A room's root, and what says which state it covers. -/
structure TreeHead where
  root : Hash
  recordCount : Nat
  headVersion : Nat
  deriving DecidableEq

/-- The highest version among the records, `0` if there are none. -/
def highestVersion (records : List Record) : Nat := ((records.map Record.version).max?).getD 0

/-- The records in the order the commitment takes them in. -/
def byKey (records : List Record) : List Record := records.insertionSort fun a b => a.key ≤ b.key

section
variable (digests : Digests) (chrono : Chrono)

/-- The leaves of `records`, in the order given. -/
def leavesOf (records : List Record) : Except MerkleError (List Hash) :=
  records.mapM fun record => leafHash digests (record.committed chrono)

/-- The head over `records`, whose leaves are `leaves`. -/
def headOf (records : List Record) (leaves : List Hash) : TreeHead where
  root := rootOf digests leaves
  recordCount := leaves.length
  headVersion := highestVersion records

def treeHead (records : List Record) : Except MerkleError TreeHead :=
  (leavesOf digests chrono (byKey records)).map (headOf digests (byKey records))

end

/-! ### Proofs are complete -/

section
variable (digests : Digests)

theorem rootOf_eq_of_apex {root : Hash}
    (hroot : apex (nodeHash digests) leaves = some root) : rootOf digests leaves = root := by
  rw [rootOf, hroot]
  rfl

/-- **The root is RFC 6962's**, whose recursion splits the leaves at the largest power of two below their number. -/
theorem root_is_mth (leaves : List Hash) :
    rootOf digests leaves = mth (nodeHash digests) (emptyRoot digests) leaves := by
  cases leaves with
  | nil => rw [rootOf, apex, mth, if_neg (by decide), List.headD_nil, Option.getD_none]
  | cons => exact rootOf_eq_of_apex digests (apex_eq_mth _ _ _ (Nat.succ_pos _))

theorem inclusionProof_verifies {index : Nat}
    (hleaf : leaves[index]? = some leaf) : ∃ proof, inclusionProof digests leaves index = some proof ∧
      verifyInclusion digests (rootOf digests leaves) leaf proof = true := by
  obtain ⟨hlt, -⟩ := List.getElem?_eq_some_iff.mp hleaf
  obtain ⟨proof, hproof, hroot⟩ := path_complete (nodeHash digests) leaves index leaf hleaf
  refine ⟨proof, ?_, ?_⟩
  · rw [inclusionProof, if_neg (Nat.not_le.mpr hlt), hproof]
  · rw [verifyInclusion, rootOf_eq_of_apex digests hroot, beq_self_eq_true]

/-- **Every leaf has a proof, and it verifies.** No proof is given exactly for an index outside the list. -/
theorem inclusion_proof_complete (leaves : List Hash) (index : Nat) :
    (∀ leaf, leaves[index]? = some leaf → ∃ proof, inclusionProof digests leaves index = some proof ∧
      verifyInclusion digests (rootOf digests leaves) leaf proof = true) ∧
    (inclusionProof digests leaves index = none ↔ leaves.length ≤ index) := by
  refine ⟨fun leaf hleaf => inclusionProof_verifies digests hleaf, fun hnone => ?_, fun hout => if_pos hout⟩
  by_contra hin
  obtain ⟨proof, hproof, -⟩ :=
    inclusionProof_verifies digests (List.getElem?_eq_getElem (Nat.lt_of_not_le hin))
  rw [hproof] at hnone
  cases hnone

end

/-- A record for tests, under `key`. -/
def committedNote (key : String) : CommittedRecord :=
  { key, version := 1, status := .active, updatedAt := "1970-01-01T00:01:40Z", pinned := false, author := none,
    sealed := none, cleartext := none }

/-- A hash that keeps the first 32 bytes and a canonical form that is the key: no collision on short keys. -/
def plainDigests : Digests where
  sha256 := fun input => Vector.ofFn fun i => input.getD i.val 0
  canonical := fun record => .ok (record.key.toList.map Char.toUInt8)

/-- The leaf of `committedNote key`. -/
def plainLeaf (key : String) : Hash := plainDigests.sha256 (leafInput (key.toList.map Char.toUInt8))

theorem inclusion_proof_complete_plain :
    (∃ proof, inclusionProof plainDigests [plainLeaf "a", plainLeaf "b", plainLeaf "c"] 2 = some proof ∧
      verifyInclusion plainDigests (rootOf plainDigests [plainLeaf "a", plainLeaf "b", plainLeaf "c"])
        (plainLeaf "c") proof = true) ∧
    inclusionProof plainDigests [plainLeaf "a", plainLeaf "b", plainLeaf "c"] 3 = none :=
  ⟨(inclusion_proof_complete plainDigests [plainLeaf "a", plainLeaf "b", plainLeaf "c"] 2).1 _ rfl,
    (inclusion_proof_complete plainDigests [plainLeaf "a", plainLeaf "b", plainLeaf "c"] 3).2.mpr (by decide)⟩

/-! ### The commitment is binding -/

section
variable (digests : Digests)

def leafHashes (records : List CommittedRecord) : Except MerkleError (List Hash) :=
  records.mapM (leafHash digests)

/-- What is hashed into the leaves of `records`. -/
def leafInputs (records : List CommittedRecord) : List (List UInt8) :=
  records.filterMap fun record => (digests.canonical record).toOption.map leafInput

/-- What `rootOf` hashes. -/
def rootInputs (leaves : List Hash) : List (List UInt8) :=
  match treeOf leaves with
  | none => [[]]
  | some tree => (tree.pairs (nodeHash digests)).map fun pair => nodeInput pair.1 pair.2

/-- What is hashed in committing to `records`, whose leaves are `leaves`. -/
def commitInputs (records : List CommittedRecord) (leaves : List Hash) : List (List UInt8) :=
  leafInputs digests records ++ rootInputs digests leaves

/-- What `verifyInclusion` hashes. -/
def proofInputs (leaf : Hash) (proof : InclusionProof) : List (List UInt8) :=
  (replayPairs (nodeHash digests) leaf proof).map fun pair => nodeInput pair.1 pair.2

/-- SHA-256 has no collision among `inputs`. -/
def CollisionFree (inputs : List (List UInt8)) : Prop :=
  ∀ a ∈ inputs, ∀ b ∈ inputs, digests.sha256 a = digests.sha256 b → a = b

instance (inputs : List (List UInt8)) : Decidable (CollisionFree digests inputs) :=
  inferInstanceAs (Decidable (∀ a ∈ inputs, ∀ b ∈ inputs, digests.sha256 a = digests.sha256 b → a = b))

theorem nodeInput_injective {a b c d : Hash} (h : nodeInput a b = nodeInput c d) : (a, b) = (c, d) := by
  have happ : a.toList ++ b.toList = c.toList ++ d.toList := (List.cons.inj h).2
  obtain ⟨hleft, hright⟩ := List.append_inj happ (by rw [Vector.length_toList, Vector.length_toList])
  rw [Vector.toList_inj.mp hleft, Vector.toList_inj.mp hright]

theorem nodeInput_ne_leafInput (a b : Hash) (canonical : List UInt8) : nodeInput a b ≠ leafInput canonical := by
  intro h
  exact absurd (List.cons.inj h).1 (by decide)

theorem leafHash_eq_ok (h : leafHash digests record = .ok leaf) :
    ∃ canonical, digests.canonical record = .ok canonical ∧ leaf = digests.sha256 (leafInput canonical) := by
  rw [leafHash] at h
  split at h
  · cases h
  · cases h
    exact ⟨_, ‹_›, rfl⟩

theorem mem_leafHashes (h : leafHashes digests records = .ok leaves) (hleaf : leaf ∈ leaves) :
    ∃ canonical, leafInput canonical ∈ leafInputs digests records ∧
      leaf = digests.sha256 (leafInput canonical) := by
  obtain ⟨record, hrecord, heq⟩ := exists_of_mem_mapM h hleaf
  obtain ⟨canonical, hcanonical, hx⟩ := leafHash_eq_ok digests heq
  refine ⟨canonical, List.mem_filterMap.mpr ⟨record, hrecord, ?_⟩, hx⟩
  rw [hcanonical]
  rfl

variable {digests}

/-- The pairs among `inputs`. -/
def inputPairs (inputs : List (List UInt8)) : Set (Hash × Hash) := {pair | nodeInput pair.1 pair.2 ∈ inputs}

/-- The hashes of the leaf inputs among `inputs`. -/
def inputLeaves (digests : Digests) (inputs : List (List UInt8)) : Set Hash :=
  {leaf | ∃ canonical, leafInput canonical ∈ inputs ∧ leaf = digests.sha256 (leafInput canonical)}

theorem CollisionFree.separated (hfree : CollisionFree digests inputs) :
    Separated (nodeHash digests) (inputPairs inputs) (inputLeaves digests inputs) where
  injective := fun _ hp _ hq heq => nodeInput_injective (hfree _ hp _ hq heq)
  apart := by
    rintro pair hpair ⟨canonical, hin, heq⟩
    exact nodeInput_ne_leafInput _ _ _ (hfree _ hpair _ hin heq)

theorem rootOf_cases (hleaves : leafHashes digests records = .ok leaves)
    (hinputs : commitInputs digests records leaves ⊆ inputs) :
    (leaves = [] ∧ [] ∈ inputs ∧ rootOf digests leaves = digests.sha256 []) ∨
      ∃ tree : Merkle.Tree Hash, tree.leaves = leaves ∧ rootOf digests leaves = tree.hash (nodeHash digests) ∧
        tree.Within (nodeHash digests) (inputPairs inputs) (inputLeaves digests inputs) := by
  by_cases hne : leaves = []
  · subst hne
    refine .inl ⟨rfl, hinputs (List.mem_append_right _ ?_), ?_⟩
    · rw [rootInputs, treeOf_nil]
      exact List.mem_singleton_self _
    · rw [rootOf, apex_nil]
      rfl
  · obtain ⟨tree, htree, hmem, hapex⟩ := treeOf_spec (nodeHash digests) leaves hne
    refine .inr ⟨tree, hmem, rootOf_eq_of_apex digests hapex, fun pair hpair => ?_, fun leaf hleaf => ?_⟩
    · refine hinputs (List.mem_append_right _ ?_)
      rw [rootInputs, htree]
      exact List.mem_map_of_mem hpair
    · obtain ⟨canonical, hin, heq⟩ := mem_leafHashes digests hleaves (hmem ▸ hleaf)
      exact ⟨canonical, hinputs (List.mem_append_left _ hin), heq⟩

theorem hash_ne_emptyRoot (hfree : CollisionFree digests inputs) (hempty : [] ∈ inputs) {tree : Merkle.Tree Hash}
    (htree : tree.Within (nodeHash digests) (inputPairs inputs) (inputLeaves digests inputs)) :
    tree.hash (nodeHash digests) ≠ digests.sha256 [] := by
  intro heq
  cases tree with
  | leaf leaf =>
    obtain ⟨canonical, hin, rfl⟩ := htree.leaves_subset leaf List.mem_cons_self
    exact List.cons_ne_nil _ _ (hfree _ hin _ hempty heq)
  | node => exact List.cons_ne_nil _ _ (hfree _ htree.children.1 _ hempty heq)

theorem replay_ne_emptyRoot (hfree : CollisionFree digests inputs)
    (hempty : [] ∈ inputs) (hleaf : leaf ∈ inputLeaves digests inputs) (proof : InclusionProof)
    (hproof : ∀ pair ∈ replayPairs (nodeHash digests) leaf proof, pair ∈ inputPairs inputs) :
    replay (nodeHash digests) leaf proof ≠ digests.sha256 [] := by
  intro heq
  rcases List.eq_nil_or_concat' proof with rfl | ⟨before, last, rfl⟩
  · obtain ⟨canonical, hin, rfl⟩ := hleaf
    exact List.cons_ne_nil _ _ (hfree _ hin _ hempty heq)
  · obtain ⟨hmem, hlast⟩ := replay_concat (nodeHash digests) leaf before last
    rw [hlast] at heq
    exact List.cons_ne_nil _ _ (hfree _ (hproof _ hmem) _ hempty heq)

theorem leaves_eq_of_rootOf_eq {records₁ records₂ : List CommittedRecord} {leaves₁ leaves₂ : List Hash}
    (hfree : CollisionFree digests inputs)
    (h₁ : leafHashes digests records₁ = .ok leaves₁) (h₂ : leafHashes digests records₂ = .ok leaves₂)
    (hin₁ : commitInputs digests records₁ leaves₁ ⊆ inputs)
    (hin₂ : commitInputs digests records₂ leaves₂ ⊆ inputs)
    (heq : rootOf digests leaves₁ = rootOf digests leaves₂) : leaves₁ = leaves₂ := by
  rcases rootOf_cases h₁ hin₁ with ⟨hnil₁, hempty, hroot₁⟩ | ⟨tree₁, hleaves₁, hroot₁, hwithin₁⟩ <;>
    rcases rootOf_cases h₂ hin₂ with ⟨hnil₂, hempty₂, hroot₂⟩ | ⟨tree₂, hleaves₂, hroot₂, hwithin₂⟩ <;>
    rw [hroot₁, hroot₂] at heq
  · rw [hnil₁, hnil₂]
  · exact absurd heq.symm (hash_ne_emptyRoot hfree hempty hwithin₂)
  · exact absurd heq (hash_ne_emptyRoot hfree hempty₂ hwithin₁)
  · rw [← hleaves₁, ← hleaves₂, Tree.eq_of_hash_eq hfree.separated tree₁ tree₂ hwithin₁ hwithin₂ heq]

theorem mem_of_verifyInclusion {proof : InclusionProof}
    (hfree : CollisionFree digests inputs) (hrecords : leafHashes digests records = .ok leaves)
    (hrecord : leafHash digests record = .ok leaf) (hin : commitInputs digests records leaves ⊆ inputs)
    (hinLeaf : leafInputs digests [record] ⊆ inputs) (hinProof : proofInputs digests leaf proof ⊆ inputs)
    (hverify : verifyInclusion digests (rootOf digests leaves) leaf proof = true) : leaf ∈ leaves := by
  have hreached : replay (nodeHash digests) leaf proof = rootOf digests leaves := eq_of_beq hverify
  have hleaf : leaf ∈ inputLeaves digests inputs := by
    obtain ⟨canonical, hcanonical, heq⟩ := leafHash_eq_ok digests hrecord
    refine ⟨canonical, hinLeaf (List.mem_filterMap.mpr ⟨record, List.mem_cons_self, ?_⟩), heq⟩
    rw [hcanonical]
    rfl
  have hproof : ∀ pair ∈ replayPairs (nodeHash digests) leaf proof, pair ∈ inputPairs inputs :=
    fun pair hpair => hinProof (List.mem_map_of_mem hpair)
  rcases rootOf_cases hrecords hin with ⟨-, hempty, hroot⟩ | ⟨tree, hleaves, hroot, hwithin⟩
  · exact absurd (hreached.trans hroot) (replay_ne_emptyRoot hfree hempty hleaf proof hproof)
  · rw [← hleaves]
    exact Tree.mem_leaves_of_replay hfree.separated tree hwithin leaf hleaf proof hproof
      (hroot.symm.trans hreached.symm)

end

/-- **The data commitment is binding.** Where SHA-256 has no collision among the inputs hashed, two lists of
record leaves with one root are one list, and a leaf with a proof against a root, of whatever length, is one
of the leaves the root was computed over. -/
theorem commitment_binding (digests : Digests) :
    (∀ records₁ records₂ leaves₁ leaves₂,
      leafHashes digests records₁ = .ok leaves₁ → leafHashes digests records₂ = .ok leaves₂ →
      CollisionFree digests
        (commitInputs digests records₁ leaves₁ ++ commitInputs digests records₂ leaves₂) →
      rootOf digests leaves₁ = rootOf digests leaves₂ → leaves₁ = leaves₂) ∧
    (∀ records leaves record leaf proof,
      leafHashes digests records = .ok leaves → leafHash digests record = .ok leaf →
      CollisionFree digests
        (commitInputs digests records leaves ++ (leafInputs digests [record] ++ proofInputs digests leaf proof)) →
      verifyInclusion digests (rootOf digests leaves) leaf proof = true → leaf ∈ leaves) := by
  refine ⟨fun records₁ records₂ leaves₁ leaves₂ h₁ h₂ hfree heq => ?_,
    fun records leaves record leaf proof hrecords hrecord hfree hverify => ?_⟩
  · exact leaves_eq_of_rootOf_eq hfree h₁ h₂ (List.subset_append_left _ _) (List.subset_append_right _ _) heq
  · exact mem_of_verifyInclusion hfree hrecords hrecord (List.subset_append_left _ _)
      (List.subset_append_of_subset_right _ (List.subset_append_left _ _))
      (List.subset_append_of_subset_right _ (List.subset_append_right _ _)) hverify

/-- Two notes: committed to twice, told from one of them, and proved. -/
theorem commitment_binding_plain :
    [plainLeaf "a", plainLeaf "b"] = [plainLeaf "a", plainLeaf "b"] ∧
      rootOf plainDigests [plainLeaf "a"] ≠ rootOf plainDigests [plainLeaf "a", plainLeaf "b"] ∧
      plainLeaf "b" ∈ [plainLeaf "a", plainLeaf "b"] := by
  have hone : leafHashes plainDigests [committedNote "a"] = .ok [plainLeaf "a"] := by decide
  have htwo : leafHashes plainDigests [committedNote "a", committedNote "b"] =
      .ok [plainLeaf "a", plainLeaf "b"] := by decide
  refine ⟨(commitment_binding plainDigests).1 _ _ _ _ htwo htwo (by decide +kernel) rfl, fun heq => ?_, ?_⟩
  · have hlists := (commitment_binding plainDigests).1 _ _ _ _ hone htwo (by decide +kernel) heq
    exact absurd (congrArg List.length hlists) (by decide)
  · exact (commitment_binding plainDigests).2 _ _ (committedNote "b") (plainLeaf "b") [⟨plainLeaf "a", true⟩]
      htwo (by decide) (by decide +kernel) (by decide +kernel)

end TrustInfrastructure.Rooms
