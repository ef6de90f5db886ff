import TrustInfrastructure.Voting.Trustees

/-!
# Any `t` trustees decrypt

Everything about a formed key is read off the polynomials behind its commitments. Their sum has degree below `t`, its
value at a trustee's index is that trustee's secret (`jointShare`), whose multiple of the generator is the published
verification key, and its constant term is the election key's secret. Shares make a trustee's key exactly when they are
these polynomials' values, one per dealer. A list of correct partials, whatever its order and repetitions, leaves for
each trustee it names one and the same element, and the first `t` of them recombine to the constant term multiplied
into the ciphertext.
-/

namespace TrustInfrastructure.Voting

open Lib Std

namespace Suite

variable {l : Nat} {P : Type} [Fact l.Prime] [AddCommGroup P] [Module (ZMod l) P] [DecidableEq P]
variable {S : Suite l P} {dealings : List (Dealing l P)} {th : Threshold} {ctx : List UInt8} {ek : ElectionKey P}
variable {coeffs : Dealing l P → List (ZMod l)}
variable {j : Nat} {shares : List (Share l)} {ct : Ciphertext P} {ctx' : List UInt8}

def Commits (S : Suite l P) (dealings : List (Dealing l P)) (coeffs : Dealing l P → List (ZMod l)) : Prop :=
  ∀ d ∈ dealings, d.commitments = (coeffs d).map fun a => a • S.g

/-- The value at an index of the sum of the polynomials: the secret of that trustee. -/
def jointShare (dealings : List (Dealing l P)) (coeffs : Dealing l P → List (ZMod l)) (j : Nat) : ZMod l :=
  (dealings.map fun d => eval (coeffs d) j).sum

omit [DecidableEq P] in
theorem Commits.evalCommitments (h : Commits S dealings coeffs) {d : Dealing l P} (hd : d ∈ dealings) (j : Nat) :
    evalCommitments (l := l) d.commitments j = eval (coeffs d) j • S.g := by
  rw [h d hd]
  exact horner_map_smul _ _ _

omit [DecidableEq P] in
theorem Commits.sum_evalCommitments (h : Commits S dealings coeffs) (j : Nat) :
    (dealings.map fun d => Voting.evalCommitments (l := l) d.commitments j).sum =
      jointShare dealings coeffs j • S.g := by
  rw [jointShare, List.sum_smul, List.map_map]
  exact congrArg List.sum (List.map_congr_left fun d hd => h.evalCommitments hd j)

/-! ### Verification keys -/

theorem Formed.verification_eq_some (hek : Formed S dealings th ctx ek) {y : P} :
    ek.verification[j]? = some y ↔ (1 ≤ j ∧ j ≤ th.n) ∧
      y = (dealings.map fun d => Voting.evalCommitments (l := l) d.commitments j).sum := by
  rw [hek.verification, getElem?_ofList]
  · simp only [List.mem_map, List.mem_range'_1, Prod.mk.injEq]
    constructor
    · rintro ⟨i, hi, rfl, rfl⟩
      exact ⟨by omega, rfl⟩
    · rintro ⟨hj, rfl⟩
      exact ⟨j, by omega, rfl, rfl⟩
  · rw [List.map_map]
    exact (List.map_id (List.range' 1 th.n)).symm ▸ List.nodup_range'

/-- A trustee's verification key is its secret's multiple of the generator. -/
theorem Formed.verification_get (hek : Formed S dealings th ctx ek) (hcoeffs : Commits S dealings coeffs)
    (hj : 1 ≤ j ∧ j ≤ th.n) : ek.verification[j]? = some (jointShare dealings coeffs j • S.g) :=
  hek.verification_eq_some.mpr ⟨hj, (hcoeffs.sum_evalCommitments j).symm⟩

/-! ### Shares -/

/-- One share per dealing, each addressed to `j` and the value of its dealer's polynomial there. -/
structure OnePerDealer (dealings : List (Dealing l P)) (coeffs : Dealing l P → List (ZMod l)) (j : Nat)
    (shares : List (Share l)) : Prop where
  distinct : (shares.map Share.dealer).Nodup
  complete : ∀ d ∈ dealings, ∃ s ∈ shares, s.dealer = d.dealer
  correct : ∀ s ∈ shares, s.recipient = j ∧ ∃ d ∈ dealings, s.dealer = d.dealer ∧ s.value = eval (coeffs d) j

theorem addShares_eq_ok {index : Nat} {byDealer : TreeMap Nat (Dealing l P)} {secret x : ZMod l} :
    S.addShares index byDealer shares secret = .ok x ↔
      (∀ s ∈ shares, s.recipient = index ∧ ∃ d, byDealer[s.dealer]? = some d ∧ S.verifyShare d s = .ok ()) ∧
        x = secret + (shares.map Share.value).sum := by
  induction shares generalizing secret with
  | nil =>
    rw [addShares, List.map_nil, List.sum_nil, add_zero]
    exact ⟨fun h => ⟨fun _ hs => (nomatch hs), (Except.ok.inj h).symm⟩, fun h => congrArg _ h.2.symm⟩
  | cons s _ ih =>
    rw [addShares, List.forall_mem_cons, List.map_cons, List.sum_cons, ← add_assoc]
    split
    case isTrue hother => exact iff_of_false (by simp) fun h => hother h.1.1.1
    case isFalse hindex =>
    rcases hget : byDealer[s.dealer]? with _ | d
    · exact iff_of_false (by simp) fun ⟨⟨⟨_, d, hd, _⟩, _⟩, _⟩ => by cases hd
    · simp only [bind_eq_ok, ih]
      constructor
      · rintro ⟨_, hverify, hrest, hx⟩
        exact ⟨⟨⟨not_not.mp hindex, d, rfl, hverify⟩, hrest⟩, hx⟩
      · rintro ⟨⟨⟨_, d', hd', hverify⟩, hrest⟩, hx⟩
        cases hd'
        exact ⟨(), hverify, hrest, hx⟩

theorem Formed.mem_qualified (hek : Formed S dealings th ctx ek) {i : Nat} :
    i ∈ ek.qualified ↔ ∃ d ∈ dealings, d.dealer = i := by
  rw [hek.qualified, mem_toList_ofList, List.mem_map]

omit [AddCommGroup P] [Module (ZMod l) P] [DecidableEq P] in
theorem OnePerDealer.mem_dealer (h : OnePerDealer dealings coeffs j shares)
    (i : Nat) : i ∈ shares.map Share.dealer ↔ i ∈ dealings.map Dealing.dealer := by
  rw [List.mem_map, List.mem_map]
  constructor
  · rintro ⟨s, hs, rfl⟩
    obtain ⟨_, d, hd, hdealer, _⟩ := h.correct s hs
    exact ⟨d, hd, hdealer.symm⟩
  · rintro ⟨d, hd, rfl⟩
    exact h.complete d hd

omit [AddCommGroup P] [Module (ZMod l) P] [DecidableEq P] in
theorem OnePerDealer.sum_value (hnodup : (dealings.map Dealing.dealer).Nodup)
    (h : OnePerDealer dealings coeffs j shares) : (shares.map Share.value).sum = jointShare dealings coeffs j := by
  -- both sums run over the dealers' indices, which are the same up to order
  have hperm : (shares.map Share.dealer).Perm (dealings.map Dealing.dealer) :=
    (List.perm_ext_iff_of_nodup h.distinct hnodup).mpr h.mem_dealer
  let byDealer := TreeMap.ofList (dealings.map fun d => (d.dealer, d)) compare
  let value : Nat → ZMod l := fun i => (byDealer[i]?.map fun d => eval (coeffs d) j).getD 0
  have hvalue : ∀ d ∈ dealings, value d.dealer = eval (coeffs d) j := by
    intro d hd
    have hget : byDealer[d.dealer]? = some d := (getElem?_byDealer hnodup).mpr ⟨hd, rfl⟩
    simp only [value, hget, Option.map_some, Option.getD_some]
  calc (shares.map Share.value).sum
      = ((shares.map Share.dealer).map value).sum := by
        rw [List.map_map]
        refine congrArg List.sum (List.map_congr_left fun s hs => ?_)
        obtain ⟨_, d, hd, hdealer, hs⟩ := h.correct s hs
        rw [Function.comp_apply, hs, hdealer, hvalue d hd]
    _ = ((dealings.map Dealing.dealer).map value).sum := (hperm.map value).sum_eq
    _ = jointShare dealings coeffs j := by
        rw [List.map_map]
        exact congrArg List.sum (List.map_congr_left hvalue)

/-- Shares make a key only for a trustee that has a verification key. -/
theorem Formed.range_of_fromShares (hek : Formed S dealings th ctx ek) {key : TrusteeKey l}
    (h : S.fromShares j shares dealings ek = .ok key) : 1 ≤ j ∧ j ≤ th.n := by
  unfold fromShares at h
  dsimp only at h
  split at h
  · cases h
  · obtain ⟨secret, -, hkey⟩ := bind_eq_ok.mp h
    split at hkey
    · exact (hek.verification_eq_some.mp ‹_›).1
    · cases hkey

theorem Formed.fromShares_eq_ok (hek : Formed S dealings th ctx ek) (hcoeffs : Commits S dealings coeffs)
    (hj : 1 ≤ j ∧ j ≤ th.n) {key : TrusteeKey l} :
    S.fromShares j shares dealings ek = .ok key ↔
      OnePerDealer dealings coeffs j shares ∧ key = ⟨j, jointShare dealings coeffs j⟩ := by
  have hsize : (TreeMap.ofList (dealings.map fun d => (d.dealer, d)) compare).size = dealings.length := by
    rw [TreeMap.size_ofList (distinct_of_nodup (by rw [List.map_map]; exact hek.nodup)), List.length_map]
  have hvalue : ∀ s : Share l, ∀ d ∈ dealings, s.recipient = j →
      (S.verifyShare d s = .ok () ↔ s.dealer = d.dealer ∧ s.value = eval (coeffs d) j) := by
    intro s d hd hrecipient
    rw [verifyShare_eq_ok, hrecipient, hcoeffs.evalCommitments hd]
    exact and_congr_right fun _ => ⟨S.smul_g_injective, congrArg (· • S.g)⟩
  unfold fromShares
  dsimp only
  split
  case isTrue hbad =>
    refine iff_of_false (by simp) fun ⟨hone, _⟩ => ?_
    have hlength : shares.length = dealings.length := by
      have hperm := (List.perm_ext_iff_of_nodup hone.distinct hek.nodup).mpr hone.mem_dealer
      simpa using hperm.length_eq
    have hshares : (TreeSet.ofList (shares.map Share.dealer) compare).size = shares.length :=
      (size_ofList_eq_length.mpr hone.distinct).trans (List.length_map Share.dealer)
    rcases hbad with h | h | h
    · exact h hshares
    · exact h (hshares.trans (hlength.trans hsize.symm))
    · exact h (by rw [hek.qualified]; exact toList_ofList_eq_iff.mpr hone.mem_dealer)
  case isFalse hgood =>
    simp only [not_or, not_not] at hgood
    obtain ⟨hdistinct, _, hqualified⟩ := hgood
    have hnodup : (shares.map Share.dealer).Nodup :=
      size_ofList_eq_length.mp (hdistinct.trans (List.length_map Share.dealer).symm)
    rw [hek.qualified] at hqualified
    have hmem := toList_ofList_eq_iff.mp hqualified
    have hone : (∀ s ∈ shares, s.recipient = j ∧ ∃ d,
        (TreeMap.ofList (dealings.map fun d => (d.dealer, d)) compare)[s.dealer]? = some d ∧
          S.verifyShare d s = .ok ()) ↔ OnePerDealer dealings coeffs j shares := by
      constructor
      · intro h
        refine ⟨hnodup, ?_, ?_⟩
        · intro d hd
          exact List.mem_map.mp ((hmem d.dealer).mpr (List.mem_map_of_mem hd))
        · intro s hs
          obtain ⟨hrecipient, d, hget, hverify⟩ := h s hs
          obtain ⟨hd, _⟩ := (getElem?_byDealer hek.nodup).mp hget
          exact ⟨hrecipient, d, hd, (hvalue s d hd hrecipient).mp hverify⟩
      · intro h s hs
        obtain ⟨hrecipient, d, hd, hdealer, heval⟩ := h.correct s hs
        exact ⟨hrecipient, d, (getElem?_byDealer hek.nodup).mpr ⟨hd, hdealer.symm⟩,
          (hvalue s d hd hrecipient).mpr ⟨hdealer, heval⟩⟩
    simp only [bind_eq_ok, addShares_eq_ok, zero_add, hone]
    constructor
    · rintro ⟨secret, ⟨h, rfl⟩, hkey⟩
      split at hkey
      · cases hkey
        exact ⟨h, by rw [h.sum_value hek.nodup]⟩
      · cases hkey
    · rintro ⟨h, rfl⟩
      refine ⟨_, ⟨h, rfl⟩, ?_⟩
      rw [h.sum_value hek.nodup, if_pos (hek.verification_get hcoeffs hj)]

/-! ### Partial decryptions -/

theorem Formed.verifyPartial_ok (hek : Formed S dealings th ctx ek) {p : PartialDecryption l P}
    (h : S.verifyPartial ek ct p ctx' = .ok ()) : 1 ≤ p.trustee ∧ p.trustee ≤ th.n := by
  unfold verifyPartial at h
  split at h
  case h_1 => cases h
  case h_2 y hy => exact (hek.verification_eq_some.mp hy).1

theorem Formed.verifyPartial_partialDecrypt (hek : Formed S dealings th ctx ek) (hcoeffs : Commits S dealings coeffs)
    (hj : 1 ≤ j ∧ j ≤ th.n) (ct : Ciphertext P) (ctx' : List UInt8) (w : ZMod l) :
    S.verifyPartial ek ct (S.partialDecrypt ⟨j, jointShare dealings coeffs j⟩ ct ctx' w) ctx' = .ok () := by
  have hget : ek.verification[(S.partialDecrypt ⟨j, jointShare dealings coeffs j⟩ ct ctx' w).trustee]? =
      some (jointShare dealings coeffs j • S.g) := hek.verification_get hcoeffs hj
  rw [verifyPartial, hget]
  exact if_pos (S.cpVerify_cpProve _ _ _ _ _)

noncomputable def jointPoly (dealings : List (Dealing l P)) (coeffs : Dealing l P → List (ZMod l)) :
    Polynomial (ZMod l) :=
  (dealings.map fun d => polyOf (coeffs d)).sum

omit [AddCommGroup P] [Module (ZMod l) P] [DecidableEq P] in
theorem eval_jointPoly (x : ZMod l) :
    (jointPoly dealings coeffs).eval x = (dealings.map fun d => horner x (coeffs d)).sum := by
  rw [jointPoly, ← Polynomial.coe_evalRingHom, map_list_sum, List.map_map]
  exact congrArg List.sum (List.map_congr_left fun d _ => eval_polyOf x (coeffs d))

theorem Formed.degree_jointPoly_lt (hek : Formed S dealings th ctx ek) (hcoeffs : Commits S dealings coeffs) :
    (jointPoly dealings coeffs).degree < th.t := by
  rw [jointPoly, ← Polynomial.mem_degreeLT]
  refine list_sum_mem fun f hf => ?_
  obtain ⟨d, hd, rfl⟩ := List.mem_map.mp hf
  have hlength : (coeffs d).length = th.t := by
    rw [← (verifyDealing_ok (hek.verified d hd)).2, hcoeffs d hd, List.length_map]
  rw [Polynomial.mem_degreeLT, ← hlength]
  exact degree_polyOf_lt (coeffs d)

/-- The constant term is the secret of the election key. -/
theorem Formed.key_eq (hek : Formed S dealings th ctx ek) (hcoeffs : Commits S dealings coeffs) :
    ek.key = (jointPoly dealings coeffs).eval 0 • S.g := by
  rw [hek.key, eval_jointPoly, List.sum_smul, List.map_map]
  refine congrArg List.sum (List.map_congr_left fun d hd => ?_)
  rw [Function.comp_apply, ← horner_map_smul, ← hcoeffs d hd, horner_zero]

def trusteeCount (partials : List (PartialDecryption l P)) : Nat :=
  (partials.map PartialDecryption.trustee).dedup.length

/-- Correct partials of `t` trustees or more recombine to the constant term multiplied into the ciphertext, whatever
their order and repetitions; of fewer trustees they are refused. -/
theorem Formed.combine_eq (hek : Formed S dealings th ctx ek) (hcoeffs : Commits S dealings coeffs) (hn : th.n < l)
    {partials : List (PartialDecryption l P)}
    (hverify : ∀ p ∈ partials, S.verifyPartial ek ct p ctx' = .ok ())
    (hcorrect : ∀ p ∈ partials, p.d = jointShare dealings coeffs p.trustee • ct.a) :
    S.combine ek ct partials ctx' =
      if trusteeCount partials < th.t then .error (.tooFewPartials (trusteeCount partials) th.t)
      else .ok (ct.b - (jointPoly dealings coeffs).eval 0 • ct.a) := by
  obtain ⟨chosen, hchoose, hmem, hget⟩ := choose_eq_ok hverify ∅
  have hkeys : ∀ j, j ∈ chosen ↔ j ∈ partials.map PartialDecryption.trustee := fun j => by
    rw [hmem, TreeMap.mem_iff_isSome_getElem?, TreeMap.getElem?_emptyc]
    simp
  have hsize : chosen.size = trusteeCount partials := by
    rw [← TreeMap.length_keys, trusteeCount]
    refine List.Perm.length_eq ?_
    rw [List.perm_ext_iff_of_nodup (nodup_keys chosen) (List.nodup_dedup _)]
    intro j
    rw [TreeMap.mem_keys, hkeys, List.mem_dedup]
  have hvalue : ∀ j ∈ chosen, chosen.getD j 0 = (jointPoly dealings coeffs).eval (j : ZMod l) • ct.a := by
    intro j hj
    rw [TreeMap.mem_iff_isSome_getElem?] at hj
    obtain ⟨d, hd⟩ := Option.isSome_iff_exists.mp hj
    rw [TreeMap.getD_eq_getD_getElem?, hd, Option.getD_some, eval_jointPoly]
    rcases hget j d hd with h | ⟨p, hp, rfl, rfl⟩
    · rw [TreeMap.getElem?_emptyc] at h
      cases h
    · exact hcorrect p hp
  have hindex : ∀ j ∈ chosen, j < l := by
    intro j hj
    obtain ⟨p, hp, rfl⟩ := List.mem_map.mp ((hkeys j).mp hj)
    exact (hek.verifyPartial_ok (hverify p hp)).2.trans_lt hn
  rw [combine, hchoose]
  change (if chosen.size < ek.threshold.t then _ else _) = _
  rw [hsize, hek.threshold]
  split
  · rfl
  case isFalse henough =>
    have hin : ∀ j ∈ chosen.keys.take th.t, j ∈ chosen := fun j hj => TreeMap.mem_keys.mp (List.mem_of_mem_take hj)
    have hnodup : (chosen.keys.take th.t).Nodup := (nodup_keys chosen).sublist (List.take_sublist _ _)
    have hlength : (chosen.keys.take th.t).length = th.t := by
      rw [List.length_take, TreeMap.length_keys, hsize]
      omega
    have hinj : Set.InjOn (fun k : Nat => (k : ZMod l)) {k | k ∈ chosen.keys.take th.t} := by
      intro a ha b hb hab
      have hab' : a % l = b % l := (ZMod.natCast_eq_natCast_iff' a b l).mp hab
      rwa [Nat.mod_eq_of_lt (hindex a (hin a ha)), Nat.mod_eq_of_lt (hindex b (hin b hb))] at hab'
    rw [← sum_weightAtZero_smul hnodup hinj (by rw [hlength]; exact hek.degree_jointPoly_lt hcoeffs) ct.a]
    refine congrArg (fun xa => Except.ok (ct.b - xa)) (congrArg List.sum (List.map_congr_left fun j hj => ?_))
    rw [hvalue j (hin j hj)]

/-! ### Totals -/

/-- A total is read back, whatever the estimate of the square root. -/
theorem tally_smul (S : Suite l P) (sqrt : Nat → Nat) {m : ZMod l} {max : Nat} (hmax : m.val ≤ max) :
    S.tally sqrt (m • S.g) max = .ok m.val := by
  have hnsmul : ∀ k : Nat, k • S.g = (k : ZMod l) • S.g := fun k => (Nat.cast_smul_eq_nsmul (ZMod l) k S.g).symm
  have hleast : ∀ k : Nat, k • S.g = m.val • S.g → m.val ≤ k := by
    intro k hk
    rw [hnsmul, hnsmul, ZMod.natCast_zmod_val] at hk
    rw [← S.smul_g_injective hk, ZMod.val_natCast]
    exact Nat.mod_le k l
  have hstep : 1 ≤ Nat.max (sqrt max) 1 := Nat.le_max_right _ _
  generalize hs : Nat.max (sqrt max) 1 = step at hstep
  have hfuel : m.val < (0 + (max / step + 1)) * step := by
    have h := Nat.div_add_mod max step
    have hmod := Nat.mod_lt max hstep
    rw [Nat.zero_add, Nat.add_mul, Nat.one_mul, Nat.mul_comm]
    omega
  have hfound := giantSteps_eq_some hmax hleast 0 (by omega) hfuel
  rw [Nat.zero_mul, zero_nsmul, sub_zero, hnsmul step, hnsmul m.val, ZMod.natCast_zmod_val] at hfound
  rw [tally, hs, hfound]

/-! ### The whole of it -/

/-- The verification keys are the trustees' secrets times the generator; shares make a trustee's key exactly when they
are one per dealer and the polynomials' values; and partials that verify, of `t` trustees or more, give the plaintext
and its total, of fewer nothing. A verifying proof is taken to show that its partial is the trustee's secret times the
ciphertext. -/
theorem threshold_decryption (S : Suite l P) (th : Threshold) (hn : th.n < l) (ctx : List UInt8)
    (dealings : List (Dealing l P)) (coeffs : Dealing l P → List (ZMod l)) (hcoeffs : Commits S dealings coeffs)
    (ek : ElectionKey P) (hek : S.fromDealings dealings th ctx = .ok ek) :
    (∀ j, 1 ≤ j → j ≤ th.n → ek.verification[j]? = some (jointShare dealings coeffs j • S.g)) ∧
    (∀ j, 1 ≤ j → j ≤ th.n → ∀ shares, (∃ key, S.fromShares j shares dealings ek = .ok key) ↔
      OnePerDealer dealings coeffs j shares) ∧
    (∀ (r : ZMod l) (M : P) (ctx' : List UInt8) (partials : List (PartialDecryption l P)),
      (∀ p ∈ partials, S.verifyPartial ek ⟨r • S.g, M + r • ek.key⟩ p ctx' = .ok ()) →
      (∀ p ∈ partials, S.verifyPartial ek ⟨r • S.g, M + r • ek.key⟩ p ctx' = .ok () →
        p.d = jointShare dealings coeffs p.trustee • r • S.g) →
      (trusteeCount partials < th.t → S.combine ek ⟨r • S.g, M + r • ek.key⟩ partials ctx' =
        .error (.tooFewPartials (trusteeCount partials) th.t)) ∧
      (th.t ≤ trusteeCount partials → S.combine ek ⟨r • S.g, M + r • ek.key⟩ partials ctx' = .ok M ∧
        ∀ (sqrt : Nat → Nat) (m : ZMod l) (max : Nat), M = m • S.g → m.val ≤ max →
          (S.combine ek ⟨r • S.g, M + r • ek.key⟩ partials ctx' >>= fun total => S.tally sqrt total max) =
            .ok m.val)) := by
  have hformed := formed_of_fromDealings hek
  refine ⟨fun j h₁ h₂ => hformed.verification_get hcoeffs ⟨h₁, h₂⟩, fun j h₁ h₂ shares => ?_, ?_⟩
  · constructor
    · rintro ⟨key, hkey⟩
      exact ((hformed.fromShares_eq_ok hcoeffs ⟨h₁, h₂⟩).mp hkey).1
    · exact fun h => ⟨_, (hformed.fromShares_eq_ok hcoeffs ⟨h₁, h₂⟩).mpr ⟨h, rfl⟩⟩
  · intro r M ctx' partials hverify hsound
    have hcombine := hformed.combine_eq hcoeffs hn hverify fun p hp => hsound p hp (hverify p hp)
    refine ⟨fun hfew => by rw [hcombine, if_pos hfew], fun henough => ?_⟩
    have hplain : M + r • ek.key - (jointPoly dealings coeffs).eval 0 • r • S.g = M := by
      rw [hformed.key_eq hcoeffs, smul_comm, add_sub_cancel_right]
    rw [if_neg (by omega)] at hcombine
    dsimp only at hcombine
    rw [hplain] at hcombine
    refine ⟨hcombine, fun sqrt m max hM hmax => ?_⟩
    rw [hcombine, hM]
    exact S.tally_smul sqrt hmax

end Suite

/-! ### Two of three -/

instance fact_prime_five : Fact (Nat.Prime 5) := ⟨by decide⟩

/-- The integers modulo five, with a challenge that hashes nothing. -/
def toySuite : Suite 5 (ZMod 5) where
  g := 2
  g_ne_zero := by decide
  generates := by decide
  challenge _ _ _ := 3

def twoOfThree : Threshold := ⟨2, 3, by decide, by decide⟩

/-- The dealings of trustees 1 and 2, of `1 + 2x` and `3 + x`. -/
def toyDealings : List (Dealing 5 (ZMod 5)) :=
  [⟨1, [1 * 2, 2 * 2], toySuite.schnorrProve 1 (1 * 2) domainPok (dealerCtx [] 1) 4⟩,
    ⟨2, [3 * 2, 1 * 2], toySuite.schnorrProve 3 (3 * 2) domainPok (dealerCtx [] 2) 1⟩]

def toyCoeffs (d : Dealing 5 (ZMod 5)) : List (ZMod 5) := if d.dealer = 1 then [1, 2] else [3, 1]

def toyKey : ElectionKey (ZMod 5) where
  threshold := twoOfThree
  key := (toyDealings.map fun d => d.commitments.headD 0).sum
  qualified := (TreeSet.ofList (toyDealings.map Dealing.dealer) compare).toList
  verification := TreeMap.ofList ((List.range' 1 3).map fun j =>
    (j, (toyDealings.map fun d => evalCommitments (l := 5) d.commitments j).sum)) compare

/-- Trustees 3 and 2 decrypt the total 4, trustee 3 twice. -/
def toyPartials : List (PartialDecryption 5 (ZMod 5)) :=
  let decrypt j := toySuite.partialDecrypt ⟨j, Suite.jointShare toyDealings toyCoeffs j⟩ ⟨3 • 2, 0⟩ [] 1
  [decrypt 3, decrypt 3, decrypt 2]

theorem threshold_decryption_toy :
    toySuite.combine toyKey ⟨3 • 2, 4 • 2 + 3 • toyKey.key⟩ toyPartials [] = .ok (4 • 2) ∧
      toySuite.tally (fun _ => 2) (4 • 2) 4 = .ok 4 := by
  have hall := Suite.threshold_decryption toySuite twoOfThree (by decide) [] toyDealings toyCoeffs
    (by unfold Suite.Commits; decide +kernel) toyKey rfl
  have hpartials := (hall.2.2 3 (4 • 2) [] toyPartials (by decide +kernel) (by decide +kernel)).2 (by decide +kernel)
  refine ⟨hpartials.1, ?_⟩
  have htotal := hpartials.2 (fun _ => 2) 4 4 rfl (by decide)
  rw [hpartials.1] at htotal
  exact htotal

end TrustInfrastructure.Voting
