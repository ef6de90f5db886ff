import TrustInfrastructure.Voting.Ceremony

/-!
# A key that forms is one the trustees can use

Over every sequence of steps and deadlines, refused or accepted. `Sound` is the invariant; from it the key of a keyed
ceremony is the one of its qualified dealers, and these are the dealers without an unanswered complaint
(`mem_qualified_iff`). A trustee that complained exactly of the shares that failed holds, with what was revealed to it,
one valid share of every qualified dealer, so it has its key. A dealer whose share is right has its answer recorded
whenever it gives it before the deadline. And since a ceremony that is keyed or failed accepts nothing, the steps on
the board lead to the same ceremony again.
-/

namespace TrustInfrastructure.Voting

open Lib Std

namespace Ceremony

variable {l : Nat} {P : Type} [DecidableEq P] [AddCommGroup P] [Module (ZMod l) P] [Fact l.Prime]
variable {S : Suite l P} {c next : Ceremony l P}
variable {i j r : Nat} {k : ElectionKey P} {against : TreeSet Nat} {opened : Nat → Option (ZMod l)}
  {calls : List (Call l P)}

/-! ### The invariant -/

structure Sound (S : Suite l P) (c : Ceremony l P) : Prop where
  keyed : c.key.isSome = true ↔ c.phase = .keyed
  dealt : ∀ (i : Nat) (d : SealedDealing l P), c.dealings[i]? = some d →
    d.dealing.dealer = i ∧ S.verifyDealing d.dealing c.threshold c.ctx = .ok ()
  full : c.phase = .confirming ∨ c.phase = .keyed → c.dealings.size = c.threshold.n
  early : c.phase = .enrolling ∨ c.phase = .dealing → ∀ r : Nat, c.confirmed[r]? = none
  present : ∀ (r : Nat) (against : TreeSet Nat), c.confirmed[r]? = some against → 1 ≤ r ∧ r ≤ c.threshold.n
  revealed : ∀ i r v, c.revealed i r = some v →
    ∃ d : SealedDealing l P, c.dealings[i]? = some d ∧ S.verifyShare d.dealing ⟨i, r, v⟩ = .ok ()
  formed : ∀ k, c.key = some k →
    c.threshold.t ≤ c.confirmed.size ∧ S.fromDealings c.qualifiedDealings c.threshold c.ctx = .ok k

theorem sound_new (th : Threshold) (ctx : List UInt8) : Sound S (new th ctx : Ceremony l P) where
  keyed := by simp [new]
  dealt i d h := by
    rw [new, TreeMap.getElem?_emptyc] at h
    cases h
  full h := by simp [new] at h
  early _ r := TreeMap.getElem?_emptyc
  present r against h := by
    rw [new, TreeMap.getElem?_emptyc] at h
    cases h
  revealed i r v h := by cases h
  formed k h := by cases h

section
variable (h : Sound S c)
include h

theorem Sound.key_eq_none (hphase : c.phase ≠ .keyed) : c.key = none := by
  rw [← Option.not_isSome_iff_eq_none, h.keyed]
  exact hphase

/-- Giving up keeps what is there. -/
theorem Sound.fail (hphase : c.phase ≠ .keyed) : Sound S { c with phase := .failed } where
  keyed := by
    rw [h.key_eq_none hphase]
    simp
  dealt := h.dealt
  full hfull := by simp at hfull
  early hearly := by simp at hearly
  present := h.present
  revealed := h.revealed
  formed := h.formed

theorem Sound.form (hphase : c.phase = .confirming) : Sound S (c.form S) := by
  have hother : c.phase ≠ .keyed := by
    rw [hphase]
    decide
  unfold Ceremony.form
  split
  · exact h.fail hother
  case isFalse henough =>
    split
    case h_1 k hk =>
      refine ⟨by simp, h.dealt, fun _ => h.full (.inl hphase), by simp, h.present, h.revealed, ?_⟩
      intro k' hk'
      cases hk'
      exact ⟨Nat.not_lt.mp henough, hk⟩
    case h_2 => exact h.fail hother

theorem Sound.formIfComplete (hphase : c.phase = .confirming) : Sound S (c.formIfComplete S) := by
  unfold Ceremony.formIfComplete
  split
  · exact h.form hphase
  · exact h

theorem Sound.moves {s : TrusteeStep l P} (hmove : Moves S c s next) : Sound S next := by
  have hnone : c.key = none := h.key_eq_none hmove.phase_lt.1
  cases hmove with
  | enrol _ phase =>
    refine ⟨?_, h.dealt, ?_, fun _ => h.early (.inl phase), h.present, h.revealed, h.formed⟩
    · rw [hnone, phase]
      split <;> simp
    · rw [phase]
      intro hfull
      split at hfull <;> simp at hfull
  | deal _ phase absent verified =>
    refine ⟨?_, ?_, ?_, fun _ => h.early (.inr phase), h.present, ?_, ?_⟩
    · rw [hnone, phase]
      split <;> simp
    · intro i e he
      rcases getElem?_insert_cases he with ⟨rfl, rfl⟩ | he
      · exact ⟨rfl, verified⟩
      · exact h.dealt i e he
    · intro hfull
      dsimp only at hfull ⊢
      rw [phase] at hfull
      split at hfull
      case isTrue hsize => exact hsize
      case isFalse => simp at hfull
    · intro i r v hv
      obtain ⟨e, he, hshare⟩ := h.revealed i r v hv
      refine ⟨e, ?_, hshare⟩
      -- the dealer that deals now had not dealt, so nothing of it was revealed
      rw [TreeMap.getElem?_insert, if_neg, he]
      intro heq
      rw [Std.compare_eq_iff_eq.mp heq, he] at absent
      cases absent
    · intro k hk
      rw [hnone] at hk
      cases hk
  | confirm _ _ range phase =>
    refine Sound.formIfComplete ⟨h.keyed, h.dealt, h.full, ?_, ?_, h.revealed, ?_⟩ phase
    · rw [phase]
      simp
    · intro r against hr
      rcases getElem?_insert_cases hr with ⟨rfl, _⟩ | hr
      · exact range
      · exact h.present r against hr
    · intro k hk
      rw [hnone] at hk
      cases hk
  | justify _ _ _ phase _ d dealt verified =>
    refine Sound.formIfComplete ⟨h.keyed, h.dealt, h.full, h.early, h.present, ?_, ?_⟩ phase
    · intro i r v hv
      rw [Ceremony.revealed, List.lookup_cons] at hv
      split at hv
      case h_1 heq =>
        cases hv
        cases beq_iff_eq.mp heq
        exact ⟨d, dealt, verified⟩
      case h_2 => exact h.revealed i r v hv
    · intro k hk
      rw [hnone] at hk
      cases hk

theorem Sound.deadline : Sound S (c.deadline S) := by
  unfold Ceremony.deadline
  split
  case h_1 | h_2 => exact h
  case h_3 hphase => exact h.form hphase
  case h_4 hphase | h_5 hphase =>
    refine h.fail ?_
    rw [hphase]
    decide

theorem Sound.call (a : Call l P) : Sound S (c.call S a) := by
  cases a with
  | step =>
    rw [Ceremony.call]
    split
    case h_1 r next happly =>
      rcases apply_cases happly with ⟨_, rfl⟩ | ⟨_, hmove⟩
      · exact h
      · exact h.moves hmove
    case h_2 => exact h
  | deadline => exact h.deadline

end

theorem Sound.run (h : Sound S c) (calls : List (Call l P)) : Sound S (c.run S calls) :=
  run_invariant h fun _ a hc => hc.call a

/-! ### Who qualifies -/

omit [DecidableEq P] [AddCommGroup P] [Module (ZMod l) P] [Fact l.Prime] in
theorem mem_complaints {x : Complaint l} :
    x ∈ c.complaints ↔ ∃ against, c.confirmed[x.recipient]? = some against ∧ x.dealer ∈ against ∧
      x.justified = c.revealed x.dealer x.recipient := by
  rw [complaints, List.mem_insertionSort, List.mem_flatMap]
  constructor
  · rintro ⟨⟨recipient, against⟩, hmem, hx⟩
    obtain ⟨dealer, hdealer, rfl⟩ := List.mem_map.mp hx
    exact ⟨against, TreeMap.mem_toList_iff_getElem?_eq_some.mp hmem, TreeSet.mem_toList.mp hdealer, rfl⟩
  · rintro ⟨against, hget, hdealer, hjustified⟩
    refine ⟨(x.recipient, against), TreeMap.mem_toList_iff_getElem?_eq_some.mpr hget, List.mem_map.mpr ?_⟩
    exact ⟨x.dealer, TreeSet.mem_toList.mpr hdealer, by rw [← hjustified]⟩

def Complained (c : Ceremony l P) (dealer recipient : Nat) : Prop :=
  ∃ against, c.confirmed[recipient]? = some against ∧ dealer ∈ against

omit [DecidableEq P] [AddCommGroup P] [Module (ZMod l) P] [Fact l.Prime] in
theorem mem_qualified_iff : i ∈ c.qualified ↔ i ∈ c.dealings ∧ ∀ r, c.Complained i r → c.revealed i r ≠ none := by
  rw [qualified, List.mem_filter, TreeMap.mem_keys]
  refine and_congr_right fun _ => ?_
  rw [Bool.not_eq_true', ← Bool.not_eq_true, List.contains_iff_mem, List.mem_map]
  constructor
  · rintro h r ⟨against, hget, hmem⟩ hnone
    refine h ⟨⟨i, r, none⟩, List.mem_filter.mpr ⟨mem_complaints.mpr ⟨against, hget, hmem, hnone.symm⟩, rfl⟩, rfl⟩
  · rintro h ⟨x, hx, rfl⟩
    obtain ⟨hx, hnone⟩ := List.mem_filter.mp hx
    obtain ⟨against, hget, hmem, hjustified⟩ := mem_complaints.mp hx
    rw [hjustified, Option.isNone_iff_eq_none] at hnone
    exact h x.recipient ⟨against, hget, hmem⟩ hnone

theorem Sound.mem_dealings (h : Sound S c) (hsize : c.dealings.size = c.threshold.n) :
    i ∈ c.dealings ↔ 1 ≤ i ∧ i ≤ c.threshold.n := by
  have hrange : ∀ j ∈ c.dealings, 1 ≤ j ∧ j ≤ c.threshold.n := by
    intro j hj
    rw [TreeMap.mem_iff_isSome_getElem?] at hj
    obtain ⟨d, hd⟩ := Option.isSome_iff_exists.mp hj
    obtain ⟨rfl, hverified⟩ := h.dealt j d hd
    exact (Suite.verifyDealing_ok hverified).1
  refine ⟨hrange i, fun hi => ?_⟩
  have hsubset : c.dealings.keys ⊆ List.range' 1 c.threshold.n := by
    intro j hj
    have := hrange j (TreeMap.mem_keys.mp hj)
    rw [List.mem_range'_1]
    omega
  have hperm : c.dealings.keys.Perm (List.range' 1 c.threshold.n) := by
    refine ((nodup_keys _).subperm hsubset).perm_of_length_le ?_
    rw [List.length_range', TreeMap.length_keys, hsize]
  refine TreeMap.mem_keys.mp (hperm.mem_iff.mpr ?_)
  rw [List.mem_range'_1]
  omega

theorem Sound.mem_qualifiedDealings (h : Sound S c) {d : Dealing l P} :
    d ∈ c.qualifiedDealings ↔ d.dealer ∈ c.qualified ∧ ∃ e, c.dealings[d.dealer]? = some e ∧ e.dealing = d := by
  rw [qualifiedDealings, List.mem_filterMap]
  constructor
  · rintro ⟨i, hi, hd⟩
    obtain ⟨e, he, rfl⟩ := Option.map_eq_some_iff.mp hd
    rw [(h.dealt i e he).1]
    exact ⟨hi, e, he, rfl⟩
  · rintro ⟨hi, e, he, rfl⟩
    exact ⟨e.dealing.dealer, hi, by rw [he]; rfl⟩

theorem Sound.mem_key_qualified (h : Sound S c) (hk : c.key = some k) : i ∈ k.qualified ↔ i ∈ c.qualified := by
  rw [(Suite.formed_of_fromDealings (h.formed k hk).2).mem_qualified]
  constructor
  · rintro ⟨d, hd, rfl⟩
    exact (h.mem_qualifiedDealings.mp hd).1
  · intro hi
    have hmem := (mem_qualified_iff.mp hi).1
    rw [TreeMap.mem_iff_isSome_getElem?] at hmem
    obtain ⟨e, he⟩ := Option.isSome_iff_exists.mp hmem
    obtain ⟨rfl, _⟩ := h.dealt i e he
    exact ⟨e.dealing, h.mem_qualifiedDealings.mpr ⟨hi, e, he, rfl⟩, rfl⟩

/-! ### What stays -/

theorem form_frame : (c.form S).threshold = c.threshold ∧ (c.form S).justified = c.justified ∧
    (c.form S).confirmed = c.confirmed := by
  unfold form
  split
  · exact ⟨rfl, rfl, rfl⟩
  · split <;> exact ⟨rfl, rfl, rfl⟩

theorem formIfComplete_frame : (c.formIfComplete S).threshold = c.threshold ∧
    (c.formIfComplete S).justified = c.justified ∧ (c.formIfComplete S).confirmed = c.confirmed := by
  unfold formIfComplete
  split
  · exact form_frame
  · exact ⟨rfl, rfl, rfl⟩

theorem call_of_done (hdone : c.phase = .keyed ∨ c.phase = .failed) (a : Call l P) : c.call S a = c := by
  cases a with
  | step =>
    rw [call]
    split
    case h_1 r next happly =>
      rcases apply_cases happly with ⟨_, rfl⟩ | ⟨_, hmove⟩
      · rfl
      · exact absurd hdone (not_or.mpr hmove.phase_lt)
    case h_2 => rfl
  | deadline => rcases hdone with h | h <;> rw [call, deadline, h]

theorem run_of_done (hdone : c.phase = .keyed ∨ c.phase = .failed) (calls : List (Call l P)) : c.run S calls = c := by
  induction calls with
  | nil => rfl
  | cons a _ ih =>
    rw [run, run_cons, call_of_done hdone a]
    exact ih

theorem form_done : (c.form S).phase = .keyed ∨ (c.form S).phase = .failed := by
  unfold form
  split
  · exact .inr rfl
  · split
    · exact .inl rfl
    · exact .inr rfl

theorem deadline_done : (c.deadline S).phase = .keyed ∨ (c.deadline S).phase = .failed := by
  unfold deadline
  split
  case h_1 h => exact .inl h
  case h_2 h => exact .inr h
  case h_3 => exact form_done
  case h_4 | h_5 => exact .inr rfl

theorem call_keeps (a : Call l P) : (c.call S a).threshold = c.threshold ∧
    ∀ i r v, c.revealed i r = some v → (c.call S a).revealed i r = some v := by
  cases a with
  | step =>
    rw [call]
    split
    case h_1 r next happly =>
      rcases apply_cases happly with ⟨_, rfl⟩ | ⟨_, hmove⟩
      · exact ⟨rfl, fun _ _ _ h => h⟩
      · cases hmove with
        | enrol | deal => exact ⟨rfl, fun _ _ _ h => h⟩
        | confirm =>
          refine ⟨formIfComplete_frame.1, fun i r v h => ?_⟩
          rw [revealed, formIfComplete_frame.2.1]
          exact h
        | justify _ _ _ _ absent =>
          refine ⟨formIfComplete_frame.1, fun i r v h => ?_⟩
          rw [revealed, formIfComplete_frame.2.1, List.lookup_cons]
          split
          case h_1 heq =>
            cases beq_iff_eq.mp heq
            rw [absent] at h
            cases h
          case h_2 => exact h
    case h_2 => exact ⟨rfl, fun _ _ _ h => h⟩
  | deadline =>
    rw [call, deadline]
    split
    case h_3 =>
      refine ⟨form_frame.1, fun i r v h => ?_⟩
      rw [revealed, form_frame.2.1]
      exact h
    all_goals exact ⟨rfl, fun _ _ _ h => h⟩

theorem run_keeps (calls : List (Call l P)) : (c.run S calls).threshold = c.threshold ∧
    ∀ i r v, c.revealed i r = some v → (c.run S calls).revealed i r = some v := by
  refine run_invariant (I := fun c' : Ceremony l P => c'.threshold = c.threshold ∧
    ∀ i r v, c.revealed i r = some v → c'.revealed i r = some v) ⟨rfl, fun _ _ _ h => h⟩ fun c' a ⟨hth, hrev⟩ => ?_
  obtain ⟨hth', hrev'⟩ := call_keeps (c := c') (S := S) a
  exact ⟨hth'.trans hth, fun i r v h => hrev' i r v (hrev i r v h)⟩

/-! ### A trustee's shares -/

def shareOf (c : Ceremony l P) (j : Nat) (against : TreeSet Nat) (opened : Nat → Option (ZMod l)) (i : Nat) :
    Option (Share l) :=
  (if against.contains i then c.revealed i j else opened i).map fun v => ⟨i, j, v⟩

def Honest (S : Suite l P) (c : Ceremony l P) (j : Nat) (against : TreeSet Nat) (opened : Nat → Option (ZMod l)) :
    Prop :=
  ∀ (i : Nat) (d : SealedDealing l P), c.dealings[i]? = some d →
    (i ∈ against ↔ ¬∃ v, opened i = some v ∧ S.verifyShare d.dealing ⟨i, j, v⟩ = .ok ())

omit [DecidableEq P] in
theorem exists_commits (S : Suite l P) (dealings : List (Dealing l P)) : ∃ coeffs, Suite.Commits S dealings coeffs := by
  refine ⟨fun d => d.commitments.map fun p => (S.generates p).choose, fun d _ => ?_⟩
  rw [List.map_map]
  refine (List.map_id'' (fun p => ?_) d.commitments).symm
  exact (S.generates p).choose_spec.symm

theorem Sound.shareOf_verifies (h : Sound S c)
    (hconfirmed : c.confirmed[j]? = some against) (hhonest : Honest S c j against opened) (hi : i ∈ c.qualified) :
    ∃ (d : SealedDealing l P) (v : ZMod l), c.dealings[i]? = some d ∧
      c.shareOf j against opened i = some ⟨i, j, v⟩ ∧ S.verifyShare d.dealing ⟨i, j, v⟩ = .ok () := by
  obtain ⟨hdealt, hanswered⟩ := mem_qualified_iff.mp hi
  rw [TreeMap.mem_iff_isSome_getElem?] at hdealt
  obtain ⟨d, hd⟩ := Option.isSome_iff_exists.mp hdealt
  by_cases hagainst : i ∈ against
  · obtain ⟨v, hv⟩ := Option.ne_none_iff_exists'.mp (hanswered j ⟨against, hconfirmed, hagainst⟩)
    obtain ⟨d', hd', hverify⟩ := h.revealed i j v hv
    rw [hd] at hd'
    cases hd'
    refine ⟨d, v, hd, ?_, hverify⟩
    rw [shareOf, if_pos (TreeSet.mem_iff_contains.mp hagainst), hv]
    rfl
  · obtain ⟨v, hv, hverify⟩ := not_not.mp (mt (hhonest i d hd).mpr hagainst)
    refine ⟨d, v, hd, ?_, hverify⟩
    rw [shareOf, if_neg (mt TreeSet.mem_iff_contains.mpr hagainst), hv]
    rfl

theorem Sound.fromShares_ok (h : Sound S c) (hk : c.key = some k) (hconfirmed : c.confirmed[j]? = some against)
    (hhonest : Honest S c j against opened) :
    ∃ key, S.fromShares j (k.qualified.filterMap (c.shareOf j against opened)) c.qualifiedDealings k = .ok key := by
  have hformed := Suite.formed_of_fromDealings (h.formed k hk).2
  obtain ⟨coeffs, hcoeffs⟩ := exists_commits S c.qualifiedDealings
  have hshare : ∀ i ∈ k.qualified, ∃ (d : SealedDealing l P) (v : ZMod l), d.dealing ∈ c.qualifiedDealings ∧
      d.dealing.dealer = i ∧ c.shareOf j against opened i = some ⟨i, j, v⟩ ∧
      S.verifyShare d.dealing ⟨i, j, v⟩ = .ok () := by
    intro i hi
    have hqualified := (h.mem_key_qualified hk).mp hi
    obtain ⟨d, v, hd, hof, hverify⟩ := h.shareOf_verifies hconfirmed hhonest hqualified
    obtain ⟨rfl, _⟩ := h.dealt i d hd
    exact ⟨d, v, h.mem_qualifiedDealings.mpr ⟨hqualified, d, hd, rfl⟩, rfl, hof, hverify⟩
  refine ⟨_, (hformed.fromShares_eq_ok hcoeffs (h.present j against hconfirmed)).mpr ⟨⟨?_, ?_, ?_⟩, rfl⟩⟩
  · -- each share carries its dealer's index, so the dealers are the qualified ones
    have hdealers : (k.qualified.filterMap (c.shareOf j against opened)).map Share.dealer = k.qualified := by
      rw [List.map_filterMap]
      refine (List.filterMap_congr fun i hi => ?_).trans List.filterMap_some
      obtain ⟨_, v, _, _, hof, _⟩ := hshare i hi
      rw [hof]
      rfl
    rw [hdealers, hformed.qualified]
    exact nodup_elements _
  · intro d hd
    have hi : d.dealer ∈ k.qualified := hformed.mem_qualified.mpr ⟨d, hd, rfl⟩
    obtain ⟨_, v, _, _, hof, _⟩ := hshare d.dealer hi
    exact ⟨⟨d.dealer, j, v⟩, List.mem_filterMap.mpr ⟨d.dealer, hi, hof⟩, rfl⟩
  · intro s hs
    obtain ⟨i, hi, hof⟩ := List.mem_filterMap.mp hs
    obtain ⟨d, v, hd, hdealer, hof', hverify⟩ := hshare i hi
    rw [hof] at hof'
    cases hof'
    refine ⟨rfl, d.dealing, hd, hdealer.symm, ?_⟩
    rw [Suite.verifyShare_eq_ok, hcoeffs.evalCommitments hd] at hverify
    exact S.smul_g_injective hverify.2

/-! ### Answers in time -/

def Call.isDeadline : Call l P → Bool
  | .deadline => true
  | .step _ => false

def AllAnswered (c : Ceremony l P) : Prop := c.phase = .keyed → ∀ i r, c.Complained i r → c.revealed i r ≠ none

theorem allAnswered_formIfComplete (hphase : c.phase = .confirming) : AllAnswered (c.formIfComplete S) := by
  intro hkeyed i r hcomplained
  have hframe := formIfComplete_frame (c := c) (S := S)
  have hcomplained' : c.Complained i r := by
    rwa [Complained, hframe.2.2] at hcomplained
  rw [revealed, hframe.2.1]
  unfold formIfComplete at hkeyed
  split at hkeyed
  case isTrue hall =>
    obtain ⟨against, hget, hmem⟩ := hcomplained'
    have hjustified := List.all_eq_true.mp hall.2 ⟨i, r, c.revealed i r⟩ (mem_complaints.mpr ⟨against, hget, hmem, rfl⟩)
    exact Option.isSome_iff_ne_none.mp hjustified
  case isFalse =>
    rw [hphase] at hkeyed
    cases hkeyed

theorem allAnswered_call (h : AllAnswered c) {a : Call l P} (ha : Call.isDeadline a = false) :
    AllAnswered (c.call S a) := by
  cases a with
  | deadline => cases ha
  | step =>
    rw [call]
    split
    case h_1 r next happly =>
      rcases apply_cases happly with ⟨_, rfl⟩ | ⟨_, hmove⟩
      · exact h
      · cases hmove with
        | enrol _ phase =>
          intro hkeyed
          dsimp only at hkeyed
          rw [phase] at hkeyed
          split at hkeyed <;> cases hkeyed
        | deal _ phase =>
          intro hkeyed
          dsimp only at hkeyed
          rw [phase] at hkeyed
          split at hkeyed <;> cases hkeyed
        | confirm _ _ _ phase => exact allAnswered_formIfComplete phase
        | justify _ _ _ phase => exact allAnswered_formIfComplete phase
    case h_2 => exact h

theorem allAnswered_run (h : AllAnswered c)
    (hcalls : calls.any Call.isDeadline = false) : AllAnswered (c.run S calls) :=
  run_induction (P := fun _ a => Call.isDeadline a = false) h
    (along_of_forall fun a ha _ => Bool.eq_false_iff.mpr (List.any_eq_false.mp hcalls a ha))
    fun _ _ hc ha => allAnswered_call hc ha

theorem Sound.justify_recorded (h : Sound S c) (hall : AllAnswered c) {v : ZMod l}
    {d : SealedDealing l P} (hcomplained : c.Complained i r) (hd : c.dealings[i]? = some d)
    (hverify : S.verifyShare d.dealing ⟨i, r, v⟩ = .ok ()) :
    (c.call S (.step (.justify i r v))).revealed i r ≠ none ∨ c.phase = .failed := by
  by_cases hrevealed : c.revealed i r = none
  · obtain ⟨against, hget, hmem⟩ := hcomplained
    have hi := (Suite.verifyDealing_ok (h.dealt i d hd).2).1
    rw [(h.dealt i d hd).1] at hi
    have hphase : c.phase = .confirming ∨ c.phase = .failed := by
      rcases hc : c.phase with _ | _ | _ | _ | _
      · rw [h.early (.inl hc) r] at hget
        cases hget
      · rw [h.early (.inr hc) r] at hget
        cases hget
      · exact .inl rfl
      · exact absurd hrevealed (hall hc i r ⟨against, hget, hmem⟩)
      · exact .inr rfl
    rcases hphase with hphase | hphase
    · have happly : c.apply S (.justify i r v) = .ok (.accepted,
          Ceremony.formIfComplete S { c with justified := ((i, r), v) :: c.justified }) := by
        simp only [apply, justify, index_eq_ok.mpr hi, index_eq_ok.mpr (h.present r against hget),
          hrevealed, hphase, hget,
          hd, hverify, Option.any_some, TreeSet.mem_iff_contains.mp hmem]
        rfl
      left
      rw [Ceremony.call, happly]
      dsimp only
      rw [Ceremony.revealed, formIfComplete_frame.2.1, List.lookup_cons, beq_self_eq_true]
      exact Option.some_ne_none v
    · exact .inr hphase
  · obtain ⟨held, hheld⟩ := Option.ne_none_iff_exists'.mp hrevealed
    left
    rw [(call_keeps _).2 i r held hheld]
    exact Option.some_ne_none held

/-- The dealer answered the recipient's complaint with the right share, after it was made and before the deadline. -/
def AnsweredInTime (S : Suite l P) (th : Threshold) (ctx : List UInt8) (calls : List (Call l P)) (i r : Nat) : Prop :=
  ∃ (before after : List (Call l P)) (v : ZMod l) (d : SealedDealing l P),
    calls = before ++ .step (.justify i r v) :: after ∧ before.any Call.isDeadline = false ∧
    ((new th ctx).run S before).Complained i r ∧ ((new th ctx).run S before).dealings[i]? = some d ∧
    S.verifyShare d.dealing ⟨i, r, v⟩ = .ok ()

theorem AnsweredInTime.revealed {th : Threshold} {ctx : List UInt8}
    (h : AnsweredInTime S th ctx calls i r) (hkeyed : ((new th ctx).run S calls).phase = .keyed) :
    ((new th ctx).run S calls).revealed i r ≠ none := by
  obtain ⟨before, after, v, d, rfl, hbefore, hcomplained, hd, hverify⟩ := h
  have hsound := (sound_new (S := S) th ctx).run before
  have hall : AllAnswered ((new th ctx).run S before) := allAnswered_run (fun hnew => by cases hnew) hbefore
  have hrun : (new th ctx).run S (before ++ .step (.justify i r v) :: after) =
      (((new th ctx).run S before).call S (.step (.justify i r v))).run S after := by
    rw [run, run_append, run_cons]
  rw [hrun] at hkeyed ⊢
  rcases hsound.justify_recorded hall hcomplained hd hverify with hrevealed | hfailed
  · obtain ⟨held, hheld⟩ := Option.ne_none_iff_exists'.mp hrevealed
    rw [(run_keeps after).2 i r held hheld]
    exact Option.some_ne_none held
  · rw [call_of_done (.inr hfailed), run_of_done (.inr hfailed), hfailed] at hkeyed
    cases hkeyed

/-! ### The board -/

theorem board_of_done (hdone : c.phase = .keyed ∨ c.phase = .failed) (calls : List (Call l P)) :
    c.board S calls = [] := by
  induction calls with
  | nil => rfl
  | cons a _ ih =>
    cases a with
    | step =>
      rw [board]
      split
      case h_1 next happly =>
        rcases apply_cases happly with ⟨hr, _⟩ | ⟨_, hmove⟩
        · cases hr
        · exact absurd hdone (not_or.mpr hmove.phase_lt)
      case h_2 next happly =>
        rcases apply_cases happly with ⟨_, rfl⟩ | ⟨hr, _⟩
        · exact ih
        · cases hr
      case h_3 => exact ih
    | deadline =>
      have hsame : c.deadline S = c := call_of_done hdone .deadline
      rw [board, hsame]
      exact ih

theorem applyAll_board (c : Ceremony l P) (calls : List (Call l P)) (i : Nat) :
    ∃ before, applyAll S c i (c.board S calls) = .ok before ∧
      c.run S calls = if calls.any Call.isDeadline then before.deadline S else before := by
  induction calls generalizing c i with
  | nil => exact ⟨c, rfl, rfl⟩
  | cons a calls ih =>
    cases a with
    | step s =>
      have hany : (Call.step s :: calls).any Call.isDeadline = calls.any Call.isDeadline := rfl
      have hrun : c.run S (.step s :: calls) = (c.call S (.step s)).run S calls := rfl
      rw [hany, hrun, board, call]
      rcases happly : c.apply S s with e | ⟨r, next⟩
      · exact ih c i
      · rcases apply_cases happly with ⟨rfl, rfl⟩ | ⟨rfl, _⟩
        · exact ih next i
        · dsimp only
          rw [applyAll, happly]
          exact ih next (i + 1)
    | deadline =>
      refine ⟨c, ?_, ?_⟩
      · rw [board, board_of_done deadline_done]
        rfl
      · exact run_of_done deadline_done calls

/-! ### Every ceremony -/

/-- Over every sequence of steps and deadlines. A key exists exactly when the ceremony is keyed, and never changes then.
It comes from at least `t` confirmations and `t` dealers, all whom nobody complained of, none with a complaint
unanswered, each that answered its complaints rightly and in time; and every trustee that complained of exactly the
shares that failed it has its part of the key. The steps on the board lead to the same ceremony again. -/
theorem key_usable_and_shared (S : Suite l P) (th : Threshold) (ctx : List UInt8) (calls : List (Call l P)) :
    let c := (new th ctx).run S calls
    (c.key.isSome = true ↔ c.phase = .keyed) ∧
    (∀ k, c.key = some k →
      (∀ more, (c.run S more).key = some k) ∧ th.t ≤ c.confirmed.size ∧ th.t ≤ k.qualified.length ∧
      (∀ i, 1 ≤ i → i ≤ th.n → (∀ r, ¬c.Complained i r) → i ∈ k.qualified) ∧
      (∀ i r, c.Complained i r → c.revealed i r = none → i ∉ k.qualified) ∧
      (∀ i, 1 ≤ i → i ≤ th.n → (∀ r, c.Complained i r → AnsweredInTime S th ctx calls i r) → i ∈ k.qualified) ∧
      ∀ (j : Nat) (against : TreeSet Nat) (opened : Nat → Option (ZMod l)), c.confirmed[j]? = some against →
        Honest S c j against opened →
        ∃ key, S.fromShares j (k.qualified.filterMap (c.shareOf j against opened)) c.qualifiedDealings k = .ok key) ∧
    replay S ((new th ctx).board S calls) th ctx (calls.any Call.isDeadline) = .ok c := by
  intro c
  have hsound : Sound S c := (sound_new th ctx).run calls
  have hth : c.threshold = th := (run_keeps calls).1
  refine ⟨hsound.keyed, fun k hk => ?_, ?_⟩
  · have hkeyed : c.phase = .keyed := hsound.keyed.mp (by rw [hk]; rfl)
    have hformed := Suite.formed_of_fromDealings (hsound.formed k hk).2
    have hqualified : ∀ i, 1 ≤ i → i ≤ th.n → (∀ r, c.Complained i r → c.revealed i r ≠ none) → i ∈ k.qualified := by
      intro i h₁ h₂ hanswered
      refine (hsound.mem_key_qualified hk).mpr (mem_qualified_iff.mpr ⟨?_, hanswered⟩)
      refine (hsound.mem_dealings (hsound.full (.inr hkeyed))).mpr ⟨h₁, ?_⟩
      rwa [hth]
    refine ⟨fun more => ?_, hth ▸ (hsound.formed k hk).1, ?_, ?_, ?_, ?_, ?_⟩
    · rw [run_of_done (.inl hkeyed), hk]
    · have hlength : k.qualified.length = c.qualifiedDealings.length := by
        rw [hformed.qualified, TreeSet.length_toList, size_ofList_eq_length.mpr hformed.nodup, List.length_map]
      rw [hlength, ← hth]
      exact hformed.enough
    · exact fun i h₁ h₂ hnobody => hqualified i h₁ h₂ fun r hr => absurd hr (hnobody r)
    · intro i r hcomplained hnone hi
      exact (mem_qualified_iff.mp ((hsound.mem_key_qualified hk).mp hi)).2 r hcomplained hnone
    · exact fun i h₁ h₂ hanswered => hqualified i h₁ h₂ fun r hr => (hanswered r hr).revealed hkeyed
    · exact fun j against opened hconfirmed hhonest => hsound.fromShares_ok hk hconfirmed hhonest
  · obtain ⟨before, happly, hrun⟩ := applyAll_board (S := S) (new th ctx) calls 0
    rw [replay, happly]
    exact congrArg Except.ok hrun.symm

/-- Whatever steps led to the key, `t` trustees whose shares were accepted decrypt to the plaintext. -/
theorem ceremony_key_decrypts (S : Suite l P) (th : Threshold) (hn : th.n < l) (ctx ctx' : List UInt8)
    (calls : List (Call l P)) (hk : ((new th ctx).run S calls).key = some k) (x : ZMod l) (M : P)
    (partials : List (PartialDecryption l P)) (hof : ∀ p ∈ partials, ∃ j shares key w,
      S.fromShares j shares ((new th ctx).run S calls).qualifiedDealings k = .ok key ∧
      p = S.partialDecrypt key ⟨x • S.g, M + x • k.key⟩ ctx' w) :
    S.combine k ⟨x • S.g, M + x • k.key⟩ partials ctx' =
      if Suite.trusteeCount partials < th.t then .error (.tooFewPartials (Suite.trusteeCount partials) th.t)
      else .ok M := by
  have hok := (((sound_new th ctx).run calls).formed k hk).2
  rw [(run_keeps calls).1] at hok
  have hek := Suite.formed_of_fromDealings hok
  obtain ⟨coeffs, hcoeffs⟩ := exists_commits S ((new th ctx).run S calls).qualifiedDealings
  rw [hek.combine_eq hcoeffs hn ?_ ?_, hek.key_eq hcoeffs, smul_comm, add_sub_cancel_right]
  · rfl
  all_goals
    intro p hp
    obtain ⟨j, shares, key, w, hkey, rfl⟩ := hof p hp
    have hj := hek.range_of_fromShares hkey
    obtain ⟨-, rfl⟩ := (hek.fromShares_eq_ok hcoeffs hj).mp hkey
  · exact hek.verifyPartial_partialDecrypt hcoeffs hj _ ctx' w
  · rfl

end Ceremony

/-! ### Three trustees, one complaint -/

/-- The proof the toy suite's constant challenge accepts for the secret `x`. -/
def toyProof (x : ZMod 5) : Proof 5 := ⟨(3 : ℕ), 1 + (3 : ℕ) * x⟩

def toyTransport (j : Nat) : TransportKey 5 (ZMod 5) := ⟨j, toySuite.g, toyProof 1⟩

/-- Trustee `j` deals `j + x`; what its sealed shares hold the ceremony does not read. -/
def toyDealing (j : Nat) : SealedDealing 5 (ZMod 5) :=
  ⟨⟨j, [j * toySuite.g, toySuite.g], toyProof j⟩,
    TreeMap.ofList ((List.range' 1 3).map fun r => (r, (⟨⟨0, 0⟩, []⟩ : Sealed (ZMod 5)))) compare⟩

/-- All enrol and deal, trustee 2 complains of dealer 1, which reveals its share `1 + 2`, and all have confirmed. -/
def toyCalls : List (Call 5 (ZMod 5)) :=
  ((List.range' 1 3).map fun j => .step (.enrol (toyTransport j))) ++
    ((List.range' 1 3).map fun j => .step (.deal (toyDealing j))) ++
    [.step (.confirm 1 ∅), .step (.confirm 2 (TreeSet.ofList [1] compare)), .step (.justify 1 2 (3 : ℕ)),
      .step (.confirm 3 ∅), .deadline]

def toyCeremony : Ceremony 5 (ZMod 5) := (Ceremony.new twoOfThree []).run toySuite toyCalls

theorem key_usable_and_shared_toy :
    toyCeremony.phase = .keyed ∧ ∃ k, toyCeremony.key = some k ∧ 2 ≤ k.qualified.length ∧
      Ceremony.replay toySuite ((Ceremony.new twoOfThree []).board toySuite toyCalls) twoOfThree [] true =
        .ok toyCeremony := by
  have hall := Ceremony.key_usable_and_shared toySuite twoOfThree [] toyCalls
  have hphase : toyCeremony.phase = .keyed := by decide +kernel
  obtain ⟨k, hk⟩ := Option.isSome_iff_exists.mp (hall.1.mpr hphase)
  exact ⟨hphase, k, hk, (hall.2.1 k hk).2.2.1, hall.2.2⟩

def toyTrustees : List (TrusteeKey 5) := [⟨1, (4 : ℕ)⟩, ⟨2, (2 : ℕ)⟩]

theorem ceremony_key_decrypts_toy : ∃ k partials, toyCeremony.key = some k ∧
    toySuite.combine k ⟨(1 : ZMod 5) • toySuite.g, 1 + (1 : ZMod 5) • k.key⟩ partials [] = .ok 1 := by
  have hkeys : toyCeremony.key.any (fun k => decide (∀ t ∈ toyTrustees,
      toySuite.fromShares t.index ((List.range' 1 3).map fun i => ⟨i, t.index, i + t.index⟩)
        toyCeremony.qualifiedDealings k = .ok t)) = true := by decide +kernel
  obtain ⟨k, hk, hkeys⟩ := (Option.any_eq_true _ _).mp hkeys
  refine ⟨k, _, hk, Ceremony.ceremony_key_decrypts toySuite twoOfThree (by decide) [] [] toyCalls hk 1 1
    (toyTrustees.map fun t => toySuite.partialDecrypt t ⟨1 • toySuite.g, 1 + 1 • k.key⟩ [] 1) fun p hp => ?_⟩
  obtain ⟨t, ht, rfl⟩ := List.mem_map.mp hp
  exact ⟨_, _, t, 1, of_decide_eq_true hkeys t ht, rfl⟩

end TrustInfrastructure.Voting
