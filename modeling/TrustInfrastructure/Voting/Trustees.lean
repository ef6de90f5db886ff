import TrustInfrastructure.Lib.SecretSharing
import TrustInfrastructure.Lib.Ordered
import TrustInfrastructure.Lib.Except
import TrustInfrastructure.Lib.Bytes

/-!
# The trustees' cryptography

The election key is dealt jointly: each trustee deals a polynomial of degree `t - 1`, publishes commitments to its
coefficients and gives every trustee its value at their index. The election key is the sum of the constant terms and a
trustee's key the sum of its shares, that is the value of the sum of the polynomials at its index, so the key is shared
as in `Lib.SecretSharing` although nobody ever deals it. A trustee decrypts by multiplying its key into the first half
of a ciphertext, and any `t` of these recombine at zero.

The group is a parameter: a module over the integers modulo a prime `l`, generated by `g` (`Suite`). So is the hash
behind the proofs, whose verification is modelled as it computes.
-/

namespace TrustInfrastructure.Voting

open Lib Std

/-- A cyclic group of prime order with its generator, and the hash that proofs draw their challenges from. -/
structure Suite (l : Nat) (P : Type) [AddCommGroup P] [Module (ZMod l) P] where
  g : P
  g_ne_zero : g ≠ 0
  generates : ∀ p : P, ∃ x : ZMod l, p = x • g
  challenge : String → List UInt8 → List P → ZMod l

inductive TrusteeError where
  | dealingInvalid (message : String)
  | shareInvalid
  | partialInvalid
  | tooFewPartials (have' need : Nat)
  | totalOutOfRange
  | parameters (message : String)
  deriving DecidableEq

/-- The number of trustees decryption needs, of how many. -/
structure Threshold where
  t : Nat
  n : Nat
  two_le : 2 ≤ t
  le : t ≤ n
  deriving DecidableEq

def Threshold.new (t n : Nat) : Except TrusteeError Threshold :=
  if h : t < 2 ∨ t > n then
    .error (.parameters ("the threshold must satisfy 2 <= t <= n (got t=" ++ toString t ++ ", n=" ++ toString n ++ ")"))
  else .ok ⟨t, n, by omega, by omega⟩

variable {l : Nat} {P : Type}

/-! ### Proofs -/

/-- A Schnorr or Chaum–Pedersen proof: challenge and response. -/
structure Proof (l : Nat) where
  c : ZMod l
  z : ZMod l
  deriving DecidableEq

def domainPok : String := "vti/vote/trustee/pok/v1"

def domainTransport : String := "vti/vote/trustee/transport/v1"

def domainPartial : String := "vti/vote/trustee/partial/v1"

/-- The context extended with a trustee's index. -/
def dealerCtx (ctx : List UInt8) (dealer : Nat) : List UInt8 := ctx ++ bigEndian 4 dealer

/-- What a trustee publishes: commitments to its polynomial, and a proof that it knows the constant term. -/
structure Dealing (l : Nat) (P : Type) where
  dealer : Nat
  commitments : List P
  pok : Proof l
  deriving DecidableEq

/-- What a trustee gives one other trustee: its polynomial's value at their index. -/
structure Share (l : Nat) where
  dealer : Nat
  recipient : Nat
  value : ZMod l
  deriving DecidableEq

structure TransportKey (l : Nat) (P : Type) where
  trustee : Nat
  key : P
  pok : Proof l
  deriving DecidableEq

structure Ciphertext (P : Type) where
  a : P
  b : P
  deriving DecidableEq

structure PartialDecryption (l : Nat) (P : Type) where
  trustee : Nat
  d : P
  proof : Proof l
  deriving DecidableEq

structure ElectionKey (P : Type) where
  threshold : Threshold
  key : P
  qualified : List Nat
  verification : TreeMap Nat P

structure TrusteeKey (l : Nat) where
  index : Nat
  secret : ZMod l
  deriving DecidableEq

theorem getElem?_byDealer {dealings : List (Dealing l P)} (hnodup : (dealings.map Dealing.dealer).Nodup) {i : Nat}
    {d : Dealing l P} :
    (TreeMap.ofList (dealings.map fun d => (d.dealer, d)) compare)[i]? = some d ↔ d ∈ dealings ∧ d.dealer = i := by
  rw [getElem?_ofList (by rw [List.map_map]; exact hnodup)]
  simp only [List.mem_map, Prod.mk.injEq]
  exact ⟨fun ⟨_, hd, hi, rfl⟩ => ⟨hd, hi⟩, fun ⟨hd, hi⟩ => ⟨d, hd, hi, rfl⟩⟩

def eval [Fact l.Prime] (coeffs : List (ZMod l)) (index : Nat) : ZMod l := horner (index : ZMod l) coeffs

variable [AddCommGroup P] [Module (ZMod l) P]

/-- The same in the group. -/
def evalCommitments [Fact l.Prime] (commitments : List P) (index : Nat) : P := horner (index : ZMod l) commitments

namespace Suite

variable (S : Suite l P)

def schnorrProve (x : ZMod l) (bigX : P) (domain : String) (ctx : List UInt8) (w : ZMod l) : Proof l :=
  let c := S.challenge domain ctx [bigX, w • S.g]
  ⟨c, w + c * x⟩

def schnorrVerify (bigX : P) (p : Proof l) (domain : String) (ctx : List UInt8) : Bool :=
  decide (S.challenge domain ctx [bigX, p.z • S.g - p.c • bigX] = p.c)

def cpProve (x : ZMod l) (base y d : P) (domain : String) (ctx : List UInt8) (w : ZMod l) : Proof l :=
  let c := S.challenge domain ctx [y, base, d, w • S.g, w • base]
  ⟨c, w + c * x⟩

def cpVerify (base y d : P) (p : Proof l) (domain : String) (ctx : List UInt8) : Bool :=
  decide (S.challenge domain ctx [y, base, d, p.z • S.g - p.c • y, p.z • base - p.c • d] = p.c)

/-- An honest proof verifies. -/
theorem cpVerify_cpProve (x : ZMod l) (base : P) (domain : String) (ctx : List UInt8) (w : ZMod l) :
    S.cpVerify base (x • S.g) (x • base) (S.cpProve x base (x • S.g) (x • base) domain ctx w) domain ctx = true := by
  have hopen : ∀ (q : P) (c : ZMod l), (w + c * x) • q - c • x • q = w • q := by
    intro q c
    rw [add_smul, mul_smul, add_sub_cancel_right]
  rw [cpVerify, cpProve, decide_eq_true_eq, hopen, hopen]

variable [Fact l.Prime]

theorem smul_g_injective {x y : ZMod l} (h : x • S.g = y • S.g) : x = y := smul_left_injective (ZMod l) S.g_ne_zero h

/-! ### Joint key generation -/

variable [DecidableEq P]

/-- Trustee `dealer` deals, with these coefficients and this nonce. -/
def deal (dealer : Nat) (th : Threshold) (ctx : List UInt8) (coeffs : List (ZMod l)) (w : ZMod l) :
    Except TrusteeError (Dealing l P × List (Share l)) :=
  if dealer = 0 ∨ dealer > th.n then
    .error (.parameters ("dealer " ++ toString dealer ++ " is not in 1..=" ++ toString th.n))
  else
    let commitments := coeffs.map fun a => a • S.g
    .ok (⟨dealer, commitments, S.schnorrProve (coeffs.headD 0) (commitments.headD 0) domainPok
      (dealerCtx ctx dealer) w⟩,
      (List.range' 1 th.n).map fun j => ⟨dealer, j, eval coeffs j⟩)

def verifyTransportKey (tk : TransportKey l P) (th : Threshold) (ctx : List UInt8) : Except TrusteeError Unit :=
  if tk.trustee = 0 ∨ tk.trustee > th.n then
    .error (.parameters ("trustee " ++ toString tk.trustee ++ " is not in 1..=" ++ toString th.n))
  else if tk.key = 0 ∨ S.schnorrVerify tk.key tk.pok domainTransport (dealerCtx ctx tk.trustee) = false then
    .error (.dealingInvalid "the transport key's proof does not verify")
  else .ok ()

/-- Check a published dealing: `t` commitments, none the identity, and the proof of the constant term. -/
def verifyDealing (d : Dealing l P) (th : Threshold) (ctx : List UInt8) : Except TrusteeError Unit :=
  if d.dealer = 0 ∨ d.dealer > th.n then
    .error (.dealingInvalid ("dealer " ++ toString d.dealer ++ " is not a trustee"))
  else if d.commitments.length ≠ th.t then
    .error (.dealingInvalid (toString d.commitments.length ++ " commitments for a threshold of " ++ toString th.t))
  else if d.commitments.any fun c => decide (c = 0) then .error (.dealingInvalid "a commitment is the identity")
  else if S.schnorrVerify (d.commitments.headD 0) d.pok domainPok (dealerCtx ctx d.dealer) then .ok ()
  else .error (.dealingInvalid "the proof of knowledge does not verify")

def verifyShare (d : Dealing l P) (s : Share l) : Except TrusteeError Unit :=
  if s.dealer ≠ d.dealer ∨ s.value • S.g ≠ evalCommitments (l := l) d.commitments s.recipient then .error .shareInvalid
  else .ok ()

/-- Combine the qualified dealers' dealings: at least `t`, one per dealer, each verified. -/
def fromDealings (dealings : List (Dealing l P)) (th : Threshold) (ctx : List UInt8) :
    Except TrusteeError (ElectionKey P) :=
  let dealers := TreeSet.ofList (dealings.map Dealing.dealer) compare
  if dealers.size ≠ dealings.length ∨ dealings.length < th.t then
    .error (.dealingInvalid "at least t dealings, and one per dealer, are needed")
  else do
    dealings.forM fun d => S.verifyDealing d th ctx
    return {
      threshold := th
      key := (dealings.map fun d => d.commitments.headD 0).sum
      qualified := dealers.toList
      verification := TreeMap.ofList ((List.range' 1 th.n).map fun j =>
        (j, (dealings.map fun d => evalCommitments (l := l) d.commitments j).sum)) compare }

/-- Add up the shares addressed to `index`, each checked against its dealing. -/
def addShares (index : Nat) (byDealer : TreeMap Nat (Dealing l P)) :
    List (Share l) → ZMod l → Except TrusteeError (ZMod l)
  | [], secret => .ok secret
  | s :: shares, secret =>
    if s.recipient ≠ index then .error .shareInvalid
    else
      match byDealer[s.dealer]? with
      | none => .error .shareInvalid
      | some d => S.verifyShare d s >>= fun _ => addShares index byDealer shares (secret + s.value)

def fromShares (index : Nat) (shares : List (Share l)) (dealings : List (Dealing l P)) (ek : ElectionKey P) :
    Except TrusteeError (TrusteeKey l) :=
  let byDealer := TreeMap.ofList (dealings.map fun d => (d.dealer, d)) compare
  let dealers := TreeSet.ofList (shares.map Share.dealer) compare
  if dealers.size ≠ shares.length ∨ dealers.size ≠ byDealer.size ∨ dealers.toList ≠ ek.qualified then
    .error .shareInvalid
  else
    S.addShares index byDealer shares 0 >>= fun secret =>
      if ek.verification[index]? = some (secret • S.g) then .ok ⟨index, secret⟩ else .error .shareInvalid

/-! ### Threshold decryption -/

def partialDecrypt (key : TrusteeKey l) (ct : Ciphertext P) (ctx : List UInt8) (w : ZMod l) :
    PartialDecryption l P :=
  let d := key.secret • ct.a
  let y := key.secret • S.g
  ⟨key.index, d, S.cpProve key.secret ct.a y d domainPartial ctx w⟩

def verifyPartial (ek : ElectionKey P) (ct : Ciphertext P) (p : PartialDecryption l P) (ctx : List UInt8) :
    Except TrusteeError Unit :=
  match ek.verification[p.trustee]? with
  | none => .error .partialInvalid
  | some y => if S.cpVerify ct.a y p.d p.proof domainPartial ctx then .ok () else .error .partialInvalid

def choose (ek : ElectionKey P) (ct : Ciphertext P) (ctx : List UInt8) :
    List (PartialDecryption l P) → TreeMap Nat P → Except TrusteeError (TreeMap Nat P)
  | [], chosen => .ok chosen
  | p :: partials, chosen =>
    S.verifyPartial ek ct p ctx >>= fun _ => choose ek ct ctx partials (chosen.insertIfNew p.trustee p.d)

/-- The plaintext element, from the partials of the first `t` trustees. -/
def combine (ek : ElectionKey P) (ct : Ciphertext P) (partials : List (PartialDecryption l P)) (ctx : List UInt8) :
    Except TrusteeError P :=
  S.choose ek ct ctx partials ∅ >>= fun chosen =>
    let need := ek.threshold.t
    if chosen.size < need then .error (.tooFewPartials chosen.size need)
    else
      let idx := chosen.keys.take need
      .ok (ct.b - (idx.map fun j => weightAtZero (fun k : Nat => (k : ZMod l)) j idx • chosen.getD j 0).sum)

/-- `m` from `m • g`, for `m ≤ max`, by baby steps and giant steps; `sqrt` is the estimate of the square root, rounded
up, that the step is taken from. -/
def tally (sqrt : Nat → Nat) (mG : P) (max : Nat) : Except TrusteeError Nat :=
  let step := Nat.max (sqrt max) 1
  let baby := babySteps S.g (step + 1) 0 0
  match giantSteps baby ((step : ZMod l) • S.g) step max (max / step + 1) 0 mG with
  | some m => .ok m
  | none => .error .totalOutOfRange

end Suite

/-! ### What a check that passed says -/

namespace Suite

variable {S : Suite l P}

theorem choose_eq_ok {ek : ElectionKey P} {ct : Ciphertext P} {ctx' : List UInt8}
    {partials : List (PartialDecryption l P)}
    (hverify : ∀ p ∈ partials, S.verifyPartial ek ct p ctx' = .ok ()) (chosen : TreeMap Nat P) :
    ∃ result, S.choose ek ct ctx' partials chosen = .ok result ∧
      (∀ j, j ∈ result ↔ j ∈ chosen ∨ j ∈ partials.map PartialDecryption.trustee) ∧
      ∀ j d, result[j]? = some d → chosen[j]? = some d ∨ ∃ p ∈ partials, p.trustee = j ∧ p.d = d := by
  induction partials generalizing chosen with
  | nil => exact ⟨chosen, rfl, fun j => by simp, fun j d h => .inl h⟩
  | cons p _ ih =>
    rw [List.forall_mem_cons] at hverify
    obtain ⟨result, hresult, hmem, hget⟩ := ih hverify.2 (chosen.insertIfNew p.trustee p.d)
    refine ⟨result, ?_, fun j => ?_, fun j d hd => ?_⟩
    · rw [choose, hverify.1]
      exact hresult
    · rw [hmem, TreeMap.mem_insertIfNew, Std.compare_eq_iff_eq, List.map_cons, List.mem_cons, eq_comm]
      tauto
    · rcases hget j d hd with h | ⟨q, hq, hq'⟩
      · rw [TreeMap.getElem?_insertIfNew] at h
        split at h
        case isTrue hnew =>
          cases h
          exact .inr ⟨p, List.mem_cons_self, Std.compare_eq_iff_eq.mp hnew.1, rfl⟩
        case isFalse => exact .inl h
      · exact .inr ⟨q, List.mem_cons_of_mem p hq, hq'⟩

variable [DecidableEq P]

theorem verifyDealing_ok {d : Dealing l P} {th : Threshold} {ctx : List UInt8} (h : S.verifyDealing d th ctx = .ok ()) :
    (1 ≤ d.dealer ∧ d.dealer ≤ th.n) ∧ d.commitments.length = th.t := by
  unfold verifyDealing at h
  split at h
  case isTrue => cases h
  case isFalse hindex =>
  split at h
  case isTrue => cases h
  case isFalse hlength => exact ⟨by omega, not_not.mp hlength⟩

variable [Fact l.Prime]

theorem verifyShare_eq_ok {d : Dealing l P} {s : Share l} :
    S.verifyShare d s = .ok () ↔ s.dealer = d.dealer ∧
      s.value • S.g = evalCommitments (l := l) d.commitments s.recipient := by
  unfold verifyShare
  split
  case isTrue h => exact iff_of_false (by simp) fun ⟨h₁, h₂⟩ => h.elim (· h₁) (· h₂)
  case isFalse h =>
    rw [not_or, not_not, not_not] at h
    exact iff_of_true rfl h

/-- The key of dealings that were accepted: one per dealer, at least `t`, each verified. -/
structure Formed (S : Suite l P) (dealings : List (Dealing l P)) (th : Threshold) (ctx : List UInt8)
    (ek : ElectionKey P) : Prop where
  nodup : (dealings.map Dealing.dealer).Nodup
  enough : th.t ≤ dealings.length
  verified : ∀ d ∈ dealings, S.verifyDealing d th ctx = .ok ()
  threshold : ek.threshold = th
  key : ek.key = (dealings.map fun d => d.commitments.headD 0).sum
  qualified : ek.qualified = (TreeSet.ofList (dealings.map Dealing.dealer) compare).toList
  verification : ek.verification = TreeMap.ofList ((List.range' 1 th.n).map fun j =>
    (j, (dealings.map fun d => evalCommitments (l := l) d.commitments j).sum)) compare

theorem formed_of_fromDealings {dealings : List (Dealing l P)} {th : Threshold} {ctx : List UInt8}
    {ek : ElectionKey P} (h : S.fromDealings dealings th ctx = .ok ek) : Formed S dealings th ctx ek := by
  unfold fromDealings at h
  dsimp only at h
  split at h
  case isTrue => cases h
  case isFalse hsize =>
    rw [not_or, not_not, Nat.not_lt] at hsize
    obtain ⟨_, hverified, h⟩ := bind_eq_ok.mp h
    cases h
    exact ⟨size_ofList_eq_length.mp (hsize.1.trans (List.length_map Dealing.dealer).symm), hsize.2,
      forM_eq_ok.mp hverified, rfl, rfl, rfl, rfl⟩

end Suite

end TrustInfrastructure.Voting
