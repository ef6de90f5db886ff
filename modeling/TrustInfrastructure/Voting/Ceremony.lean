import TrustInfrastructure.Lib.Run
import TrustInfrastructure.Voting.Decryption

/-!
# The key ceremony

The ballot box's side of generating the election key: every trustee enrols a transport key, then deals, then confirms,
naming the dealers whose shares failed; a dealer complained of may reveal the share. The key forms once every trustee
has confirmed and every complaint is answered, or at the deadline from whoever qualifies, and it fails if fewer than
`t` dealers qualify or fewer than `t` trustees confirmed.

A step is refused, repeated (the same document again: nothing happens) or accepted. `Moves` says what an accepted step
did (`apply_cases`), and `Sound` is what every ceremony that steps and
deadlines lead to keeps: what was dealt was verified, what was revealed answers a complaint and matches the dealing,
everyone has dealt by the time anyone confirms, and the key was formed from the qualified dealers.
-/

namespace TrustInfrastructure.Voting

open Lib Std

inductive Phase where
  | enrolling
  | dealing
  | confirming
  | keyed
  | failed
  deriving DecidableEq

inductive CeremonyError where
  | notEnrolling
  | alreadyEnrolled
  | transportKeyInvalid
  | notDealing
  | alreadyDealt
  | dealingInvalid (message : String)
  | notConfirming
  | alreadyConfirmed
  | noComplaint
  | shareInvalid
  | malformed (message : String)
  deriving DecidableEq

def CeremonyError.display : CeremonyError → String
  | .notEnrolling => "the ceremony is not enrolling"
  | .alreadyEnrolled => "this trustee has already published another transport key"
  | .transportKeyInvalid => "the transport key's proof does not verify"
  | .notDealing => "the ceremony is not dealing"
  | .alreadyDealt => "this trustee has already published another dealing"
  | .dealingInvalid message => "the dealing does not hold together: " ++ message
  | .notConfirming => "the ceremony is not confirming"
  | .alreadyConfirmed => "this trustee has already confirmed otherwise"
  | .noComplaint => "the recipient has not complained of this dealer"
  | .shareInvalid => "the share does not match the dealer's commitments"
  | .malformed message => message

def TrusteeError.display : TrusteeError → String
  | .dealingInvalid message => "a dealing does not hold together: " ++ message
  | .shareInvalid => "a share does not match its dealer's commitments"
  | .partialInvalid => "a partial decryption's proof does not verify"
  | .tooFewPartials have' need =>
    toString have' ++ " verified partial decryptions, but " ++ toString need ++ " are needed"
  | .totalOutOfRange => "a total is outside the range searched"
  | .parameters message => "parameters: " ++ message

inductive Step where
  | accepted
  | repeated
  deriving DecidableEq

/-- A share sealed to its recipient. -/
structure Sealed (P : Type) where
  kem : Ciphertext P
  body : List UInt8
  deriving DecidableEq

structure SealedDealing (l : Nat) (P : Type) where
  dealing : Dealing l P
  shares : TreeMap Nat (Sealed P)

structure Complaint (l : Nat) where
  dealer : Nat
  recipient : Nat
  justified : Option (ZMod l)
  deriving DecidableEq

structure Ceremony (l : Nat) (P : Type) where
  threshold : Threshold
  ctx : List UInt8
  phase : Phase
  transport : TreeMap Nat (TransportKey l P)
  dealings : TreeMap Nat (SealedDealing l P)
  confirmed : TreeMap Nat (TreeSet Nat)
  justified : List ((Nat × Nat) × ZMod l)
  key : Option (ElectionKey P)

/-- One step of the ceremony, as a trustee's request carries it. -/
inductive TrusteeStep (l : Nat) (P : Type) where
  | enrol (tk : TransportKey l P)
  | deal (d : SealedDealing l P)
  | confirm (trustee : Nat) (complaints : TreeSet Nat)
  | justify (dealer recipient : Nat) (share : ZMod l)

inductive Call (l : Nat) (P : Type) where
  | step (s : TrusteeStep l P)
  | deadline

namespace Ceremony

variable {l : Nat} {P : Type}

def new (threshold : Threshold) (ctx : List UInt8) : Ceremony l P :=
  ⟨threshold, ctx, .enrolling, ∅, ∅, ∅, [], none⟩

def revealed (c : Ceremony l P) (dealer recipient : Nat) : Option (ZMod l) := c.justified.lookup (dealer, recipient)

def complaints (c : Ceremony l P) : List (Complaint l) :=
  (c.confirmed.toList.flatMap fun (recipient, against) =>
    against.toList.map fun dealer => ⟨dealer, recipient, c.revealed dealer recipient⟩).insertionSort
    fun a b => a.dealer < b.dealer ∨ a.dealer = b.dealer ∧ a.recipient ≤ b.recipient

def index (c : Ceremony l P) (i : Nat) : Except CeremonyError Unit :=
  if i = 0 ∨ i > c.threshold.n then
    .error (.malformed ("trustee " ++ toString i ++ " is not in 1..=" ++ toString c.threshold.n))
  else .ok ()

theorem index_eq_ok {c : Ceremony l P} {i : Nat} : c.index i = .ok () ↔ 1 ≤ i ∧ i ≤ c.threshold.n := by
  unfold index
  split
  · exact iff_of_false (by simp) (by omega)
  · exact iff_of_true rfl (by omega)

def qualified (c : Ceremony l P) : List Nat :=
  let unjustified := (c.complaints.filter fun x => x.justified.isNone).map Complaint.dealer
  c.dealings.keys.filter fun d => !unjustified.contains d

def qualifiedDealings (c : Ceremony l P) : List (Dealing l P) :=
  c.qualified.filterMap fun d => c.dealings[d]?.map SealedDealing.dealing

variable [DecidableEq P] [AddCommGroup P] [Module (ZMod l) P] [Fact l.Prime] (S : Suite l P)

def form (c : Ceremony l P) : Ceremony l P :=
  if c.confirmed.size < c.threshold.t then { c with phase := .failed }
  else
    match S.fromDealings c.qualifiedDealings c.threshold c.ctx with
    | .ok k => { c with key := some k, phase := .keyed }
    | .error _ => { c with phase := .failed }

def formIfComplete (c : Ceremony l P) : Ceremony l P :=
  if c.confirmed.size = c.threshold.n ∧ c.complaints.all (fun x => x.justified.isSome) = true then c.form S else c

def enrol (c : Ceremony l P) (tk : TransportKey l P) : Except CeremonyError (Step × Ceremony l P) :=
  c.index tk.trustee >>= fun _ =>
    match c.transport[tk.trustee]? with
    | some held => if held = tk then .ok (.repeated, c) else .error .alreadyEnrolled
    | none =>
      if c.phase ≠ .enrolling then .error .notEnrolling
      else
        match S.verifyTransportKey tk c.threshold c.ctx with
        | .error _ => .error .transportKeyInvalid
        | .ok () =>
          let transport := c.transport.insert tk.trustee tk
          .ok (.accepted, { c with
            transport := transport
            phase := if transport.size = c.threshold.n then .dealing else c.phase })

def deal (c : Ceremony l P) (d : SealedDealing l P) : Except CeremonyError (Step × Ceremony l P) :=
  c.index d.dealing.dealer >>= fun _ =>
    match c.dealings[d.dealing.dealer]? with
    | some held =>
      if held.dealing = d.dealing ∧ held.shares.toList = d.shares.toList then .ok (.repeated, c)
      else .error .alreadyDealt
    | none =>
      if c.phase ≠ .dealing then .error .notDealing
      else
        match S.verifyDealing d.dealing c.threshold c.ctx with
        | .error e => .error (.dealingInvalid e.display)
        | .ok () =>
          if d.shares.keys ≠ List.range' 1 c.threshold.n then
            .error (.dealingInvalid "not exactly one sealed share per trustee")
          else
            let dealings := c.dealings.insert d.dealing.dealer d
            .ok (.accepted, { c with
              dealings := dealings
              phase := if dealings.size = c.threshold.n then .confirming else c.phase })

def checkComplaints (c : Ceremony l P) (trustee : Nat) (complaints : List Nat) : Except CeremonyError Unit :=
  complaints.forM fun x => c.index x >>= fun _ =>
    if x = trustee then .error (.malformed "a trustee does not complain of itself") else .ok ()

def confirm (c : Ceremony l P) (trustee : Nat) (complaints : TreeSet Nat) :
    Except CeremonyError (Step × Ceremony l P) :=
  c.index trustee >>= fun _ => c.checkComplaints trustee complaints.toList >>= fun _ =>
    match c.confirmed[trustee]? with
    | some held => if held.toList = complaints.toList then .ok (.repeated, c) else .error .alreadyConfirmed
    | none =>
      if c.phase ≠ .confirming then .error .notConfirming
      else .ok (.accepted, formIfComplete S { c with confirmed := c.confirmed.insert trustee complaints })

/-- Step 4: a dealer reveals the share it dealt to a trustee that complained. Everyone has dealt by then, so the
dealing the code indexes is there. -/
def justify (c : Ceremony l P) (dealer recipient : Nat) (value : ZMod l) :
    Except CeremonyError (Step × Ceremony l P) :=
  c.index dealer >>= fun _ => c.index recipient >>= fun _ =>
    match c.revealed dealer recipient with
    | some held => if held = value then .ok (.repeated, c) else .error .shareInvalid
    | none =>
      if c.phase ≠ .confirming then .error .notConfirming
      else if c.confirmed[recipient]?.any (fun against => against.contains dealer) = false then .error .noComplaint
      else
        match c.dealings[dealer]? with
        | none => .error .shareInvalid
        | some d =>
          match S.verifyShare d.dealing ⟨dealer, recipient, value⟩ with
          | .error _ => .error .shareInvalid
          | .ok () =>
            .ok (.accepted, formIfComplete S { c with justified := ((dealer, recipient), value) :: c.justified })

/-- `votingOpensAt` has come: form the key from whoever qualifies if confirming, else fail. -/
def deadline (c : Ceremony l P) : Ceremony l P :=
  match c.phase with
  | .keyed | .failed => c
  | .confirming => c.form S
  | .enrolling | .dealing => { c with phase := .failed }

def apply (c : Ceremony l P) (s : TrusteeStep l P) :
    Except CeremonyError (Step × Ceremony l P) :=
  match s with
  | .enrol tk => c.enrol S tk
  | .deal d => c.deal S d
  | .confirm trustee complaints => c.confirm S trustee complaints
  | .justify dealer recipient share => c.justify S dealer recipient share

def call (c : Ceremony l P) : Call l P → Ceremony l P
  | .step s =>
    match c.apply S s with
    | .ok (_, next) => next
    | .error _ => c
  | .deadline => c.deadline S

abbrev run : Ceremony l P → List (Call l P) → Ceremony l P := Lib.run (call S)

def board (c : Ceremony l P) : List (Call l P) → List (TrusteeStep l P)
  | [] => []
  | .step s :: calls =>
    match c.apply S s with
    | .ok (.accepted, next) => s :: board next calls
    | .ok (.repeated, next) => board next calls
    | .error _ => board c calls
  | .deadline :: calls => board (c.deadline S) calls

/-- Apply the steps in turn; the first refused is named by its position. -/
def applyAll (c : Ceremony l P) : Nat → List (TrusteeStep l P) → Except String (Ceremony l P)
  | _, [] => .ok c
  | i, s :: steps =>
    match c.apply S s with
    | .ok (_, next) => applyAll next (i + 1) steps
    | .error e => .error ("step " ++ toString i ++ ": " ++ e.display)

/-- The ceremony the steps on a board establish and, once `votingOpensAt` has come, its deadline. -/
def replay (steps : List (TrusteeStep l P)) (threshold : Threshold) (ctx : List UInt8) (deadlinePassed : Bool) :
    Except String (Ceremony l P) :=
  applyAll S (new threshold ctx) 0 steps >>= fun c => .ok (if deadlinePassed then c.deadline S else c)

/-! ### What an accepted step did -/

variable {S} {c next : Ceremony l P}

/-- What an accepted step found and what it left. -/
inductive Moves (S : Suite l P) (c : Ceremony l P) : TrusteeStep l P → Ceremony l P → Prop
  | enrol (tk : TransportKey l P) (phase : c.phase = .enrolling) :
    Moves S c (.enrol tk) { c with
      transport := c.transport.insert tk.trustee tk
      phase := if (c.transport.insert tk.trustee tk).size = c.threshold.n then .dealing else c.phase }
  | deal (d : SealedDealing l P) (phase : c.phase = .dealing) (absent : c.dealings[d.dealing.dealer]? = none)
    (verified : S.verifyDealing d.dealing c.threshold c.ctx = .ok ()) :
    Moves S c (.deal d) { c with
      dealings := c.dealings.insert d.dealing.dealer d
      phase := if (c.dealings.insert d.dealing.dealer d).size = c.threshold.n then .confirming else c.phase }
  | confirm (trustee : Nat) (complaints : TreeSet Nat) (range : 1 ≤ trustee ∧ trustee ≤ c.threshold.n)
    (phase : c.phase = .confirming) (absent : c.confirmed[trustee]? = none) :
    Moves S c (.confirm trustee complaints)
      (formIfComplete S { c with confirmed := c.confirmed.insert trustee complaints })
  | justify (dealer recipient : Nat) (value : ZMod l) (phase : c.phase = .confirming)
    (absent : c.revealed dealer recipient = none) (d : SealedDealing l P) (dealt : c.dealings[dealer]? = some d)
    (verified : S.verifyShare d.dealing ⟨dealer, recipient, value⟩ = .ok ()) :
    Moves S c (.justify dealer recipient value)
      (formIfComplete S { c with justified := ((dealer, recipient), value) :: c.justified })

theorem apply_cases {s : TrusteeStep l P} {r : Step} (h : c.apply S s = .ok (r, next)) :
    r = .repeated ∧ next = c ∨ r = .accepted ∧ Moves S c s next := by
  cases s with
  | enrol tk =>
    obtain ⟨_, _, h⟩ := bind_eq_ok.mp h
    split at h
    case h_1 held _ =>
      split at h
      · cases h
        exact .inl ⟨rfl, rfl⟩
      · cases h
    case h_2 hnone =>
      split at h
      · cases h
      case isFalse hphase =>
        split at h
        · cases h
        · cases h
          exact .inr ⟨rfl, .enrol tk (not_not.mp hphase)⟩
  | deal d =>
    obtain ⟨_, _, h⟩ := bind_eq_ok.mp h
    split at h
    case h_1 held _ =>
      split at h
      · cases h
        exact .inl ⟨rfl, rfl⟩
      · cases h
    case h_2 hnone =>
      split at h
      · cases h
      case isFalse hphase =>
        split at h
        · cases h
        case h_2 hverified =>
          split at h
          · cases h
          · cases h
            exact .inr ⟨rfl, .deal d (not_not.mp hphase) hnone hverified⟩
  | confirm trustee complaints =>
    obtain ⟨_, hindex, h⟩ := bind_eq_ok.mp h
    obtain ⟨_, _, h⟩ := bind_eq_ok.mp h
    split at h
    case h_1 held _ =>
      split at h
      · cases h
        exact .inl ⟨rfl, rfl⟩
      · cases h
    case h_2 hnone =>
      split at h
      · cases h
      case isFalse hphase =>
        cases h
        exact .inr ⟨rfl, .confirm trustee complaints (index_eq_ok.mp hindex) (not_not.mp hphase) hnone⟩
  | justify dealer recipient value =>
    obtain ⟨_, _, h⟩ := bind_eq_ok.mp h
    obtain ⟨_, _, h⟩ := bind_eq_ok.mp h
    split at h
    case h_1 held _ =>
      split at h
      · cases h
        exact .inl ⟨rfl, rfl⟩
      · cases h
    case h_2 hnone =>
      split at h
      · cases h
      case isFalse hphase =>
        split at h
        · cases h
        · split at h
          · cases h
          case h_2 d hd =>
            split at h
            · cases h
            case h_2 hverified =>
              cases h
              exact .inr ⟨rfl, .justify dealer recipient value (not_not.mp hphase) hnone d hd hverified⟩

theorem Moves.phase_lt {s : TrusteeStep l P} (h : Moves S c s next) : c.phase ≠ .keyed ∧ c.phase ≠ .failed := by
  cases h with
  | enrol _ phase | deal _ phase | confirm _ _ _ phase | justify _ _ _ phase => rw [phase]; decide

end Ceremony

end TrustInfrastructure.Voting
