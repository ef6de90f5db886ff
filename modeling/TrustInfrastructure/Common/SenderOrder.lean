import TrustInfrastructure.Lib.Run
import TrustInfrastructure.Lib.Tally

/-!
# Relationship control as a barrier

`vti-common/src/sender_order.rs`. Inbound frames are admitted one by one, in arrival order, and each is then
handled by a task of its own, which first waits on the token its ticket names, if any. A barrier's ticket, when
dropped, cancels the barrier's own token and then, in a second step, evicts the sender's entry if the entry still
carries the barrier's number.

A ticket names one token only, that of the sender's latest barrier in flight. Two things make this enough. Which
token it is never depends on the order of the numbers: the entry of a sender is always its latest barrier's
(`Sound.tail`), so nothing lies between a frame and the barrier it waits on (`Sound.wait`). And a barrier that has
started has every earlier one behind it (`Ordered.started`), so the order is handed on through the chain.

The numbers matter at one point, when a finishing barrier decides whether the entry is still its own. They are
`u64`s and wrap: after `2 ^ 64` barriers an old barrier's number comes round again, and if that barrier is still
in flight it takes the newer entry with it (`overtaken_after_wrap`). `Spaced` says that this does not happen.
-/

namespace TrustInfrastructure.Common

open Std (ExtTreeMap)
open Lib (Along erase_cases getElem?_erase_eq run run_append run_cons run_induction run_invariant run_nil)

variable {x : String} {α : Type} {i j n : Nat} {sender : Option String}

/-! ### The order -/

/-- What a frame is, for ordering purposes. -/
inductive FrameOrder where
  | barrier
  | follower
  | unordered
  deriving DecidableEq

variable {order : FrameOrder}

/-- A cancellation token, named after the frame it was made for. -/
abbrev Token := Nat

/-- What the drop of a barrier's ticket works on. -/
structure BarrierDone where
  sender : String
  seq : UInt64
  token : Token
  deriving DecidableEq

variable {done : BarrierDone}

structure Ticket where
  wait : Option Token
  done : Option BarrierDone
  deriving DecidableEq

def Ticket.unordered : Ticket := ⟨none, none⟩

/-- The bookkeeping: the next barrier's number, and per sender the latest barrier in flight. -/
structure Inner where
  nextSeq : UInt64
  tails : ExtTreeMap String (UInt64 × Token)

namespace Inner

/-- Register one frame; `token` is a new one. -/
def admitFrame (inner : Inner) (sender : Option String) (order : FrameOrder) (token : Token) : Ticket × Inner :=
  match sender with
  | none => (.unordered, inner)
  | some sender =>
    match order with
    | .unordered => (.unordered, inner)
    | .follower => (⟨inner.tails[sender]?.map Prod.snd, none⟩, inner)
    | .barrier =>
      (⟨inner.tails[sender]?.map Prod.snd, some ⟨sender, inner.nextSeq, token⟩⟩,
        ⟨inner.nextSeq + 1, inner.tails.insert sender (inner.nextSeq, token)⟩)

/-- The second half of a barrier's drop: evict the entry, if no later barrier has taken it. -/
def evict (inner : Inner) (done : BarrierDone) : Inner :=
  match inner.tails[done.sender]? with
  | some (seq, _) => if seq = done.seq then { inner with tails := inner.tails.erase done.sender } else inner
  | none => inner

end Inner

/-! ### The system -/

/-- How far a frame's task is. A barrier that is `released` has cancelled its token and not yet evicted its
entry. -/
inductive Phase where
  | waiting
  | running
  | released
  | finished
  deriving DecidableEq

variable {p : Phase}

structure Frame where
  sender : Option String
  order : FrameOrder
  ticket : Ticket
  deriving DecidableEq

namespace Frame

/-- The frame is a barrier of `x`. -/
def BarrierOf (f : Frame) (x : String) : Prop := f.sender = some x ∧ f.order = .barrier

/-- The frame takes part in the order of `x`. -/
def OrderedBy (f : Frame) (x : String) : Prop := f.sender = some x ∧ f.order ≠ .unordered

end Frame

/-- The bookkeeping, the frames in arrival order, how far each is, and which tokens are cancelled. -/
structure System where
  inner : Inner
  frames : List Frame
  phase : Nat → Phase
  cancelled : Token → Bool

namespace System

def init : System := ⟨⟨0, ∅⟩, [], fun _ => .waiting, fun _ => false⟩

def Ready (s : System) (f : Frame) : Prop := ∀ t ∈ f.ticket.wait, s.cancelled t = true

instance (s : System) (f : Frame) : Decidable (s.Ready f) :=
  inferInstanceAs (Decidable (∀ t ∈ f.ticket.wait, s.cancelled t = true))

/-- Frame `i` has been handled: its ticket is dropped, or being dropped. -/
def Over (s : System) (i : Nat) : Prop := s.phase i = .released ∨ s.phase i = .finished

instance (s : System) (i : Nat) : Decidable (s.Over i) :=
  inferInstanceAs (Decidable (s.phase i = .released ∨ s.phase i = .finished))

/-- Frame `i` is a barrier of `x`. -/
def BarrierAt (s : System) (i : Nat) (x : String) : Prop := ∃ f, s.frames[i]? = some f ∧ f.BarrierOf x

def admitted (s : System) (sender : Option String) (order : FrameOrder) : System :=
  { s with
    inner := (s.inner.admitFrame sender order s.frames.length).2
    frames := s.frames ++ [⟨sender, order, (s.inner.admitFrame sender order s.frames.length).1⟩] }

def setPhase (s : System) (i : Nat) (phase : Phase) : System := { s with phase := Function.update s.phase i phase }

/-- The first half of a ticket's drop; the whole of it, for a frame that is no barrier. -/
def dropped (s : System) (i : Nat) (ticket : Ticket) : System :=
  match ticket.done with
  | none => s.setPhase i .finished
  | some done => { s.setPhase i .released with cancelled := Function.update s.cancelled done.token true }

end System

inductive Action where
  | admitFrame (sender : Option String) (order : FrameOrder)
  | start (i : Nat)
  | drop (i : Nat)
  | evict (i : Nat)
  deriving DecidableEq

variable {a : Action}

namespace System

/-- One step, if it may be taken. A frame waits for its token, with no limit to the wait; a ticket is dropped after
its frame started. -/
def step (s : System) : Action → Option System
  | .admitFrame sender order => some (s.admitted sender order)
  | .start i =>
    match s.frames[i]? with
    | some f => if s.phase i = .waiting ∧ s.Ready f then some (s.setPhase i .running) else none
    | none => none
  | .drop i =>
    match s.frames[i]? with
    | some f => if s.phase i = .running then some (s.dropped i f.ticket) else none
    | none => none
  | .evict i =>
    match s.frames[i]? with
    | some ⟨_, _, _, some done⟩ =>
      if s.phase i = .released then some { s.setPhase i .finished with inner := s.inner.evict done } else none
    | _ => none

/-- The state after an action; one that may not be taken changes nothing. -/
def next (s : System) (a : Action) : System := (s.step a).getD s

def Spaced (s : System) : Action → Prop
  | .admitFrame (some x) .barrier => ∀ (i : Nat) (f : Frame) (done : BarrierDone), s.frames[i]? = some f →
      f.ticket.done = some done → done.sender = x → done.seq = s.inner.nextSeq → s.phase i = .finished
  | _ => True

theorem next_cases (s : System) (a : Action) : s.next a = s ∨ s.step a = some (s.next a) := by
  rw [next]
  cases s.step a with
  | none => exact .inl rfl
  | some => exact .inr rfl

end System

/-! ### What admission and eviction do -/

section
variable {inner : Inner} {sender : Option String} {order : FrameOrder} {token : Token}

theorem admit_done : (inner.admitFrame sender order token).1.done = some done ↔
    ∃ x, sender = some x ∧ order = .barrier ∧ done = ⟨x, inner.nextSeq, token⟩ := by
  unfold Inner.admitFrame
  rcases sender with _ | x
  · simp [Ticket.unordered]
  · cases order <;> simp [Ticket.unordered, eq_comm]

theorem admit_wait {t : Token} : (inner.admitFrame sender order token).1.wait = some t ↔
    ∃ x seq, sender = some x ∧ order ≠ .unordered ∧ inner.tails[x]? = some (seq, t) := by
  unfold Inner.admitFrame
  rcases sender with _ | x
  · simp [Ticket.unordered]
  · cases order <;> simp [Ticket.unordered]

theorem admit_tails (x : String) : (inner.admitFrame sender order token).2.tails[x]? =
    if sender = some x ∧ order = .barrier then some (inner.nextSeq, token) else inner.tails[x]? := by
  unfold Inner.admitFrame
  rcases sender with _ | y
  · simp
  · cases order <;> simp [ExtTreeMap.getElem?_insert]

theorem evict_tails {entry : UInt64 × Token} (h : (inner.evict done).tails[x]? = some entry) :
    inner.tails[x]? = some entry ∧ (x = done.sender → entry.1 ≠ done.seq) := by
  revert h
  fun_cases inner.evict done with
  | case1 =>
    intro h
    obtain ⟨hne, h⟩ := erase_cases h
    exact ⟨h, fun hx => absurd hx.symm hne⟩
  | case2 seq t htail hseq =>
    refine fun h => ⟨h, ?_⟩
    rintro rfl
    cases htail.symm.trans h
    exact hseq
  | case3 htail =>
    refine fun h => ⟨h, ?_⟩
    rintro rfl
    cases htail.symm.trans h

theorem evict_none (h : (inner.evict done).tails[x]? = none) :
    inner.tails[x]? = none ∨ x = done.sender ∧ ∃ t, inner.tails[x]? = some (done.seq, t) := by
  revert h
  fun_cases inner.evict done with
  | case1 t htail =>
    intro h
    rw [getElem?_erase_eq] at h
    by_cases hx : done.sender = x
    · exact .inr ⟨hx.symm, t, hx ▸ htail⟩
    · exact .inl (by rwa [if_neg hx] at h)
  | _ => exact .inl

end

/-! ### What a step does -/

section
variable {s s' : System} {a : Action}

theorem step_cases (h : s.step a = some s') :
    (∃ sender order, a = .admitFrame sender order ∧ s' = s.admitted sender order) ∨
    (∃ i f, a = .start i ∧ s.frames[i]? = some f ∧ s.phase i = .waiting ∧ s.Ready f ∧ s' = s.setPhase i .running) ∨
    (∃ i f, a = .drop i ∧ s.frames[i]? = some f ∧ s.phase i = .running ∧ s' = s.dropped i f.ticket) ∨
    ∃ i f done, a = .evict i ∧ s.frames[i]? = some f ∧ f.ticket.done = some done ∧ s.phase i = .released ∧
      s' = { s.setPhase i .finished with inner := s.inner.evict done } := by
  revert h
  fun_cases s.step a with
  | case1 sender order =>
    rintro ⟨⟩
    exact .inl ⟨sender, order, rfl, rfl⟩
  | case2 i f hf hready =>
    rintro ⟨⟩
    exact .inr (.inl ⟨i, f, rfl, hf, hready.1, hready.2, rfl⟩)
  | case5 i f hf hrunning =>
    rintro ⟨⟩
    exact .inr (.inr (.inl ⟨i, f, rfl, hf, hrunning, rfl⟩))
  | case8 i _ _ _ done hf hreleased =>
    rintro ⟨⟩
    exact .inr (.inr (.inr ⟨i, _, done, rfl, hf, rfl, hreleased, rfl⟩))
  | _ => nofun

end

theorem getElem?_concat {l : List α} {a b : α} : (l ++ [a])[i]? = some b ↔ l[i]? = some b ∨ i = l.length ∧ b = a := by
  rcases Nat.lt_trichotomy i l.length with hlt | rfl | hgt
  · rw [List.getElem?_append_left hlt]
    constructor
    · exact .inl
    · rintro (h | ⟨rfl, -⟩)
      · exact h
      · omega
  · rw [List.getElem?_concat_length]
    simp [eq_comm]
  · rw [List.getElem?_eq_none (by simp; omega), List.getElem?_eq_none (by omega)]
    simp
    omega

namespace System

variable (s : System) (i : Nat) (ticket : Ticket)

@[simp] theorem dropped_frames : (s.dropped i ticket).frames = s.frames := by
  unfold dropped
  split <;> rfl

@[simp] theorem dropped_inner : (s.dropped i ticket).inner = s.inner := by
  unfold dropped
  split <;> rfl

theorem dropped_phase : (s.dropped i ticket).phase =
    Function.update s.phase i (if ticket.done.isSome then .released else .finished) := by
  unfold dropped
  split <;> rename_i h <;> simp [h, setPhase]

theorem dropped_cancelled (t : Token) : (s.dropped i ticket).cancelled t = true ↔
    s.cancelled t = true ∨ ∃ done, ticket.done = some done ∧ done.token = t := by
  unfold dropped
  split
  · rename_i h
    simp [h, setPhase]
  · rename_i done h
    simp only [h, Function.update_apply]
    split
    · rename_i ht
      simp [ht]
    · rename_i ht
      simp [Ne.symm ht]

end System

/-! ### The chain of tickets -/

structure Chained (frames : List Frame) : Prop where
  /-- A ticket that cancels a token is a barrier's, and the token its own. -/
  done : ∀ (i : Nat) (f : Frame) (done : BarrierDone), frames[i]? = some f → f.ticket.done = some done →
    f.BarrierOf done.sender ∧ done.token = i
  barrier : ∀ (i : Nat) (f : Frame) (x : String), frames[i]? = some f → f.BarrierOf x → f.ticket.done.isSome = true
  /-- A frame waits on an earlier barrier of its sender, with none between. -/
  wait : ∀ (i : Nat) (f : Frame) (t : Nat), frames[i]? = some f → f.ticket.wait = some t →
    t < i ∧ ∃ x g, f.OrderedBy x ∧ frames[t]? = some g ∧ g.BarrierOf x ∧
      ∀ (j : Nat) (h : Frame), t < j → j < i → frames[j]? = some h → ¬ h.BarrierOf x

/-- The invariant of the bookkeeping. -/
structure Sound (s : System) : Prop where
  chained : Chained s.frames
  /-- A sender's entry is its latest barrier, which has not evicted it. -/
  tail : ∀ (x : String) (seq : UInt64) (t : Nat), s.inner.tails[x]? = some (seq, t) →
    (∃ f done, s.frames[t]? = some f ∧ f.ticket.done = some done ∧ done.sender = x ∧ done.seq = seq) ∧
      s.phase t ≠ .finished ∧ ∀ (j : Nat) (h : Frame), t < j → s.frames[j]? = some h → ¬ h.BarrierOf x
  /-- The tokens cancelled are those of the barriers that are over. -/
  cancelled : ∀ t : Nat, s.cancelled t = true ↔
    ∃ f, s.frames[t]? = some f ∧ f.ticket.done.isSome = true ∧ s.Over t
  fresh : ∀ i, s.frames[i]? = none → s.phase i = .waiting

section
variable {s s' : System}

theorem lt_length_of_getElem? {l : List α} {a : α} (h : l[i]? = some a) : i < l.length :=
  (List.getElem?_eq_some_iff.mp h).1

theorem sound_init : Sound System.init := by
  refine ⟨⟨?_, ?_, ?_⟩, ?_, ?_, fun i _ => rfl⟩ <;> simp [System.init]

theorem chained_admitted (hs : Sound s) (sender : Option String) (order : FrameOrder) :
    Chained (s.admitted sender order).frames := by
  have hold := hs.chained
  refine ⟨?_, ?_, ?_⟩
  · intro i f done hf hdone
    rcases getElem?_concat.mp hf with hf | ⟨rfl, rfl⟩
    · exact hold.done i f done hf hdone
    · obtain ⟨x, rfl, rfl, rfl⟩ := admit_done.mp hdone
      exact ⟨⟨rfl, rfl⟩, rfl⟩
  · intro i f x hf hbarrier
    rcases getElem?_concat.mp hf with hf | ⟨rfl, rfl⟩
    · exact hold.barrier i f x hf hbarrier
    · exact Option.isSome_iff_exists.mpr ⟨_, admit_done.mpr ⟨x, hbarrier.1, hbarrier.2, rfl⟩⟩
  · intro i f t hf hwait
    rcases getElem?_concat.mp hf with hf | ⟨rfl, rfl⟩
    · obtain ⟨hlt, x, g, hordered, hg, hbarrier, hbetween⟩ := hold.wait i f t hf hwait
      refine ⟨hlt, x, g, hordered, getElem?_concat.mpr (.inl hg), hbarrier, ?_⟩
      intro j h htj hji hh
      rcases getElem?_concat.mp hh with hh | ⟨rfl, rfl⟩
      · exact hbetween j h htj hji hh
      · have := lt_length_of_getElem? hf
        omega
    · -- the new frame waits on the entry of its sender, the latest barrier
      obtain ⟨x, seq, rfl, horder, htail⟩ := admit_wait.mp hwait
      obtain ⟨⟨g, done, hg, hdone, hsender, -⟩, -, hlatest⟩ := hs.tail x seq t htail
      refine ⟨lt_length_of_getElem? hg, x, g, ⟨rfl, horder⟩, getElem?_concat.mpr (.inl hg), ?_, ?_⟩
      · exact hsender ▸ (hold.done t g done hg hdone).1
      · intro j h htj hji hh
        rcases getElem?_concat.mp hh with hh | ⟨rfl, rfl⟩
        · exact hlatest j h htj hh
        · omega

theorem sound_admitted (hs : Sound s) (sender : Option String) (order : FrameOrder) :
    Sound (s.admitted sender order) := by
  have hfresh : s.phase s.frames.length = .waiting := hs.fresh _ (by simp)
  refine ⟨chained_admitted hs sender order, ?_, ?_, ?_⟩
  · intro x seq t htail
    change (s.inner.admitFrame sender order s.frames.length).2.tails[x]? = some (seq, t) at htail
    rw [admit_tails] at htail
    split at htail
    · rename_i hbarrier
      obtain ⟨rfl, rfl⟩ := Prod.mk.inj (Option.some.inj htail)
      refine ⟨⟨_, _, getElem?_concat.mpr (.inr ⟨rfl, rfl⟩), admit_done.mpr ⟨x, hbarrier.1, hbarrier.2, rfl⟩, rfl, rfl⟩,
        ?_, ?_⟩
      · change s.phase s.frames.length ≠ .finished
        simp [hfresh]
      · intro j h hj hh
        have := lt_length_of_getElem? hh
        simp [System.admitted] at this
        omega
    · rename_i hother
      obtain ⟨⟨f, done, hf, hdone, hsender, hseq⟩, hphase, hlatest⟩ := hs.tail x seq t htail
      refine ⟨⟨f, done, getElem?_concat.mpr (.inl hf), hdone, hsender, hseq⟩, hphase, ?_⟩
      intro j h hj hh hbarrier
      rcases getElem?_concat.mp hh with hh | ⟨rfl, rfl⟩
      · exact hlatest j h hj hh hbarrier
      · exact hother hbarrier
  · intro t
    change s.cancelled t = true ↔ _
    rw [hs.cancelled t]
    constructor
    · rintro ⟨f, hf, hdone, hover⟩
      exact ⟨f, getElem?_concat.mpr (.inl hf), hdone, hover⟩
    · rintro ⟨f, hf, hdone, hover⟩
      rcases getElem?_concat.mp hf with hf | ⟨rfl, rfl⟩
      · exact ⟨f, hf, hdone, hover⟩
      · change s.phase s.frames.length = _ ∨ s.phase s.frames.length = _ at hover
        simp [hfresh] at hover
  · intro i hi
    apply hs.fresh i
    by_contra hne
    obtain ⟨f, hf⟩ := Option.ne_none_iff_exists'.mp hne
    have hin : (s.admitted sender order).frames[i]? = some f := getElem?_concat.mpr (.inl hf)
    rw [hi] at hin
    simp at hin

variable {i : Nat} {f : Frame}

/-- A phase set to one that is over exactly where the old one was changes nothing of what is over. -/
theorem over_setPhase (hp : (p = .released ∨ p = .finished) ↔ s.Over i) (j : Nat) :
    (s.setPhase i p).Over j ↔ s.Over j := by
  change Function.update s.phase i p j = _ ∨ Function.update s.phase i p j = _ ↔ _
  by_cases hj : j = i
  · rwa [hj, Function.update_self]
  · rw [Function.update_of_ne hj]
    rfl

section
variable (hs : Sound s) (hf : s.frames[i]? = some f)
include hs hf

theorem fresh_update (p : Phase) (j : Nat) (hj : s.frames[j]? = none) :
    Function.update s.phase i p j = .waiting := by
  have hne : j ≠ i := by
    rintro rfl
    rw [hf] at hj
    simp at hj
  rw [Function.update_of_ne hne]
  exact hs.fresh j hj

theorem sound_started (hphase : s.phase i = .waiting) :
    Sound (s.setPhase i .running) := by
  refine ⟨hs.chained, ?_, ?_, fresh_update hs hf _⟩
  · intro x seq t htail
    obtain ⟨hentry, hphase', hlatest⟩ := hs.tail x seq t htail
    refine ⟨hentry, ?_, hlatest⟩
    simp only [System.setPhase, Function.update_apply]
    split
    · simp
    · exact hphase'
  · intro t
    rw [over_setPhase (by simp [System.Over, hphase])]
    exact hs.cancelled t

theorem sound_dropped (hphase : s.phase i = .running) :
    Sound (s.dropped i f.ticket) := by
  refine ⟨by simpa using hs.chained, ?_, ?_, ?_⟩
  · intro x seq t htail
    rw [System.dropped_inner] at htail
    obtain ⟨⟨g, done, hg, hdone, hentry⟩, hphase', hlatest⟩ := hs.tail x seq t htail
    refine ⟨⟨g, done, by simpa using hg, hdone, hentry⟩, ?_, by simpa using hlatest⟩
    rw [System.dropped_phase]
    by_cases ht : t = i
    · subst ht
      rw [hf] at hg
      rw [Option.some.inj hg, hdone]
      simp
    · rwa [Function.update_of_ne ht]
  · intro t
    rw [System.dropped_cancelled, hs.cancelled t, System.dropped_frames]
    constructor
    · rintro (⟨g, hg, hdone, hover⟩ | ⟨done, hdone, rfl⟩)
      · have hne : t ≠ i := by
          rintro rfl
          simp [System.Over, hphase] at hover
        refine ⟨g, hg, hdone, ?_⟩
        simpa only [System.Over, System.dropped_phase, Function.update_of_ne hne] using hover
      · have htoken := (hs.chained.done i f done hf hdone).2
        refine ⟨f, by rw [htoken, hf], by simp [hdone], ?_⟩
        simp [System.Over, System.dropped_phase, htoken, hdone]
    · rintro ⟨g, hg, hdone, hover⟩
      by_cases ht : t = i
      · subst ht
        rw [hf] at hg
        obtain rfl := Option.some.inj hg
        obtain ⟨done, hdone'⟩ := Option.isSome_iff_exists.mp hdone
        exact .inr ⟨done, hdone', (hs.chained.done t f done hf hdone').2⟩
      · refine .inl ⟨g, hg, hdone, ?_⟩
        simpa only [System.Over, System.dropped_phase, Function.update_of_ne ht] using hover
  · intro j hj
    rw [System.dropped_phase]
    exact fresh_update hs hf _ j (by simpa using hj)

theorem sound_evicted (hdone : f.ticket.done = some done)
    (hphase : s.phase i = .released) : Sound { s.setPhase i .finished with inner := s.inner.evict done } := by
  refine ⟨hs.chained, ?_, ?_, fresh_update hs hf _⟩
  · intro x seq t htail
    obtain ⟨htail, hkept⟩ := evict_tails htail
    obtain ⟨⟨g, d, hg, hd, hsender, hseq⟩, hphase', hlatest⟩ := hs.tail x seq t htail
    refine ⟨⟨g, d, hg, hd, hsender, hseq⟩, ?_, hlatest⟩
    have hne : t ≠ i := by
      -- its own entry a barrier does evict
      rintro rfl
      rw [hf] at hg
      obtain rfl := Option.some.inj hg
      rw [hdone] at hd
      obtain rfl := Option.some.inj hd
      exact hkept hsender.symm hseq.symm
    simp only [System.setPhase, Function.update_of_ne hne]
    exact hphase'
  · intro t
    have hover : (s.setPhase i .finished).Over t ↔ s.Over t := over_setPhase (by simp [System.Over, hphase]) t
    exact (hs.cancelled t).trans (exists_congr fun _ => and_congr_right fun _ => and_congr_right fun _ => hover.symm)

end

theorem sound_step (hs : Sound s) (h : s.step a = some s') : Sound s' := by
  rcases step_cases h with ⟨sender, order, -, rfl⟩ | ⟨i, f, -, hf, hphase, -, rfl⟩ | ⟨i, f, -, hf, hphase, rfl⟩ |
    ⟨i, f, done, -, hf, hdone, hphase, rfl⟩
  · exact sound_admitted hs sender order
  · exact sound_started hs hf hphase
  · exact sound_dropped hs hf hphase
  · exact sound_evicted hs hf hdone hphase

theorem sound_next (hs : Sound s) (a : Action) : Sound (s.next a) := by
  rcases s.next_cases a with hsame | hstep
  · rwa [hsame]
  · exact sound_step hs hstep

theorem sound_reached (actions : List Action) : Sound (run System.next System.init actions) :=
  run_invariant sound_init fun _ a hs => sound_next hs a

/-- No state is stuck: while a frame is not over, it or an earlier one may start or be dropped. -/
theorem never_stuck (actions : List Action) {f : Frame} :
    let s := run System.next System.init actions
    s.frames[i]? = some f → ¬ s.Over i → ∃ j ≤ i, (s.step (.start j)).isSome ∨ (s.step (.drop j)).isSome := by
  intro s hf hopen
  have hs : Sound s := sound_reached actions
  induction i using Nat.strongRecOn generalizing f with
  | ind i ih =>
    cases hphase : s.phase i with
    | released | finished => simp [System.Over, hphase] at hopen
    | running => exact ⟨i, le_rfl, .inr (by simp [System.step, hf, hphase])⟩
    | waiting =>
      by_cases hready : s.Ready f
      · exact ⟨i, le_rfl, .inl (by simp [System.step, hf, hphase, hready])⟩
      · -- it waits on an earlier barrier, which is not over
        obtain ⟨t, ht, hnot⟩ := not_forall₂.mp hready
        obtain ⟨hlt, x, g, -, hg, hbarrier, -⟩ := hs.chained.wait i f t hf ht
        have hdone := hs.chained.barrier t g x hg hbarrier
        obtain ⟨j, hj, hstep⟩ := ih t hlt hg fun hover => hnot ((hs.cancelled t).mpr ⟨g, hg, hdone, hover⟩)
        exact ⟨j, hj.trans hlt.le, hstep⟩

/-! ### What stays -/

/-- What a later state keeps of an earlier one. -/
structure Later (s s' : System) : Prop where
  frames : ∀ (i : Nat) (f : Frame), s.frames[i]? = some f → s'.frames[i]? = some f
  handled : ∀ i, s.Over i → s'.Over i
  cancelled : ∀ t, s.cancelled t = true → s'.cancelled t = true

namespace Later

theorem refl (s : System) : Later s s := ⟨fun _ _ h => h, fun _ h => h, fun _ h => h⟩

theorem trans {s'' : System} (h : Later s s') (h' : Later s' s'') : Later s s'' :=
  ⟨fun i f hf => h'.frames i f (h.frames i f hf), fun i hi => h'.handled i (h.handled i hi),
    fun t ht => h'.cancelled t (h.cancelled t ht)⟩

end Later

theorem over_update (hnot : ¬ s.Over i) (hover : s.Over j) : (s.setPhase i p).Over j := by
  have hne : j ≠ i := by
    rintro rfl
    exact hnot hover
  simpa only [System.Over, System.setPhase, Function.update_of_ne hne] using hover

theorem later_step (h : s.step a = some s') : Later s s' := by
  rcases step_cases h with ⟨sender, order, -, rfl⟩ | ⟨i, f, -, hf, hphase, -, rfl⟩ | ⟨i, f, -, hf, hphase, rfl⟩ |
    ⟨i, f, done, -, hf, hdone, hphase, rfl⟩
  · exact ⟨fun i f hf => getElem?_concat.mpr (.inl hf), fun _ h => h, fun _ h => h⟩
  · exact ⟨fun _ _ h => h, fun j hj => over_update (by simp [System.Over, hphase]) hj, fun _ h => h⟩
  · refine ⟨fun j g hg => by simpa using hg, fun j hj => ?_, fun t ht => ?_⟩
    · have hkept := over_update (p := if f.ticket.done.isSome then .released else .finished) (i := i)
        (by simp [System.Over, hphase]) hj
      simpa only [System.Over, System.setPhase, System.dropped_phase] using hkept
    · exact (System.dropped_cancelled s i f.ticket t).mpr (.inl ht)
  · exact ⟨fun _ _ h => h, fun j => (over_setPhase (by simp [System.Over, hphase]) j).mpr, fun _ h => h⟩

/-! ### The order is handed on -/

/-- The invariant of the order, as long as numbers do not come round. -/
structure Ordered (s : System) : Prop where
  /-- Two barriers of a sender in flight have two numbers. -/
  distinct : ∀ (i j : Nat) (f g : Frame) (d e : BarrierDone), s.frames[i]? = some f → f.ticket.done = some d →
    s.frames[j]? = some g → g.ticket.done = some e → d.sender = e.sender → d.seq = e.seq →
    s.phase i ≠ .finished → s.phase j ≠ .finished → i = j
  /-- A sender without an entry has no barrier left to wait for. -/
  idle : ∀ x, s.inner.tails[x]? = none → ∀ j, s.BarrierAt j x → s.Over j
  /-- So has a frame that was told to wait for nothing. -/
  unblocked : ∀ (i : Nat) (f : Frame) (x : String), s.frames[i]? = some f → f.OrderedBy x → f.ticket.wait = none →
    ∀ j < i, s.BarrierAt j x → s.Over j
  /-- A frame that started has its sender's earlier barriers behind it. -/
  started : ∀ (i : Nat) (f : Frame) (x : String), s.frames[i]? = some f → f.OrderedBy x → s.phase i ≠ .waiting →
    ∀ j < i, s.BarrierAt j x → s.Over j

theorem ordered_init : Ordered System.init := by
  refine ⟨?_, ?_, ?_, ?_⟩ <;> simp [System.init, System.BarrierAt]

theorem barrierAt_admitted (h : (s.admitted sender order).BarrierAt j x) :
    s.BarrierAt j x ∨ j = s.frames.length ∧ sender = some x ∧ order = .barrier := by
  obtain ⟨f, hf, hx⟩ := h
  rcases getElem?_concat.mp hf with hf | ⟨rfl, rfl⟩
  · exact .inl ⟨f, hf, hx⟩
  · exact .inr ⟨rfl, hx⟩

theorem update_finished (hphase : s.phase i ≠ .finished) (j : Nat) (hj : s.phase j = .finished) :
    Function.update s.phase i p j = .finished := by
  have hne : j ≠ i := by
    rintro rfl
    exact hphase hj
  rw [Function.update_of_ne hne, hj]

section
variable (hs : Sound s) (ho : Ordered s)
include hs ho

/-- A frame that may start has its sender's earlier barriers behind it: the one it waits on is over and had
started, so the ones before that are over too, and there is none after it. -/
theorem over_of_ready (hf : s.frames[i]? = some f) (hx : f.OrderedBy x)
    (hready : s.Ready f) (j : Nat) (hj : j < i) (hbarrier : s.BarrierAt j x) : s.Over j := by
  rcases hwait : f.ticket.wait with _ | t
  · exact ho.unblocked i f x hf hx hwait j hj hbarrier
  obtain ⟨hlt, y, g, hy, hg, hgbarrier, hbetween⟩ := hs.chained.wait i f t hf hwait
  obtain rfl : x = y := Option.some.inj (hx.1.symm.trans hy.1)
  obtain ⟨-, -, -, hover⟩ := (hs.cancelled t).mp (hready t hwait)
  rcases Nat.lt_trichotomy j t with hjt | rfl | htj
  · refine ho.started t g x hg ⟨hgbarrier.1, by simp [hgbarrier.2]⟩ ?_ j hjt hbarrier
    intro hwaiting
    simp [System.Over, hwaiting] at hover
  · exact hover
  · obtain ⟨h, hh, hhbarrier⟩ := hbarrier
    exact absurd hhbarrier (hbetween j h htj hj hh)

theorem ordered_admitted (hspaced : s.Spaced (.admitFrame sender order)) : Ordered (s.admitted sender order) := by
  have hfresh : s.phase s.frames.length = .waiting := hs.fresh _ (by simp)
  -- a frame before an old one is an old one
  have hearlier : ∀ {i j : Nat} {f : Frame} {x : String}, s.frames[i]? = some f → j < i →
      (s.admitted sender order).BarrierAt j x → s.BarrierAt j x := by
    intro i j f x hf hj hbarrier
    rcases barrierAt_admitted hbarrier with hbarrier | ⟨rfl, -⟩
    · exact hbarrier
    · have hlt := lt_length_of_getElem? hf
      omega
  refine ⟨?_, ?_, ?_, ?_⟩
  · intro i j f g d e hf hd hg he hsender hseq hi hj
    -- the new number is none in flight
    have hnew : ∀ {k : Nat} {h : Frame} {b c : BarrierDone}, s.frames[k]? = some h → h.ticket.done = some b →
        (s.inner.admitFrame sender order s.frames.length).1.done = some c → b.sender = c.sender → b.seq = c.seq →
        s.phase k = .finished := by
      intro k h b c hh hb hc hsender hseq
      obtain ⟨x, rfl, rfl, rfl⟩ := admit_done.mp hc
      exact hspaced k h b hh hb hsender hseq
    rcases getElem?_concat.mp hf with hf | ⟨rfl, rfl⟩
    · rcases getElem?_concat.mp hg with hg | ⟨rfl, rfl⟩
      · exact ho.distinct i j f g d e hf hd hg he hsender hseq hi hj
      · exact absurd (hnew hf hd he hsender hseq) hi
    · rcases getElem?_concat.mp hg with hg | ⟨rfl, rfl⟩
      · exact absurd (hnew hg he hd hsender.symm hseq.symm) hj
      · rfl
  · intro x htail j hbarrier
    change (s.inner.admitFrame sender order s.frames.length).2.tails[x]? = none at htail
    rw [admit_tails] at htail
    split at htail
    · simp at htail
    rename_i hother
    rcases barrierAt_admitted hbarrier with hbarrier | ⟨-, hnew⟩
    · exact ho.idle x htail j hbarrier
    · exact absurd hnew hother
  · intro i f x hf hx hwait j hj hbarrier
    rcases getElem?_concat.mp hf with hf | ⟨rfl, rfl⟩
    · exact ho.unblocked i f x hf hx hwait j hj (hearlier hf hj hbarrier)
    · rcases barrierAt_admitted hbarrier with hbarrier | ⟨rfl, -⟩
      · refine ho.idle x ?_ j hbarrier
        by_contra hentry
        obtain ⟨entry, hentry⟩ := Option.ne_none_iff_exists'.mp hentry
        have hwaits : (s.inner.admitFrame sender order s.frames.length).1.wait = some entry.2 :=
          admit_wait.mpr ⟨x, entry.1, hx.1, hx.2, hentry⟩
        exact absurd (hwait.symm.trans hwaits) (by simp)
      · omega
  · intro i f x hf hx hphase j hj hbarrier
    rcases getElem?_concat.mp hf with hf | ⟨rfl, rfl⟩
    · exact ho.started i f x hf hx hphase j hj (hearlier hf hj hbarrier)
    · exact absurd hfresh hphase

theorem ordered_moved (hframes : s'.frames = s.frames) (hlater : Later s s')
    (hfinished : ∀ i, s.phase i = .finished → s'.phase i = .finished)
    (hidle : ∀ x, s'.inner.tails[x]? = none → ∀ j, s.BarrierAt j x → s'.Over j)
    (hstarted : ∀ (i : Nat) (f : Frame), s.frames[i]? = some f → s'.phase i ≠ .waiting →
      s.phase i ≠ .waiting ∨ s.Ready f) : Ordered s' := by
  have hbarrier : ∀ {j : Nat} {x : String}, s'.BarrierAt j x → s.BarrierAt j x := by
    rintro j x ⟨f, hf, hx⟩
    exact ⟨f, hframes ▸ hf, hx⟩
  refine ⟨?_, ?_, ?_, ?_⟩
  · intro i j f g d e hf hd hg he hsender hseq hi hj
    rw [hframes] at hf hg
    exact ho.distinct i j f g d e hf hd hg he hsender hseq (fun h => hi (hfinished i h)) fun h => hj (hfinished j h)
  · intro x htail j hj
    exact hidle x htail j (hbarrier hj)
  · intro i f x hf hx hwait j hj hjbarrier
    exact hlater.handled j (ho.unblocked i f x (hframes ▸ hf) hx hwait j hj (hbarrier hjbarrier))
  · intro i f x hf hx hphase j hj hjbarrier
    rw [hframes] at hf
    apply hlater.handled j
    rcases hstarted i f hf hphase with hphase | hready
    · exact ho.started i f x hf hx hphase j hj (hbarrier hjbarrier)
    · exact over_of_ready hs ho hf hx hready j hj (hbarrier hjbarrier)

theorem over_of_evicted (hf : s.frames[i]? = some f)
    (hdone : f.ticket.done = some done) (hphase : s.phase i = .released)
    (htail : (s.inner.evict done).tails[x]? = none) (j : Nat) (hj : s.BarrierAt j x) : s.Over j := by
  rcases evict_none htail with htail | ⟨rfl, t, htail⟩
  · exact ho.idle x htail j hj
  obtain ⟨⟨g, d, hg, hd, hsender, hseq⟩, hunfinished, hlatest⟩ := hs.tail _ _ t htail
  obtain rfl : t = i := ho.distinct t i g f d done hg hd hf hdone hsender hseq hunfinished (by simp [hphase])
  have hordered : f.OrderedBy done.sender := by
    obtain ⟨hx, hbarrier⟩ := (hs.chained.done t f done hf hdone).1
    exact ⟨hx, by simp [hbarrier]⟩
  rcases Nat.lt_trichotomy j t with hlt | rfl | hgt
  · exact ho.started t f done.sender hf hordered (by simp [hphase]) j hlt hj
  · exact .inl hphase
  · obtain ⟨h, hh, hbarrier⟩ := hj
    exact absurd hbarrier (hlatest j h hgt hh)

theorem ordered_step (hspaced : s.Spaced a) (h : s.step a = some s') :
    Ordered s' := by
  have hlater := later_step h
  rcases step_cases h with ⟨sender, order, rfl, rfl⟩ | ⟨i, f, rfl, hf, hphase, hready, rfl⟩ |
    ⟨i, f, rfl, hf, hphase, rfl⟩ | ⟨i, f, done, rfl, hf, hdone, hphase, rfl⟩
  · exact ordered_admitted hs ho hspaced
  · refine ordered_moved hs ho rfl hlater (update_finished (by simp [hphase])) ?_ ?_
    · intro x htail j hj
      exact hlater.handled j (ho.idle x htail j hj)
    · intro j g hg hstarted
      by_cases hji : j = i
      · subst hji
        rw [hf] at hg
        exact .inr (Option.some.inj hg ▸ hready)
      · left
        simpa only [System.setPhase, Function.update_of_ne hji] using hstarted
  · refine ordered_moved hs ho (System.dropped_frames ..) hlater ?_ ?_ ?_
    · rw [System.dropped_phase]
      exact update_finished (by simp [hphase])
    · intro x htail j hj
      rw [System.dropped_inner] at htail
      exact hlater.handled j (ho.idle x htail j hj)
    · intro j g hg hstarted
      left
      by_cases hji : j = i
      · simp [hji, hphase]
      · simpa only [System.dropped_phase, Function.update_of_ne hji] using hstarted
  · refine ordered_moved hs ho rfl hlater (update_finished (by simp [hphase])) ?_ ?_
    · intro x htail j hj
      exact hlater.handled j (over_of_evicted hs ho hf hdone hphase htail j hj)
    · intro j g hg hstarted
      left
      by_cases hji : j = i
      · simp [hji, hphase]
      · simpa only [System.setPhase, Function.update_of_ne hji] using hstarted

end

theorem ordered_reached {actions : List Action} (hspaced : Along System.next System.Spaced System.init actions) :
    Ordered (run System.next System.init actions) := by
  refine (run_induction (I := fun s => Sound s ∧ Ordered s) ⟨sound_init, ordered_init⟩ hspaced ?_).2
  intro s a ⟨hs, ho⟩ hspaced
  refine ⟨sound_next hs a, ?_⟩
  rcases s.next_cases a with hsame | hstep
  · rwa [hsame]
  · exact ordered_step hs ho hspaced hstep

end

/-! ### Nothing waits for ever -/

/-- An endless run, of steps and idle moments, in which the runtime starts what may start and what was started
finishes. -/
structure Fair (time : Nat → System) : Prop where
  step : ∀ n, time (n + 1) = time n ∨ ∃ a, (time n).step a = some (time (n + 1))
  starts : ∀ (n i : Nat) (f : Frame), (time n).frames[i]? = some f → (time n).Ready f →
    ∃ m, n ≤ m ∧ (time m).phase i ≠ .waiting
  finishes : ∀ n i, (time n).phase i = .running → ∃ m, n ≤ m ∧ (time m).Over i

section
variable {time : Nat → System}

theorem sound_time (hfair : Fair time) (h0 : Sound (time 0)) (n : Nat) : Sound (time n) := by
  induction n with
  | zero => exact h0
  | succ n ih =>
    rcases hfair.step n with hidle | ⟨a, hstep⟩
    · rw [hidle]
      exact ih
    · exact sound_step ih hstep

theorem later_time (hfair : Fair time) {m : Nat} (h : n ≤ m) : Later (time n) (time m) := by
  induction m, h using Nat.le_induction with
  | base => exact Later.refl _
  | succ m _ ih =>
    rcases hfair.step m with hidle | ⟨a, hstep⟩
    · rw [hidle]
      exact ih
    · exact ih.trans (later_step hstep)

theorem eventually_over (hfair : Fair time) {f : Frame} (hf : (time n).frames[i]? = some f)
    (hready : (time n).Ready f) : ∃ m, n ≤ m ∧ (time m).Over i := by
  obtain ⟨m, hm, hstarted⟩ := hfair.starts n i f hf hready
  rcases hphase : (time m).phase i with _ | _ | _ | _
  · exact absurd hphase hstarted
  · obtain ⟨k, hk, hover⟩ := hfair.finishes m i hphase
    exact ⟨k, by omega, hover⟩
  · exact ⟨m, hm, .inl hphase⟩
  · exact ⟨m, hm, .inr hphase⟩

theorem eventually_ready (hfair : Fair time) (h0 : Sound (time 0)) (i n : Nat) (f : Frame)
    (hf : (time n).frames[i]? = some f) : ∃ m, n ≤ m ∧ (time m).Ready f := by
  induction i using Nat.strong_induction_on generalizing n f with
  | _ i ih =>
    rcases hwait : f.ticket.wait with _ | t
    · exact ⟨n, Nat.le_refl n, by simp [System.Ready, hwait]⟩
    obtain ⟨hlt, x, g, -, hg, hbarrier, -⟩ := (sound_time hfair h0 n).chained.wait i f t hf hwait
    obtain ⟨m, hm, hready⟩ := ih t hlt n g hg
    obtain ⟨k, hk, hover⟩ := eventually_over hfair ((later_time hfair hm).frames t g hg) hready
    refine ⟨k, by omega, ?_⟩
    intro t' ht'
    rw [hwait] at ht'
    obtain rfl := Option.some.inj ht'
    have hsound := sound_time hfair h0 k
    have hgk := (later_time hfair (show n ≤ k by omega)).frames t g hg
    exact (hsound.cancelled t).mpr ⟨g, hgk, hsound.chained.barrier t g x hgk hbarrier, hover⟩

end

/-- **Relationship control is a barrier.** In every state `s` a run reaches:

* a frame that takes part in its sender's order starts only when every barrier admitted earlier from that sender
  is over, if in the run no barrier got the number of one of its sender still in flight;
* a frame that may not start yet waits for an earlier barrier of its own sender;
* in every endless continuation in which what may start does and what started finishes, every frame may start at
  some point;
* when no barrier is in flight, there are no entries. -/
theorem barrier_order (actions : List Action) :
    let s := run System.next System.init actions
    (Along System.next System.Spaced System.init actions → ∀ (i : Nat) (f : Frame) (x : String) (s' : System),
      s.frames[i]? = some f →
      f.OrderedBy x → s.step (.start i) = some s' → ∀ j < i, s.BarrierAt j x → s.Over j) ∧
    (∀ (i : Nat) (f : Frame), s.frames[i]? = some f → ¬ s.Ready f →
      ∃ x j, f.OrderedBy x ∧ j < i ∧ s.BarrierAt j x ∧ ¬ s.Over j) ∧
    (∀ time : Nat → System, time 0 = s → Fair time → ∀ (n i : Nat) (f : Frame), (time n).frames[i]? = some f →
      ∃ m, n ≤ m ∧ (time m).Ready f) ∧
    ((∀ j x, s.BarrierAt j x → s.phase j = .finished) → s.inner.tails = ∅) := by
  intro s
  have hs : Sound s := sound_reached actions
  refine ⟨?_, ?_, ?_, ?_⟩
  · intro hspaced i f x s' hf hx hstart j hj hbarrier
    have ho : Ordered s := ordered_reached hspaced
    rcases step_cases hstart with ⟨sender, order, h, -⟩ | ⟨i', g, h, hg, -, hready, -⟩ | ⟨i', g, h, -⟩ |
      ⟨i', g, done, h, -⟩
    · simp at h
    · obtain rfl := Action.start.inj h
      rw [hf] at hg
      exact over_of_ready hs ho hf hx (Option.some.inj hg ▸ hready) j hj hbarrier
    · simp at h
    · simp at h
  · intro i f hf hblocked
    simp only [System.Ready, not_forall] at hblocked
    obtain ⟨t, hwait, hcancelled⟩ := hblocked
    obtain ⟨hlt, x, g, hx, hg, hbarrier, -⟩ := hs.chained.wait i f t hf hwait
    refine ⟨x, t, hx, hlt, ⟨g, hg, hbarrier⟩, fun hover => hcancelled ?_⟩
    exact (hs.cancelled t).mpr ⟨g, hg, hs.chained.barrier t g x hg hbarrier, hover⟩
  · intro time hstart hfair n i f hf
    exact eventually_ready hfair (hstart ▸ hs) i n f hf
  · intro hfinished
    apply ExtTreeMap.ext_getElem?
    intro x
    rw [ExtTreeMap.getElem?_empty]
    by_contra hentry
    obtain ⟨⟨seq, t⟩, hentry⟩ := Option.ne_none_iff_exists'.mp hentry
    obtain ⟨⟨f, done, hf, hdone, rfl, -⟩, hunfinished, -⟩ := hs.tail x seq t hentry
    exact hunfinished (hfinished t _ ⟨f, hf, (hs.chained.done t f done hf hdone).1⟩)

/-! ### Numbers that do not come round, and numbers that do -/

/-- The barriers so far were numbered below `n`, and the next is `n`. -/
structure Numbered (n : Nat) (s : System) : Prop where
  next : s.inner.nextSeq = UInt64.ofNat n
  seq : ∀ (i : Nat) (f : Frame) (done : BarrierDone), s.frames[i]? = some f → f.ticket.done = some done →
    ∃ k < n, done.seq = UInt64.ofNat k

section
variable {s s' : System} {n : Nat}

theorem spaced_of_numbered (h : Numbered n s) (hn : n < 2 ^ 64) (a : Action) : s.Spaced a := by
  unfold System.Spaced
  split
  · intro i f done hf hdone _ hseq
    obtain ⟨k, hk, hdoneSeq⟩ := h.seq i f done hf hdone
    rw [hdoneSeq, h.next] at hseq
    have hmod := congrArg UInt64.toNat hseq
    simp only [UInt64.toNat_ofNat'] at hmod
    omega
  · trivial

theorem numbered_step (h : Numbered n s) (hstep : s.step a = some s') : Numbered n s' ∨ Numbered (n + 1) s' := by
  rcases step_cases hstep with ⟨sender, order, -, rfl⟩ | ⟨i, f, -, -, -, -, rfl⟩ | ⟨i, f, -, -, -, rfl⟩ |
    ⟨i, f, done, -, -, -, -, rfl⟩
  · by_cases hbarrier : ∃ x, sender = some x ∧ order = .barrier
    · right
      obtain ⟨x, rfl, rfl⟩ := hbarrier
      refine ⟨?_, ?_⟩
      · change s.inner.nextSeq + 1 = _
        rw [h.next, UInt64.ofNat_add]
        rfl
      · intro i f done hf hdone
        rcases getElem?_concat.mp hf with hf | ⟨rfl, rfl⟩
        · obtain ⟨k, hk, hseq⟩ := h.seq i f done hf hdone
          exact ⟨k, by omega, hseq⟩
        · obtain ⟨y, -, -, rfl⟩ := admit_done.mp hdone
          exact ⟨n, by omega, h.next⟩
    · left
      have hinner : (s.inner.admitFrame sender order s.frames.length).2 = s.inner := by
        unfold Inner.admitFrame
        rcases sender with _ | x
        · rfl
        · cases order with
          | barrier => exact absurd ⟨x, rfl, rfl⟩ hbarrier
          | follower | unordered => rfl
      refine ⟨?_, ?_⟩
      · change (s.inner.admitFrame sender order s.frames.length).2.nextSeq = _
        rw [hinner, h.next]
      · intro i f done hf hdone
        rcases getElem?_concat.mp hf with hf | ⟨rfl, rfl⟩
        · exact h.seq i f done hf hdone
        · obtain ⟨x, hsender, horder, -⟩ := admit_done.mp hdone
          exact absurd ⟨x, hsender, horder⟩ hbarrier
  · exact .inl ⟨h.next, h.seq⟩
  · exact .inl ⟨by simpa using h.next, by simpa using h.seq⟩
  · left
    refine ⟨?_, h.seq⟩
    change (s.inner.evict done).nextSeq = _
    unfold Inner.evict
    split
    · split
      · exact h.next
      · exact h.next
    · exact h.next

/-- A run with fewer than `2 ^ 64` steps gives no number twice. -/
theorem spacedRun_of_numbered (actions : List Action) (h : Numbered n s) (hlength : n + actions.length ≤ 2 ^ 64) :
    Along System.next System.Spaced s actions := by
  induction actions generalizing s n with
  | nil => trivial
  | cons a _ ih =>
    rw [List.length_cons] at hlength
    refine ⟨spaced_of_numbered h (by omega) a, ?_⟩
    rcases s.next_cases a with hsame | hstep
    · rw [hsame]
      exact ih h (by omega)
    · rcases numbered_step h hstep with h' | h'
      · exact ih h' (by omega)
      · exact ih h' (by omega)

end

theorem numbered_init : Numbered 0 System.init := by
  exact ⟨rfl, by simp [System.init]⟩

/-- Two barriers and a follower of one sender, the first handled and the second started. -/
def sampleActions : List Action :=
  [.admitFrame (some "a") .barrier, .admitFrame (some "a") .barrier, .admitFrame (some "a") .follower, .start 0,
    .drop 0, .start 1]

/-- The follower may not start while the second barrier is being handled. -/
theorem barrier_order_sample :
    let s := run System.next System.init sampleActions
    s.BarrierAt 1 "a" ∧ ¬ s.Over 1 ∧ s.step (.start 2) = none := by
  refine ⟨⟨_, rfl, rfl, rfl⟩, ?_, ?_⟩
  · decide
  · rcases hstart : System.step _ (.start 2) with _ | s'
    · rfl
    · have hover := (barrier_order sampleActions).1 (spacedRun_of_numbered _ numbered_init (by decide)) 2 _ "a" s'
        rfl ⟨rfl, by decide⟩ hstart 1 (by decide) ⟨_, rfl, rfl, rfl⟩
      exact absurd hover (by decide)

theorem never_stuck_sample :
    let s := run System.next System.init sampleActions
    ∃ j ≤ 2, (s.step (.start j)).isSome ∨ (s.step (.drop j)).isSome :=
  never_stuck sampleActions rfl (by decide)

/-- A barrier of `a`, as many of `b` as there are numbers left, another of `a`, which gets the number of the first;
the first is then handled, and a follower of `a` arrives. -/
def wrappingActions : List Action :=
  .admitFrame (some "a") .barrier :: (List.replicate (2 ^ 64 - 1) (.admitFrame (some "b") .barrier) ++
    [.admitFrame (some "a") .barrier, .start 0, .drop 0, .evict 0, .admitFrame (some "a") .follower])

/-- Barriers of `b` take numbers and leave what is `a`'s. -/
theorem run_others (n : Nat) (s : System) :
    ∃ s', run System.next s (List.replicate n (.admitFrame (some "b") .barrier)) = s' ∧
      s'.frames.length = s.frames.length + n ∧
      (∀ (i : Nat) (f : Frame), s.frames[i]? = some f → s'.frames[i]? = some f) ∧
      s'.inner.tails["a"]? = s.inner.tails["a"]? ∧ s'.inner.nextSeq = s.inner.nextSeq + UInt64.ofNat n ∧
      s'.phase = s.phase ∧ s'.cancelled = s.cancelled := by
  induction n generalizing s with
  | zero => exact ⟨s, rfl, rfl, fun _ _ h => h, rfl, by simp, rfl, rfl⟩
  | succ n ih =>
    obtain ⟨s', hrun, hlength, hframes, htail, hseq, hphase, hcancelled⟩ :=
      ih (s.admitted (some "b") .barrier)
    refine ⟨s', hrun, ?_, ?_, ?_, ?_, hphase, hcancelled⟩
    · rw [hlength]
      simp only [System.admitted, List.length_append, List.length_singleton]
      omega
    · intro i f hf
      exact hframes i f (getElem?_concat.mpr (.inl hf))
    · rw [htail]
      change (s.inner.admitFrame (some "b") .barrier s.frames.length).2.tails["a"]? = _
      rw [admit_tails, if_neg (by decide)]
    · rw [hseq]
      change s.inner.nextSeq + 1 + UInt64.ofNat n = _
      rw [UInt64.ofNat_add, UInt64.add_assoc, UInt64.add_comm 1]
      rfl

/-- A first barrier of `a` in flight under the number that comes next: the second takes the entry, and the first,
once handled, evicts it. -/
theorem evicts_newer {s : System}
    (hframe : s.frames[0]? = some ⟨some "a", .barrier, ⟨none, some ⟨"a", s.inner.nextSeq, 0⟩⟩⟩)
    (hphase : s.phase = fun _ => .waiting) :
    ∃ s', run System.next s [.admitFrame (some "a") .barrier, .start 0, .drop 0, .evict 0] = s' ∧
      s'.frames.length = s.frames.length + 1 ∧ s'.BarrierAt s.frames.length "a" ∧ s'.inner.tails["a"]? = none ∧
      ∀ i, i ≠ 0 → s'.phase i = .waiting := by
  let first : Frame := ⟨some "a", .barrier, ⟨none, some ⟨"a", s.inner.nextSeq, 0⟩⟩⟩
  have hfirst : (s.admitted (some "a") .barrier).frames[0]? = some first := getElem?_concat.mpr (.inl hframe)
  let started := (s.admitted (some "a") .barrier).setPhase 0 .running
  have hstart : (s.admitted (some "a") .barrier).step (.start 0) = some started := by
    unfold System.step
    simp only [hfirst]
    rw [if_pos ⟨congrFun hphase 0, fun t ht => by simp [first] at ht⟩]
  let released := started.dropped 0 first.ticket
  have hdrop : started.step (.drop 0) = some released := by
    unfold System.step
    simp only [show started.frames[0]? = some first from hfirst]
    rw [if_pos (by simp [started, System.setPhase])]
  let last : System := { released.setPhase 0 .finished with inner := released.inner.evict ⟨"a", s.inner.nextSeq, 0⟩ }
  have hevict : released.step (.evict 0) = some last := by
    unfold System.step
    simp only [show released.frames[0]? = some first from hfirst, first]
    rw [if_pos (by simp [released, System.dropped, System.setPhase, first])]
  refine ⟨last, ?_, ?_, ?_, ?_, ?_⟩
  · have hadmit : s.next (.admitFrame (some "a") .barrier) = s.admitted (some "a") .barrier := rfl
    simp only [run_cons, run_nil, hadmit]
    simp only [System.next, hstart, hdrop, hevict, Option.getD_some]
  · change (s.frames ++ [_]).length = _
    rw [List.length_append, List.length_singleton]
  · exact ⟨_, getElem?_concat.mpr (.inr ⟨rfl, rfl⟩), rfl, rfl⟩
  · change ((s.inner.admitFrame (some "a") .barrier s.frames.length).2.evict ⟨"a", s.inner.nextSeq, 0⟩).tails["a"]? =
      none
    unfold Inner.evict
    simp only [admit_tails]
    simp
  · intro i hi
    simp [last, released, started, System.dropped, System.setPhase, System.admitted, first, hphase, hi]

/-- **A follower overtakes a barrier after a wrap.** The first barrier of `a` finds its own number in the entry of
the second and evicts it, so the follower waits for nothing and starts before the second barrier has. -/
theorem overtaken_after_wrap :
    ∃ s s' f, run System.next System.init wrappingActions = s ∧ s.frames[2 ^ 64 + 1]? = some f ∧ f.OrderedBy "a" ∧
      s.step (.start (2 ^ 64 + 1)) = some s' ∧ s.BarrierAt (2 ^ 64) "a" ∧ ¬ s.Over (2 ^ 64) := by
  obtain ⟨full, hfull, hlength, hframes, -, hseq, hphase, -⟩ :=
    run_others (2 ^ 64 - 1) (System.init.admitted (some "a") .barrier)
  replace hlength : full.frames.length = 2 ^ 64 := hlength
  replace hseq : full.inner.nextSeq = 0 := hseq
  have hfirst : full.frames[0]? = some ⟨some "a", .barrier, ⟨none, some ⟨"a", full.inner.nextSeq, 0⟩⟩⟩ := by
    rw [hseq]
    exact hframes 0 _ rfl
  obtain ⟨idle, hidle, hidleLength, hbarrier, htail, hwaiting⟩ :=
    evicts_newer hfirst (hphase.trans rfl)
  rw [hlength] at hidleLength hbarrier
  let follower : Frame := ⟨some "a", .follower, (idle.inner.admitFrame (some "a") .follower idle.frames.length).1⟩
  have hfollower : (idle.admitted (some "a") .follower).frames[2 ^ 64 + 1]? = some follower :=
    getElem?_concat.mpr (.inr ⟨hidleLength.symm, rfl⟩)
  refine ⟨idle.admitted (some "a") .follower, (idle.admitted (some "a") .follower).setPhase (2 ^ 64 + 1) .running,
    follower, ?_, hfollower, ⟨rfl, by simp [follower]⟩, ?_, ?_, ?_⟩
  · unfold wrappingActions
    have hadmit : System.init.next (.admitFrame (some "a") .barrier) = System.init.admitted (some "a") .barrier := rfl
    rw [run_cons, hadmit, run_append, hfull]
    change run System.next full ([.admitFrame (some "a") .barrier, .start 0, .drop 0, .evict 0] ++
      [.admitFrame (some "a") .follower]) = _
    rw [run_append, hidle]
    rfl
  · unfold System.step
    simp only [hfollower]
    rw [if_pos]
    refine ⟨hwaiting _ (by omega), ?_⟩
    intro t ht
    obtain ⟨x, seq, hx, -, hentry⟩ := admit_wait.mp ht
    rw [← Option.some.inj hx, htail] at hentry
    simp at hentry
  · obtain ⟨f, hf, hf'⟩ := hbarrier
    exact ⟨f, getElem?_concat.mpr (.inl hf), hf'⟩
  · intro hover
    change idle.phase (2 ^ 64) = _ ∨ idle.phase (2 ^ 64) = _ at hover
    rw [hwaiting _ (by omega)] at hover
    simp at hover

end TrustInfrastructure.Common
