import TrustInfrastructure.Rooms.Types

/-!
# The lifecycle of a room

Where a room is follows from the clock alone: live until its epoch expires, then lapsed for the grace window, then
dormant until its retention has run, counted from the lapse. `nextLifecycleChange` is the timetable of the same
thresholds, and the two are written independently.
-/

namespace TrustInfrastructure.Rooms

inductive Lifecycle where
  | live
  | lapsed
  | dormant
  | reclaimable
  deriving DecidableEq

/-- How far along a room is. -/
def Lifecycle.rank : Lifecycle → Nat
  | .live => 0
  | .lapsed => 1
  | .dormant => 2
  | .reclaimable => 3

def day : Nat := 24 * 60 * 60

def dormantAfterLapseDays : Nat := 30

namespace Room

def lifecycle (room : Room) (now : Nat) : Lifecycle :=
  match room.epochExpiresAt with
  | none => .live
  | some expires =>
    if now < expires then .live
    else
      let lapsedFor := now - expires
      let grace := dormantAfterLapseDays * day
      if lapsedFor < grace then .lapsed
      else if lapsedFor < max (room.retentionDays * day) grace then .dormant
      else .reclaimable

def nextLifecycleChange (room : Room) (now : Nat) : Option Nat :=
  room.epochExpiresAt.bind fun expires =>
    let grace := dormantAfterLapseDays * day
    let reclaimAfter := max (room.retentionDays * day) grace
    [expires, expires + grace, expires + reclaimAfter].find? (now < ·)

/-- **The lifecycle and its timetable agree.** -/
theorem lifecycle_follows_timetable (room : Room) :
    Monotone (fun now => (room.lifecycle now).rank) ∧
      (∀ now next, room.nextLifecycleChange now = some next → now < next ∧
        (∀ t, now ≤ t → t < next → room.lifecycle t = room.lifecycle now) ∧
        room.lifecycle next ≠ room.lifecycle now) ∧
      (∀ now, room.nextLifecycleChange now = none → ∀ t, now ≤ t → room.lifecycle t = room.lifecycle now) ∧
      ∀ now, room.lifecycle now = .reclaimable → ∃ expires, room.epochExpiresAt = some expires ∧
        expires + dormantAfterLapseDays * day ≤ now ∧ expires + room.retentionDays * day ≤ now := by
  unfold lifecycle nextLifecycleChange
  cases room.epochExpiresAt with
  | none => simp [Monotone]
  | some expires =>
    -- the windows by name, so that no proof below computes with their lengths
    obtain ⟨grace, hgrace, heq⟩ : ∃ grace, 0 < grace ∧ dormantAfterLapseDays * day = grace := ⟨_, by decide, rfl⟩
    obtain ⟨retention, heq'⟩ : ∃ retention, room.retentionDays * day = retention := ⟨_, rfl⟩
    simp only [Option.bind_some, List.find?_cons, List.find?_nil, heq, heq']
    have hreclaim : grace ≤ max retention grace := le_max_right _ _
    have hretention : retention ≤ max retention grace := le_max_left _ _
    generalize max retention grace = reclaim at *
    refine ⟨fun a b hab => ?_, fun now next hnext => ?_, fun now hnone t ht => ?_, fun now hnow => ?_⟩
    · grind [Lifecycle.rank]
    · -- the change named is the first threshold ahead
      have hnext : now < expires ∧ next = expires ∨ expires ≤ now ∧ now < expires + grace ∧ next = expires + grace ∨
          expires + grace ≤ now ∧ now < expires + reclaim ∧ next = expires + reclaim := by grind
      rcases hnext with ⟨h, rfl⟩ | ⟨h, h', rfl⟩ | ⟨h, h', rfl⟩ <;> refine ⟨by omega, fun t _ _ => ?_, ?_⟩ <;> grind
    · grind
    · grind

end Room
end TrustInfrastructure.Rooms
