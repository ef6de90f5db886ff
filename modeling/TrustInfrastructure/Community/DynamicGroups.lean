import TrustInfrastructure.Lib.Run

/-!
# Dynamic groups

`recompute` reads a group, its opt-outs, whom the rule admits and who is in, one after another, and admits much later:
an admission waits for its credential, takes the lock, and then looks only whether there is a membership. A pass under
way is what it has read so far. Members meanwhile opt out and rejoin, depart and return, and groups are deleted, which
takes no lock.

So a pass goes by what it has read. Nobody it should not admit is admitted as long as no member opts out or departs
behind the reads of a pass that chose them, and no group is deleted while a pass or a join is about it (`Calm`).
-/

namespace TrustInfrastructure.Community

open Lib

structure Membership where
  groupId : String
  entryId : String
  source : String
  deriving DecidableEq

inductive Pass where
  | begun (group : String)
  | excluding (group : String) (excluded : List String)
  | wanting (group : String) (wanted : List String)
  | ready (group : String) (wanted : List String) (held : List Membership)
  deriving DecidableEq

/-- A deletion under way, with the entries it read whose rows it has yet to remove. -/
structure Deletion where
  group : String
  remaining : List String
  deriving DecidableEq

structure Groups where
  groups : List String
  active : List String
  optOuts : List (String × String) := []
  members : List Membership := []
  passes : List Pass := []
  /-- The joins whose credential is being issued. -/
  joins : List (String × String) := []
  deletions : List Deletion := []

inductive GroupEvent where
  | recompute (group : String)
  /-- The next read of a pass, while the rule admits `admitted`. -/
  | read (pass : Pass) (admitted : List String)
  | admits (group : String) (wanted : List String) (held : List Membership) (entry : String)
  | finish (group : String) (wanted : List String) (held : List Membership) (entry : String)
  | ends (pass : Pass)
  -- leaving: the opt-out, then the membership
  | optOut (group entry : String)
  | leave (group entry : String)
  -- joining again: the admission, if the credential is issued, then the opt-out
  | join (group entry : String)
  | joined (group entry : String) (issued : Bool)
  | withdraw (group entry : String)
  | deactivate (entry : String)
  | onDeparture (entry : String)
  | readmits (entry : String)
  | remove (group : String)
  | removeMember (group entry : String) (remaining : List String)
  | removeGroup (group : String)
  | forgetOptOuts (group : String)

def Pass.group : Pass → String
  | .begun group | .excluding group _ | .wanting group _ | .ready group _ _ => group

/-- Whom the pass has chosen. -/
def Pass.wanted : Pass → List String
  | .begun _ | .excluding _ _ => []
  | .wanting _ wanted | .ready _ wanted _ => wanted

/-- The pass has read the opt-outs, and the entry may be one it admits. -/
def Pass.mayAdmit (entry : String) : Pass → Prop
  | .begun _ => False
  | .excluding _ excluded => entry ∉ excluded
  | .wanting _ wanted | .ready _ wanted _ => entry ∈ wanted

instance decidableMayAdmit (entry : String) : DecidablePred (Pass.mayAdmit entry)
  | .begun _ => .isFalse id
  | .excluding _ excluded => inferInstanceAs (Decidable (entry ∉ excluded))
  | .wanting _ wanted | .ready _ wanted _ => inferInstanceAs (Decidable (entry ∈ wanted))

def Pass.read (s : Groups) (admitted : List String) : Pass → Pass
  | .begun group => .excluding group ((s.optOuts.filter (·.1 = group)).map (·.2))
  | .excluding group excluded => .wanting group (s.active.filter fun entry => entry ∉ excluded ∧ entry ∈ admitted)
  | .wanting group wanted => .ready group wanted (s.members.filter (·.groupId = group))
  | pass => pass

namespace Groups

def holds (s : Groups) (group entry : String) : Bool := s.members.any fun m => m.groupId = group ∧ m.entryId = entry

/-- A pass that is through with its reads wants the entry in. -/
abbrev Wants (s : Groups) (group : String) (wanted : List String) (held : List Membership) (entry : String) : Prop :=
  .ready group wanted held ∈ s.passes ∧ entry ∈ wanted ∧ ∀ m ∈ held, m.entryId ≠ entry

def admitMember (s : Groups) (group entry : String) : Groups :=
  if s.holds group entry then s else { s with members := ⟨group, entry, "rule"⟩ :: s.members }

def removeMembership (s : Groups) (group entry : String) : Groups :=
  { s with members := s.members.filter fun m => ¬(m.groupId = group ∧ m.entryId = entry) }

def step (s : Groups) : GroupEvent → Groups
  | .recompute group => if group ∈ s.groups then { s with passes := .begun group :: s.passes } else s
  | .read pass admitted =>
    if pass ∈ s.passes then { s with passes := pass.read s admitted :: s.passes.erase pass } else s
  | .admits group wanted held entry => if s.Wants group wanted held entry then s.admitMember group entry else s
  | .finish group wanted held entry =>
    if .ready group wanted held ∈ s.passes ∧ entry ∉ wanted ∧ ⟨group, entry, "rule"⟩ ∈ held ∧
      ⟨group, entry, "rule"⟩ ∈ s.members then s.removeMembership group entry
    else s
  | .ends pass => { s with passes := s.passes.erase pass }
  | .optOut group entry => { s with optOuts := (group, entry) :: s.optOuts }
  | .leave group entry => s.removeMembership group entry
  | .join group entry =>
    if group ∈ s.groups ∧ entry ∈ s.active ∧ (group, entry) ∈ s.optOuts ∧ ¬s.holds group entry then
      { s with joins := (group, entry) :: s.joins }
    else s
  | .joined group entry issued =>
    if (group, entry) ∈ s.joins then
      let s := { s with joins := s.joins.erase (group, entry) }
      if issued then s.admitMember group entry else s
    else s
  | .withdraw group entry => { s with optOuts := s.optOuts.filter (· ≠ (group, entry)) }
  | .deactivate entry => { s with active := s.active.filter (· ≠ entry) }
  | .onDeparture entry =>
    { s with members := s.members.filter (·.entryId ≠ entry), optOuts := s.optOuts.filter (·.2 ≠ entry) }
  | .readmits entry => { s with active := entry :: s.active }
  | .remove group =>
    if group ∈ s.groups then
      { s with deletions := ⟨group, (s.members.filter (·.groupId = group)).map (·.entryId)⟩ :: s.deletions }
    else s
  | .removeMember group entry remaining =>
    if ⟨group, entry :: remaining⟩ ∈ s.deletions then
      { s.removeMembership group entry with
        deletions := ⟨group, remaining⟩ :: s.deletions.erase ⟨group, entry :: remaining⟩ }
    else s
  | .removeGroup group =>
    if ⟨group, []⟩ ∈ s.deletions then
      { s with groups := s.groups.filter (· ≠ group), deletions := s.deletions.erase ⟨group, []⟩ }
    else s
  | .forgetOptOuts group =>
    if group ∈ s.groups then s else { s with optOuts := s.optOuts.filter (·.1 ≠ group) }

/-! ### What bars a member -/

def Barred (s : Groups) (group entry : String) : Prop :=
  (group, entry) ∈ s.optOuts ∨ entry ∉ s.active ∨ group ∉ s.groups

/-- The group is there, and no deletion of it under way. -/
def Stands (s : Groups) (group : String) : Prop := group ∈ s.groups ∧ ∀ d ∈ s.deletions, d.group ≠ group

/-- Nobody opts out behind the reads of a pass that may admit them, or departs once a pass has chosen them. No pass or
join of a group begins while it is being deleted, and none is under way when its deletion begins. A departure ends
while the member is away. -/
def Calm (s : Groups) : GroupEvent → Prop
  | .optOut group entry => ∀ p ∈ s.passes, p.group = group → ¬p.mayAdmit entry
  | .deactivate entry => ∀ p ∈ s.passes, entry ∉ p.wanted
  | .recompute group | .join group _ => ∀ d ∈ s.deletions, d.group ≠ group
  | .remove group => (∀ p ∈ s.passes, p.group ≠ group) ∧ ∀ j ∈ s.joins, j.1 ≠ group
  | .onDeparture entry => entry ∉ s.active
  | _ => True

/-- The event opts the member out, takes it from the community or removes the group. -/
def Bars (s : Groups) (group entry : String) : GroupEvent → Prop
  | .optOut g e => g = group ∧ e = entry
  | .deactivate e => e = entry
  | .removeGroup g => g = group ∧ ⟨g, []⟩ ∈ s.deletions
  | _ => False

/-- The opt-out is withdrawn, or the member is back. -/
def Lifts (group entry : String) : GroupEvent → Prop
  | .withdraw g e => g = group ∧ e = entry
  | .readmits e => e = entry
  | _ => False

/-- Every membership is of a group there is, and any deletion of the group under way has yet to remove it. -/
def Placed (s : Groups) : Prop :=
  ∀ m ∈ s.members, m.groupId ∈ s.groups ∧ ∀ d ∈ s.deletions, d.group = m.groupId → m.entryId ∈ d.remaining

section
variable {s : Groups} {group entry : String} {e : GroupEvent}

theorem barred_of_bars (h : s.Bars group entry e) : (s.step e).Barred group entry := by
  cases e <;> grind [Bars, Barred, step]

theorem barred_step (h : s.Barred group entry) (hcalm : s.Calm e) (hlifts : ¬Lifts group entry e) :
    (s.step e).Barred group entry := by
  cases e with
  | onDeparture x =>
    by_cases hentry : entry = x
    · exact .inr (.inl (hentry ▸ hcalm))
    · exact h.imp_left fun hout => List.mem_filter.mpr ⟨hout, decide_eq_true hentry⟩
  | forgetOptOuts g =>
    rw [step]
    split
    · exact h
    · next hgone =>
      by_cases hgroup : group = g
      · exact .inr (.inr (hgroup ▸ hgone))
      · exact h.imp_left fun hout => List.mem_filter.mpr ⟨hout, decide_eq_true hgroup⟩
  | _ => grind [step, admitMember, removeMembership, Barred, Lifts]

/-- What the pass goes by still holds: the group stands, whoever it may admit has not opted out, and whom it has chosen
is active. -/
structure PassCurrent (s : Groups) (p : Pass) : Prop where
  group : s.Stands p.group
  optOuts : ∀ entry, p.mayAdmit entry → (p.group, entry) ∉ s.optOuts
  active : ∀ entry ∈ p.wanted, entry ∈ s.active

structure Current (s : Groups) : Prop where
  passes : ∀ p ∈ s.passes, s.PassCurrent p
  joins : ∀ j ∈ s.joins, s.Stands j.1
  placed : s.Placed

theorem PassCurrent.read {p : Pass} (h : s.PassCurrent p) (admitted : List String) :
    s.PassCurrent (p.read s admitted) := by
  cases p with
  | begun group =>
    refine ⟨h.group, fun entry hadmit hout => hadmit ?_, nofun⟩
    exact List.mem_map.mpr ⟨(group, entry), List.mem_filter.mpr ⟨hout, decide_eq_true rfl⟩, rfl⟩
  | excluding =>
    refine ⟨h.group, fun entry hadmit => h.optOuts entry ?_, fun entry hwanted => (List.mem_filter.mp hwanted).1⟩
    exact (of_decide_eq_true (List.mem_filter.mp hadmit).2).1
  | wanting => exact ⟨h.group, h.optOuts, h.active⟩
  | ready => exact h

/-- A pass still goes by what holds, so whom it wants is not barred. -/
theorem Current.not_barred {wanted : List String} {held : List Membership} (h : s.Current)
    (hwants : s.Wants group wanted held entry) : ¬s.Barred group entry := by
  have hpass := h.passes _ hwants.1
  rintro (hout | hleft | hgone)
  · exact hpass.optOuts entry hwants.2.1 hout
  · exact hleft (hpass.active entry hwants.2.1)
  · exact hgone hpass.group.1

theorem passCurrent_step (h : s.Current) (hcalm : s.Calm e) : ∀ p ∈ (s.step e).passes, (s.step e).PassCurrent p := by
  have hpasses := h.passes
  cases e with
  | read p admitted =>
    rw [step]
    split
    · next hp =>
      intro q hq
      rcases List.mem_cons.mp hq with rfl | hq
      · exact { (hpasses p hp).read admitted with }
      · exact { hpasses q (List.mem_of_mem_erase hq) with }
    · exact hpasses
  | _ => grind [step, admitMember, removeMembership, PassCurrent, Stands, Calm, Pass.mayAdmit, Pass.wanted, Pass.group]

theorem Placed.admitMember (h : s.Placed) (hstands : s.Stands group) : (s.admitMember group entry).Placed := by
  rw [Groups.admitMember]
  split
  · exact h
  · intro m hm
    rcases List.mem_cons.mp hm with rfl | hm
    · exact ⟨hstands.1, fun d hd heq => absurd heq (hstands.2 d hd)⟩
    · exact h m hm

theorem placed_step (h : s.Current) : (s.step e).Placed := by
  have hplaced := h.placed
  cases e with
  | admits =>
    rw [step]
    split
    · next hwants => exact hplaced.admitMember (h.passes _ hwants.1).group
    · exact hplaced
  | joined group entry issued =>
    rw [step]
    split
    · next hjoin =>
      cases issued
      · exact hplaced
      · exact Placed.admitMember hplaced (h.joins _ hjoin)
    · exact hplaced
  | removeMember => grind [step, removeMembership, Placed, List.mem_of_mem_erase]
  | removeGroup => grind [step, Placed, List.mem_of_mem_erase]
  | _ => grind [step, removeMembership, Placed]

theorem Current.step (h : s.Current) (hcalm : s.Calm e) : (s.step e).Current where
  passes := passCurrent_step h hcalm
  joins := by
    have hjoins := h.joins
    cases e <;> grind [Groups.step, admitMember, removeMembership, Stands, Calm]
  placed := placed_step h

end

/-- Two members, and a group whose rule admits both. -/
def club : Groups where
  groups := ["club"]
  active := ["ada", "bob"]

/-- A pass reads what it needs, `meanwhile` happens, and then it admits Ada. -/
def admittedAfter (meanwhile : List GroupEvent) : List Membership :=
  let reads : List GroupEvent := [.recompute "club", .read (.begun "club") [],
    .read (.excluding "club" []) ["ada", "bob"], .read (.wanting "club" ["ada", "bob"]) []]
  (run step club (reads ++ meanwhile ++ [.admits "club" ["ada", "bob"] [] "ada"])).members

end Groups
end TrustInfrastructure.Community
