import TrustInfrastructure.Registry.Syncer

/-!
# What the registry comes to say

The dispatcher decides from its mirror. The mirror says what the registry holds as long as a call that reports an error
had no effect, and every call that took effect is mirrored (`Calm`). Along such runs a member that does not consent, or
has left, has no active record once no job of it is left (`withdrawn_has_no_record`); otherwise a record that nobody
remembers stays, since the job that would remove it finds no mirror row and is skipped (`record_stays_published`).

Jobs carry no membership. So a removal's job that is still to come when its member joins again takes the new
membership's record away (`rejoined_loses_record`); along the runs in which none is, and no job of the member that was
given up is discarded, a drained queue leaves the registry saying what the community says (`drained_queue_agrees`).

Both rest on one invariant (`Settled`): of the kinds of job that govern a member's record as its row is now, one is
still to come, or the registry is where it should be, or will be once the call under way has ended.
-/

namespace TrustInfrastructure.Registry

open Lib

def live (row : Option Member) : Bool := row.any (!·.isRemoved)

def publishes (row : Option Member) : Bool := row.any fun member => !member.isRemoved && member.publishConsent

def Departing (kind : SyncJobKind) : Prop := kind = .deleteMember ∨ kind = .markDeparted

def Governs (row : Option Member) (kind : SyncJobKind) : Prop := Departing kind ↔ live row = false

/-- Every call that took effect reports success or ends with the process, and is mirrored; no other one is. -/
def Calm : Event → Prop
  | .answer (.done mirrored) => mirrored = true
  | .answer (.error landed _ _) => landed = false
  | .answer (.crash landed mirrored) => landed = mirrored
  | _ => True

instance : DecidablePred Calm := fun event => by
  unfold Calm
  split <;> infer_instance

/-- A job of the member that satisfies `K`, of its id and kind, is to come: it is stored, or its envelope is still to be
walked. -/
def Outstanding (settings : Settings) (s : Syncer) (did : String) (K : Nat → SyncJobKind → Prop) : Prop :=
  (∃ envelope ∈ s.unwalked, ∃ kind parked,
    auditToSyncJob settings.floor envelope = some (kind, did, parked) ∧ K envelope.eventId kind) ∨
  ∃ job ∈ s.queue, job.memberDid = did ∧ K job.id job.kind

/-- The call under way, if it is for the member. -/
def Current (s : Syncer) (did : String) (job : SyncJob) (action : SyncAction) : Prop :=
  s.current = some (job, action) ∧ job.memberDid = did

/-- A job of the member that satisfies `K` is to come or under way. -/
def Present (settings : Settings) (s : Syncer) (did : String) (K : Nat → SyncJobKind → Prop) : Prop :=
  Outstanding settings s did K ∨ ∃ job action, Current s did job action ∧ K job.id job.kind

/-- No job of the member is left. -/
def Drained (settings : Settings) (s : Syncer) (did : String) : Prop := ¬ Present settings s did fun _ _ => True

/-- One of these jobs is to come, or the registry satisfies `A` or will: the call under way leads there, and its job
comes again if it fails. -/
def Settled (settings : Settings) (s : Syncer) (did : String) (A : Option RegistryStatus → Prop)
    (K : Nat → SyncJobKind → Prop) : Prop :=
  Outstanding settings s did K ∨
    (∀ job action, Current s did job action → A action.result) ∧
      (A (s.registry did) ∨ ∃ job action, Current s did job action ∧ K job.id job.kind)

/-- What a job of this kind does brings about `A`, if it is one of those that should (`k`) or if `A` holds already. -/
def Fits (row : Option Member) (A : Option RegistryStatus → Prop) (k : Prop) (kind : SyncJobKind)
    (publishOnJoin : Bool) : Prop :=
  ∀ record, match resolve row record kind publishOnJoin with
    | .skip => k → A record
    | action => k ∨ A record → A action.result

section
variable {settings : Settings} {s s' : Syncer} {did : String} {A : Option RegistryStatus → Prop}
  {K K' : Nat → SyncJobKind → Prop}

theorem Outstanding.mono (h : Outstanding settings s did K) (hunwalked : s.unwalked ⊆ s'.unwalked)
    (hqueue : s.queue ⊆ s'.queue) : Outstanding settings s' did K := by
  rcases h with ⟨envelope, hmem, h⟩ | ⟨job, hmem, h⟩
  · exact .inl ⟨envelope, hunwalked hmem, h⟩
  · exact .inr ⟨job, hqueue hmem, h⟩

theorem Outstanding.imp (h : Outstanding settings s did K) (himp : ∀ id kind, K id kind → K' id kind) :
    Outstanding settings s did K' := by
  rcases h with ⟨envelope, hmem, kind, parked, hjob, h⟩ | ⟨job, hmem, hdid, h⟩
  · exact .inl ⟨envelope, hmem, kind, parked, hjob, himp _ _ h⟩
  · exact .inr ⟨job, hmem, hdid, himp _ _ h⟩

theorem Present.imp (h : Present settings s did K) (himp : ∀ id kind, K id kind → K' id kind) :
    Present settings s did K' :=
  Or.imp (·.imp himp) (fun ⟨job, action, hnow, h⟩ => ⟨job, action, hnow, himp _ _ h⟩) h

theorem drained_of_empty (hunwalked : s.unwalked = []) (hqueue : s.queue = []) (hcurrent : s.current = none) :
    Drained settings s did := by
  simp [Drained, Present, Outstanding, Current, hunwalked, hqueue, hcurrent]

theorem Settled.mono (h : Settled settings s did A K) (hunwalked : s.unwalked ⊆ s'.unwalked)
    (hqueue : s.queue ⊆ s'.queue) (hregistry : s'.registry did = s.registry did) (hcurrent : s'.current = s.current) :
    Settled settings s' did A K := by
  refine h.imp (fun h => h.mono hunwalked hqueue) fun h => ?_
  unfold Current at *
  rwa [hregistry, hcurrent]

theorem Settled.done (h : Settled settings s did A K) (hdone : ¬ Present settings s did K) : A (s.registry did) := by
  rcases h with h | ⟨-, h | h⟩
  · exact absurd (.inl h) hdone
  · exact h
  · exact absurd (.inr h) hdone

/-! ### What each step keeps -/

theorem outstanding_record {actor : String} {row : Option Member} {event : AuditEvent} {kind : SyncJobKind}
    {parked : Bool}
    (hjob : auditToSyncJob settings.floor ⟨s.nextId, s.now, event, some actor, some did⟩ = some (kind, did, parked))
    (hkind : K s.nextId kind) : Outstanding settings (s.record did actor row event) did K :=
  .inl ⟨_, List.mem_append_right _ (List.mem_singleton.mpr rfl), kind, parked, hjob, hkind⟩

theorem settled_record {target actor : String} {row : Option Member} {event : AuditEvent}
    (h : Settled settings s did A K) : Settled settings (s.record target actor row event) did A K :=
  h.mono (List.subset_append_left _ _) (fun _ h => h) rfl rfl

theorem settled_walk (h : Settled settings s did A K) : Settled settings (s.walk settings) did A K := by
  rcases h with (⟨envelope, hmem, kind, parked, hjob, hkind⟩ | ⟨job, hmem, h⟩) | h
  · obtain ⟨job, hstored, h⟩ : ∃ job, jobOf settings s.now envelope = some job ∧ job.memberDid = did ∧
        K job.id job.kind := ⟨_, by rw [jobOf, hjob, Option.map_some], rfl, hkind⟩
    exact .inl (.inr ⟨job, List.mem_append_right _ (List.mem_filterMap.mpr ⟨envelope, hmem, hstored⟩), h⟩)
  · exact .inl (.inr ⟨job, List.mem_append_left _ hmem, h⟩)
  · exact .inr h

theorem settled_dispatch {i : Nat} {job : SyncJob} {publishOnJoin : Bool} (h : Settled settings s did A K)
    (hmirror : s.mirror = s.registry) (hcurrent : s.current = none) (hi : s.queue[i]? = some job)
    (hfits : job.memberDid = did → Fits (s.members did) A (K job.id job.kind) job.kind publishOnJoin) :
    Settled settings (s.dispatch i job
      (resolve (s.members job.memberDid) (s.mirror job.memberDid) job.kind publishOnJoin)) did A K := by
  obtain ⟨hlt, hget⟩ := List.getElem?_eq_some_iff.mp hi
  -- the job that is taken may have been the one to come
  have hleft : Outstanding settings { s with queue := s.queue.eraseIdx i } did K ∨
      job.memberDid = did ∧ K job.id job.kind ∨ A (s.registry did) := by
    rcases h with (⟨envelope, hmem, h⟩ | ⟨job', hmem, h⟩) | ⟨-, h | ⟨job, action, h, -⟩⟩
    · exact .inl (.inl ⟨envelope, hmem, h⟩)
    · rcases List.mem_cons.mp ((List.getElem_cons_eraseIdx_perm hlt).mem_iff.mpr hmem) with heq | hmem
      · obtain rfl := heq.trans hget
        exact .inr (.inl h)
      · exact .inl (.inr ⟨job', hmem, h⟩)
    · exact .inr (.inr h)
    · cases hcurrent.symm.trans h.1
  rw [hmirror]
  generalize haction : resolve (s.members job.memberDid) (s.registry job.memberDid) job.kind publishOnJoin = action
  have hbrings (hdid : job.memberDid = did) : if action = .skip then K job.id job.kind → A (s.registry did)
      else K job.id job.kind ∨ A (s.registry did) → A action.result := by
    subst hdid
    have hfits := hfits rfl (s.registry job.memberDid)
    rw [haction] at hfits
    cases action <;> exact hfits
  refine hleft.imp (fun h => h.mono (fun _ h => h) fun _ h => h) fun h => ⟨fun job' action' hnow => ?_, ?_⟩
  · by_cases hskip : action = .skip
    · simp [Current, Syncer.dispatch, hskip] at hnow
    · obtain ⟨hnow, hdid⟩ := hnow
      rw [Syncer.dispatch, if_neg hskip] at hnow
      cases hnow
      have hbrings := hbrings hdid
      rw [if_neg hskip] at hbrings
      exact hbrings (h.imp_left And.right)
  · rcases h with ⟨hdid, hkind⟩ | h
    · by_cases hskip : action = .skip
      · have hbrings := hbrings hdid
        rw [if_pos hskip] at hbrings
        exact .inl (hbrings hkind)
      · exact .inr ⟨_, _, ⟨if_neg hskip, hdid⟩, hkind⟩
    · exact .inl h

theorem settled_discard {id : Nat} (h : Settled settings s did A K)
    (hkept : ∀ job ∈ s.queue, job.id = id → job.state = .failed → job.memberDid = did → ¬ K job.id job.kind) :
    Settled settings (s.discard id) did A K := by
  refine h.imp_left (Or.imp_right fun ⟨job, hmem, hdid, hkind⟩ => ?_)
  refine ⟨job, List.mem_filter.mpr ⟨hmem, decide_eq_true fun hgone => ?_⟩, hdid, hkind⟩
  exact hkept job hmem hgone.1 hgone.2 hdid hkind

theorem recordError_same (job : SyncJob) (now : Nat) (retriable : Bool) (jitter : Nat) :
    let job' := job.recordError now retriable jitter
    job'.memberDid = job.memberDid ∧ job'.id = job.id ∧ job'.kind = job.kind := by
  unfold SyncJob.recordError SyncJob.recordFailure
  dsimp only
  split
  · split <;> exact ⟨rfl, rfl, rfl⟩
  · exact ⟨rfl, rfl, rfl⟩

theorem settled_answer {job : SyncJob} {action : SyncAction} {reply : Reply} (h : Settled settings s did A K)
    (hcurrent : s.current = some (job, action)) (hcalm : Calm (.answer reply)) :
    Settled settings (s.answer job action reply) did A K := by
  -- with an effect the registry is where the call led; without one the job comes again
  have hcalled : Outstanding settings s did K ∨ A (Function.update s.registry job.memberDid action.result did) := by
    refine h.imp_right fun ⟨hresult, h⟩ => ?_
    by_cases hdid : job.memberDid = did
    · subst hdid
      rw [Function.update_self]
      exact hresult job action ⟨hcurrent, rfl⟩
    · rw [Function.update_of_ne (Ne.symm hdid)]
      refine h.resolve_right fun ⟨job', action', hnow, _⟩ => ?_
      cases hcurrent.symm.trans hnow.1
      exact hdid hnow.2
  have hagain (job' : SyncJob) (hsame : job'.memberDid = job.memberDid ∧ job'.id = job.id ∧ job'.kind = job.kind) :
      Outstanding settings { s with queue := s.queue ++ [job'] } did K ∨ A (s.registry did) := by
    rcases h with h | ⟨-, h | ⟨job'', action', hnow, hkind⟩⟩
    · exact .inl (h.mono (fun _ h => h) (List.subset_append_left _ _))
    · exact .inr h
    · cases hcurrent.symm.trans hnow.1
      refine .inl (.inr ⟨job', List.mem_append_right _ (List.mem_singleton.mpr rfl), ?_⟩)
      rw [hsame.1, hsame.2.1, hsame.2.2]
      exact ⟨hnow.2, hkind⟩
  have hended {s' : Syncer} (hended : s'.current = none) (h : Outstanding settings s' did K ∨ A (s'.registry did)) :
      Settled settings s' did A K := by
    refine h.imp_right fun h => ⟨fun job action hnow => ?_, .inl h⟩
    cases hended.symm.trans hnow.1
  cases reply with
  | done => exact hended rfl (hcalled.imp_left fun h => h.mono (fun _ h => h) fun _ h => h)
  | error =>
    cases hcalm
    exact hended rfl ((hagain _ (recordError_same _ _ _ _)).imp_left fun h => h.mono (fun _ h => h) fun _ h => h)
  | crash landed =>
    cases hcalm
    cases landed with
    | true => exact hended rfl (hcalled.imp_left fun h => h.mono (fun _ h => h) (List.subset_append_left _ _))
    | false =>
      exact hended rfl ((hagain { job with state := .pending } ⟨rfl, rfl, rfl⟩).imp_left
        fun h => h.mono (fun _ h => h) fun _ h => h)

theorem mirror_answer {job : SyncJob} {action : SyncAction} {reply : Reply} (hmirror : s.mirror = s.registry)
    (hcalm : Calm (.answer reply)) : (s.answer job action reply).mirror = (s.answer job action reply).registry := by
  cases reply with
  | done | crash =>
    cases hcalm
    simp [Syncer.answer, hmirror]
  | error =>
    cases hcalm
    exact hmirror

/-! ### What a step is -/

/-- What is written for an event: the row as it was or an envelope for a job that governs it; an envelope for a job of a
member that left only with a row that is not live; a live row only for a member that was, or that joins. -/
structure Entry (settings : Settings) (s : Syncer) (e : Event) (target actor : String) (row : Option Member)
    (event : AuditEvent) : Prop where
  governs : row = s.members target ∨ ∃ kind parked,
    auditToSyncJob settings.floor ⟨s.nextId, s.now, event, some actor, some target⟩ = some (kind, target, parked) ∧
      Governs row kind
  departs : ∀ kind did parked,
    auditToSyncJob settings.floor ⟨s.nextId, s.now, event, some actor, some target⟩ = some (kind, did, parked) →
      did = target ∧ (Departing kind → live row = false)
  joins : live row = true → live (s.members target) = true ∨ ∃ consent, e = .join target consent

inductive Stepped (settings : Settings) (s : Syncer) (e : Event) : Syncer → Prop
  | wait (seconds : Nat) : Stepped settings s e { s with now := s.now + seconds }
  | entry (target actor : String) (row : Option Member) (event : AuditEvent)
      (h : Entry settings s e target actor row event) : Stepped settings s e (s.record target actor row event)
  | walk : Stepped settings s e (s.walk settings)
  | dispatch (i : Nat) (publishOnJoin : Bool) (job : SyncJob) (he : e = .dispatch i publishOnJoin)
      (hcurrent : s.current = none) (hi : s.queue[i]? = some job) :
      Stepped settings s e
        (s.dispatch i job (resolve (s.members job.memberDid) (s.mirror job.memberDid) job.kind publishOnJoin))
  | answer (reply : Reply) (job : SyncJob) (action : SyncAction) (he : e = .answer reply)
      (hcurrent : s.current = some (job, action)) : Stepped settings s e (s.answer job action reply)
  | discard (id : Nat) (he : e = .discard id) : Stepped settings s e (s.discard id)

theorem departed_not_live {member : Member} {disposition : String} {row : Option Member}
    (h : Syncer.departed member disposition = some row) : live row = false := by
  unfold Syncer.departed at h
  split at h
  · cases h
    rfl
  · split at h
    · cases h
    · cases h
      rfl

theorem removalKind_departing (floor : Option String) (actor target disposition : String) :
    Departing (removalKind floor actor target disposition).1 :=
  ite_eq_or_eq _ _ _

theorem stepped (settings : Settings) (s : Syncer) (e : Event) : Stepped settings s e (s.step settings e) := by
  have hidle : Stepped settings s e s := .wait 0
  cases e with
  | wait seconds => exact .wait seconds
  | join did consent =>
    refine .entry did did _ _ ⟨.inr ⟨.publishMember, false, rfl, ?_⟩, ?_, fun _ => .inr ⟨consent, rfl⟩⟩
    · simp [Governs, Departing, live]
    · rintro kind target parked ⟨⟩
      exact ⟨rfl, nofun⟩
  | setConsent did =>
    simp only [Syncer.step]
    split
    · next before hrow =>
      refine .entry did did _ _ ⟨.inr ⟨.updateMember, false, by simp [auditToSyncJob], ?_⟩, ?_, fun _ => .inl ?_⟩
      · simp [Governs, Departing, live]
      · intro kind target parked hjob
        obtain ⟨rfl, rfl, -⟩ : kind = .updateMember ∧ target = did ∧ _ := by simpa [auditToSyncJob, eq_comm] using hjob
        exact ⟨rfl, nofun⟩
      · rw [hrow]
        rfl
    · exact hidle
  | leave did actor =>
    simp only [Syncer.step]
    split
    · next row hrow =>
      obtain ⟨member, -, hrow⟩ := Option.bind_eq_some_iff.mp hrow
      have hgone := departed_not_live hrow
      refine .entry did actor row _ ⟨.inr ⟨_, _, rfl, ?_⟩, ?_, fun h => absurd h (by simp [hgone])⟩
      · exact iff_of_true (removalKind_departing _ _ _ _) hgone
      · rintro kind target parked ⟨⟩
        exact ⟨rfl, fun _ => hgone⟩
    · exact hidle
  | touch did event =>
    have hwrites (event : AuditEvent) (h : ∀ kind target parked,
        auditToSyncJob settings.floor ⟨s.nextId, s.now, event, some did, some did⟩ = some (kind, target, parked) →
          target = did ∧ kind = .updateMember) :
        Stepped settings s (.touch did event) (s.record did did (s.members did) event) := by
      refine .entry did did _ event ⟨.inl rfl, fun kind target parked hjob => ?_, .inl⟩
      obtain ⟨htarget, rfl⟩ := h kind target parked hjob
      exact ⟨htarget, nofun⟩
    cases event with
    | roleChanged | directoryCardPublication => exact hwrites _ (by rintro kind target parked ⟨⟩; exact ⟨rfl, rfl⟩)
    | other => exact hwrites _ nofun
    | memberAdded | memberRemoved | memberUpdated => exact hidle
  | walk => exact .walk
  | dispatch i publishOnJoin =>
    simp only [Syncer.step]
    split
    · next job hcurrent hi =>
      split
      · exact .dispatch i publishOnJoin job rfl hcurrent hi
      · exact hidle
    · exact hidle
  | answer reply =>
    simp only [Syncer.step]
    split
    · next job action hcurrent => exact .answer reply job action rfl hcurrent
    · exact hidle
  | discard id => exact .discard id rfl

section
variable {e : Event} (hstep : Stepped settings s e s')
include hstep

theorem Stepped.mirror (hmirror : s.mirror = s.registry) (hcalm : Calm e) : s'.mirror = s'.registry := by
  cases hstep with
  | answer _ _ _ he => exact mirror_answer hmirror (he ▸ hcalm)
  | _ => exact hmirror

theorem Stepped.settled (h : Settled settings s did A K) (hmirror : s.mirror = s.registry) (hcalm : Calm e)
    (hfits : ∀ i publishOnJoin, e = .dispatch i publishOnJoin → ∀ job ∈ s.queue, job.memberDid = did →
      Fits (s.members did) A (K job.id job.kind) job.kind publishOnJoin)
    (hkept : ∀ id, e = .discard id → ∀ job ∈ s.queue, job.id = id → job.state = .failed → job.memberDid = did →
      ¬ K job.id job.kind) : Settled settings s' did A K := by
  cases hstep with
  | wait => exact h
  | entry => exact settled_record h
  | walk => exact settled_walk h
  | dispatch i publishOnJoin job he hcurrent hi =>
    exact settled_dispatch h hmirror hcurrent hi (hfits i publishOnJoin he job (List.mem_of_getElem? hi))
  | answer _ _ _ he hcurrent => exact settled_answer h hcurrent (he ▸ hcalm)
  | discard id he => exact settled_discard h (hkept id he)

theorem Stepped.row (did : String) : s'.members did = s.members did ∨
      Outstanding settings s' did fun id kind => id = s.nextId ∧ Governs (s'.members did) kind := by
  cases hstep with
  | entry target actor row event h =>
    by_cases hdid : did = target
    · subst hdid
      have hrow : (s.record did actor row event).members did = row := by simp [Syncer.record]
      rw [hrow]
      refine h.governs.imp_right fun ⟨kind, parked, hjob, hgoverns⟩ => ?_
      exact outstanding_record hjob ⟨rfl, hgoverns⟩
    · exact .inl (by simp [Syncer.record, hdid])
  | answer reply => cases reply <;> exact .inl rfl
  | _ => exact .inl rfl

end

/-! ### Members that are not published -/

theorem fits_unpublished {row : Option Member} {k : Prop} {kind : SyncJobKind} {publishOnJoin : Bool}
    (hrow : publishes row = false) (hk : k → Governs row kind) :
    Fits row (· ≠ some .active) k kind publishOnJoin := by
  intro record
  cases kind with
  | deleteMember | markDeparted => cases record <;> simp [resolve, SyncAction.result]
  | publishMember | updateMember =>
    have hlive (h : k) : live row = true := by simpa [Governs, Departing] using hk h
    rcases row with _ | ⟨consent, _ | _⟩
    · exact fun h => nomatch hlive h
    · cases consent
      · cases record <;> simp [resolve, SyncAction.result]
      · cases hrow
    · exact fun h => nomatch hlive h

end

/-- Once the job is done that a member's last change caused, and was not given up and discarded, the registry has no
active record of a member that does not consent or has left. -/
theorem withdrawn_has_no_record (settings : Settings) (did : String) (before after : List Event) (change : Event)
    (hcalm : ∀ e ∈ before ++ change :: after, Calm e)
    (hchange : (Syncer.reached settings (before ++ [change])).members did ≠
      (Syncer.reached settings before).members did)
    (hlast : Along (Syncer.step settings) (fun s e => (s.step settings e).members did = s.members did)
      (Syncer.reached settings (before ++ [change])) after)
    (hrow : publishes ((Syncer.reached settings (before ++ [change])).members did) = false)
    (hkept : .discard (Syncer.reached settings before).nextId ∉ after)
    (hdone : ¬ Present settings (Syncer.reached settings (before ++ change :: after)) did
      fun id _ => id = (Syncer.reached settings before).nextId) :
    (Syncer.reached settings (before ++ change :: after)).registry did ≠ some .active := by
  unfold Syncer.reached at *
  rw [run_append, run_cons] at hdone ⊢
  rw [run_concat] at hchange hlast hrow
  have hmirror : (run (Syncer.step settings) .start before).mirror =
    (run (Syncer.step settings) .start before).registry :=
    run_induction (I := fun s => s.mirror = s.registry) (P := fun _ e => Calm e) rfl
      (along_of_forall fun e he _ => hcalm e (List.mem_append_left _ he))
      fun s e h hcalm => (stepped settings s e).mirror h hcalm
  generalize hs : run (Syncer.step settings) .start before = s at *
  generalize hrow' : (s.step settings change).members did = row at *
  have hcaused : Outstanding settings (s.step settings change) did fun id kind => id = s.nextId ∧ Governs row kind := by
    rcases (stepped settings s change).row did with h | h
    · exact absurd (hrow'.symm.trans h) hchange
    · rwa [hrow'] at h
  have hcalm' : Along (Syncer.step settings) (fun _ e => Calm e ∧ e ≠ .discard s.nextId)
    (s.step settings change) after :=
    along_of_forall fun e he _ => ⟨hcalm e (by simp [he]), fun heq => hkept (heq ▸ he)⟩
  obtain ⟨-, -, hsettled⟩ := run_induction (I := fun s' => s'.members did = row ∧ s'.mirror = s'.registry ∧
      Settled settings s' did (· ≠ some .active) fun id kind => id = s.nextId ∧ Governs row kind)
    ⟨hrow', (stepped settings s change).mirror hmirror (hcalm change (by simp)), .inl hcaused⟩
    (hlast.and hcalm') fun s' e ⟨hsame, hmirror, h⟩ ⟨hkeeps, hcalm, hkept⟩ =>
      ⟨hkeeps.trans hsame, (stepped settings s' e).mirror hmirror hcalm, (stepped settings s' e).settled h hmirror hcalm
        (fun _ _ _ job _ _ => hsame.symm ▸ fits_unpublished hrow And.right)
        fun id he job _ hid _ _ hkind => hkept (he.trans (congrArg _ (hid.symm.trans hkind.1)))⟩
  exact hsettled.done fun h => hdone (h.imp fun _ _ => And.left)

/-- A member that consents to be published, and then no longer. -/
def consentWithdrawn (reply : Reply) : List Event :=
  [.join "did:m" true, .walk, .dispatch 0 true, .answer reply, .setConsent "did:m" false, .walk, .dispatch 0 true,
    .answer (.done true), .wait 3600, .dispatch 0 true, .dispatch 0 true]

theorem withdrawn_has_no_record_consentWithdrawn :
    (Syncer.reached ⟨none, 24⟩ (consentWithdrawn (.done true))).registry "did:m" ≠ some .active := by
  refine withdrawn_has_no_record ⟨none, 24⟩ "did:m" [.join "did:m" true, .walk, .dispatch 0 true, .answer (.done true)]
    [.walk, .dispatch 0 true, .answer (.done true), .wait 3600, .dispatch 0 true, .dispatch 0 true]
      (.setConsent "did:m" false)
    (by decide) (by decide +kernel) (by decide +kernel) (by decide +kernel) (by decide) fun h => ?_
  exact drained_of_empty (by decide +kernel) (by decide +kernel) (by decide +kernel) (h.imp fun _ _ _ => trivial)

/-- The publication took effect and reported an error. The job of the withdrawn consent then finds no mirror row and is
skipped, the publication is not retried, and the record stays. -/
theorem record_stays_published :
    let s := Syncer.reached ⟨none, 24⟩ (consentWithdrawn (.error true true 0))
    Drained ⟨none, 24⟩ s "did:m" ∧ publishes (s.members "did:m") = false ∧ s.registry "did:m" = some .active :=
  ⟨drained_of_empty (by decide +kernel) (by decide +kernel) (by decide +kernel), by decide +kernel, by decide +kernel⟩

/-! ### The registry says what the community says -/

/-- Calls are exact and the policy allows publication. The member joins when no job of an earlier departure of it is
left, and no job of it that was given up is discarded. -/
def Orderly (settings : Settings) (did : String) (s : Syncer) (e : Event) : Prop :=
  Calm e ∧ match e with
    | .join target _ => target = did → ¬ Present settings s did fun _ => Departing
    | .dispatch _ publishOnJoin => publishOnJoin = true
    | .discard id => ∀ job ∈ s.queue, job.id = id → job.state = .failed → job.memberDid ≠ did
    | _ => True

def Agrees (row : Option Member) (record : Option RegistryStatus) : Prop :=
  record = some .active ↔ publishes row = true

section
variable {settings : Settings} {s s' : Syncer} {did : String} {e : Event}

theorem fits_agrees {row : Option Member} {k : Prop} {kind : SyncJobKind} (hk : k → Governs row kind)
    (hdeparting : live row = true → ¬ Departing kind) : Fits row (Agrees row) k kind true := by
  cases hrow : publishes row with
  | false =>
    have hA : Agrees row = (· ≠ some .active) := by
      funext record
      simp [Agrees, hrow]
    rw [hA]
    exact fits_unpublished hrow hk
  | true =>
    obtain ⟨member, rfl, hmember⟩ := (Option.any_eq_true _ row).mp hrow
    obtain ⟨consent, removed⟩ := member
    obtain ⟨rfl, rfl⟩ : removed = false ∧ consent = true := by simpa using hmember
    intro record
    cases kind with
    | publishMember | updateMember => simp [resolve, SyncAction.result, Agrees, publishes]
    | deleteMember => exact absurd (.inl rfl) (hdeparting rfl)
    | markDeparted => exact absurd (.inr rfl) (hdeparting rfl)

theorem fits_purged {row : Option Member} {kind : SyncJobKind} {publishOnJoin : Bool} (hrow : live row = false) :
    Fits row (· = none) (kind = .deleteMember) kind publishOnJoin := by
  intro record
  cases kind with
  | deleteMember | markDeparted => cases record <;> simp [resolve, SyncAction.result]
  | publishMember | updateMember =>
    rcases row with _ | ⟨consent, _ | _⟩
    · exact nofun
    · cases hrow
    · exact nofun

theorem Stepped.joins (hstep : Stepped settings s e s') (hlive : live (s'.members did) = true) :
    live (s.members did) = true ∨ ∃ consent, e = .join did consent := by
  cases hstep with
  | entry target _ _ _ h =>
    by_cases hdid : did = target
    · subst hdid
      exact h.joins (by simpa [Syncer.record] using hlive)
    · exact .inl (by simpa [Syncer.record, hdid] using hlive)
  | answer reply => cases reply <;> exact .inl hlive
  | _ => exact .inl hlive

theorem Stepped.departing (hstep : Stepped settings s e s') (h : Present settings s' did fun _ => Departing) :
    Present settings s did (fun _ => Departing) ∨ live (s'.members did) = false := by
  cases hstep with
  | wait => exact .inl h
  | entry _ _ _ _ hentry =>
    rcases h with (⟨envelope, hmem, kind, parked, hjob, h⟩ | h) | h
    · rcases List.mem_append.mp hmem with hmem | hmem
      · exact .inl (.inl (.inl ⟨envelope, hmem, kind, parked, hjob, h⟩))
      · obtain rfl := List.mem_singleton.mp hmem
        obtain ⟨rfl, hgone⟩ := hentry.departs kind did parked hjob
        exact .inr (by simpa [Syncer.record] using hgone h)
    · exact .inl (.inl (.inr h))
    · exact .inl (.inr h)
  | walk =>
    rcases h with (⟨envelope, hmem, -⟩ | ⟨job, hmem, hdid, h⟩) | h
    · cases hmem
    · rcases List.mem_append.mp hmem with hmem | hmem
      · exact .inl (.inl (.inr ⟨job, hmem, hdid, h⟩))
      · obtain ⟨envelope, hwalked, hstored⟩ := List.mem_filterMap.mp hmem
        obtain ⟨⟨kind, target, parked⟩, hjob, rfl⟩ := Option.map_eq_some_iff.mp hstored
        exact .inl (.inl (.inl ⟨envelope, hwalked, kind, parked, hdid ▸ hjob, h⟩))
    · exact .inl (.inr h)
  | dispatch _ _ job _ _ hi =>
    rcases h with (h | ⟨job, hmem, h⟩) | ⟨job', action, ⟨hnow, hdid⟩, h⟩
    · exact .inl (.inl (.inl h))
    · exact .inl (.inl (.inr ⟨job, List.mem_of_mem_eraseIdx hmem, h⟩))
    · unfold Syncer.dispatch at hnow
      split at hnow
      · cases hnow
      · cases hnow
        exact .inl (.inl (.inr ⟨job, List.mem_of_getElem? hi, hdid, h⟩))
  | answer reply job action _ hcurrent =>
    -- the call is over, and its job is stored again unless it succeeded
    have hagain (job' : SyncJob) (hsame : job'.memberDid = job.memberDid ∧ job'.id = job.id ∧ job'.kind = job.kind)
        (h : Outstanding settings { s with queue := s.queue ++ [job'] } did fun _ => Departing) :
        Present settings s did fun _ => Departing := by
      rcases h with h | ⟨job'', hmem, hdid, h⟩
      · exact .inl (.inl h)
      · rcases List.mem_append.mp hmem with hmem | hmem
        · exact .inl (.inr ⟨job'', hmem, hdid, h⟩)
        · obtain rfl := List.mem_singleton.mp hmem
          rw [hsame.1] at hdid
          rw [hsame.2.2] at h
          exact .inr ⟨job, action, ⟨hcurrent, hdid⟩, h⟩
    refine .inl ?_
    cases reply with
    | done =>
      rcases h with h | ⟨job', action', hnow, -⟩
      · exact .inl h
      · cases hnow.1
    | error =>
      rcases h with h | ⟨job', action', hnow, -⟩
      · exact hagain _ (recordError_same _ _ _ _) h
      · cases hnow.1
    | crash =>
      rcases h with h | ⟨job', action', hnow, -⟩
      · exact hagain { job with state := .pending } ⟨rfl, rfl, rfl⟩ h
      · cases hnow.1
  | discard =>
    rcases h with (h | ⟨job, hmem, h⟩) | h
    · exact .inl (.inl (.inl h))
    · exact .inl (.inl (.inr ⟨job, List.mem_of_mem_filter hmem, h⟩))
    · exact .inl (.inr h)

end

section
variable {settings : Settings} {did : String} {s : Syncer} {e : Event} {events : List Event}

theorem Orderly.kept (h : Orderly settings did s e) {id : Nat} (he : e = .discard id) {job : SyncJob}
    (hmem : job ∈ s.queue) (hid : job.id = id) (hfailed : job.state = .failed) : job.memberDid ≠ did := by
  subst he
  exact h.2 job hmem hid hfailed

/-- What holds of a member along its orderly runs. -/
structure Agreeing (settings : Settings) (did : String) (s : Syncer) : Prop where
  mirror : s.mirror = s.registry
  departing : live (s.members did) = true → ¬ Present settings s did fun _ => Departing
  settled : Settled settings s did (Agrees (s.members did)) fun _ => Governs (s.members did)

theorem agreeing_start : Agreeing settings did .start where
  mirror := rfl
  departing := nofun
  settled := .inr ⟨nofun, .inl (by simp [Syncer.start, Agrees, publishes])⟩

theorem agreeing_step (h : Agreeing settings did s) (horderly : Orderly settings did s e) :
    Agreeing settings did (s.step settings e) := by
  have hstep := stepped settings s e
  refine ⟨hstep.mirror h.mirror horderly.1, fun hlive hpresent => ?_, ?_⟩
  · rcases hstep.departing hpresent with hbefore | hgone
    · rcases hstep.joins hlive with hlive | ⟨consent, rfl⟩
      · exact h.departing hlive hbefore
      · exact horderly.2 rfl hbefore
    · exact Bool.false_ne_true (hgone.symm.trans hlive)
  · rcases hstep.row did with hrow | hcaused
    · rw [hrow]
      refine hstep.settled h.settled h.mirror horderly.1 (fun i publishOnJoin he job hmem hdid => ?_)
        fun id he job hmem hid hfailed hdid => absurd hdid (horderly.kept he hmem hid hfailed)
      subst he
      obtain rfl : publishOnJoin = true := horderly.2
      exact fits_agrees id fun hlive hdeparting => h.departing hlive (.inl (.inr ⟨job, hmem, hdid, hdeparting⟩))
    · exact .inl (hcaused.imp fun _ _ => And.right)

theorem agreeing_run (horderly : Along (Syncer.step settings) (Orderly settings did) .start events) :
    Agreeing settings did (Syncer.reached settings events) :=
  run_induction agreeing_start horderly fun _ _ => agreeing_step

/-- A member that was purged and does not join again: the job of its purge is to come, or there is no record. -/
structure Purged (settings : Settings) (did : String) (s : Syncer) : Prop where
  mirror : s.mirror = s.registry
  gone : live (s.members did) = false
  settled : Settled settings s did (· = none) fun _ kind => kind = .deleteMember

theorem purged_step (h : Purged settings did s) (horderly : Orderly settings did s e)
    (hnever : ∀ consent, e ≠ .join did consent) : Purged settings did (s.step settings e) := by
  have hstep := stepped settings s e
  refine ⟨hstep.mirror h.mirror horderly.1, Bool.eq_false_iff.mpr fun hlive => ?_,
    hstep.settled h.settled h.mirror horderly.1 (fun _ _ _ _ _ _ => fits_purged h.gone)
      fun id he job hmem hid hfailed hdid => absurd hdid (horderly.kept he hmem hid hfailed)⟩
  rcases hstep.joins hlive with hlive | ⟨consent, rfl⟩
  · exact Bool.false_ne_true (h.gone.symm.trans hlive)
  · exact hnever consent rfl

/-- Along its orderly runs a drained queue leaves the registry with an active record of a member exactly if the
community publishes it, and with none of a member that was purged and has not joined again. -/
theorem drained_queue_agrees (settings : Settings) (did : String) (events : List Event)
    (horderly : Along (Syncer.step settings) (Orderly settings did) .start events)
    (hdrained : Drained settings (Syncer.reached settings events) did) :
    let s := Syncer.reached settings events
    (s.registry did = some .active ↔ publishes (s.members did) = true) ∧
      ∀ before actor after, events = before ++ .leave did actor "purge" :: after →
        (Syncer.reached settings before).members did ≠ none →
        (removalKind settings.floor actor did "purge").1 = .deleteMember → (∀ consent, .join did consent ∉ after) →
        s.registry did = none := by
  have hnone (K : Nat → SyncJobKind → Prop) : ¬ Present settings (Syncer.reached settings events) did K :=
    fun h => hdrained (h.imp fun _ _ _ => trivial)
  refine ⟨(agreeing_run horderly).settled.done (hnone _), ?_⟩
  rintro before actor after rfl hmember hpurge hnever
  obtain ⟨hbefore, hleave, hafter⟩ := (along_append _ _).mp horderly
  have hmirror := (agreeing_run hbefore).mirror
  unfold Syncer.reached at *
  rw [run_append, run_cons] at hnone ⊢
  generalize run (Syncer.step settings) .start before = s at *
  obtain ⟨member, hmember⟩ := Option.ne_none_iff_exists'.mp hmember
  have hstep : s.step settings (.leave did actor "purge") = s.record did actor none (.memberRemoved "purge") := by
    simp [Syncer.step, hmember, Syncer.departed]
  rw [hstep] at hafter hnone ⊢
  have hpurged : Purged settings did (s.record did actor none (.memberRemoved "purge")) :=
    ⟨hmirror, by simp [Syncer.record, live], .inl (outstanding_record rfl hpurge)⟩
  have hrun := run_induction hpurged (hafter.and (along_of_forall (P := fun _ e => ∀ consent, e ≠ .join did consent)
    fun e he _ consent heq => hnever consent (heq ▸ he))) fun _ _ h horderly => purged_step h horderly.1 horderly.2
  exact hrun.settled.done (hnone _)

end

def rejoined (between : List Event) : List Event :=
  [.join "did:m" true, .walk, .dispatch 0 true, .answer (.done true), .leave "did:m" "did:m" "purge",
    .walk] ++ between ++
    [.join "did:m" true, .walk, .dispatch 0 true, .dispatch 1 true, .answer (.done true), .wait 86400, .dispatch 0 true,
      .answer (.done true)]

theorem drained_queue_agrees_rejoined :
    (Syncer.reached ⟨some "tombstone", 24⟩
      (rejoined [.wait 86400, .dispatch 0 true, .answer (.done true)])).registry "did:m" = some .active := by
  have hempty {s : Syncer} (hunwalked : s.unwalked = []) (hqueue : s.queue = []) (hcurrent : s.current = none) :
      ¬ Present ⟨some "tombstone", 24⟩ s "did:m" fun _ => Departing :=
    fun h => drained_of_empty hunwalked hqueue hcurrent (h.imp fun _ _ _ => trivial)
  have horderly : Along (Syncer.step ⟨some "tombstone", 24⟩) (Orderly ⟨some "tombstone", 24⟩ "did:m") .start
      (rejoined [.wait 86400, .dispatch 0 true, .answer (.done true)]) := by
    refine ⟨⟨trivial, fun _ => hempty rfl rfl rfl⟩, ⟨trivial, trivial⟩, ⟨trivial, rfl⟩, ⟨rfl, trivial⟩,
      ⟨trivial, trivial⟩, ⟨trivial, trivial⟩, ⟨trivial, trivial⟩, ⟨trivial, rfl⟩, ⟨rfl, trivial⟩,
      ⟨trivial, fun _ => hempty ?_ ?_ ?_⟩,
      ⟨trivial, trivial⟩, ⟨trivial, rfl⟩, ⟨trivial, rfl⟩, ⟨rfl, trivial⟩, ⟨trivial, trivial⟩, ⟨trivial, rfl⟩,
      ⟨rfl, trivial⟩, trivial⟩ <;> decide +kernel
  exact (drained_queue_agrees _ "did:m" _ horderly
    (drained_of_empty (by decide +kernel) (by decide +kernel) (by decide +kernel))).1.mpr (by decide +kernel)

/-- The member's own purge is parked for the batch window. It joins again and is published, and the parked job then
deletes the record of the new membership. -/
theorem rejoined_loses_record :
    let s := Syncer.reached ⟨some "tombstone", 24⟩ (rejoined [])
    (∀ e ∈ rejoined [], Calm e) ∧ Drained ⟨some "tombstone", 24⟩ s "did:m" ∧
      publishes (s.members "did:m") = true ∧ s.registry "did:m" = none :=
  ⟨by decide, drained_of_empty (by decide +kernel) (by decide +kernel) (by decide +kernel), by decide +kernel,
    by decide +kernel⟩

end TrustInfrastructure.Registry
