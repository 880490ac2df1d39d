import Groupnet.Replication.Waiting

/-!
# The read gate

A session answers local reads while its gate is open and its last tail check is recent
enough.  Whatever it asks for, it shuts the gate first.  So what it serves is a position
nothing under way can move, and what it holds for a subscriber stays bound to the one
registration it was made under.
-/

namespace Groupnet.Replication

/-- Why a local read cannot be served. -/
inductive Refusal where
  | unready
  | floor
  | authority
  | tailCheckDue
  | gap
deriving DecidableEq

inductive ReadDecision where
  | serve (cursor : Cursor)
  | refuse (reason : Refusal)
deriving DecidableEq

namespace Sample

/-- A session with authority that finds its tail where it is. -/
def served : List Event :=
  .authority true :: restored 3 ++ [.tail ⟨1, 1, 3⟩ (proof 3 3) [compare 3 3 3]]

def key : SubscriberKey := ⟨scope, "n"⟩

def epoch : SubscriptionEpoch := ⟨one, ⟨"s", 1⟩, [1]⟩

/-- A subscriber at `3` of a source at `5`, whose sink holds a batch up to `4`. -/
def delivered : List Event :=
  [.startSubscription ⟨key, one, cursor 3, ⟨[1], one, one, 1, one⟩, [7], none, none⟩
      ⟨one, one, one, one, one, one, 1, one⟩,
    .subscriberRegistered ⟨1, 1, 1⟩
      ⟨key, one, [7], epoch, cursor 3, proof 3 5, compare 5 3 3, compare 5 3 5, [1]⟩,
    .sinkEpochBound ⟨1, 1, 2⟩ ⟨key, [7], epoch, cursor 3, true⟩ (compare 5 3 3) (compare 5 3 5),
    .pollSubscriber, .subscriberTail ⟨1, 1, 3⟩ (proof 3 5) [compare 5 3 3, compare 5 3 5],
    .subscriberScanned ⟨1, 1, 4⟩
      ⟨⟨cursor 3, cursor 4, ⟨[5]⟩, [1]⟩, 1, one, one, compare 5 3 4, compare 5 4 5⟩,
    .subscriberApplied ⟨1, 1, 5⟩ ⟨⟨1, 1, 5⟩, key, epoch, cursor 3, cursor 4, cursor 4, [8], true⟩
      (compare 5 4 4) (compare 5 3 4)]

end Sample

namespace SessionEngine

variable {e : SessionEngine} {scope : Scope} {mode : Mode} {config : Config} {sessionId : Nat}
  {e₀ : SessionEngine} {events : List Event} {steps : List Step}

def readDecision (e : SessionEngine) : ReadDecision :=
  if e.stage = .needsSnapshot ∨ e.stage = .snapshotAborted ∨ e.stage = .irrecoverableGap then
    .refuse .gap
  else if e.ready = false ∨ e.stage ≠ .ready then .refuse .unready
  else if e.freshnessDue ≤ e.now then .refuse .tailCheckDue
  else if e.modeAuthority = false ∨ e.proof.any SourceProof.readAuthority = false then
    .refuse .authority
  else e.materialized.elim (.refuse .unready) .serve

theorem readDecision_eq_serve {cursor : Cursor} (h : e.readDecision = .serve cursor) :
    e.ready = true ∧ e.now < e.freshnessDue ∧ e.modeAuthority = true ∧
      e.proof.any SourceProof.readAuthority = true ∧ e.materialized = some cursor := by
  unfold readDecision at h
  split at h
  · cases h
  split at h
  · cases h
  rename_i hready
  split at h
  · cases h
  rename_i hfresh
  split at h
  · cases h
  rename_i hauthority
  simp only [not_or, Bool.not_eq_false] at hready hauthority
  refine ⟨hready.1, Nat.lt_of_not_le hfresh, hauthority.1, hauthority.2, ?_⟩
  cases hm : e.materialized with
  | none => rw [hm] at h; cases h
  | some c => rw [hm] at h; cases h; rfl

theorem sound_of_drive (hnew : new scope mode config sessionId = .ok e₀)
    (hrun : drive step e₀ events = some (e, steps)) : Sound True e := by
  exact (drive_invariant (P := fun e => Sound True e ∧ e.base.Known) (sound_of_new hnew).1
    (fun h => sound_of_step h fun _ => trivial) hrun).1

/-- A session that serves a position has materialized it and has nothing under way: no
operation, no retry, no snapshot and no subscription. -/
theorem serving_at_rest (hnew : new scope mode config sessionId = .ok e₀)
    (hrun : drive step e₀ events = some (e, steps)) {cursor : Cursor}
    (hserve : e.readDecision = .serve cursor) :
    e.materialized = some cursor ∧ e.stage = .ready ∧ e.protocol = .replay ∧
      e.outstanding = none ∧ e.operationDue = none ∧ e.retryDue = none ∧ e.snapshot = none ∧
      e.subscription = none ∧ e.now < e.freshnessDue ∧ e.modeAuthority = true ∧
      ∃ proof, e.proof = some proof ∧ proof.readAuthority = true := by
  obtain ⟨hready, hfresh, hauthority, hproof, hcursor⟩ := readDecision_eq_serve hserve
  have hsound := sound_of_drive hnew hrun
  obtain ⟨hidle, hstage, hprotocol, hsnapshot⟩ := hsound.open hready
  have hsubscription : e.subscription = none := by
    refine eq_none_of_isSome (Bool.eq_false_of_not_eq_true fun hsome => ?_)
    cases (hsound.2.subscribed hsome).symm.trans hprotocol
  obtain ⟨proof, hsome, hread⟩ := (Option.any_eq_true _ _).mp hproof
  exact ⟨hcursor, hstage, hprotocol, hidle.out, hidle.due, hidle.undelayed, hsnapshot,
    hsubscription, hfresh, hauthority, proof, hsome, hread⟩

theorem serving_at_rest_restored :
    ∃ e₀ e steps, new Sample.scope .stateSync .default 1 = .ok e₀ ∧
      drive step e₀ Sample.served = some (e, steps) ∧ e.readDecision = .serve (Sample.cursor 3) ∧
      e.outstanding = none ∧ e.subscription = none := by
  refine ⟨_, _, _, rfl, rfl, rfl, ?_⟩
  have h := @serving_at_rest _ Sample.scope .stateSync .default 1 _ Sample.served _ rfl rfl
    (Sample.cursor 3) rfl
  exact ⟨h.2.2.2.1, h.2.2.2.2.2.2.2.1⟩

/-- A session with a subscription is an event-complete one with no snapshot.  What it asks the
source to acknowledge is asked under its one registration, from the last position the source
confirmed, and within the history of the registration. -/
theorem subscription_bound (hnew : new scope mode config sessionId = .ok e₀)
    (hrun : drive step e₀ events = some (e, steps)) {p : SubscriptionProgress}
    (hp : e.subscription = some p) :
    e.protocol = .namedSubscription ∧ e.mode = .eventComplete ∧ e.snapshot = none ∧
    ∀ request, p.pendingAck = some request → ∃ registration, p.registration = some registration ∧
      registration.key.scope = e.scope ∧ request.key = registration.key ∧
      request.epoch = registration.epoch ∧ p.sourceAck = some request.previous ∧
      request.previous.history = registration.epoch.history ∧
      request.through.history = registration.epoch.history := by
  have hsteady := (sound_of_drive hnew hrun).2
  have hnamed : e.protocol = .namedSubscription :=
    hsteady.subscribed (Option.isSome_iff_exists.mpr ⟨p, hp⟩)
  have hmode : e.mode = .eventComplete := hsteady.named hnamed
  refine ⟨hnamed, hmode, ?_, ?_⟩
  · refine eq_none_of_isSome (Bool.eq_false_of_not_eq_true fun hsome => ?_)
    cases hmode.symm.trans (hsteady.staged hsome).1
  · intro request hrequest
    have hkept := hsteady.kept p hp
    obtain ⟨registration, hreg, hkey, hepoch, hprevious, hthrough, _⟩ :=
      hkept.pending request hrequest
    exact ⟨registration, hreg, (hkept.registration registration hreg).1, hkey, hepoch, hprevious,
      (hkept.acked registration _ hreg hprevious).1, hthrough⟩

theorem subscription_bound_delivered :
    ∃ e₀ e steps p request, new Sample.scope .eventComplete .default 1 = .ok e₀ ∧
      drive step e₀ Sample.delivered = some (e, steps) ∧ e.subscription = some p ∧
      p.pendingAck = some request ∧ request.through = Sample.cursor 4 ∧
      p.sourceAck = some request.previous := by
  refine ⟨_, _, _, _, _, rfl, rfl, rfl, rfl, rfl, ?_⟩
  obtain ⟨_, _, _, hpending⟩ :=
    @subscription_bound _ Sample.scope .eventComplete .default 1 _ Sample.delivered _ rfl rfl _ rfl
  obtain ⟨_, _, _, _, _, hprevious, _⟩ := hpending _ rfl
  exact hprevious

end SessionEngine

end Groupnet.Replication
