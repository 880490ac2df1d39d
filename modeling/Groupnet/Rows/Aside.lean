import Groupnet.Rows.Relation
import Groupnet.Gossip.Calls

/-!
# What gossip leaves alone

Most of an engine call has nothing to do with the election.  `Core` is the part of
an engine the election reads and gossip never writes, and an outcome is `Aside` when
it keeps the core and emits no election effect.  A call that may not vote is aside,
so the rows of a call come from its election functions only.
-/

namespace Groupnet

/-- The part of an engine that gossip never writes. -/
structure Core where
  group : GroupId
  localId : NodeId
  leaving : Bool
  config : Config
  election : Option Election

def Core.seat (c : Core) : Option Seat :=
  c.election.map fun el => ⟨c.localId, c.group, c.leaving, el⟩

/-- Whether an effect belongs to the election. -/
def Effect.isLead : Effect → Bool
  | .send _ frame => frame.lead.isSome
  | .leadershipChanged .. | .persistGrant .. | .anchorClaimDue .. => true
  | _ => false

/-- The election effects of a batch, in order. -/
def leads (fx : List Effect) : List Effect := fx.filter Effect.isLead

@[simp] theorem leads_append (fx fx' : List Effect) : leads (fx ++ fx') = leads fx ++ leads fx' :=
  List.filter_append ..

namespace GroupEngine

variable {e e' : GroupEngine}

def core (e : GroupEngine) : Core := ⟨e.group, e.localId, e.leaving, e.config, e.election⟩

theorem seat_eq_core (e : GroupEngine) : e.seat = e.core.seat := rfl

theorem seat_eq_of_core (h : e'.core = e.core) : e'.seat = e.seat := by
  rw [seat_eq_core, h, seat_eq_core]

/-- The core is part of what filing leaves alone. -/
theorem core_of_still (h : e'.still = e.still) : e'.core = e.core :=
  congrArg (fun s : Still => (⟨s.group, s.localId, s.leaving, s.config, s.election⟩ : Core)) h

theorem core_nudgeAntiEntropyNow (e : GroupEngine) : e.nudgeAntiEntropyNow.core = e.core := rfl

theorem core_observeNow (e : GroupEngine) (now : Time) : (e.observeNow now).core = e.core := rfl

/-- An outcome that keeps the core and emits no election effect. -/
structure Aside (e : GroupEngine) (o : Outcome) : Prop where
  core : o.1.core = e.core
  plain : ∀ x ∈ o.2, x.isLead = false

/-- An outcome aside adds nothing to the election effects. -/
theorem Aside.leads_eq {o : Outcome} (h : Aside e o) : leads o.2 = [] :=
  List.filter_eq_nil_iff.mpr fun x hx => by simp [h.plain x hx]

end GroupEngine

/-- The powers of gossip. -/
abbrev Powers.gossip : Powers := ⟨False, True⟩

section

open GroupEngine

variable {now : Time} {c : Cause} {e e' : GroupEngine} {x : Effect} {owed : List (NodeId × String)}
  {said : List Effect}

theorem GroupEngine.Utters.plain (h : e.Utters .gossip c x) : x.isLead = false := by
  cases h with
  | leadershipChanged _ _ h | persistGrant _ _ h | anchorClaimDue _ h => exact h.elim
  | lines _ frame _ _ hlead =>
    exact Option.isSome_eq_false_iff.mpr (Option.isNone_iff_eq_none.mpr (hlead.resolve_left id))
  | delta _ frame _ _ hbuilt =>
    unfold buildDeltaFrame at hbuilt
    dsimp only at hbuilt
    split at hbuilt
    · cases hbuilt
    · cases hbuilt
      rfl
  | _ => rfl

theorem Touch.core_eq (h : Touch .gossip now c e owed said e') (hc : c ≠ .command .leave) :
    e'.core = e.core := by
  obtain ⟨hdoing, hidentity, helection, -⟩ := h.rest
  have hleaving : e'.leaving = e.leaving := by
    cases hdoings : e'.doings with
    | mk incarnation leaving metadata authored =>
    have hleaving : e'.leaving = leaving := congrArg Doings.leaving hdoings
    rw [hdoings] at hdoing
    cases hdoing with
    | left h => exact absurd h hc
    | _ => exact hleaving
  unfold core
  rw [hleaving, helection.resolve_left id,
    show e'.group = e.group from congrArg Identity.group hidentity,
    show e'.localId = e.localId from congrArg Identity.localId hidentity,
    show e'.config = e.config from congrArg Identity.config hidentity]

theorem Touched.aside_of {o : Outcome} (h : Touched .gossip now c e o) (hc : c ≠ .command .leave) :
    Aside e o := by
  obtain ⟨_, htouches, _⟩ := h
  refine ⟨htouches.keeps (P := fun e' => e'.core = e.core) (fun ht he => (ht.core_eq hc).trans he)
    rfl, fun x hx => ?_⟩
  obtain ⟨t, _, _, _, -, htouch, hin⟩ :=
    htouches.step_of_said (P := fun _ => True) (fun _ _ => trivial) trivial hx
  cases htouch with
  | said h => exact List.mem_singleton.mp hin ▸ h.plain
  | _ => cases hin

end

namespace GroupEngine

variable (e : GroupEngine)

theorem aside_recomputeCoordinator : Aside e e.recomputeCoordinator :=
  (touched_recomputeCoordinator e : Touched .gossip 0 .clock e _).aside_of nofun

theorem aside_disseminateDigest (now : Time) : Aside e (e.disseminateDigest now) :=
  (touched_disseminateDigest e trivial).aside_of nofun

theorem aside_tickLiveness (now : Time) : Aside e (e.tickLiveness now) :=
  (touched_tickLiveness e).aside_of nofun

theorem aside_roundIfDue (now : Time) : Aside e (e.roundIfDue now) :=
  (touched_roundIfDue e trivial).aside_of nofun

theorem aside_learnClaimant (claimant : NodeId) (now : Time) :
    Aside e (e.learnClaimant claimant now) :=
  (touched_learnClaimant e claimant now (f := .bare .ping e.group none) rfl : Touched .gossip 0 _ e
    _).aside_of nofun

theorem aside_onFrame (source : NodeId) {frame : Wire.Frame} (now : Time)
    (h : frame.kind.isLead = false) :
    Aside e (e.onFrame source frame now) :=
  (touched_onFrame e source frame (.inr h)).aside_of nofun

theorem aside_apply {cmd : Command} (h : cmd.isLead = false) : Aside e (e.apply cmd) := by
  refine (touched_apply e cmd (.inr h) : Touched .gossip 0 _ e _).aside_of ?_
  rintro ⟨⟩
  cases h

end GroupEngine

end Groupnet
