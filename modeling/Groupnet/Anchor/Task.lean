import Groupnet.Anchor.Record
import Groupnet.Engine.Step

/-!
# The anchor task

The task that turns an engine's prompts into conditional writes, one per group of a
node.  It awaits in several places: for a prompt or a leadership edge, and for the
answer of each read and write.  `Phase` says where it stands, and `Claimant.react` is
what it does with what it awaited.

A round samples the logical clock and then the wall clock, before any read or write.
-/

namespace Groupnet

/-- What a node publishes of its group's leadership. -/
structure Leadership where
  epoch : Nat
  host : Option NodeId
  role : Role
deriving DecidableEq

/-- The role is derived from the pair. -/
def Leadership.observed (epoch : Nat) (host : Option NodeId) (me : NodeId) : Leadership where
  epoch := epoch
  host := host
  role := if host = some me then .host else .follower

/-- The record this node has won and has not been told it lost. -/
structure Held where
  epoch : Nat
  token : AnchorToken
  expiresAtWallMs : Nat
deriving DecidableEq

/-- What a prompted round is allowed to do. -/
inductive Posture where
  | renew (held : Held)
  | claim
  | wait
deriving DecidableEq

/-- Where the task awaits. -/
inductive Phase where
  /-- A prompt or a leadership edge. -/
  | idle
  /-- The wall clock, after the logical one. -/
  | sampled (epochHint : Nat) (t0 : Time)
  | claiming (epochHint : Nat) (t0 : Time) (w0 : Nat)
  | writing (x : Write) (t0 : Time) (renewing : Bool)
  /-- The read after a renewal that was superseded. -/
  | learning
  /-- The read that settles a write without an answer. -/
  | resolving (attempted : AnchorRecord) (t0 : Time)
  | releasing
deriving DecidableEq

/-- Whether the task awaits a read. -/
def Phase.loads : Phase → Bool
  | .claiming .. | .learning | .resolving .. => true
  | .idle | .sampled .. | .writing .. | .releasing => false

/-- The task's own state. -/
structure Claimant where
  me : NodeId
  terms : AnchorTerms
  held : Option Held
  /-- When a round that yielded may next try. -/
  retryAtWallMs : Option Nat
  /-- Whether the last edge seen was a hostship. -/
  hosting : Bool
  phase : Phase
deriving DecidableEq

structure Reaction where
  task : Claimant
  feed : Option Command := none
  store : Option Write := none
  /-- Whether it throws away a waiting prompt. -/
  drains : Bool := false
deriving DecidableEq

/-- What the task awaited. -/
inductive Answer where
  /-- A prompt, with the logical clock. -/
  | prompt (epochHint : Nat) (t0 : Time)
  | wall (w0 : Nat) (lead : Leadership)
  | loaded (found : Loaded)
  | loadFailed
  | stored (token : AnchorToken)
  | mismatch
  /-- No answer, or an error. -/
  | unknown
  | edge (lead : Leadership) (nowWallMs : Nat)
  | released
deriving DecidableEq

namespace Claimant

/-- The task as it is spawned. -/
def new (me : NodeId) (terms : AnchorTerms) : Claimant where
  me := me
  terms := terms
  held := none
  retryAtWallMs := none
  hosting := false
  phase := .idle

variable (c : Claimant)

/-- Ends a round. -/
def rest : Reaction where
  task := { c with phase := .idle }

/-- What a round may do, from the hold and the published leadership together. -/
def posture (lead : Leadership) (w0 : Nat) : Claimant × Posture :=
  match c.held with
  | none => (c, .claim)
  | some held =>
    if held.epoch < lead.epoch then ({ c with held := none }, .claim)
    else if lead.epoch = held.epoch ∧ lead.host = some c.me then (c, .renew held)
    else if held.expiresAtWallMs ≤ w0 then ({ c with held := none }, .claim)
    else (c, .wait)

/-- Issues one conditional write. -/
def write (ticket : Nat) (pre : AnchorWriteIf) (record : AnchorRecord) (t0 : Time)
    (renewing : Bool) : Reaction :=
  let x : Write := ⟨ticket, c.me, pre, record, !renewing⟩
  { task := { c with phase := .writing x t0 renewing }, store := some x }

/-- Extends the epoch held, no sooner than half a lease before it expires. -/
def renew (ticket : Nat) (held : Held) (t0 : Time) (w0 : Nat) : Reaction :=
  if c.terms.ttlMs / 2 < held.expiresAtWallMs - w0 then c.rest
  else c.write ticket (.matches held.token) (c.terms.renewalRecord c.me held.epoch w0) t0 true

/-- A prompted round up to its first read or write. -/
def round (ticket : Nat) (epochHint : Nat) (t0 : Time) (lead : Leadership) (w0 : Nat) : Reaction :=
  let c' := (c.posture lead w0).1
  match (c.posture lead w0).2 with
  | .renew held => c'.renew ticket held t0 w0
  | .wait => c'.rest
  | .claim =>
    if c'.retryAtWallMs.any fun retryAt => decide (w0 < retryAt) then c'.rest
    else { task := { c' with retryAtWallMs := none, phase := .claiming epochHint t0 w0 } }

/-- Reports a record this node read and did not win. -/
def observe (record : AnchorRecord) : Command := .anchorObserved record.epoch record.host

/-- Acts on the claim rule's verdict. -/
def claim (ticket : Nat) (epochHint : Nat) (t0 : Time) (w0 : Nat) (loaded : Loaded) : Reaction :=
  match c.terms.planClaim c.me epochHint (loaded.map Prod.fst) w0 with
  | .yield retryAtWallMs =>
    { task := { c with retryAtWallMs := some retryAtWallMs, phase := .idle }
      feed := loaded.map fun l => observe l.1 }
  | .create record => c.write ticket .absent record t0 false
  | .supersede record =>
    match loaded with
    | some (_, token) => c.write ticket (.matches token) record t0 false
    | none => c.rest

/-- Records a won epoch and reports it to the engine. -/
def won (epoch : Nat) (token : AnchorToken) (expiresAtWallMs : Nat) (t0 : Time) :
    Reaction where
  task := { c with held := some ⟨epoch, token, expiresAtWallMs⟩, phase := .idle }
  feed := some (.anchorActivated epoch (satAdd t0 c.terms.ttlMs))

/-- Settles a write without an answer by what was read back. -/
def resolve (attempted : AnchorRecord) (t0 : Time) (loaded : Loaded) : Reaction :=
  match loaded with
  | none => { c with held := none }.rest
  | some (record, token) =>
    if ambiguousApplied c.me attempted (some record) then
      c.won attempted.epoch token record.expiresAtWallMs t0
    else { task := { c with held := none, phase := .idle }, feed := some (observe record) }

/-- Stamps the record this node no longer hosts under as expired.  A prompt that waits
until then was issued by a host, and is thrown away. -/
def release (ticket : Nat) (nowWallMs : Nat) : Reaction :=
  match c.held with
  | none => { task := { c with hosting := false }, drains := true }
  | some held =>
    { task := { c with held := none, phase := .releasing }
      store := some ⟨ticket, c.me, .matches held.token, ⟨held.epoch, c.me, nowWallMs⟩, false⟩ }

/-- What the task does with what it awaited, `none` if it awaits something else. -/
def react (ticket : Nat) (answer : Answer) : Option Reaction :=
  match c.phase, answer with
  | .idle, .prompt epochHint t0 => some { task := { c with phase := .sampled epochHint t0 } }
  | .idle, .edge lead nowWallMs =>
    if c.hosting && !decide (lead.role = .host) then some (c.release ticket nowWallMs)
    else some { task := { c with hosting := decide (lead.role = .host) } }
  | .sampled epochHint t0, .wall w0 lead => some (c.round ticket epochHint t0 lead w0)
  | .claiming epochHint t0 w0, .loaded found => some (c.claim ticket epochHint t0 w0 found)
  | .claiming .., .loadFailed => some c.rest
  | .writing x t0 _, .stored token =>
    some (c.won x.record.epoch token x.record.expiresAtWallMs t0)
  | .writing _ _ renewing, .mismatch =>
    -- A claim that mismatches lost a race.  A renewal that does was superseded.
    if renewing then some { task := { c with held := none, phase := .learning } }
    else some c.rest
  | .writing x t0 _, .unknown => some { task := { c with phase := .resolving x.record t0 } }
  | .learning, .loaded found =>
    some { task := { c with phase := .idle }, feed := found.map fun l => observe l.1 }
  | .learning, .loadFailed => some c.rest
  | .resolving attempted t0, .loaded found => some (c.resolve attempted t0 found)
  | .resolving .., .loadFailed => some { c with held := none }.rest
  | .releasing, .released =>
    some { task := { c with hosting := false, phase := .idle }, drains := true }
  | _, _ => none

end Claimant

/-! ## What the task can do -/

inductive Reacts (c : Claimant) (ticket : Nat) : Answer → Reaction → Prop where
  | sample {epochHint : Nat} {t0 : Time} (hphase : c.phase = .idle) :
      Reacts c ticket (.prompt epochHint t0) { task := { c with phase := .sampled epochHint t0 } }
  /-- An edge that gives nothing up. -/
  | notice {lead : Leadership} {nowWallMs : Nat} (hphase : c.phase = .idle) :
      Reacts c ticket (.edge lead nowWallMs)
        { task := { c with hosting := decide (lead.role = .host) } }
  /-- An edge that gives up a hostship without a hold. -/
  | drain {lead : Leadership} {nowWallMs : Nat} (hphase : c.phase = .idle) (hheld : c.held = none) :
      Reacts c ticket (.edge lead nowWallMs)
        { task := { c with hosting := false }, drains := true }
  | release {lead : Leadership} {nowWallMs : Nat} {held : Held} (hphase : c.phase = .idle)
      (hhosting : c.hosting = true) (hheld : c.held = some held) :
      Reacts c ticket (.edge lead nowWallMs)
        { task := { c with held := none, phase := .releasing }
          store := some ⟨ticket, c.me, .matches held.token, ⟨held.epoch, c.me, nowWallMs⟩, false⟩ }
  /-- A round that asks nothing. -/
  | pause {w0 : Nat} {lead : Leadership} {epochHint : Nat} {t0 : Time} {held : Option Held}
      (hphase : c.phase = .sampled epochHint t0) (hheld : held = none ∨ held = c.held) :
      Reacts c ticket (.wall w0 lead) { task := { c with held := held, phase := .idle } }
  | renew {w0 : Nat} {lead : Leadership} {epochHint : Nat} {t0 : Time} {held : Held}
      (hphase : c.phase = .sampled epochHint t0) (hheld : c.held = some held)
      (hpace : held.expiresAtWallMs - w0 ≤ c.terms.ttlMs / 2) :
      Reacts c ticket (.wall w0 lead)
        (c.write ticket (.matches held.token) (c.terms.renewalRecord c.me held.epoch w0) t0 true)
  | claim {w0 : Nat} {lead : Leadership} {epochHint : Nat} {t0 : Time}
      (hphase : c.phase = .sampled epochHint t0) :
      Reacts c ticket (.wall w0 lead)
        { task := { c with held := none, retryAtWallMs := none,
                           phase := .claiming epochHint t0 w0 } }
  /-- A live record of another node. -/
  | yield {epochHint : Nat} {t0 : Time} {w0 retryAtWallMs : Nat} {found : Loaded}
      (hphase : c.phase = .claiming epochHint t0 w0) :
      Reacts c ticket (.loaded found)
        { task := { c with retryAtWallMs := some retryAtWallMs, phase := .idle }
          feed := found.map fun l => Claimant.observe l.1 }
  | create {epochHint : Nat} {t0 : Time} {w0 : Nat} (hphase : c.phase = .claiming epochHint t0 w0) :
      Reacts c ticket (.loaded none)
        (c.write ticket .absent ⟨max epochHint 1, c.me, satAdd w0 c.terms.ttlMs⟩ t0 false)
  | supersede {epochHint : Nat} {t0 : Time} {w0 : Nat} {current : AnchorRecord}
      {token : AnchorToken} (hphase : c.phase = .claiming epochHint t0 w0)
      (hentitled : current.host = c.me ∨
        satAdd current.expiresAtWallMs c.terms.stealMarginMs ≤ w0) :
      Reacts c ticket (.loaded (some (current, token)))
        (c.write ticket (.matches token)
          ⟨max (satAdd current.epoch 1) epochHint, c.me, satAdd w0 c.terms.ttlMs⟩ t0 false)
  /-- A read that failed decides nothing. -/
  | giveUp (hphase : (∃ epochHint t0 w0, c.phase = .claiming epochHint t0 w0) ∨
        c.phase = .learning) : Reacts c ticket .loadFailed c.rest
  | stored {x : Write} {t0 : Time} {renewing : Bool} {token : AnchorToken}
      (hphase : c.phase = .writing x t0 renewing) :
      Reacts c ticket (.stored token) (c.won x.record.epoch token x.record.expiresAtWallMs t0)
  /-- A claim lost a race. -/
  | lost {x : Write} {t0 : Time} (hphase : c.phase = .writing x t0 false) :
      Reacts c ticket .mismatch c.rest
  | superseded {x : Write} {t0 : Time} (hphase : c.phase = .writing x t0 true) :
      Reacts c ticket .mismatch { task := { c with held := none, phase := .learning } }
  | unsure {x : Write} {t0 : Time} {renewing : Bool} (hphase : c.phase = .writing x t0 renewing) :
      Reacts c ticket .unknown { task := { c with phase := .resolving x.record t0 } }
  | learn {found : Loaded} (hphase : c.phase = .learning) :
      Reacts c ticket (.loaded found)
        { task := { c with phase := .idle }, feed := found.map fun l => Claimant.observe l.1 }
  /-- The write is read back. -/
  | applied {attempted : AnchorRecord} {t0 : Time} {token : AnchorToken}
      (hphase : c.phase = .resolving attempted t0) (hhost : attempted.host = c.me) :
      Reacts c ticket (.loaded (some (attempted, token)))
        (c.won attempted.epoch token attempted.expiresAtWallMs t0)
  | unapplied {attempted : AnchorRecord} {t0 : Time} {found : Loaded}
      (hphase : c.phase = .resolving attempted t0) :
      Reacts c ticket (.loaded found)
        { task := { c with held := none, phase := .idle }
          feed := found.map fun l => Claimant.observe l.1 }
  | unread {attempted : AnchorRecord} {t0 : Time} (hphase : c.phase = .resolving attempted t0) :
      Reacts c ticket .loadFailed { task := { c with held := none, phase := .idle } }
  | released (hphase : c.phase = .releasing) :
      Reacts c ticket .released
        { task := { c with hosting := false, phase := .idle }, drains := true }

namespace Claimant

variable {c : Claimant} {ticket : Nat}

/-- The hold is dropped before a claim, and else is kept. -/
theorem posture_cases (c : Claimant) (lead : Leadership) (w0 : Nat) :
    c.posture lead w0 = ({ c with held := none }, .claim) ∨
      (∃ held, c.held = some held ∧ c.posture lead w0 = (c, .renew held)) ∨
      c.posture lead w0 = (c, .wait) := by
  unfold posture
  split
  next hheld =>
    left
    cases c
    cases hheld
    rfl
  next held hheld =>
    split
    · exact .inl rfl
    split
    · exact .inr (.inl ⟨held, hheld, rfl⟩)
    split
    · exact .inl rfl
    · exact .inr (.inr rfl)

/-- A round up to its first read or write. -/
theorem reacts_round {w0 : Nat} {lead : Leadership} {epochHint : Nat} {t0 : Time}
    (hphase : c.phase = .sampled epochHint t0) :
    Reacts c ticket (.wall w0 lead) (c.round ticket epochHint t0 lead w0) := by
  unfold round
  rcases c.posture_cases lead w0 with h | ⟨held, hheld, h⟩ | h <;> rw [h] <;> dsimp only
  · split
    · exact .pause hphase (.inl rfl)
    · exact .claim hphase
  · unfold renew
    split
    · exact .pause hphase (.inr rfl)
    next hpace => exact .renew hphase hheld (Nat.le_of_not_lt hpace)
  · exact .pause hphase (.inr rfl)

theorem reacts_release {lead : Leadership} {nowWallMs : Nat} (hphase : c.phase = .idle)
    (hhosting : c.hosting = true) :
    Reacts c ticket (.edge lead nowWallMs) (c.release ticket nowWallMs) := by
  cases hheld : c.held with
  | none =>
    have hrx : c.release ticket nowWallMs =
        { task := { c with hosting := false }, drains := true } := by
      simp [release, hheld]
    exact hrx ▸ .drain hphase hheld
  | some held =>
    have hrx : c.release ticket nowWallMs =
        { task := { c with held := none, phase := .releasing }
          store := some ⟨ticket, c.me, .matches held.token, ⟨held.epoch, c.me, nowWallMs⟩,
            false⟩ } := by
      simp [release, hheld]
    exact hrx ▸ .release hphase hhosting hheld

theorem reacts_claim {found : Loaded} {epochHint : Nat} {t0 : Time} {w0 : Nat}
    (hphase : c.phase = .claiming epochHint t0 w0) :
    Reacts c ticket (.loaded found) (c.claim ticket epochHint t0 w0 found) := by
  unfold claim AnchorTerms.planClaim
  cases found with
  | none => exact .create hphase
  | some l =>
    obtain ⟨current, token⟩ := l
    dsimp only [Option.map_some]
    split
    next hentitled =>
      split at hentitled
      · cases hentitled
      · exact .yield hphase
    next hentitled => split at hentitled <;> cases hentitled
    next record hentitled =>
      split at hentitled
      next hwhy =>
        cases hentitled
        exact .supersede hphase (hwhy.imp_right of_decide_eq_true)
      next => cases hentitled

theorem reacts_resolve {found : Loaded} {attempted : AnchorRecord} {t0 : Time}
    (hphase : c.phase = .resolving attempted t0) :
    Reacts c ticket (.loaded found) (c.resolve attempted t0 found) := by
  unfold resolve
  cases found with
  | none => exact .unapplied hphase
  | some l =>
    obtain ⟨record, token⟩ := l
    dsimp only
    split
    next happlied =>
      obtain ⟨heq, hhost⟩ := ambiguousApplied_iff.mp happlied
      cases heq
      exact .applied hphase hhost
    next => exact .unapplied hphase

theorem reacts {answer : Answer} {rx : Reaction} (h : c.react ticket answer = some rx) :
    Reacts c ticket answer rx := by
  unfold react at h
  split at h
  next hphase =>
    cases h
    exact .sample hphase
  next hphase =>
    split at h
    next hgave =>
      cases h
      simp only [Bool.and_eq_true] at hgave
      exact reacts_release hphase hgave.1
    next =>
      cases h
      exact .notice hphase
  next hphase =>
    cases h
    exact reacts_round hphase
  next hphase =>
    cases h
    exact reacts_claim hphase
  next hphase =>
    cases h
    exact .giveUp (.inl ⟨_, _, _, hphase⟩)
  next hphase =>
    cases h
    exact .stored hphase
  next renewing hphase =>
    split at h
    next hrenewing =>
      cases h
      subst hrenewing
      exact .superseded hphase
    next hrenewing =>
      cases h
      rw [Bool.not_eq_true] at hrenewing
      subst hrenewing
      exact .lost hphase
  next hphase =>
    cases h
    exact .unsure hphase
  next hphase =>
    cases h
    exact .learn hphase
  next hphase =>
    cases h
    exact .giveUp (.inr hphase)
  next hphase =>
    cases h
    exact reacts_resolve hphase
  next hphase =>
    cases h
    exact .unread hphase
  next hphase =>
    cases h
    exact .released hphase
  next => cases h

end Claimant

end Groupnet
