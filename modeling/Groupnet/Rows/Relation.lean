import Groupnet.Engine.Step

/-!
# The election as a transition system

Between two gossip steps an engine does a handful of things to its election state.
Each is a *row*, a guarded move with the effects it emits.  `Row` lists them all,
and `Rows` chains the rows of one engine call.  Every invariant of the election is
proved by cases on `Row`, and never by unfolding the engine.

A row acts on a `Seat`: the election state with the three facts of the engine it
reads.  What the rest of the engine decides is left open here.  A row that needs
the node to be top-ranked, or a frame to go to some peer, may fire whenever its
other guards hold.

Each row is quiet, or raises the adopted pair, or vacates it, or opens a renewal
round for it.  A chain has at most one row that is not quiet, so a call raises or
vacates the pair at most once, and a call that renews it does neither.
-/

namespace Groupnet

open Wire (Frame LeadBody)

/-! ## Seats -/

/-- What the election rows of one engine act on. -/
structure Seat where
  me : NodeId
  group : GroupId
  /-- Whether the node has left. -/
  leaving : Bool
  el : Election

def GroupEngine.seat (e : GroupEngine) : Option Seat :=
  e.election.map fun el => ⟨e.localId, e.group, e.leaving, el⟩

namespace Seat

variable (s : Seat)

/-- Whether the node is a voter of its roster. -/
def isVoter : Prop := ∃ r, s.el.voters = some r ∧ s.me ∈ r.voters

/-- The epoch the node runs a round for. -/
def standing : Option Nat :=
  match s.el.role with
  | .claimant => s.el.claim.map Claim.epoch
  | .host => some s.el.epoch
  | .follower => none

def granted (s : Seat) : Option (Nat × NodeId) := s.el.quorum.bind QuorumState.granted

def pair : Nat × Option NodeId := (s.el.epoch, s.el.host)

/-- An election frame of this group. -/
def frame (body : LeadBody) : Frame :=
  { Frame.bare (Wire.leadKind body) s.group none with lead := some body }

def lead (dest : NodeId) (body : LeadBody) : Effect := .send dest (s.frame body)

def outrankedBy (epoch : Nat) (claimant : NodeId) : Bool :=
  decide (s.el.role = .claimant) && s.el.claim.any fun c =>
    decide (cmpPair s.group (epoch, some claimant) (c.epoch, some s.me) = .gt)

/-- The election state after yielding to a claim that outranks the standing one. -/
def yield (epoch : Nat) (claimant : NodeId) : Election :=
  if s.outrankedBy epoch claimant then s.el.abandoned else s.el

def withEl (el : Election) : Seat := { s with el := el }

def withQuorum (f : QuorumState → QuorumState) : Seat :=
  s.withEl (s.el.modifyQuorum f)

end Seat

/-! ## Rows -/

/-- What a call was made with. -/
inductive Input where
  /-- The passage of time. -/
  | tick
  /-- An election frame and its sender. -/
  | frame (source : NodeId) (body : LeadBody)
  | command (cmd : Command)

/-- What a row does to the adopted pair, or to the round of its host. -/
inductive Move where
  /-- Leaves both. -/
  | quiet
  /-- Opens a renewal round for the adopted pair. -/
  | renew
  /-- Replaces it by one above it. -/
  | raise
  /-- Drops its host. -/
  | vacate
deriving DecidableEq

/-- The input is about an epoch: a frame, or in an anchored group an anchor record. -/
def Input.About (inp : Input) (s : Seat) (epoch : Nat) : Prop :=
  (∃ source body, inp = .frame source body ∧ body.epoch = epoch) ∨
    s.el.isExternal = true ∧ ∃ host, inp = .command (.anchorObserved epoch host)

/-- A frame or prompt a seat may emit without changing. -/
inductive Says (inp : Input) : Seat → Effect → Prop where
  /-- The adopted pair, to anyone. -/
  | teach (s : Seat) (dest : NodeId) : Says inp s (s.lead dest (.state s.el.epoch s.el.host))
  | receipt {s : Seat} {source : NodeId} {epoch : Nat}
      (heard : inp = .frame source (.resign epoch source)) :
      Says inp s (s.lead source (.state epoch none))
  | claim {s : Seat} {c : Claim} (dest : NodeId) (hrole : s.el.role = .claimant)
      (hclaim : s.el.claim = some c) : Says inp s (s.lead dest (.claim c.epoch s.me))
  /-- The claim of a renewal round. -/
  | renewal {s : Seat} {r : VoterRoster} (dest : NodeId) (hr : s.el.voters = some r)
      (hrole : s.el.role = .host) :
      Says inp s (s.lead dest (.claim s.el.epoch s.me))
  /-- The pair already granted, to a claim at or below its epoch. -/
  | floor {s : Seat} {source claimant gc : NodeId} {epoch ge : Nat}
      (heard : inp = .frame source (.claim epoch claimant)) (hstay : s.leaving = false)
      (hvoter : s.isVoter) (hother : claimant ≠ s.me) (hgranted : s.granted = some (ge, gc))
      (hle : epoch ≤ ge) (hne : ¬(epoch = ge ∧ claimant = gc)) :
      Says inp s (s.lead claimant (.grant ge gc s.me))
  | resign {s : Seat} {q : QuorumState} {epoch : Nat} {pending : Std.TreeSet NodeId} (dest : NodeId)
      (hq : s.el.quorum = some q) (hres : q.resigning = some (epoch, pending)) :
      Says inp s (s.lead dest (.resign epoch s.me))
  /-- A prompt for an anchor round. -/
  | prompt (s : Seat) (hint : Nat) (hext : s.el.isExternal = true) :
      Says inp s (.anchorClaimDue hint)

inductive Row (now : Time) (inp : Input) : Move → Seat → List Effect → Seat → Prop where
  /-- Emits a frame or prompt. -/
  | say {s : Seat} {x : Effect} (h : Says inp s x) : Row now inp .quiet s [x] s
  /-- Arms the boot guard and the boot blackout. -/
  | boot {s : Seat} :
      Row now inp .quiet s []
        (s.withEl
          ({ s.el with noClaimBefore := satAdd now s.el.activationWindowMs }.quorumStart now))
  | cursor {s : Seat} (k : Nat) :
      Row now inp .quiet s [] (s.withEl { s.el with beaconCursor := k })
  /-- Learns an epoch from a frame or an anchor record. -/
  | observe {s : Seat} {epoch : Nat} (heard : inp.About s epoch) :
      Row now inp .quiet s [] (s.withEl { s.el with highestSeen := max s.el.highestSeen epoch })
  | openClaim {s : Seat} (htick : inp = .tick) (settleAt : Time) (hrole : s.el.role = .follower)
      (hstay : s.leaving = false) (hhost : s.el.host ≠ some s.me)
      (hint : s.el.isExternal = false) :
      Row now inp .quiet s []
        (s.withEl ({ s.el with
          highestSeen := satAdd s.el.highestSeen 1
          claim := some ⟨satAdd s.el.highestSeen 1, settleAt⟩
          role := .claimant }.modifyQuorum fun q => q.opened now))
  | openRenewal {s : Seat} {r : VoterRoster} (htick : inp = .tick) (hr : s.el.voters = some r)
      (hrole : s.el.role = .host) :
      Row now inp .renew s [] (s.withQuorum fun q => q.opened now)
  | selfGrant {s : Seat} {q : QuorumState} {v : Verdict} {epoch : Nat}
      (hq : s.el.quorum = some q) (hvoter : s.isVoter)
      (hv : q.verdict s.leaving now epoch s.me = v) (hne : v ≠ .refuse)
      (hstand : s.standing = some epoch) :
      Row now inp .quiet s (GroupEngine.persistOf v epoch s.me)
        (s.withQuorum fun q => (q.recorded v s.el.cfg.leaseMs now epoch s.me).counted s.me)
  /-- Answers a claim with a grant, yielding to it when it outranks the standing one. -/
  | vote {s : Seat} {q : QuorumState} {v : Verdict} {source claimant : NodeId} {epoch : Nat}
      (heard : inp = .frame source (.claim epoch claimant)) (hq : s.el.quorum = some q)
      (hvoter : s.isVoter) (hv : q.verdict s.leaving now epoch claimant = v) (hne : v ≠ .refuse) :
      Row now inp .quiet s
        (GroupEngine.persistOf v epoch claimant ++ [s.lead claimant (.grant epoch claimant s.me)])
        (s.withEl ((s.yield epoch claimant).modifyQuorum fun q =>
          q.recorded v s.el.cfg.leaseMs now epoch claimant))
  /-- Drops the standing claim. -/
  | abandon {s : Seat} (hrole : s.el.role = .claimant) : Row now inp .quiet s []
      (s.withEl s.el.abandoned)
  /-- Marks a voter the round can never win. -/
  | refusal {s : Seat} (granter : NodeId) :
      Row now inp .quiet s [] (s.withQuorum fun q => q.refusedBy granter)
  | count {s : Seat} {r : VoterRoster} {source granter : NodeId} {epoch : Nat}
      (heard : inp = .frame source (.grant epoch s.me granter)) (hr : s.el.voters = some r)
      (hmem : granter ∈ r.voters) (hstand : s.standing = some epoch) :
      Row now inp .quiet s [] (s.withQuorum fun q => q.counted granter)
  /-- A majority closes the epoch. -/
  | win {s : Seat} {r : VoterRoster} {q : QuorumState} {c : Claim} (hr : s.el.voters = some r)
      (hq : s.el.quorum = some q) (hrole : s.el.role = .claimant) (hclaim : s.el.claim = some c)
      (hmaj : r.majority ≤ q.roundGrants.size) :
      Row now inp .raise s [.leadershipChanged c.epoch (some s.me)]
        (s.withEl (s.el.activated s.me c.epoch (satAdd q.roundSentAt s.el.cfg.leaseMs)))
  /-- A majority extends the lease. -/
  | extend {s : Seat} {r : VoterRoster} {q : QuorumState} (hr : s.el.voters = some r)
      (hq : s.el.quorum = some q) (hrole : s.el.role = .host)
      (hmaj : r.majority ≤ q.roundGrants.size) :
      Row now inp .quiet s []
        (s.withEl { s.el with
          leaseUntil := max s.el.leaseUntil (satAdd q.roundSentAt s.el.cfg.leaseMs) })
  /-- The settle window closes with the claim standing. -/
  | settle {s : Seat} {c : Claim} (hset : s.el.voters = none)
      (hrole : s.el.role = .claimant) (hclaim : s.el.claim = some c) :
      Row now inp .raise s [.leadershipChanged c.epoch (some s.me)]
        (s.withEl (s.el.activated s.me c.epoch (satAdd now s.el.cfg.leaseMs)))
  /-- A settle host renews off its own rank. -/
  | renew {s : Seat} (hset : s.el.closesOnWindow = true) (hrole : s.el.role = .host) :
      Row now inp .quiet s [] (s.withEl { s.el with leaseUntil := satAdd now s.el.cfg.leaseMs })
  | award {s : Seat} {epoch : Nat} {leaseUntil : Time}
      (hcmd : inp = .command (.anchorActivated epoch leaseUntil)) (hext : s.el.isExternal = true)
      (hstay : s.leaving = false) (hseen : s.el.highestSeen ≤ epoch)
      (hown : s.el.epoch = epoch → ∀ h, s.el.host = some h → h = s.me)
      (hnew : ¬(s.el.role = .host ∧ s.el.epoch = epoch)) :
      Row now inp .raise s [.leadershipChanged epoch (some s.me)]
        (s.withEl (s.el.activated s.me epoch leaseUntil))
  /-- The anchor renews the epoch held. -/
  | prolong {s : Seat} {epoch : Nat} {leaseUntil : Time}
      (hcmd : inp = .command (.anchorActivated epoch leaseUntil)) (hext : s.el.isExternal = true)
      (hstay : s.leaving = false) (hseen : s.el.highestSeen ≤ epoch) (hrole : s.el.role = .host)
      (hepoch : s.el.epoch = epoch) :
      Row now inp .quiet s [] (s.withEl { s.el with leaseUntil := max s.el.leaseUntil leaseUntil })
  /-- Takes a better pair, or the epoch of one that names this node. -/
  | adopt {s : Seat} {epoch : Nat} {host : Option NodeId} (heard : inp.About s epoch)
      (hgt : cmpPair s.group (epoch, host) s.pair = .gt) (hhost : host ≠ some s.me) :
      Row now inp .raise s [.leadershipChanged epoch host] (s.withEl (s.el.adopted epoch host))
  | lapse {s : Seat} (hrole : s.el.role = .host) (hlapse : s.el.leaseUntil ≤ now) :
      Row now inp .vacate s [.leadershipChanged s.el.epoch none] (s.withEl s.el.demoted)
  | leaveFollower {s : Seat} (hrole : s.el.role = .follower) :
      Row now inp .quiet s [] { s with leaving := true }
  | leaveHost {s : Seat} (hrole : s.el.role = .host) (hr : s.el.voters = none) :
      Row now inp .vacate s [.leadershipChanged s.el.epoch none]
        { s with leaving := true, el := s.el.demoted }
  | resignClaim {s : Seat} {r : VoterRoster} {c : Claim} (hr : s.el.voters = some r)
      (hrole : s.el.role = .claimant) (hclaim : s.el.claim = some c)
      (pending : Std.TreeSet NodeId) (dests : List NodeId) :
      Row now inp .quiet s (dests.map fun d => s.lead d (.resign c.epoch s.me))
        { s with
          leaving := true
          el := s.el.abandoned.modifyQuorum fun q =>
            { q with resigning := some (c.epoch, pending) } }
  | resignHost {s : Seat} {r : VoterRoster} (hr : s.el.voters = some r) (hrole : s.el.role = .host)
      (pending : Std.TreeSet NodeId) (dests : List NodeId) :
      Row now inp .vacate s
        (.leadershipChanged s.el.epoch none :: dests.map fun d =>
          s.lead d (.resign s.el.epoch s.me))
        { s with
          leaving := true
          el := s.el.demoted.modifyQuorum fun q =>
            { q with resigning := some (s.el.epoch, pending) } }
  /-- Notes the receipt of its own resign. -/
  | receipted {s : Seat} (voter : NodeId) (epoch : Nat) (host : Option NodeId) :
      Row now inp .quiet s [] (s.withQuorum fun q => q.receipted s.me voter epoch host)
  /-- Ends its promise to a pair its claimant resigned. -/
  | release {s : Seat} {source : NodeId} {epoch : Nat}
      (heard : inp = .frame source (.resign epoch source)) :
      Row now inp .quiet s [] (s.withQuorum fun q => q.released epoch source now)
  /-- Drops a host that resigned. -/
  | vacate {s : Seat} {source : NodeId} {epoch : Nat}
      (heard : inp = .frame source (.resign epoch source)) (hepoch : s.el.epoch = epoch)
      (hhost : s.el.host = some source) :
      Row now inp .vacate s [.leadershipChanged epoch none] (s.withEl { s.el with host := none })

/-- The move of two chains, one after the other. -/
def Move.join : Move → Move → Move
  | .quiet, m => m
  | m, _ => m

theorem Move.join_eq_quiet {m m' : Move} : m.join m' = .quiet ↔ m = .quiet ∧ m' = .quiet := by
  cases m <;> simp [Move.join]

theorem Move.join_assoc (m m' m'' : Move) : (m.join m').join m'' = m.join (m'.join m'') := by
  cases m <;> rfl

@[simp] theorem Move.join_quiet (m : Move) : m.join .quiet = m := by
  cases m <;> rfl

/-- The rows of one call, at most one of them not quiet. -/
inductive Rows (now : Time) (inp : Input) : Move → Seat → List Effect → Seat → Prop where
  | nil (s : Seat) : Rows now inp .quiet s [] s
  | cons {m m' : Move} {s s' s'' : Seat} {fx fx' : List Effect} (h : Row now inp m s fx s')
      (hs : Rows now inp m' s' fx' s'') (hquiet : m = .quiet ∨ m' = .quiet) :
      Rows now inp (m.join m') s (fx ++ fx') s''

namespace Rows

variable {now : Time} {inp : Input}

variable {s s' : Seat} {fx : List Effect} {m : Move}

theorem one (h : Row now inp m s fx s') : Rows now inp m s fx s' := by
  have hs := Rows.cons h (Rows.nil s') (Or.inr rfl)
  rwa [List.append_nil, Move.join_quiet] at hs

/-- Chains compose when at most one of them moves the pair. -/
theorem append {m' : Move} {s'' : Seat} {fx' : List Effect} (h : Rows now inp m s fx s')
    (h' : Rows now inp m' s' fx' s'') (hquiet : m = .quiet ∨ m' = .quiet) :
    Rows now inp (m.join m') s (fx ++ fx') s'' := by
  induction h with
  | nil s => exact h'
  | @cons m₁ m₂ s₁ s₂ s₃ fx₁ fx₂ hrow hrows hq ih =>
    rw [List.append_assoc, Move.join_assoc]
    rcases hquiet with hj | rfl
    · obtain ⟨rfl, rfl⟩ := Move.join_eq_quiet.mp hj
      exact Rows.cons hrow (ih h' (Or.inl rfl)) (Or.inl rfl)
    · refine Rows.cons hrow (ih h' (Or.inr rfl)) ?_
      rwa [Move.join_quiet]

/-- An invariant every row keeps holds after a chain. -/
theorem invariant {P : Seat → Prop} (step : ∀ {m s fx s'}, Row now inp m s fx s' → P s → P s')
    (h : Rows now inp m s fx s') (hs : P s) : P s' := by
  induction h with
  | nil s => exact hs
  | cons hrow _ _ ih => exact ih (step hrow hs)

/-- Quiet chains compose to a quiet chain. -/
theorem quiet_append {s'' : Seat} {fx' : List Effect} (h : Rows now inp .quiet s fx s')
    (h' : Rows now inp .quiet s' fx' s'') : Rows now inp .quiet s (fx ++ fx') s'' :=
  append h h' (Or.inl rfl)

/-- A list of things said is a quiet chain. -/
theorem said {xs : List Effect} (h : ∀ x ∈ xs, Says inp s x) : Rows now inp .quiet s xs s := by
  induction xs with
  | nil => exact Rows.nil s
  | cons x xs ih =>
    have hx : Rows now inp .quiet s [x] s := one (Row.say (h x (List.mem_cons_self ..)))
    exact quiet_append hx (ih fun y hy => h y (List.mem_cons_of_mem _ hy))

end Rows

end Groupnet
