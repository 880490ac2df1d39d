import Mathlib.Data.Prod.Lex
import Std.Data.TreeMap.Lemmas
import Std.Data.TreeSet.Lemmas
import Groupnet.Id
import Groupnet.Lib.Ordered

/-!
# A reader's right to serve

A reader publishes renewals of its lease, and each granter publishes a map of the
renewals it has seen.  The reader may serve for one lease duration, less a margin, after
it published the newest renewal that every granter of its roster confirms.

A granter's own row in its map says which life of the granter wrote it, and whether that
life has departed.  Departure is the one way out of a roster.

All instants are milliseconds on the reader's own clock.
-/

namespace Groupnet

/-! ## Renewals and grant maps -/

/-- One reader's renewal of its right to serve. -/
structure RenewalId where
  /-- The reader's lease life. -/
  epoch : Nat
  /-- The renewal's number within it, from 1. -/
  seq : Nat
deriving DecidableEq

namespace RenewalId

/-- Renewals are ordered by life first. -/
def key (id : RenewalId) : Nat ×ₗ Nat := toLex (id.epoch, id.seq)

theorem key_injective : Function.Injective key := by
  rintro ⟨e, s⟩ ⟨e', s'⟩ h
  cases h
  rfl

instance : LinearOrder RenewalId := LinearOrder.lift' key key_injective

theorem le_iff {a b : RenewalId} : a ≤ b ↔ a.epoch < b.epoch ∨ a.epoch = b.epoch ∧ a.seq ≤ b.seq :=
  Prod.Lex.le_iff

end RenewalId

/-- What one granter advertises: the newest renewal of each reader it sees. -/
abbrev GrantMap := Std.TreeMap NodeId RenewalId

structure GranterLife where
  epoch : Nat
  departed : Bool
deriving DecidableEq

namespace GranterLife

def stamp (life : GranterLife) (granter : NodeId) (grants : GrantMap) : GrantMap :=
  grants.insert granter ⟨life.epoch, if life.departed then u64Max else 0⟩

def of (granter : NodeId) (grants : GrantMap) : Option GranterLife :=
  match grants[granter]? with
  | none => none
  | some row =>
    if row.seq = 0 then some ⟨row.epoch, false⟩
    else if row.seq = u64Max then some ⟨row.epoch, true⟩
    else none

theorem of_stamp (life : GranterLife) (granter : NodeId) (grants : GrantMap) :
    of granter (life.stamp granter grants) = some life := by
  obtain ⟨epoch, departed⟩ := life
  cases departed
  · simp [of, stamp]
  · simp [of, stamp, u64Max]

end GranterLife

/-! ## The reader -/

/-- Whether a reader may serve. -/
inductive LeaseState where
  | serving
  | lapsed
  | needsResync
deriving DecidableEq

/-- How many publish instants a reader remembers. -/
def maxTrackedRenewals : Nat := 256

/-- What a reader has published and what was confirmed to it. -/
structure LeaseCore where
  me : NodeId
  /-- This lease life. -/
  epoch : Nat
  durationMs : Nat
  marginMs : Nat
  nextSeq : Nat
  published : Std.TreeMap Nat Nat
  /-- The newest renewal of this life each granter confirms. -/
  granters : Std.TreeMap NodeId Nat
  /-- The granters that must confirm. -/
  roster : Std.TreeSet NodeId
  lives : Std.TreeMap NodeId GranterLife
  /-- Whether the consumer has caught up since the last lapse. -/
  caughtUp : Bool
  departed : Bool
  lapses : Nat

namespace LeaseCore

/-- A reader at the start of a lease life. -/
def new (me : NodeId) (durationMs marginMs epoch : Nat) : LeaseCore where
  me := me
  epoch := epoch
  durationMs := durationMs
  marginMs := marginMs
  nextSeq := 1
  published := ∅
  granters := ∅
  roster := ∅
  lives := ∅
  caughtUp := false
  departed := false
  lapses := 0

def dropOldest (published : Std.TreeMap Nat Nat) : Std.TreeMap Nat Nat :=
  match published.keys.head? with
  | some oldest => published.erase oldest
  | none => published

variable (c : LeaseCore)

/-- Records that a renewal is about to be published. -/
def onRenew (at_ : Nat) : LeaseCore × RenewalId :=
  let seq := c.nextSeq
  let published := c.published.insert seq at_
  let published := dropOldest^[published.size - maxTrackedRenewals] published
  ({ c with nextSeq := satAdd c.nextSeq 1, published := published }, ⟨c.epoch, seq⟩)

/-- Whether the last map of a granter declared its life departed. -/
def departs (granter : NodeId) : Bool :=
  c.lives[granter]?.any GranterLife.departed

/-- Folds in the granters that advertise, and drops those that departed. -/
def setRoster (roster : List NodeId) : LeaseCore :=
  let advertised := roster.filter fun node => node ≠ c.me
  let grown := (advertised.filter fun node => !c.departs node).foldl
    (fun r n => r.insert n) c.roster
  let dropped := grown.toList.filter c.departs
  let kept := dropped.foldl (fun r n => r.erase n) grown
  let c := { c with
    roster := kept
    granters := dropped.foldl (fun g n => g.erase n) c.granters
    lives := c.lives.filter fun node _ => kept.contains node || advertised.contains node }
  if dropped.isEmpty then c else { c with caughtUp := false, lapses := c.lapses + 1 }

/-- Counts a granter from now on, whose renewal of `life` this node is about to grant. -/
def pin (granter : NodeId) (life : Nat) : LeaseCore :=
  if granter = c.me then c
  else match c.lives[granter]? with
    | some known =>
      if known.departed then
        if known.epoch = life then c
        else { c with lives := c.lives.erase granter, roster := c.roster.insert granter }
      else { c with roster := c.roster.insert granter }
    | none => { c with roster := c.roster.insert granter }

def observeGrantMap (granter : NodeId) (grants : GrantMap) : LeaseCore :=
  let granters := match grants[c.me]? with
    | some id => if id.epoch = c.epoch then c.granters.insert granter id.seq
        else c.granters.erase granter
    | none => c.granters.erase granter
  let lives := match GranterLife.of granter grants with
    | some life => c.lives.insert granter life
    | none => c.lives.erase granter
  { c with granters := granters, lives := lives }

/-- Drops what a granter had confirmed. -/
def forgetGranter (granter : NodeId) : LeaseCore :=
  { c with granters := c.granters.erase granter }

/-- The newest renewal the whole roster confirms. -/
def confirmedSeq : Option Nat :=
  match c.published.keys.getLast? with
  | none => none
  | some newest => c.roster.toList.foldlM (fun confirmed granter =>
    c.granters[granter]?.map fun seq => min confirmed seq) newest

/-- When this node's right to serve ends. -/
def serveUntil : Option Nat :=
  (c.confirmedSeq.bind fun seq => c.published[seq]?).map fun publishedAt =>
    satAdd publishedAt c.durationMs - c.marginMs

def liveAt (now : Nat) : Bool := c.serveUntil.any fun until_ => decide (now < until_)

def peek (now : Nat) : LeaseState :=
  if !c.caughtUp || c.departed then .needsResync
  else if c.liveAt now then .serving
  else .lapsed

/-- Advances to `now`.  A lapse is reported once. -/
def poll (now : Nat) : LeaseCore × LeaseState :=
  let state := c.peek now
  (if state = .lapsed then { c with caughtUp := false, lapses := c.lapses + 1 } else c, state)

/-- The consumer has caught up, which counts only while a lease is live. -/
def markCaughtUp (now : Nat) : LeaseCore × Bool :=
  let live := !c.departed && c.liveAt now
  (if live then { c with caughtUp := true } else c, live)

def requireResync : LeaseCore := { c with caughtUp := false }

end LeaseCore

/-! ## Calls -/

/-- One call into a reader's core. -/
inductive LeaseCall where
  | onRenew (at_ : Nat)
  | setRoster (roster : List NodeId)
  | pin (granter : NodeId) (life : Nat)
  | observeGrantMap (granter : NodeId) (grants : GrantMap)
  | forgetGranter (granter : NodeId)
  | poll (now : Nat)
  | markCaughtUp (now : Nat)
  | requireResync

def LeaseCore.call (c : LeaseCore) : LeaseCall → LeaseCore
  | .onRenew at_ => (c.onRenew at_).1
  | .setRoster roster => c.setRoster roster
  | .pin granter life => c.pin granter life
  | .observeGrantMap granter grants => c.observeGrantMap granter grants
  | .forgetGranter granter => c.forgetGranter granter
  | .poll now => (c.poll now).1
  | .markCaughtUp now => (c.markCaughtUp now).1
  | .requireResync => c.requireResync

end Groupnet
