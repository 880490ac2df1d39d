import Groupnet.Feed.Subscriber

/-!
# The lineage of a hosted group

The read side of a hosted group.  A `Lineage` is fed the peers' writes and the leadership
pairs its node adopts, and queues the writes of the adopted hosts for the consumer, each
lineage epoch behind a gap of its own.  The adopted pair is who may write.  The cursor is
the epoch that was delivered from, its host and the next position, and it moves to a new
epoch with the first write delivered of it.  A node that serves cuts every epoch below its
own.
-/

namespace Groupnet

/-- How many events above the watch are held. -/
def heldCap : Nat := 1024

/-- One notification of a hosted group's write stream. -/
inductive HostedRead (K : Type) where
  | wrote (host : NodeId) (token : WriteToken) (key : K)
  /-- Writes of the lineage up to `missedThrough` are not delivered one by one. -/
  | gap (missedThrough : WriteToken)
  /-- A new pair was adopted. -/
  | migrated (epoch : Nat) (host : Option NodeId)
deriving DecidableEq

/-- The lineage epoch delivered from. -/
structure Opened where
  epoch : Nat
  host : NodeId
  /-- The next undelivered position. -/
  next : Nat
deriving DecidableEq

/-- The adopted pair, the cursor and the two queues. -/
structure Lineage (K : Type) where
  adoptedEpoch : Nat
  adoptedHost : Option NodeId
  opened : Option Opened
  pending : List (HostedRead K)
  held : List (PeerWrite K)
  gaps : Nat
  /-- Nothing below it is delivered again. -/
  floor : Nat

/-- The epoch of the lineage an event belongs to. -/
def HostedRead.epoch? {K : Type} : HostedRead K → Option Nat
  | .wrote _ token _ => some token.epoch
  | .gap missedThrough => some missedThrough.epoch
  | .migrated _ _ => none

/-- The epoch a peer's event is judged at. -/
def PeerWrite.epoch {K : Type} : PeerWrite K → Nat
  | .wrote _ token _ => token.epoch
  | .gap _ missedThrough => missedThrough.epoch
  | .sealed _ token => token.epoch
  | .renewed _ _ epoch => epoch

namespace Lineage

variable {K : Type}

/-- A subscriber that has adopted nothing. -/
def new : Lineage K := ⟨0, none, none, [], [], 0, 0⟩

variable (l : Lineage K)

/-- Takes the next event. -/
def pop : Lineage K × Option (HostedRead K) :=
  match l.pending with
  | [] => (l, none)
  | r :: rest => ({ l with pending := rest }, some r)

def cut (epoch : Nat) : Lineage K :=
  if epoch ≤ l.floor then l
  else { l with
    floor := epoch
    opened := l.opened.filter fun o => epoch ≤ o.epoch
    pending := l.pending.filter fun r => r.epoch?.all (epoch ≤ ·)
    held := l.held.filter fun ev => epoch ≤ ev.epoch }

/-- Queues an event. -/
def push (r : HostedRead K) : Lineage K := { l with pending := l.pending ++ [r] }

/-- Queues a gap, and counts it. -/
def pushGap (missedThrough : WriteToken) : Lineage K :=
  { l.push (.gap missedThrough) with gaps := l.gaps + 1 }

/-- Moves the cursor of the open lineage. -/
def advance (next : Nat) : Lineage K :=
  { l with opened := l.opened.map fun o => { o with next := next } }

def deliver (event : PeerWrite K) : Lineage K :=
  match l.opened.map Opened.next with
  | none => l
  | some next =>
    match event with
    | .wrote peer token key =>
      if token.seq < next then l
      else
        -- A hole is never left silent.
        let l := if next < token.seq then l.pushGap ⟨token.epoch, token.seq - 1⟩ else l
        (l.push (.wrote peer token key)).advance (satAdd token.seq 1)
    | .gap _ missedThrough =>
      if missedThrough.seq < next then l
      else (l.pushGap missedThrough).advance (satAdd missedThrough.seq 1)
    | .sealed .. | .renewed .. => l

/-- Opens the lineage at `epoch` under `peer`: one gap below the first visible write, then
that write. -/
def openWith (peer : NodeId) (epoch : Nat) (event : PeerWrite K) : Lineage K :=
  match event with
  | .wrote _ token _ =>
    { l.pushGap ⟨epoch, token.seq - 1⟩ with opened := some ⟨epoch, peer, token.seq⟩ }.deliver event
  | .gap _ missedThrough =>
    let first := satAdd missedThrough.seq 1
    { l.pushGap ⟨epoch, first - 1⟩ with opened := some ⟨epoch, peer, first⟩ }
  | .sealed .. | .renewed .. => l

/-- Parks an event above the watch, dropping the oldest when there are too many. -/
def hold (event : PeerWrite K) : Lineage K :=
  { l with held := (if heldCap ≤ l.held.length then l.held.drop 1 else l.held) ++ [event] }

/-- Judges a write or a gap of `peer` at `epoch` against the cursor and the adopted pair. -/
def judge (peer : NodeId) (epoch : Nat) (event : PeerWrite K) : Lineage K :=
  if epoch < l.floor then l
  else if l.opened.any fun o => epoch < o.epoch then l
  else if l.opened.any fun o => epoch = o.epoch then
    if l.opened.any fun o => peer = o.host then l.deliver event else l
  else if epoch < l.adoptedEpoch then l
  else if l.adoptedEpoch < epoch then l.hold event
  else if l.adoptedHost = some peer then l.openWith peer epoch event
  else l

/-- Takes a peer's event.  A renewal is read as the gap it stands in for. -/
def admitEvent : PeerWrite K → Lineage K
  | .sealed .. => l
  | .renewed peer _ epoch => l.judge peer epoch (.gap peer ⟨epoch, 0⟩)
  | .wrote peer token key => l.judge peer token.epoch (.wrote peer token key)
  | .gap peer missedThrough => l.judge peer missedThrough.epoch (.gap peer missedThrough)

/-- Takes a new pair, with nothing held. -/
def adopting (epoch : Nat) (host : Option NodeId) : Lineage K :=
  { l.push (.migrated epoch host) with adoptedEpoch := epoch, adoptedHost := host, held := [] }

/-- Adopts a pair that differs from the one held, and judges what waited for it. -/
def adopt (epoch : Nat) (host : Option NodeId) : Lineage K :=
  if epoch = l.adoptedEpoch ∧ host = l.adoptedHost then l
  else l.held.foldl admitEvent (l.adopting epoch host)

end Lineage

end Groupnet
