import Mathlib.Data.List.Sort
import Groupnet.Id
import Groupnet.Lib.Ordered

/-!
# The SWIM membership model

What an engine knows about one member: its liveness `Status`, the keyed entries
the member authors about itself, and the merge precedence that reconciles two
views of it (`Member.supersededBy`).

A member also carries the bookkeeping of the engine's index.  `entryDues` lists
the keys by the instant each next needs a tick, and `filed` says where the engine
has the member filed.  Both are caches of what the other fields say.
-/

namespace Groupnet

/-! ## Status -/

/-- A member's liveness, by precedence at equal incarnation. -/
inductive Status where
  /-- Believed healthy. -/
  | alive
  /-- A probe went unanswered. -/
  | suspect
  /-- Confirmed gone. -/
  | dead
deriving DecidableEq

def Status.toWire : Status → UInt8
  | .alive => 0
  | .suspect => 1
  | .dead => 2

def Status.fromWire (code : UInt8) : Option Status :=
  if code = 0 then some .alive
  else if code = 1 then some .suspect
  else if code = 2 then some .dead
  else none

@[simp] theorem Status.fromWire_toWire (s : Status) : Status.fromWire s.toWire = some s := by
  cases s <;> rfl

/-! ## Entries -/

/-- One key of a member's application state. -/
structure StateEntry where
  /-- The author's version clock when it was written. -/
  version : Nat
  /-- The value, meaningless for a tombstone. -/
  value : List UInt8
  /-- The time to live as authored, `0` for none. -/
  ttlMs : Nat
  /-- When this observer expires the entry. -/
  expiresAt : Time
  /-- Whether the entry marks a deletion. -/
  tombstone : Bool
  /-- When this observer first held the entry as a tombstone. -/
  tombstoneSince : Time
deriving DecidableEq

namespace StateEntry

def adopted (version : Nat) (value : List UInt8) (ttlMs : Nat) (tombstone : Bool) (now : Time) :
    StateEntry where
  version := version
  value := value
  ttlMs := ttlMs
  expiresAt := if ttlMs = 0 then Time.max else satAdd now ttlMs
  tombstone := tombstone
  tombstoneSince := if tombstone then now else 0

/-- Whether the entry has expired at `now`.  Tombstones do not expire. -/
def expired (e : StateEntry) (now : Time) : Bool := !e.tombstone && decide (e.expiresAt ≤ now)

/-- When the entry next needs a tick. -/
def reapDue (e : StateEntry) (reapAfter : Nat) : Time :=
  if e.tombstone then satAdd e.tombstoneSince reapAfter else e.expiresAt

end StateEntry

/-! ## Members -/

/-- Where the engine's index has a member filed. -/
structure Filed where
  /-- The member's earliest deadline, `Time.max` when it has none. -/
  due : Time
  /-- The member's coordinator score while it is live. -/
  score : Option Nat
  /-- The `livenessSince` the member is filed under among the liveness news. -/
  liveness : Time
deriving DecidableEq

def Filed.none : Filed := ⟨Time.max, Option.none, 0⟩

/-- One member's record, as this node sees it. -/
structure Member where
  /-- Bumped by the member itself to refute suspicion. -/
  incarnation : Nat
  /-- The liveness as last resolved. -/
  status : Status
  statusSince : Time
  suspectSince : Time
  /-- When a suspect is declared dead. -/
  suspectDue : Time
  /-- When a suspect is next told of the suspicion. -/
  accuseAt : Time
  /-- Whether this observer's own probe found the member silent. -/
  suspectedHere : Bool
  /-- When this node first observed the member dead. -/
  deadSince : Time
  /-- When a liveness verdict was last adopted. -/
  livenessSince : Time
  /-- The keyed state, each entry merged by its own version. -/
  entries : Std.TreeMap String StateEntry
  /-- The keys of `entries` by when each next needs a tick. -/
  entryDues : Std.TreeMap Time (Std.TreeSet String)
  /-- High-water mark over every entry version ever held for the member. -/
  maxStateVersion : Nat
  /-- The change clock when the digest-visible summary last changed. -/
  changedAt : Nat
  /-- The content hash as last computed, with the instant it stops being valid. -/
  hashCache : Option (Nat × Time)
  /-- Where the engine's index has the member filed. -/
  filed : Filed

namespace Member

/-- A fresh record adopted at `now`. -/
def new (incarnation : Nat) (status : Status) (now : Time) : Member where
  incarnation := incarnation
  status := status
  statusSince := now
  suspectSince := 0
  suspectDue := Time.max
  accuseAt := Time.max
  suspectedHere := false
  deadSince := 0
  livenessSince := now
  entries := ∅
  entryDues := ∅
  maxStateVersion := 0
  changedAt := 0
  hashCache := none
  filed := Filed.none

variable (m : Member)

/-- Records a resolved liveness verdict.  `statusSince` moves only when the status
takes a new value. -/
def adoptStatus (status : Status) (now : Time) : Member :=
  let m := { m with livenessSince := now }
  -- A refuted or dead member is no longer accused.
  let m := if status ≠ .suspect then { m with accuseAt := Time.max, suspectedHere := false } else m
  if m.status ≠ status then { m with status := status, statusSince := now } else m

def suspectHere (now : Time) (window every : Nat) : Member :=
  { m with
    suspectSince := now
    suspectDue := satAdd now window
    accuseAt := satAdd now every
    suspectedHere := true }

/-- Starts the suspicion timer for a suspicion heard through gossip. -/
def hearSuspicion (now : Time) (heard own : Nat) : Member :=
  let m := { m with suspectSince := now }
  if m.suspectedHere then { m with suspectDue := satAdd now own }
  else { m with suspectDue := satAdd now heard, accuseAt := satAdd now own }

/-- Advances the version high-water mark. -/
def observeVersion (version : Nat) : Member :=
  { m with maxStateVersion := max m.maxStateVersion version }

def entriesChanged : Member := { m with hashCache := none }

/-- Takes `key` out of the deadline `due` it is listed under. -/
def unlistDue (due : Time) (key : String) : Member :=
  match m.entryDues[due]? with
  | none => m
  | some keys =>
    let keys := keys.erase key
    if keys.isEmpty then { m with entryDues := m.entryDues.erase due }
    else { m with entryDues := m.entryDues.insert due keys }

def listDue (due : Time) (key : String) : Member :=
  { m with entryDues := m.entryDues.insert due ((m.entryDues.getD due ∅).insert key) }

/-- Stores `entry` under `key`, re-listing the key under its new deadline. -/
def putEntry (key : String) (entry : StateEntry) (reapAfter : Nat) : Member :=
  let due := entry.reapDue reapAfter
  let old := m.entries[key]?.map (·.reapDue reapAfter)
  let m :=
    if old ≠ some due then
      let m := match old with
        | some listed => m.unlistDue listed key
        | none => m
      if due ≠ Time.max then m.listDue due key else m
    else m
  { m with entries := m.entries.insert key entry }.entriesChanged

/-- The keys listed under a deadline at or before `now`, in key order. -/
def dueKeys (now : Time) : List String :=
  ((m.entryDues.toList.takeWhile fun p => p.1 ≤ now).flatMap fun p => p.2.toList).insertionSort
    (· ≤ ·)

/-- Removes `keys` from the entries, in order, with what each was stored as. -/
def removeEntries : List String → Std.TreeMap String StateEntry →
    Std.TreeMap String StateEntry × List (String × StateEntry)
  | [], entries => (entries, [])
  | key :: keys, entries =>
    match entries[key]? with
    | some e =>
      let rest := removeEntries keys (entries.erase key)
      (rest.1, (key, e) :: rest.2)
    | none => removeEntries keys entries

def takeDueEntries (now : Time) : Member × List (String × StateEntry) :=
  let taken := removeEntries (m.dueKeys now) m.entries
  let m := { m with
    entryDues := m.entryDues.filter fun due _ => now < due
    entries := taken.1 }
  (if taken.2.isEmpty then m else m.entriesChanged, taken.2)

/-- When the first of the member's entries next needs a tick. -/
def nextEntryDue : Time := (m.entryDues.keys.head?).getD Time.max

/-- SWIM merge precedence: whether an incoming verdict overrides this record. -/
def supersededBy (incarnation : Nat) (status : Status) : Bool :=
  match status with
  | .alive => decide (m.incarnation < incarnation)
  | .suspect =>
    match m.status with
    | .alive => decide (m.incarnation ≤ incarnation)
    | .suspect => decide (m.incarnation < incarnation)
    | .dead => false
  | .dead => decide (m.status ≠ .dead) && decide (m.incarnation ≤ incarnation)

end Member

end Groupnet
