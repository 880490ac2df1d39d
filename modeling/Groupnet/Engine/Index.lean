import Groupnet.Engine.State

/-!
# The engine's index

The ordered views over the member map: who is due when, who is live by
coordinator score, who changed when.  `reindex` re-files one member after a
change, `restamp` moves it to a new change stamp, `forget` removes it.  The cached
probe ring and dissemination targets are patched as members enter and leave the
live set.
-/

namespace Groupnet

/-- How many forgotten members are kept for readers. -/
def forgottenKept : Nat := 4096

/-- Inserts `node` into, or removes it from, the sorted `list` so that it is there
exactly when `present`. -/
def patchSorted (node : NodeId) (present : Bool) : List NodeId → List NodeId
  | [] => if present then [node] else []
  | x :: xs =>
    match compare node x with
    | .lt => if present then node :: x :: xs else x :: xs
    | .eq => if present then x :: xs else xs
    | .gt => x :: patchSorted node present xs

namespace GroupEngine

variable (e : GroupEngine)

/-- After how long a tombstone is reaped. -/
def reapAfter : Nat := satMul e.config.deadTimeoutMs 2

/-- When `node`'s liveness next needs a tick. -/
def livenessDue (node : NodeId) (m : Member) : Time :=
  if node = e.localId then Time.max
  else match m.status with
    | .alive => Time.max
    | .suspect => min m.suspectDue m.accuseAt
    | .dead => satAdd m.deadSince e.reapAfter

/-- `node` entered or left the live set: patch the cached lists. -/
def liveSetChanged (node : NodeId) (live : Bool) : GroupEngine :=
  let candidate := live && decide (node ≠ e.localId)
  let target := candidate || e.seeds.contains node || e.bootstrapContacts.contains node
  { e with
    ring := e.ring.map (patchSorted node candidate)
    targets := e.targets.map (patchSorted node target) }

/-- Moves `node` from its filed deadline to `due`. -/
def refileDue (node : NodeId) (was due : Time) : GroupEngine :=
  if due = was then e
  else
    let set := e.index.due
    let set := if was ≠ Time.max then set.erase (dueKey was node) else set
    let set := if due ≠ Time.max then set.insert (dueKey due node) else set
    { e with index := { e.index with due := set } }

/-- Files `node` under its score while it is live, and returns the score. -/
def refileLive (node : NodeId) (was : Option Nat) (live : Bool) :
    GroupEngine × Option Nat :=
  match was, live with
  | some score, true => (e, some score)
  | none, true =>
    let score := Placement.ownerScore e.group.str node
    let e :=
      { e with index := { e.index with live := e.index.live.insert (Placement.rank score node) } }
    (e.liveSetChanged node true, some score)
  | some score, false =>
    let e :=
      { e with index := { e.index with live := e.index.live.erase (Placement.rank score node) } }
    (e.liveSetChanged node false, none)
  | none, false => (e, none)

/-- Re-files `node` after its liveness or entries changed. -/
def reindex (node : NodeId) : GroupEngine :=
  match e.members[node]? with
  | none => e
  | some m =>
    let due := min (e.livenessDue node m) m.nextEntryDue
    let e := e.refileDue node m.filed.due due
    let filed := e.refileLive node m.filed.score (decide (m.status ≠ .dead))
    filed.1.modifyMember node fun m =>
      { m with filed := { m.filed with due := due, score := filed.2 } }

/-- Moves `node` to a change stamp, under its current liveness instant. -/
def restamp (node : NodeId) (stamp : Nat) : GroupEngine :=
  match e.members[node]? with
  | none => e
  | some m =>
    let index :=
      if 0 < m.changedAt then
        { e.index with
          changed := e.index.changed.erase m.changedAt
          news := e.index.news.erase (newsKey m.filed.liveness m.changedAt node) }
      else e.index
    let m' := { m with
      changedAt := stamp
      filed := { m.filed with liveness := m.livenessSince } }
    { e with
      members := e.members.insert node m'
      index := { index with
        changed := index.changed.insert stamp node
        news := index.news.insert (newsKey m.livenessSince stamp node) } }

/-- Bumps the change clock, stamps `node` and re-files it. -/
def stamp (node : NodeId) : GroupEngine :=
  let e := { e with changeClock := e.changeClock + 1 }
  (e.restamp node e.changeClock).reindex node

def stampSelf : GroupEngine := e.stamp e.localId

/-- Removes `node` from the member map and every index. -/
def forget (node : NodeId) : GroupEngine :=
  match e.members[node]? with
  | none => e
  | some m =>
    let e := { e with members := e.members.erase node }
    let e :=
      if m.filed.due ≠ Time.max then
        { e with index := { e.index with due := e.index.due.erase (dueKey m.filed.due node) } }
      else e
    let e := match m.filed.score with
      | some score =>
        { e with index := { e.index with
            live := e.index.live.erase (Placement.rank score node) } }.liveSetChanged node false
      | none => e
    let e :=
      if 0 < m.changedAt then
        { e with index := { e.index with
            changed := e.index.changed.erase m.changedAt
            news := e.index.news.erase (newsKey m.filed.liveness m.changedAt node) } }
      else e
    let e := { e with digestPeers := e.digestPeers.erase node, changeClock := e.changeClock + 1 }
    let forgotten := e.index.forgotten.insert e.changeClock node
    match forgotten.toList.head? with
    | some first =>
      if forgottenKept < forgotten.size then
        { e with index := { e.index with
            forgotten := forgotten.erase first.1, forgottenFloor := first.1 } }
      else { e with index := { e.index with forgotten := forgotten } }
    | none => { e with index := { e.index with forgotten := forgotten } }

def dueMembers (now : Time) : List NodeId :=
  ((e.index.due.toList.takeWhile fun p => (ofLex p).1 ≤ now).map fun p => (ofLex p).2).insertionSort
    (· ≤ ·)

/-- The earliest deadline of any member. -/
def slowDeadline : Time :=
  (e.index.due.toList.head?.map fun p => (ofLex p).1).getD Time.max

/-- The live members other than the local one. -/
def probeCandidates : List NodeId :=
  (e.members.toList.filter fun p => p.1 ≠ e.localId && p.2.status ≠ .dead).map Prod.fst

/-- The probe ring, built on first use. -/
def probeRing : GroupEngine × List NodeId :=
  match e.ring with
  | some ring => (e, ring)
  | none => ({ e with ring := some e.probeCandidates }, e.probeCandidates)

/-- The coordinator the live index names. -/
def computeCoordinator : Option NodeId :=
  e.index.live.toList.getLast?.map Placement.Rank.node

/-- Re-derives the coordinator after the live set may have changed. -/
def recomputeCoordinator : Outcome :=
  let next := e.computeCoordinator
  if next = e.coordinator then (e, [])
  else ({ e with coordinator := next }, [.coordinatorChanged next])

/-- The members whose record changed after `since`, in the order they changed. -/
def membersChangedSince (since : Nat) : List NodeId :=
  (e.index.changed.toList.filter fun p => since < p.1).map Prod.snd

/-- The members forgotten after `since`, or `none` when the record does not reach
back to it. -/
def membersForgottenSince (since : Nat) : Option (List NodeId) :=
  if e.index.forgottenFloor ≤ since then
    some ((e.index.forgotten.toList.filter fun p => since < p.1).map Prod.snd)
  else none

end GroupEngine

end Groupnet
