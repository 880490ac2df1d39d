import Mathlib.Data.PNat.Basic
import Groupnet.Lib.Checked
import Groupnet.Lib.Expiry
import Groupnet.Network.Advert

/-!
# The route table

A router learns paths from the adverts of its neighbours and keeps, for each destination, one
candidate per link and neighbour.  A candidate is live while it was refreshed within the route's
time to live and its link admits its next hop.  The table also holds an index of the destinations
with a live candidate.  An advert updates the index for its own destination only.  Where the links
change, or the table is pruned, the index is built again.

A call here is what the source does under one hold of the table's lock.  Instants are those of a
clock that ends: a lapse after its end never comes.  Every call reads the clock once, except that
an announcement reads it for each candidate it looks at.
-/

namespace Groupnet.Network

/-- The number of a registered link, never used twice. -/
abbrev TransportId := Nat

abbrev SessionId := Nat

structure Route where
  destination : NodeId
  nextHop : NodeId
  transport : TransportId
  cost : Nat
  path : List NodeId
deriving DecidableEq

/-- What a router is configured with, and its own id.  Instants are numbers. -/
structure Routing where
  localId : NodeId
  maxRoutes : ℕ+
  maxTransports : ℕ+
  maxHops : ℕ+
  maxFrame : ℕ+
  routeTtl : Nat
  magic : List UInt8
  /-- The last instant of the clock. -/
  clockEnd : Nat

/-- A link admits its configured peers, or the sessions its registry has. -/
structure Link where
  peers : List NodeId
  sessions : Option (Std.TreeMap NodeId SessionId)

def Link.admits (link : Link) (peer : NodeId) (session : Option SessionId) : Bool :=
  match link.sessions, session with
  | some registry, some id => registry[peer]? = some id
  | none, none => peer ∈ link.peers
  | _, _ => false

structure Candidate where
  route : Route
  /-- The instant it was last refreshed. -/
  updated : Nat
  session : Option SessionId
deriving DecidableEq

/-- The candidates of a destination, by link and neighbour. -/
abbrev Choices := Std.TreeMap (TransportId ×ₗ NodeId) Candidate

/-- The destinations with a live route. -/
structure Reach where
  index : Expiry NodeId
  /-- Whether the destinations changed since they were published. -/
  changed : Bool

structure Table where
  links : Std.TreeMap TransportId Link
  nextLink : TransportId
  candidates : Std.TreeMap NodeId Choices
  reach : Reach

namespace Table

def empty : Table := ⟨∅, 0, ∅, ⟨.empty, false⟩⟩

variable (t : Table)

/-- The link of a candidate admits its next hop. -/
def admitted (c : Candidate) : Bool :=
  t.links[c.route.transport]?.any fun link => link.admits c.route.nextHop c.session

/-- When what is refreshed now lapses. -/
def lapseOf (r : Routing) (updated : Nat) : Lapse :=
  if updated + r.routeTtl ≤ r.clockEnd then .instant (updated + r.routeTtl) else .never

def candidatesOf (target : NodeId) : List Candidate :=
  match t.candidates[target]? with
  | none => []
  | some choices => choices.toList.map Prod.snd

/-- A candidate that is fresh and admitted. -/
def live (r : Routing) (now : Nat) (c : Candidate) : Bool :=
  (lapseOf r c.updated).isAfter now && t.admitted c

/-- The latest lapse of the live candidates of a destination. -/
def liveUntil (r : Routing) (target : NodeId) (now : Nat) : Option Lapse :=
  (((t.candidatesOf target).filter (t.live r now)).map fun c => lapseOf r c.updated).max?

/-- Examines a destination again. -/
def reachRefresh (r : Routing) (target : NodeId) (now : Nat) : Table :=
  let live := t.liveUntil r target now
  { t with reach :=
    { index := t.reach.index.update target live
      changed := t.reach.changed || t.reach.index.held[target]?.isSome != live.isSome } }

/-- Updates the index after an advert.  The candidate it refreshed is the freshest. -/
def reachAdvert (r : Routing) (target : NodeId) (admitted : Bool) (now : Nat) :
    Table :=
  if !admitted then t.reachRefresh r target now
  else
    let lapse := lapseOf r now
    let old := t.reach.index.held[target]?
    let next := old.elim lapse (max · lapse)
    if old = some next then t
    else { t with reach :=
      { index := t.reach.index.update target (some next)
        changed := t.reach.changed || old.isNone } }

/-- Drops the destinations whose last live route lapsed. -/
def reachExpire (now : Nat) : Table :=
  { t with reach :=
    { index := t.reach.index.expire now
      changed := t.reach.changed || (t.reach.index.lapses.toList.any fun entry =>
        decide ((ofLex entry).1 ≤ now)) } }

/-- Builds the index from the whole table. -/
def reachRebuild (r : Routing) (now : Nat) : Table :=
  let was := t.reach
  let t := t.candidates.keys.foldl (fun t target => t.reachRefresh r target now)
    { t with reach := ⟨.empty, false⟩ }
  { t with reach := { t.reach with
    changed := was.changed || t.reach.index.held.keys != was.index.held.keys } }

/-- The destinations the index holds. -/
def reachable : List NodeId := t.reach.index.held.keys

/-- Keeps the candidates that pass a test, and the destinations that have any left. -/
def retain (keep : NodeId → TransportId ×ₗ NodeId → Candidate → Bool) : Table :=
  { t with candidates := t.candidates.filterMap fun target choices =>
      let choices := choices.filter (keep target)
      if choices.isEmpty then none else some choices }

/-- Registers a link under the next number. -/
def attachLink (r : Routing) (link : Link) : Table :=
  if r.maxRoutes < link.peers.length ∨ r.maxTransports ≤ t.links.size then t
  else match checkedAdd usizeMax t.nextLink 1 with
  | none => t
  | some next => { t with links := t.links.insert t.nextLink link, nextLink := next }

/-- Unregisters a link and drops every route through it. -/
def remove (r : Routing) (id : TransportId) (now : Nat) : Table :=
  ({ t with links := t.links.erase id }.retain fun _ key _ => (ofLex key).1 ≠ id).reachRebuild r now

/-- Drops the routes a changed link does not admit any more. -/
def neighborsChanged (r : Routing) (id : TransportId) (now : Nat) : Table :=
  (t.retain fun _ key c => (ofLex key).1 ≠ id || t.links[(ofLex key).1]?.any fun link =>
    link.admits (ofLex key).2 c.session).reachRebuild r now

/-- Drops the routes that have lapsed.  `seen` is when each candidate was looked at. -/
def announce (r : Routing) (seen : NodeId → TransportId ×ₗ NodeId → Nat) (now : Nat) : Table :=
  (t.retain fun target key c => seen target key - c.updated < r.routeTtl).reachRebuild r now

/-- The candidate of a path that a neighbour advertised. -/
def learned (r : Routing) (link : TransportId) (neighbor : NodeId) (session : Option SessionId)
    (cost : Nat) (path : List NodeId) (destination : NodeId) (now : Nat) : Candidate :=
  ⟨⟨destination, neighbor, link, cost, r.localId :: path⟩, now, session⟩

/-- Puts in a candidate, in the place of what the neighbour advertised before. -/
def put (c : Candidate) : Table :=
  let choices := t.candidates[c.route.destination]?.getD ∅
  let choices := choices.insert (toLex (c.route.transport, c.route.nextHop)) c
  { t with candidates := t.candidates.insert c.route.destination choices }

def learn (r : Routing) (link : TransportId) (neighbor : NodeId) (session : Option SessionId)
    (cost advertised : Nat) (path : List NodeId) (now : Nat) :
    Table :=
  if path.head? ≠ some neighbor ∨ r.localId ∈ path ∨ r.maxHops ≤ path.length then t
  else match checkedAdd u32Max cost advertised, path.getLast? with
  | some cost, some destination =>
    if destination ∉ t.candidates ∧ r.maxRoutes ≤ t.candidates.size then t
    else
      let c := learned r link neighbor session cost path destination now
      ((t.put c).reachExpire now).reachAdvert r destination ((t.put c).admitted c) now
  | _, _ => t

end Table

/-! ## Runs -/

/-- The table, what was last published of it, and the instant of the last call. -/
structure RouterState where
  table : Table
  published : List NodeId
  now : Nat

namespace RouterState

/-- Publishes the destinations if they changed. -/
def publish (s : RouterState) : RouterState :=
  if s.table.reach.changed then
    { s with
      table := { s.table with reach := { s.table.reach with changed := false } }
      published := s.table.reachable }
  else s

end RouterState

/-- What happens to a router's table. -/
inductive RouterEvent where
  /-- A frame arrived over a link.  Only an advert has to do with the table. -/
  | frame (link : TransportId) (neighbor : NodeId) (session : Option SessionId) (cost : Nat)
      (bytes : List UInt8)
  | expire
  | announce (seen : NodeId → TransportId ×ₗ NodeId → Nat)
  | attach (link : Link)
  | remove (id : TransportId)
  /-- The admission of links changed, and the change of one of them is handled. -/
  | neighbors (id : TransportId) (registries : TransportId → Std.TreeMap NodeId SessionId)

namespace RouterState

/-- The links with what their registries have now. -/
def withRegistries (t : Table) (registries : TransportId → Std.TreeMap NodeId SessionId) : Table :=
  { t with links := t.links.map fun id link =>
      { link with sessions := link.sessions.map fun _ => registries id } }

def handle (s : RouterState) (r : Routing) (now : Nat) : RouterEvent → RouterState
  | .frame link neighbor session cost bytes =>
    match decodeBounded bytes r.magic r.maxFrame r.maxHops with
    | some (.advert _ advertised path) =>
      RouterState.publish { s with
        table := s.table.learn r link neighbor session cost advertised path now, now := now }
    | _ => { s with now := now }
  | .expire => { s with table := s.table.reachExpire now, now := now }
  | .announce seen =>
    RouterState.publish { s with table := s.table.announce r seen now, now := now }
  | .attach link => { s with table := s.table.attachLink r link, now := now }
  | .remove id => { s with table := s.table.remove r id now, now := now }
  | .neighbors id registries =>
    { s with table := (withRegistries s.table registries).neighborsChanged r id now, now := now }

/-- The clock does not go back, and a frame arrives over a link that was registered. -/
def Admits (s : RouterState) (r : Routing) (now : Nat) (e : RouterEvent) : Prop :=
  s.now ≤ now ∧ now ≤ r.clockEnd ∧
    match e with
    | .frame link .. => link < s.table.nextLink
    | .announce seen => ∀ target key, s.now ≤ seen target key ∧ seen target key ≤ now
    | _ => True

def start (s : RouterState) : Prop := s = ⟨.empty, [], s.now⟩

/-- An event leads from one state to the next. -/
def Step (r : Routing) (s s' : RouterState) : Prop :=
  ∃ now e, s.Admits r now e ∧ s' = s.handle r now e

end RouterState

end Groupnet.Network
