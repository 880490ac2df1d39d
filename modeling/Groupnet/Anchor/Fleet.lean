import Mathlib.Logic.Function.Basic
import Groupnet.Anchor.Task
import Groupnet.Rows.Events

/-!
# The nodes of an External group

Each node runs an actor around its engine and an anchor task beside it.  The actor takes
one event at a time and carries out its batch of effects before the next: a change of
leadership is published, and a prompt is left in a slot of one.  The task feeds commands
to the actor's inbox, which is bounded, so a command may be dropped.

The register is shared.  A write that was issued may be applied at any moment at which
its precondition holds, whatever its issuer was told in the meantime.

`Step` is one step of one node, or of the register, at the clock readings it is given.
-/

namespace Groupnet

/-- One node of the group. -/
structure Post where
  engine : GroupEngine
  /-- The effects of the last event that are still to be carried out. -/
  batch : List Effect
  inbox : List Command
  /-- The prompt that waits for the task. -/
  slot : Option Nat
  published : Leadership
  task : Claimant
  /-- What the register answered to the read the task awaits. -/
  reply : Option Loaded

def Post.new (me : NodeId) (terms : AnchorTerms) (e : GroupEngine) : Post where
  engine := e
  batch := []
  inbox := []
  slot := none
  published := .observed e.leadership.1 e.leadership.2 me
  task := .new me terms
  reply := none

structure Clock where
  /-- Milliseconds since the node started. -/
  logical : Time
  wall : Nat

/-- The nodes and their register, with every activation that was fed and every epoch that
was held. -/
structure Fleet where
  post : NodeId → Option Post
  history : History Write
  issued : List Write
  fed : List (NodeId × Nat)
  hosted : List (NodeId × Nat)

namespace Command

/-- Whether a command is the anchor task's to feed. -/
def isAnchor : Command → Bool
  | .anchorActivated .. | .anchorObserved .. => true
  | .updateMetadata .. | .setLocalState .. | .setLocalEntry .. | .deleteLocalEntry .. | .leave
  | .addPeer .. | .setBootstrapContacts .. => false

end Command

namespace Fleet

def empty : Fleet := ⟨fun _ => none, [], [], [], []⟩

variable (w : Fleet)

/-- Puts a node in place. -/
def set (n : NodeId) (p : Post) : Fleet :=
  { w with post := Function.update w.post n (some p) }

@[simp] theorem set_post_self (n : NodeId) (p : Post) :
    (w.set n p).post n = some p := Function.update_self ..

theorem set_post_of_ne {w : Fleet} {m n : NodeId} {p : Post} (h : m ≠ n) :
    (w.set n p).post m = w.post m := Function.update_of_ne h ..

def call (n : NodeId) (p : Post) (ev : Event) : Fleet :=
  let out := p.engine.handle ev
  let w := w.set n { p with engine := out.1, batch := out.2 }
  if out.1.role = .host then { w with hosted := (n, out.1.leadership.1) :: w.hosted } else w

def dispatch (n : NodeId) (p : Post) : Effect → Post
  | .leadershipChanged epoch host => { p with published := .observed epoch host n }
  -- A prompt that finds the slot taken is dropped.
  | .anchorClaimDue epochHint => { p with slot := some (p.slot.getD epochHint) }
  | .send .. | .armTimer .. | .coordinatorChanged .. | .membershipChanged | .nodeStateChanged ..
  | .persistGrant .. | .metadataChanged .. => p

/-- What may answer the task of a node. -/
def Answers (p : Post) (clock : Clock) : Answer → Prop
  | .prompt epochHint t0 => p.slot = some epochHint ∧ t0 = clock.logical
  | .wall w0 lead => w0 = clock.wall ∧ lead = p.published
  | .edge lead nowWallMs => lead = p.published ∧ nowWallMs = clock.wall
  | .loaded found => p.reply = some found
  | .stored token => ∃ x t0 renewing, p.task.phase = .writing x t0 renewing ∧
      w.history.At token x
  | .mismatch => ∃ x t0 renewing, p.task.phase = .writing x t0 renewing ∧
      w.history.admits x.pre = false ∧ x ∉ w.history
  | .loadFailed | .unknown | .released => True

/-- A prompt that is taken leaves the slot. -/
def Answer.takes : Answer → Bool
  | .prompt .. => true
  | .wall .. | .edge .. | .loaded .. | .stored .. | .mismatch | .loadFailed | .unknown
  | .released => false

/-- A node after its task reacted.  A command that is fed may be dropped. -/
def react (n : NodeId) (p : Post) (answer : Answer) (rx : Reaction) (kept : Bool) :
    Fleet :=
  let w := w.set n { p with
    task := rx.task
    inbox := if kept then p.inbox ++ rx.feed.toList else p.inbox
    slot := if Answer.takes answer || rx.drains then none else p.slot
    reply := none }
  { w with
    issued := w.issued ++ rx.store.toList
    fed := match rx.feed with
      | some (.anchorActivated epoch _) => (n, epoch) :: w.fed
      | _ => w.fed }

inductive Step (group : GroupId) (terms : AnchorTerms) (n : NodeId) (clock : Clock) :
    Fleet → Fleet → Prop where
  | join {w : Fleet} {seeds : List NodeId} {config : Config} {e : GroupEngine}
      (hdown : w.post n = none) (hnew : GroupEngine.new group n seeds config = .ok e)
      (hmode : config.mode = .hosted ⟨.external terms.stealMarginMs, terms.ttlMs⟩) :
      Step group terms n clock w (w.set n (.new n terms e))
  /-- A start, a tick, or any frame from anyone. -/
  | drive {w : Fleet} {p : Post} {ev : Event} (hup : w.post n = some p) (hready : p.batch = [])
      (htime : ev.time clock.logical = clock.logical) (hev : ∀ cmd, ev ≠ .command cmd) :
      Step group terms n clock w (w.call n p ev)
  | take {w : Fleet} {p : Post} {cmd : Command} {inbox : List Command} (hup : w.post n = some p)
      (hready : p.batch = []) (hinbox : p.inbox = cmd :: inbox) :
      Step group terms n clock w (w.call n { p with inbox := inbox } (.command cmd))
  | dispatch {w : Fleet} {p : Post} {x : Effect} {batch : List Effect} (hup : w.post n = some p)
      (hbatch : p.batch = x :: batch) :
      Step group terms n clock w (w.set n { Fleet.dispatch n p x with batch := batch })
  | submit {w : Fleet} {p : Post} {cmd : Command} (hup : w.post n = some p)
      (hcmd : cmd.isAnchor = false) :
      Step group terms n clock w (w.set n { p with inbox := p.inbox ++ [cmd] })
  | prompt {w : Fleet} {p : Post} {epochHint : Nat} (hup : w.post n = some p)
      (hslot : p.slot = none) :
      Step group terms n clock w (w.set n { p with slot := some epochHint })
  /-- The register answers a read. -/
  | read {w : Fleet} {p : Post} (hup : w.post n = some p) (hloads : p.task.phase.loads = true) :
      Step group terms n clock w (w.set n { p with reply := some w.history.anchor })
  | react {w : Fleet} {p : Post} {answer : Answer} {rx : Reaction} {kept : Bool}
      (hup : w.post n = some p) (hanswer : w.Answers p clock answer)
      (hrx : p.task.react w.issued.length answer = some rx) :
      Step group terms n clock w (w.react n p answer rx kept)
  /-- The register applies a write. -/
  | land {w : Fleet} {x : Write} (hx : x ∈ w.issued) (hpre : w.history.admits x.pre = true) :
      Step group terms n clock w { w with history := w.history ++ [x] }

/-! ## Schedules

A schedule is a list of acts of the nodes, each at its clock readings, carried out as long
as the system allows them. -/

/-- What a schedule lets a task await. -/
inductive Cue where
  | prompt
  | wall
  | loaded
  | stored
  | edge
  | released

def answer (p : Post) (clock : Clock) : Cue → Option Answer
  | .prompt => p.slot.map fun epochHint => .prompt epochHint clock.logical
  | .wall => some (.wall clock.wall p.published)
  | .loaded => p.reply.map .loaded
  | .stored =>
    match p.task.phase with
    | .writing x _ _ =>
      if w.history.getLast? = some x then some (.stored w.history.length) else none
    | _ => none
  | .edge => some (.edge p.published clock.wall)
  | .released => some .released

theorem answers_of_answer {w : Fleet} {p : Post} {clock : Clock} {cue : Cue} {answer : Answer}
    (h : w.answer p clock cue = some answer) : w.Answers p clock answer := by
  cases cue with
  | prompt =>
    obtain ⟨epochHint, hslot, rfl⟩ := Option.map_eq_some_iff.mp h
    exact ⟨hslot, rfl⟩
  | wall | edge =>
    cases h
    exact ⟨rfl, rfl⟩
  | loaded =>
    obtain ⟨found, hreply, rfl⟩ := Option.map_eq_some_iff.mp h
    exact hreply
  | stored =>
    unfold Fleet.answer at h
    dsimp only at h
    split at h
    next x t0 renewing hphase =>
      split at h
      next hlast =>
        cases h
        exact ⟨x, t0, renewing, hphase, History.at_length_iff.mpr hlast⟩
      next => cases h
    next => cases h
  | released =>
    cases h
    trivial

inductive Act where
  | join
  | start
  | tick
  | take
  | dispatch
  | read
  | react (cue : Cue)
  | land (ticket : Nat)

def perform (group : GroupId) (config : Config) (terms : AnchorTerms) (n : NodeId) (clock : Clock)
    (w : Fleet) : Act → Option Fleet
  | .join =>
    match w.post n, GroupEngine.new group n [] config with
    | none, .ok e => some (w.set n (.new n terms e))
    | _, _ => none
  | .start =>
    ((w.post n).filter (·.batch.isEmpty)).map fun p => w.call n p (.start clock.logical)
  | .tick =>
    ((w.post n).filter (·.batch.isEmpty)).map fun p => w.call n p (.tick clock.logical)
  | .take =>
    ((w.post n).filter (·.batch.isEmpty)).bind fun p =>
      match p.inbox with
      | [] => none
      | cmd :: inbox => some (w.call n { p with inbox := inbox } (.command cmd))
  | .dispatch =>
    (w.post n).bind fun p =>
      match p.batch with
      | [] => none
      | x :: batch => some (w.set n { dispatch n p x with batch := batch })
  | .read =>
    ((w.post n).filter (·.task.phase.loads)).map fun p =>
      w.set n { p with reply := some w.history.anchor }
  | .react cue =>
    (w.post n).bind fun p => (w.answer p clock cue).bind fun answer =>
      (p.task.react w.issued.length answer).map fun rx => w.react n p answer rx true
  | .land ticket =>
    (w.issued.find? fun x => decide (x.ticket = ticket) && w.history.admits x.pre).map fun x =>
      { w with history := w.history ++ [x] }

theorem step_of_perform {group : GroupId} {config : Config} {terms : AnchorTerms} {n : NodeId}
    {clock : Clock} {w w' : Fleet} {act : Act}
    (hmode : config.mode = .hosted ⟨.external terms.stealMarginMs, terms.ttlMs⟩)
    (h : w.perform group config terms n clock act = some w') : Step group terms n clock w w' := by
  cases act with
  | join =>
    unfold perform at h
    dsimp only at h
    split at h
    next e hdown hnew =>
      cases h
      exact .join hdown hnew hmode
    next => cases h
  | start | tick =>
    obtain ⟨p, hup, rfl⟩ := Option.map_eq_some_iff.mp h
    obtain ⟨hup, hready⟩ := Option.filter_eq_some_iff.mp hup
    exact .drive hup (List.isEmpty_iff.mp hready) rfl nofun
  | take =>
    obtain ⟨p, hup, h⟩ := Option.bind_eq_some_iff.mp h
    obtain ⟨hup, hready⟩ := Option.filter_eq_some_iff.mp hup
    split at h
    next => cases h
    next hinbox =>
      cases h
      exact .take hup (List.isEmpty_iff.mp hready) hinbox
  | dispatch =>
    obtain ⟨p, hup, h⟩ := Option.bind_eq_some_iff.mp h
    split at h
    next => cases h
    next hbatch =>
      cases h
      exact .dispatch hup hbatch
  | read =>
    obtain ⟨p, hup, rfl⟩ := Option.map_eq_some_iff.mp h
    obtain ⟨hup, hloads⟩ := Option.filter_eq_some_iff.mp hup
    exact .read hup hloads
  | react cue =>
    obtain ⟨p, hup, h⟩ := Option.bind_eq_some_iff.mp h
    obtain ⟨answer, hanswer, h⟩ := Option.bind_eq_some_iff.mp h
    obtain ⟨rx, hrx, rfl⟩ := Option.map_eq_some_iff.mp h
    exact .react hup (answers_of_answer hanswer) hrx
  | land ticket =>
    obtain ⟨x, hfind, rfl⟩ := Option.map_eq_some_iff.mp h
    have hcan := List.find?_some hfind
    exact .land (List.mem_of_find?_eq_some hfind) (Bool.and_eq_true_iff.mp hcan).2

/-! Two nodes, whose leases run for 1000 ms and may be stolen 100 ms later. -/

def duoA : NodeId := .ofChar 'a'

def duoB : NodeId := .ofChar 'b'

def duoGroup : GroupId := .ofChar 'g'

def duoTerms : AnchorTerms := ⟨1000, 100⟩

def duoConfig : Config := { Config.default with mode := .hosted ⟨.external 100, 1000⟩ }

/-- A node that boots, claims and becomes host. -/
def duoClaim (ticket : Nat) : List Act :=
  [.join, .tick, .dispatch, .dispatch, .react .prompt, .react .wall, .read, .react .loaded,
    .land ticket, .react .stored, .take]

end Fleet

end Groupnet
