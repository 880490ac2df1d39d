import Groupnet.Engine.Step
import Groupnet.Lib.Trace
import Groupnet.Rows.Still

/-!
# What an engine call can do

An engine call is a row of touches.  A touch is one of the few acts that change what
gossip keeps: a claim heard, a section merged, an echo met, a record suspected, buried
or forgotten, an entry written or reaped.  `Touch` lists them, each with what allows it,
the keys of state it owes a notice for and what it says.  A touch `aside` changes only
the election and the pacing.

`Touched` is the shape of every call: a trace of touches whose owed notices are all
among its effects.  A call may use some powers only, and one without any leaves the
election alone.
-/

namespace Groupnet

open Wire (Frame)
open GroupEngine (blobKey bury reapMemberEntries)

/-- What an engine call answers. -/
inductive Cause where
  /-- A tick, or the start. -/
  | clock
  | frame (f : Frame)
  | command (cmd : Command)

/-- What a call may do beside its gossip. -/
structure Powers where
  /-- It may move the election. -/
  votes : Prop
  /-- It may choose the digests of a round. -/
  digests : Prop

abbrev Powers.all : Powers := ⟨True, True⟩

abbrev Powers.none : Powers := ⟨False, False⟩

structure EntryWrite where
  key : String
  value : List UInt8
  ttlMs : Nat
  tombstone : Bool

def Command.write : Command → Option EntryWrite
  | .setLocalState state => some ⟨blobKey, state, 0, false⟩
  | .setLocalEntry key value ttlMs => some ⟨key, value, ttlMs.getD 0, false⟩
  | .deleteLocalEntry key => some ⟨key, [], 0, true⟩
  | _ => none

/-- The engine without its election and its pacing. -/
structure Bearing where
  group : GroupId
  localId : NodeId
  config : Config
  incarnation : Nat
  leaving : Bool
  members : Std.TreeMap NodeId Member
  seeds : Std.TreeSet NodeId
  bootstrapContacts : Std.TreeSet NodeId
  targets : Option (List NodeId)
  ring : Option (List NodeId)
  index : Index
  metadata : Std.TreeMap String VersionedValue
  coordinator : Option NodeId
  authored : Std.TreeSet String
  changeClock : Nat
  nowHint : Time
  digestPeers : Std.TreeMap NodeId PeerDigest

namespace GroupEngine

/-- What gossip keeps of an engine. -/
def bearing (e : GroupEngine) : Bearing :=
  ⟨e.group, e.localId, e.config, e.incarnation, e.leaving, e.members, e.seeds,
    e.bootstrapContacts, e.targets, e.ring, e.index, e.metadata, e.coordinator, e.authored,
    e.changeClock, e.nowHint, e.digestPeers⟩

def metadataDeltas (e : GroupEngine) : List Wire.MetaDelta :=
  e.metadata.toList.map fun p => ⟨p.1, p.2.version, p.2.writer, p.2.value⟩

/-- Whether a digest or a delta names this node at an incarnation. -/
def NamedAt (e : GroupEngine) (f : Frame) (incarnation : Nat) : Prop :=
  (∃ d ∈ f.digest, d.node = e.localId ∧ d.incarnation = incarnation) ∨
    ∃ d ∈ f.members, d.node = e.localId ∧ d.incarnation = incarnation

/-- Whether a frame of digest lines or wants is cut to the budget: over it, it holds one
line or want at most. -/
def CutTo (budget : Nat) (f : Frame) : Prop :=
  (Wire.encode f).length ≤ budget ∨ f.digest.length ≤ 1 ∧ f.wants.length ≤ 1

/-- What an engine may say as it stands, in answer to a cause. -/
inductive Utters (p : Powers) (c : Cause) (e : GroupEngine) : Effect → Prop
  | armTimer (due : Time) : Utters p c e (.armTimer due)
  | coordinatorChanged (coordinator : Option NodeId) : Utters p c e
      (.coordinatorChanged coordinator)
  | membershipChanged : Utters p c e .membershipChanged
  | nodeStateChanged (node : NodeId) (key : String) : Utters p c e (.nodeStateChanged node key)
  | leadershipChanged (epoch : Nat) (host : Option NodeId) (hvotes : p.votes) : Utters p c e
      (.leadershipChanged epoch host)
  | persistGrant (epoch : Nat) (claimant : NodeId) (hvotes : p.votes) : Utters p c e
      (.persistGrant epoch claimant)
  | anchorClaimDue (epochHint : Nat) (hvotes : p.votes) : Utters p c e (.anchorClaimDue epochHint)
  | metadataChanged (key value : String) : Utters p c e (.metadataChanged key value)
  /-- A frame of digest lines, perhaps none, and in a round perhaps the metadata. -/
  | lines (dest : NodeId) (frame : Frame) (now : Time) (hmembers : frame.members = [])
      (hlead : p.votes ∨ frame.lead = none)
      (hmetadata : frame.metadata = [] ∨ c = .clock ∧ frame.metadata = e.metadataDeltas ∧
        frame.kind = .digest ∧ frame.group = e.group ∧ frame.target = none)
      (hcut : CutTo e.config.maxDeltaFrameBytes.val frame)
      (hdigest : ∀ d ∈ frame.digest, ∃ m,
        e.members[d.node]? = some m ∧ d = e.summary d.node m now) :
      Utters p c e (.send dest frame)
  | delta (dest : NodeId) (frame : Frame) (wants : List (NodeId × Nat)) (now : Time)
      (hbuilt : e.buildDeltaFrame wants now = some frame) : Utters p c e (.send dest frame)

end GroupEngine

/-- One act of an engine call on what gossip keeps, with the notices it owes and what it
says. -/
inductive Touch (p : Powers) (now : Time) (c : Cause) :
    GroupEngine → List (NodeId × String) → List Effect → GroupEngine → Prop
  /-- The election or the pacing moves. -/
  | aside {e e' : GroupEngine} (h : e'.bearing = e.bearing)
      (helection : p.votes ∨ e'.election = e.election) :
      Touch p now c e [] [] e'
  | said {e : GroupEngine} {x : Effect} (h : e.Utters p c x) : Touch p now c e [] [x] e
  | observed {e : GroupEngine} : Touch p now c e [] [] (e.observeNow now)
  /-- The coordinator is re-derived. -/
  | coordinated {e : GroupEngine} :
      Touch p now c e [] [] { e with coordinator := e.computeCoordinator }
  /-- A digest for a peer is chosen. -/
  | digested {e : GroupEngine} (dest : NodeId) (hc : c = .clock) (hdigests : p.digests) :
      Touch p now c e [] [] { e with
        digestPeers := e.digestPeers.insert dest (e.digestFor dest now).2.2 }
  | hashed {e : GroupEngine} (node : NodeId) : Touch p now c e [] [] (e.refreshContentHash node now)
  | ringed {e : GroupEngine} : Touch p now c e [] [] e.probeRing.1
  /-- The dissemination targets are built. -/
  | targeted {e : GroupEngine} :
      Touch p now c e [] [] { e with targets := some (e.targets.getD e.disseminationTargets) }
  | contacted {e : GroupEngine} (contacts : List NodeId)
      (hc : c = .command (.setBootstrapContacts contacts)) :
      Touch p now c e [] [] (e.setBootstrapContacts contacts)
  | heard {e : GroupEngine} (f : Frame) (d : Wire.NodeDigest) (status : Status) (hc : c = .frame f)
      (hkind : f.kind = .digest) (hd : d ∈ f.digest)
      (hstatus : Status.fromWire d.status = some status) (hnode : d.node ≠ e.localId) :
      Touch p now c e [] [] (e.mergeRemoteLiveness d.node d.incarnation status now).1
  /-- A section about a remote node is merged. -/
  | merged {e : GroupEngine} (f : Frame) (d : Wire.MemberDelta) (status : Status)
      (hc : c = .frame f) (hkind : f.kind = .delta) (hd : d ∈ f.members)
      (hstatus : Status.fromWire d.status = some status) (hnode : d.node ≠ e.localId) :
      Touch p now c e ((e.mergePeerDelta d status now).2.2.map (Prod.mk d.node)) []
        (e.mergePeerDelta d status now).1
  /-- An entry of this node's own comes back. -/
  | echoed {e : GroupEngine} (f : Frame) (d : Wire.MemberDelta) (entry : Wire.EntryDelta)
      (hc : c = .frame f) (hkind : f.kind = .delta) (hd : d ∈ f.members)
      (hnode : d.node = e.localId) (hentry : entry ∈ d.entries) :
      Touch p now c e ((e.mergeOwnEcho entry now).2.map (Prod.mk e.localId)) []
        (e.mergeOwnEcho entry now).1
  /-- A claim about this node is refuted. -/
  | refuted {e : GroupEngine} (f : Frame) (incarnation : Nat) (hc : c = .frame f)
      (hnamed : e.NamedAt f incarnation) (hle : e.incarnation ≤ incarnation)
      (hstay : e.leaving = false) :
      Touch p now c e [] [] (e.applyRefutation (some (wrapAdd incarnation 1))).1
  | registered {e : GroupEngine} (f : Frame) (d : Wire.MetaDelta) (hc : c = .frame f)
      (hkind : f.kind = .digest) (hd : d ∈ f.metadata) : Touch p now c e [] [] (e.mergeMeta d).1
  | wrote {e : GroupEngine} (key value : String) (hc : c = .command (.updateMetadata key value)) :
      Touch p now c e [] [] (e.updateMetadata key value).1
  /-- This node's own probe found a live node silent. -/
  | suspected {e : GroupEngine} (node : NodeId) (m : Member) (hc : c = .clock)
      (hm : e.members[node]? = some m) (hstatus : m.status = .alive) :
      Touch p now c e [] [] (GroupEngine.stamp { e with
        members := e.members.insert node ((m.adoptStatus .suspect now).suspectHere now
          e.config.suspectTimeoutMs e.config.probeTimeoutMs) } node)
  /-- It confirmed a suspicion heard of. -/
  | confirmed {e : GroupEngine} (node : NodeId) (m : Member) (hc : c = .clock)
      (hm : e.members[node]? = some m) (hstatus : m.status = .suspect) :
      Touch p now c e [] [] (GroupEngine.reindex { e with
        members := e.members.insert node
          { m.suspectHere now e.config.suspectTimeoutMs e.config.probeTimeoutMs with
            suspectDue := min m.suspectDue (satAdd now e.config.suspectTimeoutMs) } } node)
  | accused {e : GroupEngine} (node : NodeId) (hc : c = .clock) :
      Touch p now c e [] [] ((e.modifyMember node fun m => { m with
        accuseAt := satAdd now
          (if m.suspectedHere then e.config.probeTimeoutMs else e.config.gossipIntervalMs)
        }).reindex node)
  | buried {e : GroupEngine} (node : NodeId) (hc : c = .clock) (hnode : node ≠ e.localId) :
      Touch p now c e [] [] (bury now e node)
  | forgotten {e : GroupEngine} (node : NodeId) (hc : c = .clock) (hnode : node ≠ e.localId) :
      Touch p now c e [] [] (e.forget node)
  /-- A node's due entries are dropped. -/
  | reaped {e : GroupEngine} (node : NodeId) (hc : c = .clock) :
      Touch p now c e ((e.members[node]?.toList.flatMap fun m => (m.takeDueEntries now).2).filterMap
        fun p => if p.2.tombstone then none else some (node, p.1)) []
          (reapMemberEntries now e node).1
  /-- A key of this node's own is written or deleted. -/
  | authored {e : GroupEngine} (cmd : Command) (w : EntryWrite) (m : Member) (hc : c = .command cmd)
      (hw : cmd.write = some w) (hm : e.members[e.localId]? = some m) :
      Touch p now c e [(e.localId, w.key)] [] (e.author m w.key
        (StateEntry.adopted (satAdd m.maxStateVersion 1) w.value w.ttlMs w.tombstone e.nowHint))
  /-- This node declares itself dead. -/
  | left {e : GroupEngine} (hc : c = .command .leave) :
      Touch p now c e [] []
        (GroupEngine.stampSelf (GroupEngine.modifyMember { e with leaving := true } e.localId
        fun m => { m.adoptStatus .dead e.nowHint with deadSince := e.nowHint }))
  | met {e : GroupEngine} (node : NodeId) (since : Time)
      (hc : (∃ f, c = .frame f) ∨ c = .command (.addPeer node)) (hnode : node ≠ e.localId)
      (hnew : e.members[node]? = none) :
      Touch p now c e [] [] (GroupEngine.stamp { e with
        members := e.members.insert node (Member.new 0 .alive since) } node)

/-- Who an engine is: no call changes it. -/
structure Identity where
  group : GroupId
  localId : NodeId
  config : Config

def GroupEngine.identity (e : GroupEngine) : Identity := ⟨e.group, e.localId, e.config⟩

def Still.identity (s : Still) : Identity := ⟨s.group, s.localId, s.config⟩

/-! ## An engine's own doings -/

/-- What an engine did itself, beside the records of its members. -/
structure Doings where
  incarnation : Nat
  leaving : Bool
  metadata : Std.TreeMap String VersionedValue
  authored : Std.TreeSet String

def GroupEngine.doings (e : GroupEngine) : Doings :=
  ⟨e.incarnation, e.leaving, e.metadata, e.authored⟩

def Still.doings (s : Still) : Doings := ⟨s.incarnation, s.leaving, s.metadata, s.authored⟩

inductive Doing (c : Cause) (e : GroupEngine) : Doings → Prop
  | none : Doing c e e.doings
  | refuted (f : Frame) (incarnation : Nat) (hc : c = .frame f) (hnamed : e.NamedAt f incarnation)
      (hle : e.incarnation ≤ incarnation) :
      Doing c e { e.doings with incarnation := wrapAdd incarnation 1 }
  | registered (f : Frame) (d : Wire.MetaDelta) (hc : c = .frame f) (hd : d ∈ f.metadata) :
      Doing c e { e.doings with metadata := (e.mergeMeta d).1.metadata }
  | wrote (key value : String) (hc : c = .command (.updateMetadata key value)) :
      Doing c e { e.doings with metadata := (e.updateMetadata key value).1.metadata }
  | authored (cmd : Command) (w : EntryWrite) (hc : c = .command cmd) (hw : cmd.write = some w) :
      Doing c e { e.doings with authored := e.authored.insert w.key }
  | left (hc : c = .command .leave) : Doing c e { e.doings with leaving := true }

/-- What a touch leaves of the rest of an engine. -/
structure Rest (p : Powers) (c : Cause) (e e' : GroupEngine) : Prop where
  doing : Doing c e e'.doings
  identity : e'.identity = e.identity
  election : p.votes ∨ e'.election = e.election
  /-- Digest records are written in rounds and by new contacts, and else only dropped. -/
  peers : e'.digestPeers = e.digestPeers ∨
    c = .clock ∧ (p.digests ∨ ∃ x, e'.digestPeers = e.digestPeers.erase x) ∨
    ∃ contacts, c = .command (.setBootstrapContacts contacts)

namespace GroupEngine

variable {p : Powers} {now : Time} {c : Cause} {e e' : GroupEngine} {owed : List (NodeId × String)}
  {said : List Effect}

/-- Filing keeps the rest. -/
theorem rest_filed {t : GroupEngine} (hstill : e'.still = t.still) (h : Rest p c e t) :
    Rest p c e e' where
  doing := by
    have hdoings : e'.doings = t.doings := congrArg Still.doings hstill
    exact hdoings ▸ h.doing
  identity := (congrArg Still.identity hstill).trans h.identity
  election := h.election.imp_right (congrArg Still.election hstill).trans
  peers := by
    have hpeers : e'.digestPeers = t.digestPeers := congrArg Still.digestPeers hstill
    exact hpeers ▸ h.peers

theorem rest_refl : Rest p c e e := ⟨.none, rfl, .inr rfl, .inl rfl⟩

theorem rest_of_still (h : e'.still = e.still) : Rest p c e e' := rest_filed h rest_refl

theorem rest_mergeMeta (d : Wire.MetaDelta)
    (h : Doing c e { e.doings with metadata := (e.mergeMeta d).1.metadata }) :
    Rest p c e (e.mergeMeta d).1 := by
  unfold mergeMeta at h ⊢
  dsimp only at h ⊢
  split <;> split <;> simp_all only <;> exact ⟨h, rfl, .inr rfl, .inl rfl⟩

theorem rest_setBootstrapContacts (contacts : List NodeId)
    (hc : c = .command (.setBootstrapContacts contacts)) :
    Rest p c e (e.setBootstrapContacts contacts) := by
  unfold setBootstrapContacts
  split
  · exact rest_refl
  · dsimp only
    split
    · exact rest_refl
    · exact ⟨.none, rfl, .inr rfl, .inr (.inr ⟨contacts, hc⟩)⟩

theorem peers_forget (e : GroupEngine) (x : NodeId) :
    (e.forget x).digestPeers = e.digestPeers ∨
      (e.forget x).digestPeers = e.digestPeers.erase x := by
  unfold forget
  split
  · exact .inl rfl
  · refine .inr ?_
    dsimp only
    split <;> split <;> split <;> split <;> first | rfl | (split <;> rfl)

theorem rest_forget (x : NodeId) (hc : c = .clock) : Rest p c e (e.forget x) := by
  refine rest_filed (t := { e with digestPeers := (e.forget x).digestPeers }) (e.still_forget x) ?_
  exact ⟨.none, rfl, .inr rfl, (e.peers_forget x).imp_right fun h => .inl ⟨hc, .inr ⟨x, h⟩⟩⟩

end GroupEngine

section

variable {p : Powers} {now : Time} {c : Cause} {e e' : GroupEngine} {owed : List (NodeId × String)}
  {said : List Effect}

open GroupEngine in
theorem Touch.rest (h : Touch p now c e owed said e') : Rest p c e e' := by
  cases h with
  | aside h helection =>
    have hdoings : e'.doings = e.doings :=
      congrArg (fun b : Bearing => (⟨b.incarnation, b.leaving, b.metadata, b.authored⟩ : Doings)) h
    exact ⟨hdoings ▸ .none,
      congrArg (fun b : Bearing => (⟨b.group, b.localId, b.config⟩ : Identity)) h,
      helection, .inl (congrArg Bearing.digestPeers h)⟩
  | said | observed | coordinated | targeted => exact ⟨.none, rfl, .inr rfl, .inl rfl⟩
  | digested _ hc hdigests => exact ⟨.none, rfl, .inr rfl, .inr (.inl ⟨hc, .inl hdigests⟩)⟩
  | hashed => exact rest_of_still (still_refreshContentHash ..)
  | ringed => exact rest_of_still (still_probeRing _)
  | contacted contacts hc => exact rest_setBootstrapContacts contacts hc
  | heard => exact rest_of_still (still_mergeRemoteLiveness ..)
  | merged => exact rest_of_still (still_mergePeerDelta ..)
  | echoed => exact rest_of_still (still_mergeOwnEcho ..)
  | refuted f incarnation hc hnamed hle =>
    exact rest_filed ((still_stampSelf _).trans (still_modifyMember ..))
      ⟨.refuted f incarnation hc hnamed hle, rfl, .inr rfl, .inl rfl⟩
  | registered f d hc _ hd => exact rest_mergeMeta d (.registered f d hc hd)
  | wrote key value hc => exact ⟨.wrote key value hc, rfl, .inr rfl, .inl rfl⟩
  | suspected | met => exact rest_of_still (still_stamp ..)
  | confirmed => exact rest_of_still (still_reindex ..)
  | accused => exact rest_of_still ((still_reindex ..).trans (still_modifyMember ..))
  | buried => exact rest_of_still (still_bury ..)
  | forgotten node hc => exact rest_forget node hc
  | reaped => exact rest_of_still (still_reapMemberEntries ..)
  | authored cmd w m hc hw =>
    exact rest_filed (still_stampSelf _) ⟨.authored cmd w hc hw, rfl, .inr rfl, .inl rfl⟩
  | left hc =>
    exact rest_filed ((still_stampSelf _).trans (still_modifyMember ..)) ⟨.left hc, rfl, .inr rfl,
      .inl rfl⟩

theorem Touch.identity_eq (h : Touch p now c e owed said e') : e'.identity = e.identity :=
  h.rest.identity

theorem Touch.doing (h : Touch p now c e owed said e') : Doing c e e'.doings := h.rest.doing

end

abbrev Touches (p : Powers) (now : Time) (c : Cause) := Trace (Touch p now c)

/-- The shape of an engine call: a row of touches whose owed notices it gives. -/
def Touched (p : Powers) (now : Time) (c : Cause) (e : GroupEngine) (o : Outcome) : Prop :=
  ∃ owed, Touches p now c e owed o.2 o.1 ∧ ∀ p ∈ owed, Effect.nodeStateChanged p.1 p.2 ∈ o.2

namespace Touches

variable {p : Powers} {now : Time} {c : Cause} {e e' : GroupEngine}

theorem aside (h : e'.bearing = e.bearing) (helection : p.votes ∨ e'.election = e.election) :
    Touches p now c e [] [] e' :=
  .single (.aside h helection)

/-- What an engine says as it stands. -/
theorem say {fx : List Effect} (h : ∀ x ∈ fx, e.Utters p c x) : Touches p now c e [] fx e := by
  induction fx with
  | nil => exact .nil
  | cons x fx ih =>
    exact .cons (.said (h x (List.mem_cons_self ..)))
      (ih fun y hy => h y (List.mem_cons_of_mem _ hy))

theorem identity_eq {owed : List (NodeId × String)} {said : List Effect}
    (h : Touches p now c e owed said e') : e'.identity = e.identity := by
  refine h.relates (R := fun a b => b.identity = a.identity) (fun _ => rfl) ?_ Touch.identity_eq
  exact fun hab hbc => hbc.trans hab

theorem localId_eq {owed : List (NodeId × String)} {said : List Effect}
    (h : Touches p now c e owed said e') : e'.localId = e.localId :=
  congrArg Identity.localId h.identity_eq

/-- A pass of silent touches over a list. -/
theorem foldl {α : Type} {f : GroupEngine → α → GroupEngine} {l : List α}
    (h : ∀ e' a, a ∈ l → e'.localId = e.localId → Touches p now c e' [] [] (f e' a)) :
    Touches p now c e [] [] (l.foldl f e) := by
  induction l generalizing e with
  | nil => exact .nil
  | cons a l ih =>
    have ha := h e a (List.mem_cons_self ..) rfl
    exact ha.trans (ih fun e' b hb hid =>
      h e' b (List.mem_cons_of_mem _ hb) (hid.trans (localId_eq ha)))

end Touches

namespace Touched

variable {p : Powers} {now : Time} {c : Cause} {e e' : GroupEngine} {o o' : Outcome}

theorem skip (h : Touches p now c e [] [] e') : Touched p now c e (e', []) :=
  ⟨[], h, fun _ hp => absurd hp List.not_mem_nil⟩

theorem refl (e : GroupEngine) : Touched p now c e (e, []) := skip .nil

theorem aside (h : e'.bearing = e.bearing) (helection : p.votes ∨ e'.election = e.election) :
    Touched p now c e (e', []) :=
  skip (.aside h helection)

theorem andThen {f : GroupEngine → Outcome} (h : Touched p now c e o)
    (hf : Touched p now c o.1 (f o.1)) :
    Touched p now c e (o.andThen f) := by
  obtain ⟨owed, ht, hn⟩ := h
  obtain ⟨owed', ht', hn'⟩ := hf
  refine ⟨owed ++ owed', ht.trans ht', ?_⟩
  intro p hp
  rcases List.mem_append.mp hp with hp | hp
  · exact List.mem_append_left _ (hn p hp)
  · exact List.mem_append_right _ (hn' p hp)

theorem andSay {f : GroupEngine → List Effect} (h : Touched p now c e o)
    (hf : ∀ x ∈ f o.1, o.1.Utters p c x) : Touched p now c e (o.andSay f) := by
  obtain ⟨owed, ht, hn⟩ := h
  refine ⟨owed ++ [], ht.trans (Touches.say hf), ?_⟩
  rw [List.append_nil]
  exact fun p hp => List.mem_append_left _ (hn p hp)

/-- Silent touches before a call. -/
theorem of (h : Touched p now c e' o) (hpre : Touches p now c e [] [] e') :
    Touched p now c e o := by
  obtain ⟨owed, ht, hn⟩ := h
  exact ⟨owed, hpre.trans ht, hn⟩

/-- Silent touches after a call. -/
theorem map (h : Touched p now c e o) (hpost : Touches p now c o.1 [] [] e') :
    Touched p now c e (e', o.2) := by
  obtain ⟨owed, ht, hn⟩ := h
  refine ⟨owed, ?_, hn⟩
  simpa using ht.trans hpost

/-- What the engine says at the end of silent touches. -/
theorem sayAt {fx : List Effect} (h : Touches p now c e [] [] e')
    (hfx : ∀ x ∈ fx, e'.Utters p c x) :
    Touched p now c e (e', fx) :=
  (skip h).andSay (f := fun _ => fx) hfx

theorem each {α : Type} {f : GroupEngine → α → Outcome} {l : List α}
    (h : ∀ e a, a ∈ l → Touched p now c e (f e a)) : Touched p now c e (Emit.each f e l) := by
  induction l generalizing e with
  | nil => exact refl e
  | cons a l ih =>
    exact (h e a (List.mem_cons_self ..)).andThen
      (ih fun e b hb => h e b (List.mem_cons_of_mem _ hb))

end Touched

end Groupnet
