import Groupnet.Hosted.Ledger
import Groupnet.Lib.Run
import Groupnet.Quorum.Exclusion

/-!
# The stamps of one voter

One voter over many process lives: its engine, the ledger it publishes from, and what it
has published.  A reading is encoded under the ledger's lock and handed to the group's
inbox afterwards, so readings may be published out of order or not at all.  A restart
keeps the pairs the node granted and the tokens it applied.

Within one life a reading of a lower stamp was encoded before and says nothing new.
Across a restart the stamp starts from nothing, and the epoch the engine adopts first may
be one it had left behind.
-/

namespace Groupnet

/-- A reading that has, per writer, nothing above what was published before it. -/
def Reading.Repeats (q : Reading) (earlier : List Reading) : Prop :=
  ∀ (writer : NodeId) (token : WriteToken), q.applied[writer]? = some token →
    ∃ p ∈ earlier, ∃ token', p.applied[writer]? = some token' ∧ token ≤ token'

/-- Readings, the newest first, of which none has both a lower stamp and a higher watermark
than was published before it. -/
def Honest : List Reading → Prop
  | [] => True
  | q :: earlier =>
    (∀ p ∈ earlier, q.leadEpoch < p.leadEpoch → q.Repeats earlier) ∧ Honest earlier

theorem Honest.split {later earlier : List Reading} {q : Reading}
    (h : Honest (later ++ q :: earlier)) :
    ∀ p ∈ earlier, q.leadEpoch < p.leadEpoch → q.Repeats earlier := by
  induction later with
  | nil => exact h.1
  | cons _ later ih => exact ih h.2

theorem Reading.Precedes.repeats {p q : Reading} {earlier : List Reading} (h : q.Precedes p)
    (hp : p ∈ earlier) : q.Repeats earlier := by
  intro writer token htoken
  obtain ⟨token', htoken', hle⟩ := h.applied writer token htoken
  exact ⟨p, hp, token', htoken', hle⟩

theorem Reading.Precedes.trans {a b c : Reading} (hab : a.Precedes b) (hbc : b.Precedes c) :
    a.Precedes c :=
  ⟨Nat.le_trans hab.stamp hbc.stamp, hab.applied.trans hbc.applied⟩

/-! ## The voter -/

structure Voter where
  engine : GroupEngine
  ledger : CommitLedger
  /-- The pairs written down, the newest last. -/
  grants : List (Nat × NodeId)
  /-- The adopted epochs the leadership watch has shown in this life. -/
  shown : List Nat
  /-- The readings encoded in this life, the newest first. -/
  encoded : List Reading
  /-- Those not handed to the group yet. -/
  pending : List Reading
  /-- What this life has published, the newest first. -/
  published : List Reading
  /-- What earlier lives published, the newest first. -/
  past : List Reading

/-- What happens next. -/
inductive VoterAct where
  | event (ev : Event)
  | watch
  | record (writer : NodeId) (token : WriteToken) (leadEpoch : Nat)
  | refresh (leadEpoch : Nat)
  /-- The encoded reading at a position is published. -/
  | publish (i : Nat)
  /-- The group's inbox refuses it. -/
  | reject (i : Nat)
  | restart

namespace Voter

/-- The first life of a voter. -/
def boot (e : GroupEngine) : Voter := ⟨e, .withRecovered ∅, [], [0], [], [], [], []⟩

/-- A ledger call, with the reading it encodes if it does. -/
def wrote (v : Voter) (out : CommitLedger × Option Reading) : Voter :=
  { v with
    ledger := out.1
    encoded := out.2.toList ++ v.encoded
    pending := out.2.toList ++ v.pending }

/-- The next life, with an engine restored from the last pair granted and a ledger seeded
with everything applied. -/
def next (v : Voter) (e : GroupEngine) : Voter where
  engine := e.restore ⟨v.grants.getLast?⟩
  ledger := .withRecovered v.ledger.applied
  grants := v.grants
  shown := [0]
  encoded := []
  pending := []
  published := []
  past := v.published ++ v.past

inductive Step (group : GroupId) (me : NodeId) (r : VoterRoster) (v : Voter) :
    VoterAct → Voter → Prop where
  | event (ev : Event) : Step group me r v (.event ev)
      { v with
        engine := (v.engine.handle ev).1
        grants := v.grants ++ persisted (v.engine.handle ev).2 }
  | watch : Step group me r v .watch { v with shown := v.engine.leadership.1 :: v.shown }
  | record (writer : NodeId) (token : WriteToken) {leadEpoch : Nat} (hshown : leadEpoch ∈ v.shown) :
      Step group me r v (.record writer token leadEpoch)
        (v.wrote (v.ledger.record writer token leadEpoch))
  | refresh {leadEpoch : Nat} (hshown : leadEpoch ∈ v.shown) :
      Step group me r v (.refresh leadEpoch) (v.wrote (v.ledger.refresh leadEpoch))
  | publish {i : Nat} {q : Reading} (hq : v.pending[i]? = some q) :
      Step group me r v (.publish i)
        { v with pending := v.pending.eraseIdx i, published := q :: v.published }
  | reject (i : Nat) : Step group me r v (.reject i) { v with pending := v.pending.eraseIdx i }
  | restart {seeds : List NodeId} {config : Config} {leaseMs : Nat} {e : GroupEngine}
      (hnew : GroupEngine.recovering group me seeds config = .ok e)
      (hmode : config.mode = .hosted ⟨.quorum r, leaseMs⟩) : Step group me r v .restart (v.next e)

/-- A voter's first life. -/
def Begins (group : GroupId) (me : NodeId) (r : VoterRoster) (v : Voter) : Prop :=
  ∃ seeds config leaseMs e, GroupEngine.new group me seeds config = .ok e ∧
    config.mode = .hosted ⟨.quorum r, leaseMs⟩ ∧ v = boot e

/-- The ledger is stamped, now or by this call, at or above everything earlier lives
published. -/
def CaughtUp (v : Voter) : VoterAct → Prop
  | .record _ _ leadEpoch | .refresh leadEpoch =>
    ∀ p ∈ v.past, p.leadEpoch ≤ max v.ledger.stamp leadEpoch
  | .event _ | .watch | .publish _ | .reject _ | .restart => True

def CaughtUpStep (group : GroupId) (me : NodeId) (r : VoterRoster) (v v' : Voter) : Prop :=
  ∃ act, v.CaughtUp act ∧ Step group me r v act v'

/-! ## The invariant -/

/-- The readings of a life form a chain above what earlier lives published. -/
structure Sound (v : Voter) : Prop where
  chain : v.encoded.Pairwise fun q p => p.Precedes q
  below : ∀ q ∈ v.encoded, q.Precedes v.ledger.reading
  above : ∀ q ∈ v.encoded, ∀ p ∈ v.past, p.leadEpoch ≤ q.leadEpoch
  pending : ∀ q ∈ v.pending, q ∈ v.encoded
  published : ∀ q ∈ v.published, q ∈ v.encoded
  honest : Honest (v.published ++ v.past)

variable {group : GroupId} {me : NodeId} {r : VoterRoster} {v v' : Voter}

theorem sound_boot (e : GroupEngine) : Sound (boot e) where
  chain := List.Pairwise.nil
  below := fun _ h => absurd h List.not_mem_nil
  above := fun _ h => absurd h List.not_mem_nil
  pending := fun _ h => absurd h List.not_mem_nil
  published := fun _ h => absurd h List.not_mem_nil
  honest := trivial

/-- A ledger call keeps the chain: what it encodes is the ledger's new reading. -/
theorem Sound.wrote (hv : Sound v) {out : CommitLedger × Option Reading}
    (hgrows : v.ledger.reading.Precedes out.1.reading)
    (hout : ∀ q, out.2 = some q → q = out.1.reading)
    (hpast : ∀ p ∈ v.past, p.leadEpoch ≤ out.1.stamp) : Sound (v.wrote out) := by
  have hbelow : ∀ q ∈ v.encoded, q.Precedes out.1.reading :=
    fun q hq => (hv.below q hq).trans hgrows
  obtain ⟨ledger, _ | q⟩ := out
  · exact ⟨hv.chain, hbelow, hv.above, hv.pending, hv.published, hv.honest⟩
  obtain rfl : q = ledger.reading := hout q rfl
  refine ⟨List.pairwise_cons.mpr ⟨hbelow, hv.chain⟩, ?_, ?_, ?_, ?_, hv.honest⟩
  · intro q hq
    rcases List.mem_cons.mp hq with rfl | hq
    · exact ⟨Nat.le_refl _, .refl _⟩
    · exact hbelow q hq
  · intro q hq
    rcases List.mem_cons.mp hq with rfl | hq
    · exact hpast
    · exact hv.above q hq
  · intro q hq
    rcases List.mem_cons.mp hq with rfl | hq
    · exact List.mem_cons_self ..
    · exact List.mem_cons_of_mem _ (hv.pending q hq)
  · exact fun q hq => List.mem_cons_of_mem _ (hv.published q hq)

/-- Two readings of one life follow one another. -/
theorem Sound.total (hv : Sound v) {p q : Reading} (hp : p ∈ v.encoded) (hq : q ∈ v.encoded)
    (hlt : q.leadEpoch < p.leadEpoch) : q.Precedes p := by
  let R : Reading → Reading → Prop := fun p q => p.Precedes q ∨ q.Precedes p
  have hsymm : Std.Symm R := ⟨fun _ _ => Or.symm⟩
  have hor : R p q := List.Pairwise.forall_of_forall (R := R)
    (fun _ _ => Or.inl ⟨Nat.le_refl _, .refl _⟩) (hv.chain.imp Or.inr) hp hq
  rcases hor with h | h
  · exact absurd h.stamp (Nat.not_le_of_lt hlt)
  · exact h

/-- What is published next repeats, if its stamp is lower, what was published before. -/
theorem Sound.publish (hv : Sound v) {i : Nat} {q : Reading} (hq : v.pending[i]? = some q) :
    Sound { v with pending := v.pending.eraseIdx i, published := q :: v.published } := by
  have henc : q ∈ v.encoded := hv.pending q (List.mem_of_getElem? hq)
  refine ⟨hv.chain, hv.below, hv.above, fun x hx => hv.pending x (List.mem_of_mem_eraseIdx hx),
    ?_, ?_, hv.honest⟩
  · intro x hx
    rcases List.mem_cons.mp hx with rfl | hx
    · exact henc
    · exact hv.published x hx
  · intro p hp hlt
    rcases List.mem_append.mp hp with hlife | hpast
    · exact (hv.total (hv.published p hlife) henc hlt).repeats hp
    · exact absurd (hv.above q henc p hpast) (Nat.not_le_of_lt hlt)

theorem Sound.step (hv : Sound v) (h : CaughtUpStep group me r v v') : Sound v' := by
  obtain ⟨act, hcaught, hstep⟩ := h
  cases hstep with
  | event ev | watch => exact { hv with }
  | @record writer token leadEpoch hshown =>
    refine hv.wrote CommitLedger.precedes_record ?_ ?_
    · intro q hq
      simp only [CommitLedger.record] at hq ⊢
      split at hq
      · exact (Option.some.inj hq).symm
      · cases hq
    · show ∀ p ∈ v.past, p.leadEpoch ≤ (v.ledger.fold writer token leadEpoch).1.stamp
      rw [CommitLedger.fold_stamp]
      exact hcaught
  | refresh hshown =>
    exact hv.wrote CommitLedger.precedes_refresh (fun q hq => (Option.some.inj hq).symm) hcaught
  | publish hq => exact hv.publish hq
  | reject i =>
    exact ⟨hv.chain, hv.below, hv.above, fun x hx => hv.pending x (List.mem_of_mem_eraseIdx hx),
      hv.published, hv.honest⟩
  | restart hnew hmode =>
    exact ⟨List.Pairwise.nil, fun _ h => absurd h List.not_mem_nil,
      fun _ h => absurd h List.not_mem_nil, fun _ h => absurd h List.not_mem_nil,
      fun _ h => absurd h List.not_mem_nil, hv.honest⟩

/-- In every run whose ledger calls are caught up, a reading of a lower stamp than one
published before it repeats what was published before it. -/
theorem stamps_monotone (h : Reachable (Begins group me r) (CaughtUpStep group me r) v)
    {later earlier : List Reading} {q : Reading}
    (hsplit : v.published ++ v.past = later ++ q :: earlier) :
    ∀ p ∈ earlier, q.leadEpoch < p.leadEpoch → q.Repeats earlier := by
  have hv : Sound v := by
    refine h.invariant ?_ fun _ _ hv hstep => hv.step hstep
    rintro _ ⟨_, _, _, e, _, _, rfl⟩
    exact sound_boot e
  have hhonest := hv.honest
  rw [hsplit] at hhonest
  exact hhonest.split

/-! ## Schedules -/

def perform (group : GroupId) (me : NodeId) (config : Config) (v : Voter) : VoterAct → Option Voter
  | .event ev => some { v with
      engine := (v.engine.handle ev).1
      grants := v.grants ++ persisted (v.engine.handle ev).2 }
  | .watch => some { v with shown := v.engine.leadership.1 :: v.shown }
  | .record writer token leadEpoch =>
    if leadEpoch ∈ v.shown then some (v.wrote (v.ledger.record writer token leadEpoch)) else none
  | .refresh leadEpoch =>
    if leadEpoch ∈ v.shown then some (v.wrote (v.ledger.refresh leadEpoch)) else none
  | .publish i => v.pending[i]?.map fun q =>
    { v with pending := v.pending.eraseIdx i, published := q :: v.published }
  | .reject i => some { v with pending := v.pending.eraseIdx i }
  | .restart =>
    match GroupEngine.recovering group me [] config with
    | .ok e => some (v.next e)
    | .error _ => none

theorem step_of_perform {config : Config} {leaseMs : Nat} {act : VoterAct}
    (hmode : config.mode = .hosted ⟨.quorum r, leaseMs⟩)
    (h : v.perform group me config act = some v') : Step group me r v act v' := by
  cases act with
  | event ev =>
    cases h
    exact .event ev
  | watch =>
    cases h
    exact .watch
  | record writer token leadEpoch =>
    unfold perform at h
    dsimp only at h
    split at h
    next hshown =>
      cases h
      exact .record writer token hshown
    next => cases h
  | refresh leadEpoch =>
    unfold perform at h
    dsimp only at h
    split at h
    next hshown =>
      cases h
      exact .refresh hshown
    next => cases h
  | publish i =>
    obtain ⟨q, hq, rfl⟩ := Option.map_eq_some_iff.mp h
    exact .publish hq
  | reject i =>
    cases h
    exact .reject i
  | restart =>
    unfold perform at h
    dsimp only at h
    split at h
    next e hnew =>
      cases h
      exact .restart hnew hmode
    next => cases h

def caughtUp? (v : Voter) : VoterAct → Bool
  | .record _ _ leadEpoch | .refresh leadEpoch =>
    v.past.all fun p => decide (p.leadEpoch ≤ max v.ledger.stamp leadEpoch)
  | .event _ | .watch | .publish _ | .reject _ | .restart => true

def performCaughtUp (group : GroupId) (me : NodeId) (config : Config) (v : Voter) (act : VoterAct) :
    Option Voter :=
  if v.caughtUp? act then v.perform group me config act else none

theorem step_of_performCaughtUp {config : Config} {leaseMs : Nat} {act : VoterAct}
    (hmode : config.mode = .hosted ⟨.quorum r, leaseMs⟩)
    (h : v.performCaughtUp group me config act = some v') : CaughtUpStep group me r v v' := by
  unfold performCaughtUp at h
  split at h
  next hcaught =>
    refine ⟨act, ?_, step_of_perform hmode h⟩
    cases act with
    | record writer token leadEpoch | refresh leadEpoch =>
      intro p hp
      exact of_decide_eq_true (List.all_eq_true.mp hcaught p hp)
    | event ev | watch | publish i | reject i | restart => trivial
  next => cases h

/-! A voter of three follows `b` in epoch 1, grants epoch 2 to `c` and follows it.  After a
restart it hears of epoch 1 again. -/

def stampVoter : NodeId := .ofChar 'a'

def stampFirst : NodeId := .ofChar 'b'

def stampSecond : NodeId := .ofChar 'c'

def stampGroup : GroupId := .ofChar 'g'

def stampRoster : VoterRoster := VoterRoster.new [stampVoter, stampFirst, stampSecond]

def stampConfig : Config := { Config.default with mode := .hosted ⟨.quorum stampRoster, 1000⟩ }

/-- An election frame of another voter. -/
def stampLead (source : NodeId) (body : Wire.LeadBody) (now : Time) : VoterAct :=
  .event (.message source (Wire.encode (leadFrame stampGroup body)) now)

def stampVoterNew : Voter :=
  boot (GroupEngine.blank stampGroup stampVoter [] stampConfig).filed

theorem stampVoterNew_begins : Begins stampGroup stampVoter stampRoster stampVoterNew :=
  ⟨[], stampConfig, 1000, _, rfl, rfl, rfl⟩

/-- The first life: two readings, stamped 1 and 2. -/
def stampLife : List VoterAct :=
  [.event (.start 0), stampLead stampFirst (.state 1 (some stampFirst)) 10, .watch,
    .record stampFirst ⟨1, 1⟩ 1, .publish 0,
    stampLead stampSecond (.claim 2 stampSecond) 1000,
    stampLead stampSecond (.state 2 (some stampSecond)) 1010, .watch, .refresh 2, .publish 0,
    .restart, .event (.start 2000)]

/-- A late frame of epoch 1 is adopted, and a new token published under it. -/
def stampRegress : List VoterAct :=
  stampLife ++ [stampLead stampFirst (.state 1 (some stampFirst)) 2010, .watch,
    .record stampFirst ⟨1, 2⟩ 1, .publish 0]

/-- The voter hears of epoch 2 first. -/
def stampReturn : List VoterAct :=
  stampLife ++ [stampLead stampSecond (.state 2 (some stampSecond)) 2010, .watch,
    .record stampFirst ⟨1, 2⟩ 2, .publish 0]

/-- After a restart a voter that granted and adopted epoch 2 publishes, stamped 1, a token
above all it had published. -/
theorem stamp_regresses :
    ∃ v q earlier, Reachable (Begins stampGroup stampVoter stampRoster)
        (fun v v' => ∃ act, Step stampGroup stampVoter stampRoster v act v') v ∧
      v.grants = [(2, stampSecond)] ∧ v.published ++ v.past = q :: earlier ∧
      (∃ p ∈ earlier, q.leadEpoch < p.leadEpoch) ∧
      q.applied[stampFirst]? = some ⟨1, 2⟩ ∧
      ∀ p ∈ earlier, ∀ token, p.applied[stampFirst]? = some token → token < ⟨1, 2⟩ := by
  have hrun : (stampRegress.foldlM (perform stampGroup stampVoter stampConfig) stampVoterNew).any
      (fun v => decide (v.grants = [(2, stampSecond)]) &&
        (v.published ++ v.past).head?.any fun q =>
          decide (∃ p ∈ (v.published ++ v.past).tail, q.leadEpoch < p.leadEpoch) &&
          decide (q.applied[stampFirst]? = some ⟨1, 2⟩) &&
          decide (∀ p ∈ (v.published ++ v.past).tail,
            ∀ token ∈ p.applied[stampFirst]?, token < ⟨1, 2⟩)) = true := by
    decide +kernel
  obtain ⟨v, hv, hcheck⟩ := (Option.any_eq_true _ _).mp hrun
  obtain ⟨hgrants, hcheck⟩ := Bool.and_eq_true_iff.mp hcheck
  obtain ⟨q, hhead, hcheck⟩ := (Option.any_eq_true _ _).mp hcheck
  simp only [Bool.and_eq_true, decide_eq_true_eq] at hcheck hgrants
  obtain ⟨⟨hlow, htoken⟩, hall⟩ := hcheck
  refine ⟨v, q, _, ?_, hgrants, List.eq_cons_of_mem_head? hhead, hlow, htoken, hall⟩
  exact Reachable.of_foldlM (fun h => ⟨_, step_of_perform rfl h⟩)
    (Reachable.start stampVoterNew_begins) hv

theorem stamps_monotone_return :
    ∃ v, Reachable (Begins stampGroup stampVoter stampRoster)
        (CaughtUpStep stampGroup stampVoter stampRoster) v ∧
      (v.published ++ v.past).map Reading.leadEpoch = [2, 2, 1] ∧
      ∀ later q earlier, v.published ++ v.past = later ++ q :: earlier →
        ∀ p ∈ earlier, q.leadEpoch < p.leadEpoch → q.Repeats earlier := by
  have hrun : (stampReturn.foldlM (performCaughtUp stampGroup stampVoter stampConfig)
      stampVoterNew).any
      (fun v => decide ((v.published ++ v.past).map Reading.leadEpoch = [2, 2, 1])) = true := by
    decide +kernel
  obtain ⟨v, hv, hstamps⟩ := (Option.any_eq_true _ _).mp hrun
  have hreach : Reachable (Begins stampGroup stampVoter stampRoster)
      (CaughtUpStep stampGroup stampVoter stampRoster) v := by
    refine Reachable.of_foldlM ?_ (Reachable.start stampVoterNew_begins) hv
    exact fun h => step_of_performCaughtUp rfl h
  exact ⟨v, hreach, of_decide_eq_true hstamps, fun _ _ _ => stamps_monotone hreach⟩

end Voter

end Groupnet
