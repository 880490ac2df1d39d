import Groupnet.Hosted.Writes
import Groupnet.Quorum.Exclusion
import Groupnet.Quorum.Uniqueness

/-!
# One hostship per epoch

The engines of a roster over many process lives, each life with its handle on the write
path.  A life ends at any point and takes with it everything but the last pair the node
wrote down.  The handle reads leadership from a watch that lags the engine, and a write
that was admitted reaches the feed at a later point.

A new life claims above the epoch it was restored with.  It can hold an epoch of an
earlier life again when that epoch was never written down by the node itself: a node
outside the roster writes nothing, and a voter promised to another node refuses its own
claim.
-/

namespace Groupnet

variable {now : Time} {inp : Input} {mv : Move} {s s' : Seat} {fx : List Effect}
  {group : GroupId} {r : VoterRoster} {floor : Nat}

/-! ## A life above a floor -/

/-- A seat that claims and holds nothing at or below an epoch. -/
structure Above (floor : Nat) (s : Seat) : Prop where
  seen : floor ≤ s.el.highestSeen
  claim : ∀ c, s.el.claim = some c → floor < c.epoch
  holds : s.el.role = .host → floor < s.el.epoch
  named : s.el.host = some s.me → s.el.role = .host

theorem Above.adopted (ha : Above floor s) {epoch : Nat} {host : Option NodeId}
    (hhost : host ≠ some s.me) : Above floor (s.withEl (s.el.adopted epoch host)) := by
  unfold Election.adopted
  have hseen : floor ≤ max s.el.highestSeen epoch := Nat.le_trans ha.seen (Nat.le_max_left _ _)
  split
  next => exact ⟨hseen, by simp, by simp, by simpa using hhost⟩
  next hout =>
    simp only [Election.outdone, Bool.or_eq_true, decide_eq_true_eq, not_or] at hout
    exact ⟨hseen, ha.claim, fun hrole => absurd hrole hout.1, fun h => absurd h hhost⟩

theorem Above.abandoned (ha : Above floor s) (hrole : s.el.role = .claimant) :
    Above floor (s.withEl s.el.abandoned) where
  seen := ha.seen
  claim := by simp [Election.abandoned]
  holds := by simp [Election.abandoned]
  named := by
    intro hhost
    have hlead := ha.named hhost
    rw [hrole] at hlead
    cases hlead

theorem Above.demoted (ha : Above floor s) : Above floor (s.withEl s.el.demoted) where
  __ := ha
  holds := by simp [Election.demoted]
  named := by simp [Election.demoted]

theorem Above.yield (ha : Above floor s) (epoch : Nat) (claimant : NodeId) :
    Above floor (s.withEl (s.yield epoch claimant)) := by
  unfold Seat.yield
  split
  next hout =>
    simp only [Seat.outrankedBy, Bool.and_eq_true, decide_eq_true_eq] at hout
    exact ha.abandoned hout.1
  next => exact ha

/-- Under a roster every row keeps a seat above its floor. -/
theorem Row.above (h : Row now inp mv s fx s') (hr : s.el.voters = some r) (hroom : floor < u64Max)
    (ha : Above floor s) : Above floor s' := by
  cases h with
  | observe =>
    exact ⟨Nat.le_trans ha.seen (Nat.le_max_left _ _), ha.claim, ha.holds, ha.named⟩
  | openClaim htick settleAt hrole hstay hhost hint =>
    have hlt : floor < satAdd s.el.highestSeen 1 := by
      have hseen := ha.seen
      unfold satAdd
      omega
    refine ⟨Nat.le_of_lt hlt, ?_, by simp, fun h => absurd h hhost⟩
    intro c hc
    simp only [Seat.withEl_el, Election.modifyQuorum_claim, Option.some.injEq] at hc
    subst hc
    exact hlt
  | @vote _ q v source claimant epoch =>
    have hy := ha.yield epoch claimant
    exact { hy with }
  | abandon hrole => exact ha.abandoned hrole
  | win hr' hq hrole hclaim =>
    exact ⟨Nat.le_trans ha.seen (Nat.le_max_left _ _), by simp [Election.activated],
      fun _ => ha.claim _ hclaim, fun _ => rfl⟩
  | settle hset =>
    rw [hset] at hr
    cases hr
  | award hcmd hext =>
    rw [Election.voters_of_external hext] at hr
    cases hr
  | adopt heard hgt hhost => exact ha.adopted hhost
  | lapse => exact ha.demoted
  | leaveHost | resignHost =>
    exact ⟨ha.demoted.seen, ha.demoted.claim, ha.demoted.holds, ha.demoted.named⟩
  | resignClaim hr' hrole =>
    have hab := ha.abandoned hrole
    exact { hab with }
  | vacate => exact ⟨ha.seen, ha.claim, ha.holds, by simp⟩
  | _ => exact { ha with }

theorem Rows.above (h : Rows now inp mv s fx s') (hr : s.el.voters = some r)
    (hroom : floor < u64Max) (ha : Above floor s) : Above floor s' := by
  induction h with
  | nil s => exact ha
  | cons hrow hrows _ ih =>
    refine ih ?_ (hrow.above hr hroom ha)
    rw [Seat.voters_eq_of_fixed hrow.fixed]
    exact hr

/-! ## Lives -/

/-- A write that entered a feed. -/
structure Issued where
  host : NodeId
  life : Nat
  token : WriteToken
deriving DecidableEq

/-- The engines of a group and their write paths, over every life of every node. -/
structure Lives where
  cluster : Cluster
  life : NodeId → Nat
  /-- Every epoch a node was seen to hold, and the life it held it in. -/
  held : List (NodeId × Nat × Nat)
  /-- What each node's leadership watch shows. -/
  watch : NodeId → Nat × Option NodeId
  path : NodeId → HostedWrites
  /-- The epochs of writes that were admitted and have not entered the feed. -/
  admitted : NodeId → List Nat
  issued : List Issued

/-- What happens next. -/
inductive LifeAct where
  | join (n : NodeId)
  | restart (n : NodeId)
  | call (n : NodeId) (ev : Event)
  | watch (n : NodeId)
  | ask (n : NodeId)
  | publish (n : NodeId) (epoch : Nat) (key : List UInt8)

namespace Lives

variable {ev : Event} {leaseMs : Nat} {act : LifeAct}

def empty : Lives where
  cluster := .empty
  life := fun _ => 0
  held := []
  watch := fun _ => (0, none)
  path := fun _ => .assemble 0 0 false
  admitted := fun _ => []
  issued := []

/-- Starts a life of a node. -/
def begin (w : Lives) (n : NodeId) (e : GroupEngine) (path : HostedWrites) : Lives :=
  { w with
    cluster := w.cluster.boot n e
    life := Function.update w.life n (w.life n + 1)
    watch := Function.update w.watch n (0, none)
    path := Function.update w.path n path
    admitted := Function.update w.admitted n [] }

def call (w : Lives) (n : NodeId) (e : GroupEngine) (ev : Event) : Lives :=
  { w with
    cluster := w.cluster.call n e ev
    held :=
      if (e.handle ev).1.role = .host then
        (n, w.life n, (e.handle ev).1.leadership.1) :: w.held
      else w.held }

/-- The watch catches up with the engine. -/
def look (w : Lives) (n : NodeId) (e : GroupEngine) : Lives :=
  { w with watch := Function.update w.watch n e.leadership }

/-- A write asks for admission. -/
def ask (w : Lives) (n : NodeId) (verdict : Completeness) : Lives :=
  { w with
    path := Function.update w.path n ((w.path n).admitNow n (w.watch n) verdict).1
    admitted :=
      match ((w.path n).admitNow n (w.watch n) verdict).2 with
      | .ok epoch => Function.update w.admitted n (epoch :: w.admitted n)
      | .error _ => w.admitted }

/-- An admitted write enters the feed. -/
def publish (w : Lives) (n : NodeId) (epoch : Nat) (key : List UInt8) : Lives :=
  { w with
    path := Function.update w.path n ((w.path n).publishAt epoch key).1
    admitted := Function.update w.admitted n ((w.admitted n).erase epoch)
    issued :=
      match ((w.path n).publishAt epoch key).2 with
      | .ok token => ⟨n, w.life n, token⟩ :: w.issued
      | .error _ => w.issued }

inductive Step (group : GroupId) (r : VoterRoster) (w : Lives) : LifeAct → Lives → Prop where
  | join {n : NodeId} {seeds : List NodeId} {config : Config} {leaseMs : Nat} {e : GroupEngine}
      (capacity maxFrameBytes : Nat) (committed : Bool) (hdown : w.cluster.engine n = none)
      (hnew : GroupEngine.new group n seeds config = .ok e)
      (hmode : config.mode = .hosted ⟨.quorum r, leaseMs⟩) :
      Step group r w (.join n) (w.begin n e (.assemble capacity maxFrameBytes committed))
  /-- A node restarts from the last pair it wrote down. -/
  | restart {n : NodeId} {seeds : List NodeId} {config : Config} {leaseMs : Nat} {e : GroupEngine}
      (capacity maxFrameBytes : Nat) (committed : Bool)
      (hnew : GroupEngine.recovering group n seeds config = .ok e)
      (hmode : config.mode = .hosted ⟨.quorum r, leaseMs⟩) :
      Step group r w (.restart n) (w.begin n (e.restore ⟨(w.cluster.ledger n).getLast?⟩)
        (.assemble capacity maxFrameBytes committed))
  | call {n : NodeId} {e : GroupEngine} {ev : Event} (hup : w.cluster.engine n = some e)
      (hev : w.cluster.Delivers n ev) : Step group r w (.call n ev) (w.call n e ev)
  | watch {n : NodeId} {e : GroupEngine} (hup : w.cluster.engine n = some e) :
      Step group r w (.watch n) (w.look n e)
  /-- A write asks for admission, whatever the recovery rule says by then. -/
  | ask {n : NodeId} {e : GroupEngine} (verdict : Completeness)
      (hup : w.cluster.engine n = some e) : Step group r w (.ask n) (w.ask n verdict)
  /-- An admitted write enters the feed. -/
  | publish {n : NodeId} {epoch : Nat} (key : List UInt8) (hadmitted : epoch ∈ w.admitted n) :
      Step group r w (.publish n epoch key) (w.publish n epoch key)

/-- The last pair a node wrote down covers what it held, and its writes enter the feed in
the order of their epochs and short of the last position. -/
def Covered (w : Lives) : LifeAct → Prop
  | .restart n => ∀ life epoch, (n, life, epoch) ∈ w.held →
      epoch < u64Max ∧ ∃ p, (w.cluster.ledger n).getLast? = some p ∧ epoch ≤ p.1
  | .publish n epoch _ =>
    (w.path n).feedEpoch ≤ epoch ∧ ((w.path n).feedFor epoch).position < u64Max
  | .join _ | .call _ _ | .watch _ | .ask _ => True

def CoveredStep (group : GroupId) (r : VoterRoster) (w w' : Lives) : Prop :=
  ∃ act, w.Covered act ∧ Step group r w act w'

/-! ## The invariant -/

/-- The token a handle issues next is above this one. -/
def Spent (path : HostedWrites) (token : WriteToken) : Prop :=
  token.epoch < path.feedEpoch ∨
    token.epoch = path.feedEpoch ∧ ∃ ring, path.feed = some ring ∧ token.seq < ring.position

/-- Every life is above what its node held before it. -/
structure Sound (r : VoterRoster) (w : Lives) : Prop where
  seats : ∀ n e, w.cluster.engine n = some e → ∃ s floor, e.seat = some s ∧ s.me = n ∧
    s.el.voters = some r ∧ floor < u64Max ∧ Above floor s ∧
    (s.el.role = .host → (n, w.life n, s.el.epoch) ∈ w.held) ∧
    ∀ life epoch, (n, life, epoch) ∈ w.held → life < w.life n → epoch ≤ floor
  held : ∀ n life epoch, (n, life, epoch) ∈ w.held →
    life ≤ w.life n ∧ w.cluster.engine n ≠ none
  watch : ∀ n epoch, w.watch n = (epoch, some n) → (n, w.life n, epoch) ∈ w.held
  admitted : ∀ n, ∀ epoch ∈ w.admitted n, (n, w.life n, epoch) ∈ w.held
  feed : ∀ n ring, (w.path n).feed = some ring →
    ring.epoch = (w.path n).feedEpoch ∧ ring.isSealed = false
  issued : ∀ i ∈ w.issued, (i.host, i.life, i.token.epoch) ∈ w.held ∧
    (i.life = w.life i.host → Spent (w.path i.host) i.token)
  heldOnce : ∀ n life life' epoch, (n, life, epoch) ∈ w.held → (n, life', epoch) ∈ w.held →
    life = life'
  issuedOnce : (w.issued.map fun i => (i.host, i.token)).Nodup

variable {w w' : Lives} {n : NodeId} {e : GroupEngine}

theorem sound_empty (r : VoterRoster) : Sound r empty where
  seats := fun _ _ h => by cases h
  held := fun _ _ _ h => absurd h List.not_mem_nil
  watch := fun _ _ h => by cases h
  admitted := fun _ _ h => absurd h List.not_mem_nil
  feed := fun _ _ h => by cases h
  issued := fun _ h => absurd h List.not_mem_nil
  heldOnce := fun _ _ _ _ h => absurd h List.not_mem_nil
  issuedOnce := List.nodup_nil

/-- A life may begin above everything its node held. -/
theorem Sound.begin (hw : Sound r w) {path : HostedWrites} (hseat : e.seat = some s)
    (hme : s.me = n) (hr : s.el.voters = some r) (hrole : s.el.role ≠ .host)
    (hroom : floor < u64Max) (ha : Above floor s)
    (hfloor : ∀ life epoch, (n, life, epoch) ∈ w.held → epoch ≤ floor) (hfeed : path.feed = none) :
    Sound r (w.begin n e path) where
  __ := hw
  seats := by
    intro m e' hm
    by_cases hmn : m = n
    · subst hmn
      rw [show (w.begin m e path).cluster.engine m = some e from Cluster.boot_engine_self ..] at hm
      cases hm
      exact ⟨s, floor, hseat, hme, hr, hroom, ha, fun h => absurd h hrole,
        fun life epoch h _ => hfloor life epoch h⟩
    · have hlife : (w.begin n e path).life m = w.life m := Function.update_of_ne hmn ..
      rw [show (w.begin n e path).cluster.engine m = w.cluster.engine m from
        Cluster.boot_engine_of_ne hmn] at hm
      rw [hlife]
      exact hw.seats m e' hm
  held := by
    intro m life epoch hm
    obtain ⟨hle, hup⟩ := hw.held m life epoch hm
    by_cases hmn : m = n
    · subst hmn
      refine ⟨?_, ?_⟩
      · rw [show (w.begin m e path).life m = w.life m + 1 from Function.update_self ..]
        exact Nat.le_succ_of_le hle
      · rw [show (w.begin m e path).cluster.engine m = some e from Cluster.boot_engine_self ..]
        exact Option.some_ne_none e
    · rw [show (w.begin n e path).life m = w.life m from Function.update_of_ne hmn ..,
        show (w.begin n e path).cluster.engine m = w.cluster.engine m from
          Cluster.boot_engine_of_ne hmn]
      exact ⟨hle, hup⟩
  watch := by
    intro m epoch hm
    by_cases hmn : m = n
    · subst hmn
      rw [show (w.begin m e path).watch m = (0, none) from Function.update_self ..] at hm
      cases hm
    rw [show (w.begin n e path).watch m = w.watch m from Function.update_of_ne hmn ..] at hm
    rw [show (w.begin n e path).life m = w.life m from Function.update_of_ne hmn ..]
    exact hw.watch m epoch hm
  admitted := by
    intro m epoch hm
    by_cases hmn : m = n
    · subst hmn
      rw [show (w.begin m e path).admitted m = [] from Function.update_self ..] at hm
      exact absurd hm List.not_mem_nil
    rw [show (w.begin n e path).admitted m = w.admitted m from Function.update_of_ne hmn ..] at hm
    rw [show (w.begin n e path).life m = w.life m from Function.update_of_ne hmn ..]
    exact hw.admitted m epoch hm
  feed := by
    intro m ring hm
    by_cases hmn : m = n
    · subst hmn
      rw [show (w.begin m e path).path m = path from Function.update_self .., hfeed] at hm
      cases hm
    have hpath : (w.begin n e path).path m = w.path m := Function.update_of_ne hmn ..
    rw [hpath] at hm ⊢
    exact hw.feed m ring hm
  issued := by
    intro i hi
    obtain ⟨hheld, hspent⟩ := hw.issued i hi
    refine ⟨hheld, fun hlife => ?_⟩
    by_cases hmn : i.host = n
    · -- No write was issued in the life that begins.
      have hle := (hw.held _ _ _ hheld).1
      rw [hmn] at hle
      rw [show (w.begin n e path).life i.host = w.life n + 1 by
        rw [hmn]; exact Function.update_self ..] at hlife
      omega
    · rw [show (w.begin n e path).life i.host = w.life i.host from
        Function.update_of_ne hmn ..] at hlife
      rw [show (w.begin n e path).path i.host = w.path i.host from Function.update_of_ne hmn ..]
      exact hspent hlife

theorem mem_call_held {p : NodeId × Nat × Nat} : p ∈ (w.call n e ev).held ↔
      (e.handle ev).1.role = .host ∧ p = (n, w.life n, (e.handle ev).1.leadership.1) ∨
        p ∈ w.held := by
  unfold call
  split
  next h => simp [h]
  next h => simp [h]

theorem Sound.call (hw : Sound r w) (hup : w.cluster.engine n = some e) :
    Sound r (w.call n e ev) := by
  obtain ⟨s, floor, hseat, rfl, hr, hroom, ha, hcur, hfloor⟩ := hw.seats n e hup
  obtain ⟨mv, s', hends⟩ := GroupEngine.handle_runs hseat ev 0
  have hme := Seat.me_eq_of_fixed hends.rows.fixed
  have ha' := hends.rows.above hr hroom ha
  have hlead : (e.handle ev).1.leadership.1 = s'.el.epoch := by
    rw [GroupEngine.leadership_of_seat hends.seat]
  have hrole : (e.handle ev).1.role = s'.el.role := GroupEngine.role_of_seat hends.seat
  have hkeep : ∀ {p}, p ∈ w.held → p ∈ (w.call s.me e ev).held :=
    fun h => mem_call_held.mpr (Or.inr h)
  -- What this call adds is of the present life, and above the floor.
  have hnew : ∀ life epoch, (e.handle ev).1.role = .host ∧
      (s.me, life, epoch) = (s.me, w.life s.me, (e.handle ev).1.leadership.1) →
      life = w.life s.me ∧ floor < epoch := by
    rintro life epoch ⟨hhost, heq⟩
    simp only [Prod.mk.injEq, true_and] at heq
    rw [heq.2, hlead]
    exact ⟨heq.1, ha'.holds (hrole ▸ hhost)⟩
  have honce : ∀ life epoch, (s.me, life, epoch) ∈ w.held → floor < epoch → life = w.life s.me := by
    intro life epoch hmem hlt
    refine Nat.le_antisymm (hw.held _ _ _ hmem).1 (Nat.le_of_not_lt fun hearlier => ?_)
    exact absurd (hfloor life epoch hmem hearlier) (Nat.not_le_of_lt hlt)
  refine ⟨?_, ?_, fun m epoch hm => hkeep (hw.watch m epoch hm),
    fun m epoch hm => hkeep (hw.admitted m epoch hm), hw.feed,
    fun i hi => ⟨hkeep (hw.issued i hi).1, (hw.issued i hi).2⟩, ?_, hw.issuedOnce⟩
  · intro m e' hm
    by_cases hmn : m = s.me
    · subst hmn
      rw [show (w.call s.me e ev).cluster.engine s.me = some (e.handle ev).1 from
        Cluster.call_engine_self ..] at hm
      cases hm
      refine ⟨s', floor, hends.seat, hme, ?_, hroom, ha', ?_, ?_⟩
      · rw [Seat.voters_eq_of_fixed hends.rows.fixed]
        exact hr
      · intro hhost
        exact mem_call_held.mpr (Or.inl ⟨hrole.trans hhost, by rw [hlead]; rfl⟩)
      intro life epoch hmem hearlier
      rcases mem_call_held.mp hmem with hadd | hold
      · have hnow := (hnew life epoch hadd).1
        exact absurd hnow (Nat.ne_of_lt hearlier)
      · exact hfloor life epoch hold hearlier
    · rw [show (w.call s.me e ev).cluster.engine m = w.cluster.engine m from
        Cluster.call_engine_of_ne hmn] at hm
      obtain ⟨s₁, floor₁, hseat₁, hme₁, hr₁, hroom₁, ha₁, hcur₁, hfloor₁⟩ := hw.seats m e' hm
      refine ⟨s₁, floor₁, hseat₁, hme₁, hr₁, hroom₁, ha₁, fun h => hkeep (hcur₁ h), ?_⟩
      intro life epoch hmem hearlier
      rcases mem_call_held.mp hmem with ⟨_, heq⟩ | hold
      · cases heq
        exact absurd rfl hmn
      · exact hfloor₁ life epoch hold hearlier
  · intro m life epoch hmem
    rcases mem_call_held.mp hmem with ⟨_, heq⟩ | hold
    · cases heq
      refine ⟨Nat.le_refl _, ?_⟩
      rw [show (w.call s.me e ev).cluster.engine s.me = some (e.handle ev).1 from
        Cluster.call_engine_self ..]
      exact Option.some_ne_none _
    · obtain ⟨hle, hran⟩ := hw.held m life epoch hold
      refine ⟨hle, ?_⟩
      by_cases hmn : m = s.me
      · subst hmn
        rw [show (w.call s.me e ev).cluster.engine s.me = some (e.handle ev).1 from
          Cluster.call_engine_self ..]
        exact Option.some_ne_none _
      · rw [show (w.call s.me e ev).cluster.engine m = w.cluster.engine m from
          Cluster.call_engine_of_ne hmn]
        exact hran
  · intro m life life' epoch hmem hmem'
    rcases mem_call_held.mp hmem with hadd | hold <;>
      rcases mem_call_held.mp hmem' with hadd' | hold'
    · cases hadd.2
      cases hadd'.2
      rfl
    · obtain rfl : m = s.me := congrArg Prod.fst hadd.2
      obtain ⟨hnow, hlt⟩ := hnew life epoch hadd
      exact hnow.trans (honce life' epoch hold' hlt).symm
    · obtain rfl : m = s.me := congrArg Prod.fst hadd'.2
      obtain ⟨hnow, hlt⟩ := hnew life' epoch hadd'
      exact (honce life epoch hold hlt).trans hnow.symm
    · exact hw.heldOnce m life life' epoch hold hold'

theorem Sound.look (hw : Sound r w) (hup : w.cluster.engine n = some e) : Sound r (w.look n e) := by
  refine ⟨hw.seats, hw.held, ?_, hw.admitted, hw.feed, hw.issued, hw.heldOnce, hw.issuedOnce⟩
  intro m epoch hm
  by_cases hmn : m = n
  · subst hmn
    obtain ⟨s, floor, hseat, hme, _, _, ha, hcur, _⟩ := hw.seats m e hup
    rw [show (w.look m e).watch m = e.leadership from Function.update_self ..,
      GroupEngine.leadership_of_seat hseat] at hm
    obtain ⟨rfl, hhost⟩ := Prod.mk.inj hm
    exact hcur (ha.named (hhost.trans (congrArg some hme.symm)))
  · rw [show (w.look n e).watch m = w.watch m from Function.update_of_ne hmn ..] at hm
    exact hw.watch m epoch hm

theorem Sound.ask (hw : Sound r w) (n : NodeId) (verdict : Completeness) :
    Sound r (w.ask n verdict) := by
  have hpath : ∀ m, ((w.ask n verdict).path m).feed = (w.path m).feed ∧
      ((w.ask n verdict).path m).feedEpoch = (w.path m).feedEpoch := by
    intro m
    by_cases hmn : m = n
    · subst hmn
      rw [show (w.ask m verdict).path m = ((w.path m).admitNow m (w.watch m) verdict).1 from
        Function.update_self ..]
      exact HostedWrites.admitNow_feed ..
    · rw [show (w.ask n verdict).path m = w.path m from Function.update_of_ne hmn ..]
      exact ⟨rfl, rfl⟩
  refine ⟨hw.seats, hw.held, hw.watch, ?_, ?_, ?_, hw.heldOnce, hw.issuedOnce⟩
  · intro m epoch hm
    cases hok : ((w.path n).admitNow n (w.watch n) verdict).2 with
    | ok epoch' =>
      simp only [Lives.ask, hok] at hm
      by_cases hmn : m = n
      · subst hmn
        rw [Function.update_self] at hm
        rcases List.mem_cons.mp hm with rfl | hm
        · exact hw.watch m _ (HostedWrites.admitNow_ok hok)
        · exact hw.admitted m epoch hm
      · rw [Function.update_of_ne hmn] at hm
        exact hw.admitted m epoch hm
    | error err =>
      simp only [Lives.ask, hok] at hm
      exact hw.admitted m epoch hm
  · intro m ring hm
    rw [(hpath m).1] at hm
    rw [(hpath m).2]
    exact hw.feed m ring hm
  · intro i hi
    refine ⟨(hw.issued i hi).1, fun hlife => ?_⟩
    have hspent := (hw.issued i hi).2 hlife
    unfold Spent at hspent ⊢
    rw [(hpath i.host).1, (hpath i.host).2]
    exact hspent

theorem Sound.publish (hw : Sound r w) {epoch : Nat} (key : List UInt8)
    (hadmitted : epoch ∈ w.admitted n) (horder : (w.path n).feedEpoch ≤ epoch)
    (hroom : ((w.path n).feedFor epoch).position < u64Max) : Sound r (w.publish n epoch key) := by
  obtain ⟨ring, hpub, hepoch, hopen, hpos⟩ :=
    HostedWrites.publishAt_spec key (hw.feed n) hroom
  have hpath : (w.publish n epoch key).path n =
      { w.path n with feed := some ring, feedEpoch := epoch } := by
    rw [show (w.publish n epoch key).path n = ((w.path n).publishAt epoch key).1 from
      Function.update_self .., hpub]
  have hother : ∀ m, m ≠ n → (w.publish n epoch key).path m = w.path m :=
    fun m hmn => Function.update_of_ne hmn ..
  have hissued : (w.publish n epoch key).issued =
      ⟨n, w.life n, ⟨epoch, ((w.path n).feedFor epoch).position⟩⟩ :: w.issued := by
    unfold Lives.publish
    simp only [hpub]
  have hheld := hw.admitted n epoch hadmitted
  -- What this life issued before is below the position of the feed of this epoch.
  have hbelow : ∀ token, Spent (w.path n) token → token.epoch = epoch →
      token.seq < ((w.path n).feedFor epoch).position := by
    intro token hspent htoken
    rcases hspent with hlt | ⟨heq, ring', hfeed, hlt⟩
    · omega
    unfold HostedWrites.feedFor
    rw [hfeed]
    dsimp only
    rw [if_pos (heq.symm.trans htoken)]
    exact hlt
  refine ⟨hw.seats, hw.held, hw.watch, ?_, ?_, ?_, hw.heldOnce, ?_⟩
  · intro m epoch' hm
    by_cases hmn : m = n
    · subst hmn
      rw [show (w.publish m epoch key).admitted m = (w.admitted m).erase epoch from
        Function.update_self ..] at hm
      exact hw.admitted m epoch' (List.mem_of_mem_erase hm)
    · rw [show (w.publish n epoch key).admitted m = w.admitted m from
        Function.update_of_ne hmn ..] at hm
      exact hw.admitted m epoch' hm
  · intro m ring' hm
    by_cases hmn : m = n
    · subst hmn
      rw [hpath] at hm ⊢
      cases hm
      exact ⟨hepoch, hopen⟩
    · rw [hother m hmn] at hm ⊢
      exact hw.feed m ring' hm
  · intro i hi
    rw [hissued] at hi
    rcases List.mem_cons.mp hi with rfl | hi
    · refine ⟨hheld, fun _ => Or.inr ?_⟩
      show _ = ((w.publish n epoch key).path n).feedEpoch ∧
        ∃ ring', ((w.publish n epoch key).path n).feed = some ring' ∧ _
      rw [hpath]
      exact ⟨rfl, ring, rfl, by rw [hpos]; exact Nat.lt_succ_self _⟩
    · refine ⟨(hw.issued i hi).1, fun hlife => ?_⟩
      have hspent := (hw.issued i hi).2 hlife
      by_cases hmn : i.host = n
      · rw [hmn] at hspent ⊢
        rw [hpath]
        by_cases htoken : i.token.epoch = epoch
        · refine Or.inr ⟨htoken, ring, rfl, ?_⟩
          rw [hpos]
          exact Nat.lt_succ_of_lt (hbelow _ hspent htoken)
        refine Or.inl (Nat.lt_of_le_of_ne ?_ htoken)
        rcases hspent with hlt | ⟨heq, _⟩
        · exact Nat.le_trans (Nat.le_of_lt hlt) horder
        · exact heq ▸ horder
      · rw [hother _ hmn]
        exact hspent
  · rw [hissued, List.map_cons, List.nodup_cons]
    refine ⟨fun hmem => ?_, hw.issuedOnce⟩
    obtain ⟨i, hi, heq⟩ := List.mem_map.mp hmem
    have hhost : i.host = n := congrArg Prod.fst heq
    have htoken : i.token = ⟨epoch, ((w.path n).feedFor epoch).position⟩ := congrArg Prod.snd heq
    obtain ⟨hiheld, hspent⟩ := hw.issued i hi
    rw [hhost, htoken] at hiheld
    have hlife : i.life = w.life n := hw.heldOnce n i.life (w.life n) epoch hiheld hheld
    rw [← hhost] at hlife
    have hlt := hbelow i.token (hhost ▸ hspent hlife) (congrArg WriteToken.epoch htoken)
    rw [htoken] at hlt
    exact absurd hlt (Nat.lt_irrefl _)

/-- A fresh engine is above nothing, and a restored one above what it was restored with. -/
theorem above_new (n : NodeId) (group : GroupId) (r : VoterRoster) (leaseMs : Nat) :
    Above 0 ⟨n, group, false, Election.new ⟨.quorum r, leaseMs⟩⟩ :=
  ⟨Nat.zero_le _, by simp [Election.new], by simp [Election.new], by simp [Election.new]⟩

theorem above_restore (recovered : GroupEngine.RecoveredGrant)
    (hseat : e.seat = some ⟨n, group, false, Election.new ⟨.quorum r, leaseMs⟩⟩)
    (hfloor : floor = 0 ∨ ∃ p, recovered.pair = some p ∧ floor ≤ p.1) :
    ∃ s, (e.restore recovered).seat = some s ∧ s.me = n ∧ s.el.voters = some r ∧
      s.el.role ≠ .host ∧ Above floor s := by
  refine ⟨_, GroupEngine.seat_modifyElection hseat _, rfl, ?_⟩
  cases hpair : recovered.pair with
  | none =>
    rcases hfloor with rfl | ⟨p, hp, _⟩
    · exact ⟨rfl, by simp [Election.new, QuorumState.forActivation],
        Nat.zero_le _, by simp [Election.new, QuorumState.forActivation],
        by simp [Election.new, QuorumState.forActivation],
        by simp [Election.new, QuorumState.forActivation]⟩
    · rw [hpair] at hp
      cases hp
  | some p =>
    refine ⟨rfl, by simp [Election.new, QuorumState.forActivation], ?_,
      by simp [Election.new, QuorumState.forActivation],
      by simp [Election.new, QuorumState.forActivation],
      by simp [Election.new, QuorumState.forActivation]⟩
    rcases hfloor with rfl | ⟨p', hp, hle⟩
    · exact Nat.zero_le _
    rw [hpair] at hp
    cases hp
    exact Nat.le_trans hle (Nat.le_max_right _ _)

theorem Sound.step (hw : Sound r w) (h : CoveredStep group r w w') : Sound r w' := by
  obtain ⟨act, hcov, hstep⟩ := h
  cases hstep with
  | @join n seeds config leaseMs e capacity maxFrameBytes committed hdown hnew hmode =>
    refine hw.begin (GroupEngine.seat_new hnew hmode) rfl rfl (by simp [Election.new]) (by decide)
      (above_new n group r leaseMs) ?_ rfl
    intro life epoch hmem
    exact absurd hdown (hw.held n life epoch hmem).2
  | @restart n seeds config leaseMs e capacity maxFrameBytes committed hnew hmode =>
    -- The floor of the new life is the pair written down last, short of the last epoch.
    obtain ⟨floor, hroom, hpair, hfloor⟩ : ∃ floor, floor < u64Max ∧
        (floor = 0 ∨ ∃ p, (w.cluster.ledger n).getLast? = some p ∧ floor ≤ p.1) ∧
        ∀ life epoch, (n, life, epoch) ∈ w.held → epoch ≤ floor := by
      cases hlast : (w.cluster.ledger n).getLast? with
      | none =>
        refine ⟨0, by decide, Or.inl rfl, fun life epoch hmem => ?_⟩
        obtain ⟨_, p, hp, _⟩ := hcov life epoch hmem
        rw [hlast] at hp
        cases hp
      | some p =>
        refine ⟨min p.1 (u64Max - 1), Nat.lt_of_le_of_lt (Nat.min_le_right _ _) (by decide),
          Or.inr ⟨p, rfl, Nat.min_le_left _ _⟩, fun life epoch hmem => ?_⟩
        obtain ⟨hlt, p', hp, hle⟩ := hcov life epoch hmem
        rw [hlast] at hp
        cases hp
        exact Nat.le_min.mpr ⟨hle, Nat.le_pred_of_lt hlt⟩
    obtain ⟨s, hseat, hme, hr, hrole, ha⟩ :=
      above_restore ⟨(w.cluster.ledger n).getLast?⟩ (GroupEngine.seat_new hnew hmode) hpair
    exact hw.begin hseat hme hr hrole hroom ha hfloor rfl
  | call hup hev => exact hw.call hup
  | watch hup => exact hw.look hup
  | ask verdict hup => exact hw.ask _ verdict
  | publish key hadmitted => exact hw.publish key hadmitted hcov.1 hcov.2

/-- In every run whose acts are covered, no node holds an epoch in two lives, and no token
of one host names two writes. -/
theorem epoch_names_one_hostship (h : Reachable (· = empty) (CoveredStep group r) w) :
    (∀ n life life' epoch, (n, life, epoch) ∈ w.held → (n, life', epoch) ∈ w.held →
      life = life') ∧
    (w.issued.map fun i => (i.host, i.token)).Nodup := by
  have hw : Sound r w := by
    refine h.invariant (P := Sound r) ?_ fun _ _ hw hstep => hw.step hstep
    rintro _ rfl
    exact sound_empty r
  exact ⟨hw.heldOnce, hw.issuedOnce⟩

/-! ## Schedules -/

def perform (group : GroupId) (config : Config) (w : Lives) : LifeAct → Option Lives
  | .join n =>
    match w.cluster.engine n, GroupEngine.new group n [] config with
    | none, .ok e => some (w.begin n e (.assemble 4 1024 false))
    | _, _ => none
  | .restart n =>
    match GroupEngine.recovering group n [] config with
    | .ok e => some (w.begin n (e.restore ⟨(w.cluster.ledger n).getLast?⟩) (.assemble 4 1024 false))
    | .error _ => none
  | .call n ev =>
    (w.cluster.engine n).bind fun e => if w.cluster.delivers? n ev then some (w.call n e ev)
      else none
  | .watch n => (w.cluster.engine n).map fun e => w.look n e
  | .ask n => (w.cluster.engine n).map fun _ => w.ask n .complete
  | .publish n epoch key =>
    if epoch ∈ w.admitted n then some (w.publish n epoch key) else none

theorem step_of_perform {config : Config} (hmode : config.mode = .hosted ⟨.quorum r, leaseMs⟩)
    (h : w.perform group config act = some w') : Step group r w act w' := by
  cases act with
  | join n =>
    unfold perform at h
    dsimp only at h
    split at h
    next e hdown hnew =>
      cases h
      exact .join _ _ _ hdown hnew hmode
    next => cases h
  | restart n =>
    unfold perform at h
    dsimp only at h
    split at h
    next e hnew =>
      cases h
      exact .restart _ _ _ hnew hmode
    next => cases h
  | call n ev =>
    obtain ⟨e, hup, h⟩ := Option.bind_eq_some_iff.mp h
    split at h
    next hev =>
      cases h
      exact .call hup (Cluster.delivers_of_delivers? hev)
    next => cases h
  | watch n =>
    obtain ⟨e, hup, rfl⟩ := Option.map_eq_some_iff.mp h
    exact .watch hup
  | ask n =>
    obtain ⟨e, hup, rfl⟩ := Option.map_eq_some_iff.mp h
    exact .ask .complete hup
  | publish n epoch key =>
    unfold perform at h
    dsimp only at h
    split at h
    next hadmitted =>
      cases h
      exact .publish key hadmitted
    next => cases h

def covered? (w : Lives) : LifeAct → Bool
  | .restart n => w.held.all fun p => decide (p.1 ≠ n) ||
      decide (p.2.2 < u64Max) && (w.cluster.ledger n).getLast?.any fun q => decide (p.2.2 ≤ q.1)
  | .publish n epoch _ => decide ((w.path n).feedEpoch ≤ epoch) &&
      decide (((w.path n).feedFor epoch).position < u64Max)
  | .join _ | .call _ _ | .watch _ | .ask _ => true

theorem covered_of_covered? (h : w.covered? act = true) : w.Covered act := by
  cases act with
  | restart n =>
    intro life epoch hmem
    have hall := List.all_eq_true.mp h _ hmem
    simpa [Option.any_eq_true] using hall
  | publish n epoch key =>
    obtain ⟨horder, hroom⟩ := Bool.and_eq_true_iff.mp h
    exact ⟨of_decide_eq_true horder, of_decide_eq_true hroom⟩
  | join n | call n ev | watch n | ask n => trivial

def performCovered (group : GroupId) (config : Config) (w : Lives) (act : LifeAct) : Option Lives :=
  if w.covered? act then w.perform group config act else none

theorem step_of_performCovered {config : Config}
    (hmode : config.mode = .hosted ⟨.quorum r, leaseMs⟩)
    (h : w.performCovered group config act = some w') : CoveredStep group r w w' := by
  unfold performCovered at h
  split at h
  next hcov => exact ⟨act, covered_of_covered? hcov, step_of_perform hmode h⟩
  next => cases h

/-! A node outside a roster of one is elected, writes, restarts with nothing written down,
and is elected to the same epoch by the grant of its first life. -/

def outNode : NodeId := .ofChar 'a'

def outVoter : NodeId := .ofChar 'b'

def outGroup : GroupId := .ofChar 'g'

def outRoster : VoterRoster := VoterRoster.new [outVoter]

def outConfig : Config := { Config.default with mode := .hosted ⟨.quorum outRoster, 1000⟩ }

/-- The delivery of an election frame. -/
def lead (source n : NodeId) (body : Wire.LeadBody) (now : Time) : LifeAct :=
  .call n (.message source (Wire.encode (leadFrame outGroup body)) now)

def outLives : List LifeAct :=
  [.join outNode, .join outVoter, .call outNode (.start 0), .call outVoter (.start 0),
    .call outNode (.tick 1000), lead outNode outVoter (.claim 1 outNode) 1000,
    lead outVoter outNode (.grant 1 outNode outVoter) 1001,
    .watch outNode, .ask outNode, .publish outNode 1 [1],
    .restart outNode, .call outNode (.start 2000), .call outNode (.tick 3000),
    lead outVoter outNode (.grant 1 outNode outVoter) 3001,
    .watch outNode, .ask outNode, .publish outNode 1 [2]]

/-- A node outside the roster holds one epoch in two lives, and writes twice under one token. -/
theorem epoch_names_two_hostships :
    ∃ w, Reachable (· = empty) (fun w w' => ∃ act, Step outGroup outRoster w act w') w ∧
      (outNode, 1, 1) ∈ w.held ∧ (outNode, 2, 1) ∈ w.held ∧
      ⟨outNode, 1, ⟨1, 1⟩⟩ ∈ w.issued ∧ ⟨outNode, 2, ⟨1, 1⟩⟩ ∈ w.issued := by
  have hrun : (outLives.foldlM (perform outGroup outConfig) empty).any (fun w =>
      decide ((outNode, 1, 1) ∈ w.held ∧ (outNode, 2, 1) ∈ w.held ∧
        ⟨outNode, 1, ⟨1, 1⟩⟩ ∈ w.issued ∧ ⟨outNode, 2, ⟨1, 1⟩⟩ ∈ w.issued)) = true := by
    decide +kernel
  obtain ⟨w, hw, hheld⟩ := (Option.any_eq_true _ _).mp hrun
  refine ⟨w, ?_, of_decide_eq_true hheld⟩
  exact Reachable.of_foldlM (fun h => ⟨_, step_of_perform rfl h⟩) (Reachable.start rfl) hw

/-- The only voter of a roster writes in two lives, under an epoch of each. -/
def soloLives : List LifeAct :=
  [.join outVoter, .call outVoter (.start 0), .call outVoter (.tick 1000),
    .watch outVoter, .ask outVoter, .publish outVoter 1 [1],
    .restart outVoter, .call outVoter (.start 2000), .call outVoter (.tick 3000),
    .watch outVoter, .ask outVoter, .publish outVoter 2 [2]]

theorem epoch_names_one_hostship_solo :
    ∃ w, Reachable (· = empty) (CoveredStep outGroup outRoster) w ∧
      w.issued.map Issued.token = [⟨2, 1⟩, ⟨1, 1⟩] ∧
      (∀ life, (outVoter, life, 1) ∈ w.held → (outVoter, 1, 1) ∈ w.held ∧ life = 1) ∧
      (w.issued.map fun i => (i.host, i.token)).Nodup := by
  have hrun : (soloLives.foldlM (performCovered outGroup outConfig) empty).any (fun w =>
      decide (w.issued.map Issued.token = [⟨2, 1⟩, ⟨1, 1⟩] ∧ (outVoter, 1, 1) ∈ w.held)) =
        true := by
    decide +kernel
  obtain ⟨w, hw, hheld⟩ := (Option.any_eq_true _ _).mp hrun
  obtain ⟨hissued, hmem⟩ := of_decide_eq_true hheld
  have hreach : Reachable (· = empty) (CoveredStep outGroup outRoster) w := by
    refine Reachable.of_foldlM ?_ (Reachable.start rfl) hw
    exact fun h => step_of_performCovered rfl h
  obtain ⟨honce, hnodup⟩ := epoch_names_one_hostship hreach
  exact ⟨w, hreach, hissued, fun life h => ⟨hmem, honce _ _ _ _ h hmem⟩, hnodup⟩

end Lives

end Groupnet
