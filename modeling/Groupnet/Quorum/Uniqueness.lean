import Groupnet.Lib.Run
import Groupnet.Quorum.Ledger

/-!
# One host per epoch under a roster

The engines of one group with one roster, and a network that loses, duplicates,
delays and reorders election frames at will: what was once shipped may be delivered
any number of times, at any later point, or never.  Every call brings its own instant,
so clocks are arbitrary.  A node restarts from the last pair it wrote down.

No two nodes ever hold one epoch.  A majority wrote each down, two majorities share a
voter, and a voter wrote down one claimant per epoch.
-/

namespace Groupnet

/-- The engines of a group, what they wrote down and shipped, and every epoch any of
them was seen to hold. -/
structure Cluster where
  engine : NodeId → Option GroupEngine
  ledger : Ledger
  sent : List Envelope
  hosted : List (NodeId × Nat)

namespace Cluster

def empty : Cluster := ⟨fun _ => none, fun _ => [], [], []⟩

/-- Puts an engine in place. -/
def boot (w : Cluster) (n : NodeId) (e : GroupEngine) : Cluster :=
  { w with engine := Function.update w.engine n (some e) }

def call (w : Cluster) (n : NodeId) (e : GroupEngine) (ev : Event) : Cluster where
  engine := Function.update w.engine n (some (e.handle ev).1)
  ledger := w.ledger.record n (e.handle ev).2
  sent := w.sent ++ envelopes n (e.handle ev).2
  hosted :=
    if (e.handle ev).1.role = .host then (n, (e.handle ev).1.leadership.1) :: w.hosted
    else w.hosted

@[simp] theorem boot_engine_self (w : Cluster) (n : NodeId) (e : GroupEngine) :
    (w.boot n e).engine n = some e := Function.update_self ..

theorem boot_engine_of_ne {w : Cluster} {m n : NodeId} {e : GroupEngine} (h : m ≠ n) :
    (w.boot n e).engine m = w.engine m := Function.update_of_ne h ..

@[simp] theorem call_engine_self (w : Cluster) (n : NodeId) (e : GroupEngine) (ev : Event) :
    (w.call n e ev).engine n = some (e.handle ev).1 := Function.update_self ..

theorem call_engine_of_ne {w : Cluster} {m n : NodeId} {e : GroupEngine} {ev : Event} (h : m ≠ n) :
    (w.call n e ev).engine m = w.engine m := Function.update_of_ne h ..

/-- An election frame that reaches `n` was shipped to it by the node it comes from.
Other frames may hold anything. -/
def Delivers (w : Cluster) (n : NodeId) : Event → Prop
  | .message source bytes _ => ∀ frame body, Wire.decode bytes = some frame →
      frame.lead = some body → ⟨source, n, body⟩ ∈ w.sent
  | .start _ | .tick _ | .command _ => True

inductive Step (group : GroupId) (r : VoterRoster) : Cluster → Cluster → Prop where
  | join {w : Cluster} {n : NodeId} {seeds : List NodeId} {config : Config} {leaseMs : Nat}
      {e : GroupEngine} (hdown : w.engine n = none)
      (hnew : GroupEngine.new group n seeds config = .ok e)
      (hmode : config.mode = .hosted ⟨.quorum r, leaseMs⟩) : Step group r w (w.boot n e)
  /-- A node restarts from the last pair it wrote down. -/
  | restart {w : Cluster} {n : NodeId} {seeds : List NodeId} {config : Config} {leaseMs : Nat}
      {e : GroupEngine} (hnew : GroupEngine.recovering group n seeds config = .ok e)
      (hmode : config.mode = .hosted ⟨.quorum r, leaseMs⟩) :
      Step group r w (w.boot n (e.restore ⟨(w.ledger n).getLast?⟩))
  | call {w : Cluster} {n : NodeId} {e : GroupEngine} {ev : Event} (hup : w.engine n = some e)
      (hev : w.Delivers n ev) : Step group r w (w.call n e ev)

/-! ## The invariant -/

/-- Every seat, frame and hostship is backed by the ledgers. -/
structure Sound (r : VoterRoster) (w : Cluster) : Prop where
  seats : ∀ n e, w.engine n = some e → ∃ s, e.seat = some s ∧ s.me = n ∧ Backed r w.ledger s
  unused : ∀ n, w.engine n = none → w.ledger n = []
  rising : w.ledger.Rising
  sent : ∀ env ∈ w.sent, env.body.Recorded w.ledger
  hosted : ∀ n epoch, (n, epoch) ∈ w.hosted → Majority r.voters fun v => (epoch, n) ∈ w.ledger v

variable {group : GroupId} {r : VoterRoster} {w w' : Cluster}

variable {n : NodeId} {e : GroupEngine}

theorem sound_empty (r : VoterRoster) : Sound r empty where
  seats := fun _ _ h => by cases h
  unused := fun _ _ => rfl
  rising := fun _ => List.Pairwise.nil
  sent := fun _ h => absurd h List.not_mem_nil
  hosted := fun _ _ h => absurd h List.not_mem_nil

/-- A node whose seat is backed may be put in place. -/
theorem Sound.boot (hw : Sound r w) {s : Seat} (hseat : e.seat = some s) (hme : s.me = n)
    (hb : Backed r w.ledger s) :
    Sound r (w.boot n e) where
  __ := hw
  seats := by
    intro m e' hm
    by_cases hmn : m = n
    · subst hmn
      rw [boot_engine_self] at hm
      cases hm
      exact ⟨s, hseat, hme, hb⟩
    · rw [boot_engine_of_ne hmn] at hm
      exact hw.seats m e' hm
  unused := by
    intro m hm
    by_cases hmn : m = n
    · subst hmn
      rw [boot_engine_self] at hm
      cases hm
    · rw [boot_engine_of_ne hmn] at hm
      exact hw.unused m hm

theorem backed_new {L : Ledger} {leaseMs : Nat} (hempty : L n = []) :
    Backed r L ⟨n, group, false, Election.new ⟨.quorum r, leaseMs⟩⟩ where
  roster := rfl
  granted := by simp [Seat.granted, Election.new, QuorumState.forActivation, hempty]
  counted := by simp [Seat.standing, Election.new]
  elected := by simp [Election.new]

/-- A node that restarts from the last pair it wrote down is backed. -/
theorem backed_restore {L : Ledger} {leaseMs : Nat}
    (hseat : e.seat = some ⟨n, group, false, Election.new ⟨.quorum r, leaseMs⟩⟩) :
    ∃ s, (e.restore ⟨(L n).getLast?⟩).seat = some s ∧ s.me = n ∧ Backed r L s := by
  refine ⟨_, GroupEngine.seat_modifyElection hseat _, rfl, ?_⟩
  cases hlast : (L n).getLast? with
  | none =>
    exact ⟨rfl, hlast.symm, by simp [Seat.standing, Election.new, QuorumState.forActivation],
      by simp [Election.new, QuorumState.forActivation]⟩
  | some p =>
    exact ⟨rfl, hlast.symm, by simp [Seat.standing, Election.new, QuorumState.forActivation],
      by simp [Election.new, QuorumState.forActivation]⟩

/-- What reaches a node was written down. -/
theorem Sound.heard (hw : Sound r w) {ev : Event} (hev : w.Delivers n ev) :
    (Input.ofEvent ev).Recorded w.ledger := by
  intro source body hinp
  cases ev with
  | start now | tick now => cases hinp
  | command cmd => cases hinp
  | message src bytes now =>
    simp only [Input.ofEvent, Input.ofBytes, Input.ofFrame] at hinp
    split at hinp
    next frame hdecode =>
      split at hinp
      next body' hlead =>
        cases hinp
        exact hw.sent _ (hev frame body hdecode hlead)
      next => cases hinp
    next => cases hinp

theorem record_leads (L : Ledger) (n : NodeId) (fx : List Effect) :
    L.record n (leads fx) = L.record n fx := by
  unfold Ledger.record
  rw [persisted_leads]

/-- A call keeps everything backed. -/
theorem Sound.call (hw : Sound r w) {ev : Event} (hup : w.engine n = some e)
    (hev : w.Delivers n ev) : Sound r (w.call n e ev) := by
  obtain ⟨s, hseat, rfl, hb⟩ := hw.seats n e hup
  obtain ⟨mv, s', hends⟩ := GroupEngine.handle_runs hseat ev 0
  have hset := hends.rows.settled hb hw.rising (hw.heard hev)
  have hme := Seat.me_eq_of_fixed hends.rows.fixed
  obtain ⟨hb', hrise, hship⟩ := hset
  rw [record_leads] at hb' hrise
  simp only [record_leads, envelopes_leads] at hship
  refine ⟨?_, ?_, hrise, ?_, ?_⟩
  · intro m e' hm
    by_cases hmn : m = s.me
    · subst hmn
      rw [call_engine_self] at hm
      cases hm
      exact ⟨s', hends.seat, hme, hb'⟩
    · rw [call_engine_of_ne hmn] at hm
      obtain ⟨s₁, hseat₁, rfl, hb₁⟩ := hw.seats m e' hm
      exact ⟨s₁, hseat₁, rfl, hb₁.mono (Ledger.record_of_ne hmn _)
        fun v p hp => Ledger.mem_record hp⟩
  · intro m hm
    have hmn : m ≠ s.me := by
      rintro rfl
      rw [call_engine_self] at hm
      cases hm
    rw [call_engine_of_ne hmn] at hm
    exact (Ledger.record_of_ne hmn _).trans (hw.unused m hm)
  · intro env henv
    rcases List.mem_append.mp henv with henv | henv
    · have hrec := hw.sent env henv
      cases hbody : env.body with
      | grant epoch claimant granter =>
        rw [hbody] at hrec
        exact Ledger.mem_record hrec
      | _ => trivial
    · exact hship env henv
  · have hold : ∀ m epoch, (m, epoch) ∈ w.hosted →
        Majority r.voters fun v => (epoch, m) ∈ w.ledger.record s.me (e.handle ev).2 v :=
      fun m epoch hm => (hw.hosted m epoch hm).mono fun v _ hv => Ledger.mem_record hv
    intro m epoch hm
    unfold Cluster.call at hm
    dsimp only at hm
    split at hm
    next hrole =>
      rcases List.mem_cons.mp hm with hm | hm
      · cases hm
        rw [GroupEngine.role_of_seat hends.seat] at hrole
        have hepoch : (e.handle ev).1.leadership.1 = s'.el.epoch := by
          simp [GroupEngine.leadership, GroupEngine.election_of_seat hends.seat]
        have hel := hb'.elected hrole
        rw [hme] at hel
        rw [hepoch]
        exact hel
      · exact hold m epoch hm
    next => exact hold m epoch hm

theorem Sound.step (hw : Sound r w) (h : Step group r w w') : Sound r w' := by
  cases h with
  | join hdown hnew hmode =>
    exact hw.boot (GroupEngine.seat_new hnew hmode) rfl (backed_new (hw.unused _ hdown))
  | restart hnew hmode =>
    obtain ⟨s, hseat, hme, hb⟩ := backed_restore (GroupEngine.seat_new hnew hmode)
    exact hw.boot hseat hme hb
  | call hup hev => exact hw.call hup hev

theorem sound_of_reachable (h : Reachable (· = empty) (Step group r) w) : Sound r w := by
  refine h.invariant (P := Sound r) ?_ fun _ _ hw hstep => hw.step hstep
  rintro _ rfl
  exact sound_empty r

/-! ## One host per epoch -/

/-- No two nodes ever hold one epoch of a roster. -/
theorem quorum_epoch_unique (h : Reachable (· = empty) (Step group r) w) {a b : NodeId}
    {epoch : Nat} (ha : (a, epoch) ∈ w.hosted) (hb : (b, epoch) ∈ w.hosted) : a = b := by
  have hw := sound_of_reachable h
  obtain ⟨v, _, hva, hvb⟩ := Majority.meet r.nodup (hw.hosted a epoch ha) (hw.hosted b epoch hb)
  exact hw.rising.unique hva hvb

/-! ## Schedules -/

/-- Whether an election frame that reaches `n` was shipped to it. -/
def delivers? (w : Cluster) (n : NodeId) : Event → Bool
  | .message source bytes _ =>
    ((Wire.decode bytes).bind Wire.Frame.lead).all fun body => decide (⟨source, n, body⟩ ∈ w.sent)
  | .start _ | .tick _ | .command _ => true

theorem delivers_of_delivers? {ev : Event} (h : w.delivers? n ev = true) : w.Delivers n ev := by
  cases ev with
  | message source bytes now =>
    intro frame body hdecode hlead
    simpa [delivers?, hdecode, hlead] using h
  | start now | tick now | command cmd => trivial

/-- A node joins, or else has a call. -/
def perform (group : GroupId) (config : Config) (w : Cluster) :
    NodeId × Option Event → Option Cluster
  | (n, none) =>
    match w.engine n, GroupEngine.new group n [] config with
    | none, .ok e => some (w.boot n e)
    | _, _ => none
  | (n, some ev) =>
    (w.engine n).bind fun e => if w.delivers? n ev then some (w.call n e ev) else none

theorem step_of_perform {config : Config} {leaseMs : Nat} {act : NodeId × Option Event}
    (hmode : config.mode = .hosted ⟨.quorum r, leaseMs⟩)
    (h : w.perform group config act = some w') :
    Step group r w w' := by
  obtain ⟨n, _ | ev⟩ := act
  · unfold perform at h
    dsimp only at h
    split at h
    next e hdown hnew =>
      cases h
      exact .join hdown hnew hmode
    next => cases h
  · obtain ⟨e, hup, h⟩ := Option.bind_eq_some_iff.mp h
    split at h
    next hev =>
      cases h
      exact .call hup (delivers_of_delivers? hev)
    next => cases h

end Cluster

/-! Three voters, of which `b` outranks `a` without `a` knowing it. -/

def trioA : NodeId := .ofChar 'a'

def trioB : NodeId := .ofChar 'b'

def trioC : NodeId := .ofChar 'c'

def trioGroup : GroupId := .ofChar 'g'

def trioRoster : VoterRoster := VoterRoster.new [trioA, trioB, trioC]

def trioConfig : Config := { Config.default with mode := .hosted ⟨.quorum trioRoster, 1000⟩ }

def leadFrame (group : GroupId) (body : Wire.LeadBody) : Wire.Frame :=
  { Wire.Frame.bare (Wire.leadKind body) group none with lead := some body }

namespace Cluster

/-- The delivery of an election frame. -/
def trioLead (source n : NodeId) (body : Wire.LeadBody) (now : Time) : NodeId × Option Event :=
  (n, some (.message source (Wire.encode (leadFrame trioGroup body)) now))

/-- `a` claims the first epoch and is elected by the grant of `b`.  Then `b` claims the
second and is elected by the grant of `c`. -/
def trioHandover : List (NodeId × Option Event) :=
  [trioA, trioB, trioC].map (·, none) ++ [trioA, trioB, trioC].map (·, some (.start 0)) ++
    [(trioA, some (.tick 1000)), trioLead trioA trioB (.claim 1 trioA) 1000,
      trioLead trioA trioC (.claim 1 trioA) 1000, trioLead trioB trioA (.grant 1 trioA trioB) 1001,
      (trioB, some (.tick 3000)), trioLead trioB trioC (.claim 2 trioB) 3000,
      trioLead trioC trioB (.grant 2 trioB trioC) 3001]

theorem quorum_epoch_unique_trio :
    ∃ w, Reachable (· = empty) (Step trioGroup trioRoster) w ∧
      (trioA, 1) ∈ w.hosted ∧ (trioB, 2) ∈ w.hosted ∧
      (∀ n, (n, 1) ∈ w.hosted → trioA = n) ∧ ∀ n, (n, 2) ∈ w.hosted → trioB = n := by
  have hrun : (trioHandover.foldlM (perform trioGroup trioConfig) empty).any (fun w =>
      decide ((trioA, 1) ∈ w.hosted ∧ (trioB, 2) ∈ w.hosted)) = true := by decide +kernel
  obtain ⟨w, hw, hheld⟩ := (Option.any_eq_true _ _).mp hrun
  obtain ⟨ha, hb⟩ := of_decide_eq_true hheld
  have hreach : Reachable (· = empty) (Step trioGroup trioRoster) w := by
    refine Reachable.of_foldlM ?_ (Reachable.start rfl) hw
    exact fun h => step_of_perform rfl h
  exact ⟨w, hreach, ha, hb, fun n => quorum_epoch_unique hreach ha,
    fun n => quorum_epoch_unique hreach hb⟩

end Cluster

end Groupnet
