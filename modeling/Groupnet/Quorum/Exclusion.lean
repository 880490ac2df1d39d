import Groupnet.Lib.Run
import Groupnet.Quorum.Promises
import Groupnet.Quorum.Uniqueness

/-!
# One lease at a time under a roster

The engines of one group with one roster and one lease length, on one clock that only
moves forward.  No node restarts.  Frames are lost, duplicated, delayed and reordered,
with one exception: a grant that answers an earlier round of a host is not delivered
once that host has opened a later renewal round.

The exception is stated for the rounds a `scope` selects.  With every round in scope no
two nodes ever hold a running lease.  With renewal rounds alone they may: a grant that
answers the claim of an election still reaches its host in the renewal round after it,
and the lease it extends outlives the promise behind it.
-/

namespace Groupnet

def GroupEngine.roundSentAt (e : GroupEngine) : Time :=
  (e.quorum.map QuorumState.roundSentAt).getD 0

/-- The engines of a group on one clock. -/
structure Timed where
  now : Time
  engine : NodeId → Option GroupEngine
  sent : List Tagged
  /-- When each node last opened a renewal round. -/
  renewed : NodeId → Option Time

namespace Timed

def empty : Timed := ⟨0, fun _ => none, [], fun _ => none⟩

/-- Puts an engine in place. -/
def boot (w : Timed) (n : NodeId) (e : GroupEngine) : Timed :=
  { w with engine := Function.update w.engine n (some e) }

@[simp] theorem boot_engine_self (w : Timed) (n : NodeId) (e : GroupEngine) :
    (w.boot n e).engine n = some e := Function.update_self ..

theorem boot_engine_of_ne {w : Timed} {m n : NodeId} {e : GroupEngine} (h : m ≠ n) :
    (w.boot n e).engine m = w.engine m := Function.update_of_ne h ..

def stamp (e e' : GroupEngine) (answered : RoundTag) (env : Envelope) : RoundTag :=
  match env.body with
  | .claim epoch _ => ⟨epoch, e'.roundSentAt, decide (e.role = .host ∧ e'.role = .host)⟩
  | .grant .. | .state .. | .resign .. => answered

/-- One call into the engine of `n`, which answers a frame of the round `answered`. -/
def call (w : Timed) (n : NodeId) (e : GroupEngine) (ev : Event) (answered : RoundTag) : Timed where
  now := w.now
  engine := Function.update w.engine n (some (e.handle ev).1)
  sent := w.sent ++ (envelopes n (e.handle ev).2).map fun env =>
    ⟨env, stamp e (e.handle ev).1 answered env⟩
  renewed :=
    if e.role = .host ∧ (e.handle ev).1.role = .host ∧
        (e.handle ev).1.roundSentAt ≠ e.roundSentAt then
      Function.update w.renewed n (some (e.handle ev).1.roundSentAt)
    else w.renewed

@[simp] theorem call_engine_self (w : Timed) (n : NodeId) (e : GroupEngine) (ev : Event)
    (answered : RoundTag) : (w.call n e ev answered).engine n = some (e.handle ev).1 :=
  Function.update_self ..

theorem call_engine_of_ne {w : Timed} {m n : NodeId} {e : GroupEngine} {ev : Event}
    {answered : RoundTag} (h : m ≠ n) : (w.call n e ev answered).engine m = w.engine m :=
  Function.update_of_ne h ..

/-- What can happen to the engines of one group with one roster and one lease. -/
inductive Step (group : GroupId) (r : VoterRoster) (leaseMs : Nat) (scope : RoundTag → Bool) :
    Timed → Timed → Prop where
  | join {w : Timed} {n : NodeId} {seeds : List NodeId} {config : Config} {e : GroupEngine}
      (hdown : w.engine n = none) (hnew : GroupEngine.new group n seeds config = .ok e)
      (hmode : config.mode = .hosted ⟨.quorum r, leaseMs⟩) :
      Step group r leaseMs scope w (w.boot n e)
  | pass {w : Timed} {t : Time} (hle : w.now ≤ t) : Step group r leaseMs scope w { w with now := t }
  /-- A start, a tick, a command, or a frame that is none of the election's. -/
  | call {w : Timed} {n : NodeId} {e : GroupEngine} {ev : Event} (hup : w.engine n = some e)
      (htime : ev.time w.now = w.now)
      (hplain : ∀ source body, Input.ofEvent ev ≠ .frame source body) :
      Step group r leaseMs scope w (w.call n e ev ⟨0, 0, false⟩)
  /-- An election frame arrives. -/
  | deliver {w : Timed} {n : NodeId} {e : GroupEngine} {m : Tagged} {bytes : List UInt8}
      {frame : Wire.Frame} (hup : w.engine n = some e) (hsent : m ∈ w.sent) (hdest : m.env.dest = n)
      (hdecode : Wire.decode bytes = some frame) (hlead : frame.lead = some m.env.body)
      (hfresh : ∀ epoch claimant granter, m.env.body = .grant epoch claimant granter →
        scope m.tag = true → ∀ t, w.renewed n = some t → t ≤ m.tag.opened) :
      Step group r leaseMs scope w (w.call n e (.message m.env.source bytes w.now) m.tag)

/-- The node is host of its group with a lease that runs. -/
def Leads (w : Timed) (n : NodeId) : Prop :=
  ∃ e leaseUntil, w.engine n = some e ∧ e.hostLeaseUntil = some leaseUntil ∧ w.now < leaseUntil

/-! ## The invariant -/

/-- The seats of the engines. -/
def chamber (w : Timed) (since : NodeId → Time) : Chamber where
  now := w.now
  seat := fun n => (w.engine n).bind GroupEngine.seat
  since := since
  sent := w.sent

structure Sound (r : VoterRoster) (leaseMs : Nat) (w : Timed) : Prop where
  seated : ∀ n e, w.engine n = some e → ∃ s, e.seat = some s
  order : ∃ since, (w.chamber since).Orderly r leaseMs ∧
    ∀ n s, (w.chamber since).seat n = some s → Chamber.Linked (w.renewed n) (since n) s

variable {group : GroupId} {r : VoterRoster} {leaseMs : Nat} {w w' : Timed}

variable {e : GroupEngine} {n : NodeId} {s : Seat} {answered : RoundTag} {ev : Event}
  {scope : RoundTag → Bool}

theorem sound_empty (r : VoterRoster) (leaseMs : Nat) : Sound r leaseMs empty where
  seated := fun _ _ h => by cases h
  order := by
    refine ⟨fun _ => 0, ⟨?_, ?_, ?_, ?_, ?_, ?_, ?_, ?_, ?_⟩, fun _ _ h => by cases h⟩
    · exact fun _ _ h => by cases h
    · exact fun _ _ _ h => by cases h
    · exact fun _ h => absurd h List.not_mem_nil
    · exact fun _ h => absurd h List.not_mem_nil
    · exact fun _ h => absurd h List.not_mem_nil
    · exact fun _ h => absurd h List.not_mem_nil
    · exact fun _ _ _ _ h => by cases h
    · exact fun _ _ _ h => by cases h
    · exact fun _ _ h => by cases h

theorem chamber_seat {since : NodeId → Time} (hup : w.engine n = some e) (hseat : e.seat = some s) :
    (w.chamber since).seat n = some s := by
  simp [chamber, hup, hseat]

theorem roundSentAt_of_seat {now : Time} (h : e.seat = some s) (hf : Fit r leaseMs now s) :
    e.roundSentAt = s.q.roundSentAt := by
  unfold GroupEngine.roundSentAt
  rw [GroupEngine.quorum_of_seat h, hf.quorum]
  rfl

theorem chamber_call (since : NodeId → Time) {since' : NodeId → Time} {s' : Seat}
    (hseat : (e.handle ev).1.seat = some s') :
    (w.call n e ev answered).chamber since' = (w.chamber since).after n s' since'
      ((envelopes n (leads (e.handle ev).2)).map fun env =>
        ⟨env, stamp e (e.handle ev).1 answered env⟩) := by
  unfold chamber Chamber.after call
  rw [envelopes_leads]
  congr 1
  funext k
  by_cases hk : k = n
  · subst hk
    simp [hseat]
  · simp [Function.update_of_ne hk]

theorem chamber_boot {since : NodeId → Time} (hseat : e.seat = some s) :
    (w.boot n e).chamber since = (w.chamber since).boot n s := by
  unfold chamber Chamber.boot boot
  congr 1
  funext k
  by_cases hk : k = n
  · subst hk
    simp [hseat]
  · simp [Function.update_of_ne hk]

theorem stamp_claim {e' : GroupEngine} (answered : RoundTag) {env : Envelope} {epoch : Nat}
    {claimant : NodeId} (h : env.body = .claim epoch claimant) :
    (stamp e e' answered env).epoch = epoch ∧
      (stamp e e' answered env).opened = e'.roundSentAt := by
  simp [stamp, h]

theorem stamp_grant {e' : GroupEngine} {env : Envelope} {epoch : Nat} {claimant granter : NodeId}
    (h : env.body = .grant epoch claimant granter) : stamp e e' answered env = answered := by
  simp [stamp, h]

/-- What a call says about renewals agrees with the rows it is made of. -/
theorem call_linked {mv : Move} {s' : Seat} {since since' : Time} (hseat : e.seat = some s)
    (hends : Ends w.now (.ofEvent ev) mv s (e.handle ev) s')
    (hround : e.roundSentAt = s.q.roundSentAt)
    (hround' : (e.handle ev).1.roundSentAt = s'.q.roundSentAt)
    (hsince : since' = since ∨ since' = w.now) (hlink : Chamber.Linked (w.renewed n) since s)
    (hlink' : Chamber.Linked (if mv = .renew then some w.now else w.renewed n) since' s') :
    Chamber.Linked ((w.call n e ev answered).renewed n) since' s' := by
  have hrenewed : (w.call n e ev answered).renewed n =
      if s.el.role = .host ∧ s'.el.role = .host ∧ s'.q.roundSentAt ≠ s.q.roundSentAt then
        some s'.q.roundSentAt else w.renewed n := by
    unfold Timed.call
    rw [GroupEngine.role_of_seat hseat, GroupEngine.role_of_seat hends.seat, hround, hround']
    split
    · exact Function.update_self ..
    · rfl
  intro epoch hstand
  rw [hrenewed]
  split
  · exact .inr rfl
  next hsame =>
    have hl := hlink' epoch hstand
    by_cases hmv : mv = .renew
    · -- A renewal at the instant of the round before it.
      obtain ⟨hhost, hhost'⟩ := hends.rows.host_of_renew hmv
      have heq : s'.q.roundSentAt = s.q.roundSentAt := by
        by_contra hne
        exact hsame ⟨hhost, hhost', hne⟩
      have hstand₀ : s.standing = some s.el.epoch := by simp [Seat.standing, hhost]
      rw [if_pos hmv] at hl
      rcases hl with hl | hl
      · exact .inl hl
      have hnow : w.now = s'.q.roundSentAt := Option.some.inj hl
      rcases hlink s.el.epoch hstand₀ with hfirst | hsome
      · left
        rcases hsince with rfl | rfl
        · rw [heq, hfirst]
        · exact hnow.symm
      · right
        rw [heq]
        exact hsome
    · rwa [if_neg hmv] at hl

/-- A call keeps order when what it hears was sent, and comes in time if it is a grant. -/
theorem Sound.call (hw : Sound r leaseMs w) (hup : w.engine n = some e)
    (htime : ev.time w.now = w.now) (heard : ∀ source body, Input.ofEvent ev = .frame source body →
      ⟨⟨source, n, body⟩, answered⟩ ∈ w.sent)
    (timely : ∀ source epoch granter, Input.ofEvent ev = .frame source (.grant epoch n granter) →
      ∀ t, w.renewed n = some t → t ≤ answered.opened) : Sound r leaseMs
        (w.call n e ev answered) := by
  obtain ⟨since, hord, hlink⟩ := hw.order
  obtain ⟨s, hseat⟩ := hw.seated n e hup
  have hn : (w.chamber since).seat n = some s := chamber_seat hup hseat
  obtain ⟨mv, s', hends⟩ := GroupEngine.handle_runs hseat ev w.now
  have hrows := hends.rows
  rw [htime] at hrows
  have hfit := (hord.fit n s hn).2
  have hbounded : (Input.ofEvent ev).Bounded := fun source body h =>
    hord.bounded _ (heard source body h)
  have hfit' : Fit r leaseMs w.now s' :=
    hrows.invariant (P := Fit r leaseMs w.now) (fun hrow hf => hrow.fit hf hbounded) hfit
  have hround := roundSentAt_of_seat hseat hfit
  have hround' := roundSentAt_of_seat hends.seat hfit'
  obtain ⟨since', hord', hothers, hself, hlink'⟩ := hord.run hrows hn heard
    (by
      intro source epoch granter h hstand
      exact (hlink n s hn epoch hstand).imp_right fun hsome =>
        timely source epoch granter h _ hsome)
    (stamp e (e.handle ev).1 answered)
    (by
      intro env epoch claimant hbody
      obtain ⟨hepoch, hopened⟩ := stamp_claim answered hbody
      refine ⟨hepoch, ?_⟩
      rw [hopened, hround']
      exact hfit'.round)
    (fun env epoch claimant granter hbody => stamp_grant hbody) (hlink n s hn)
  refine ⟨?_, since', chamber_call since hends.seat ▸ hord', ?_⟩
  · intro k e' hk
    by_cases hkn : k = n
    · subst hkn
      rw [call_engine_self] at hk
      cases hk
      exact ⟨s', hends.seat⟩
    · rw [call_engine_of_ne hkn] at hk
      exact hw.seated k e' hk
  · intro k t hk
    rw [chamber_call since hends.seat] at hk
    by_cases hkn : k = n
    · subst hkn
      rw [Chamber.after_seat_self] at hk
      cases hk
      have hends' : Ends w.now (.ofEvent ev) mv s (e.handle ev) s' := ⟨hends.seat, hrows⟩
      exact call_linked hseat hends' hround hround' hself (hlink k s hn) hlink'
    · rw [Chamber.after_seat_of_ne hkn] at hk
      have hsame : (w.call n e ev answered).renewed k = w.renewed k := by
        unfold Timed.call
        split
        · exact Function.update_of_ne hkn ..
        · rfl
      rw [hsame, hothers k hkn]
      exact hlink k t hk

theorem newcomer {now : Time} :
    Chamber.Newcomer r leaseMs now n ⟨n, group, false, Election.new ⟨.quorum r, leaseMs⟩⟩ where
  me := rfl
  fit := by
    refine ⟨rfl, rfl, Nat.zero_le _, Nat.le_refl _, ?_, fun _ => rfl, Nat.zero_le _, ?_, ?_⟩
    · exact fun _ h => by cases h
    · exact fun h => by cases h
    · exact fun _ _ h => by cases h
  role := rfl
  granted := rfl

theorem Sound.step (hw : Sound r leaseMs w) (h : Step group r leaseMs (fun _ => true) w w') :
    Sound r leaseMs w' := by
  cases h with
  | @join n seeds config e hdown hnew hmode =>
    have hseat := GroupEngine.seat_new hnew hmode
    obtain ⟨since, hord, hlink⟩ := hw.order
    have hnone : (w.chamber since).seat n = none := by simp [chamber, hdown]
    have hsame : (w.boot n e).chamber since = (w.chamber since).boot n
        ⟨n, group, false, Election.new ⟨.quorum r, leaseMs⟩⟩ := chamber_boot hseat
    refine ⟨?_, since, hsame ▸ hord.boot hnone newcomer, ?_⟩
    · intro k e' hk
      by_cases hkn : k = n
      · subst hkn
        rw [boot_engine_self] at hk
        cases hk
        exact ⟨_, hseat⟩
      · rw [boot_engine_of_ne hkn] at hk
        exact hw.seated k e' hk
    · intro k t hk
      rw [hsame] at hk
      by_cases hkn : k = n
      · subst hkn
        rw [Chamber.boot_seat_self] at hk
        cases hk
        exact fun _ hstand => by cases hstand
      · rw [Chamber.boot_seat_of_ne hkn] at hk
        exact hlink k t hk
  | pass hle =>
    obtain ⟨since, hord, hlink⟩ := hw.order
    exact ⟨hw.seated, since, hord.pass hle, hlink⟩
  | call hup htime hplain =>
    exact hw.call hup htime (fun source body h => absurd h (hplain source body))
      fun source epoch granter h => absurd h (hplain source _)
  | @deliver n e m bytes frame hup hsent hdest hdecode hlead hfresh =>
    have hinp : Input.ofEvent (.message m.env.source bytes w.now) =
        .frame m.env.source m.env.body := by
      simp [Input.ofEvent, Input.ofBytes, Input.ofFrame, hdecode, hlead]
    refine hw.call hup rfl ?_ ?_
    · intro source body h
      rw [hinp] at h
      cases h
      rw [← hdest]
      exact hsent
    · intro source epoch granter h
      rw [hinp] at h
      injection h with _ hbody
      exact hfresh _ _ _ hbody rfl

theorem sound_of_reachable (h : Reachable (· = empty) (Step group r leaseMs fun _ => true) w) :
    Sound r leaseMs w := by
  refine h.invariant (P := Sound r leaseMs) ?_ fun _ _ hw hstep => hw.step hstep
  rintro _ rfl
  exact sound_empty r leaseMs

/-! ## One lease at a time -/

/-- No two nodes hold a running lease, as long as no grant of an earlier round of a host
is delivered once it has opened a later renewal round. -/
theorem quorum_lease_exclusive (h : Reachable (· = empty) (Step group r leaseMs fun _ => true) w)
    {a b : NodeId} (ha : w.Leads a) (hb : w.Leads b) : a = b := by
  have hw := sound_of_reachable h
  obtain ⟨since, hord, _⟩ := hw.order
  have hleads : ∀ {n : NodeId}, w.Leads n → ∃ s, (w.chamber since).seat n = some s ∧
      s.el.role = .host ∧ w.now < s.el.leaseUntil := by
    rintro n ⟨e, leaseUntil, hup, hlease, hlive⟩
    obtain ⟨s, hseat⟩ := hw.seated n e hup
    refine ⟨s, chamber_seat hup hseat, ?_⟩
    rw [GroupEngine.hostLeaseUntil, GroupEngine.election_of_seat hseat,
      Option.filter_some] at hlease
    split at hlease
    next hrole =>
      cases hlease
      exact ⟨of_decide_eq_true hrole, hlive⟩
    next => cases hlease
  obtain ⟨sa, hsa, hrolea, hlivea⟩ := hleads ha
  obtain ⟨sb, hsb, hroleb, hliveb⟩ := hleads hb
  exact hord.exclusive hsa hrolea hlivea hsb hroleb hliveb

/-! ## Schedules

A schedule is a list of acts, carried out as long as the system allows them.  The frames
of a schedule are the encodings of the election frames that were sent. -/

inductive Act where
  | join (n : NodeId)
  | start (n : NodeId)
  | tick (n : NodeId)
  | pass (t : Time)
  | deliver (m : Tagged)

/-- Whether a frame may still be delivered. -/
def fresh (w : Timed) (scope : RoundTag → Bool) (m : Tagged) : Bool :=
  match m.env.body with
  | .grant .. => !scope m.tag || (w.renewed m.env.dest).all fun t => decide (t ≤ m.tag.opened)
  | .claim .. | .state .. | .resign .. => true

def perform (group : GroupId) (config : Config) (scope : RoundTag → Bool) (w : Timed) :
    Act → Option Timed
  | .join n =>
    match w.engine n, GroupEngine.new group n [] config with
    | none, .ok e => some (w.boot n e)
    | _, _ => none
  | .start n => (w.engine n).map fun e => w.call n e (.start w.now) ⟨0, 0, false⟩
  | .tick n => (w.engine n).map fun e => w.call n e (.tick w.now) ⟨0, 0, false⟩
  | .pass t => if w.now ≤ t then some { w with now := t } else none
  | .deliver m =>
    let frame := leadFrame group m.env.body
    (w.engine m.env.dest).bind fun e =>
      if m ∈ w.sent ∧ Wire.decode (Wire.encode frame) = some frame ∧ w.fresh scope m then
        some (w.call m.env.dest e (.message m.env.source (Wire.encode frame) w.now) m.tag)
      else none

theorem step_of_perform {config : Config} {act : Act}
    (hmode : config.mode = .hosted ⟨.quorum r, leaseMs⟩)
    (h : w.perform group config scope act = some w') : Step group r leaseMs scope w w' := by
  cases act with
  | join n =>
    unfold perform at h
    dsimp only at h
    split at h
    next e hdown hnew =>
      cases h
      exact .join hdown hnew hmode
    next => cases h
  | start n | tick n =>
    obtain ⟨e, hup, rfl⟩ := Option.map_eq_some_iff.mp h
    exact .call hup rfl fun _ _ h => by cases h
  | pass t =>
    unfold perform at h
    dsimp only at h
    split at h
    next hle =>
      cases h
      exact .pass hle
    next => cases h
  | deliver m =>
    obtain ⟨e, hup, h⟩ := Option.bind_eq_some_iff.mp h
    split at h
    next hcan =>
      cases h
      obtain ⟨hsent, hdecode, hfresh⟩ := hcan
      refine .deliver hup hsent rfl hdecode rfl ?_
      intro epoch claimant granter hbody hscope t ht
      simpa [fresh, hbody, hscope, ht] using hfresh
    next => cases h

/-- Whether a node is host with a lease that runs. -/
def leads? (w : Timed) (n : NodeId) : Bool :=
  ((w.engine n).bind GroupEngine.hostLeaseUntil).any fun leaseUntil => decide (w.now < leaseUntil)

theorem leads_of_leads? (h : w.leads? n = true) : w.Leads n := by
  obtain ⟨leaseUntil, hlease, hlive⟩ := (Option.any_eq_true _ _).mp h
  obtain ⟨e, hup, hlease⟩ := Option.bind_eq_some_iff.mp hlease
  exact ⟨e, leaseUntil, hup, hlease, of_decide_eq_true hlive⟩

/-- `a` claims and is elected by the grant of `b`. -/
def trioElection : List Act :=
  [.join trioA, .join trioB, .join trioC, .start trioA, .start trioB, .start trioC,
    .pass 1000, .tick trioA,
    .deliver ⟨⟨trioA, trioB, .claim 1 trioA⟩, ⟨1, 1000, false⟩⟩,
    .deliver ⟨⟨trioA, trioC, .claim 1 trioA⟩, ⟨1, 1000, false⟩⟩,
    .deliver ⟨⟨trioB, trioA, .grant 1 trioA trioB⟩, ⟨1, 1000, false⟩⟩,
    .pass 1500, .tick trioA]

def trioRenewed : List Act :=
  trioElection ++
    [.deliver ⟨⟨trioA, trioB, .claim 1 trioA⟩, ⟨1, 1500, true⟩⟩,
      .deliver ⟨⟨trioB, trioA, .grant 1 trioA trioB⟩, ⟨1, 1500, true⟩⟩, .pass 2000]

/-- The grant of `c` to the election reaches `a` in its renewal round, and the promises of
`b` and `c` end before the lease that is made of them. -/
def trioOverlap : List Act :=
  trioElection ++
    [.deliver ⟨⟨trioC, trioA, .grant 1 trioA trioC⟩, ⟨1, 1000, false⟩⟩, .pass 2000, .tick trioB,
      .deliver ⟨⟨trioB, trioC, .claim 2 trioB⟩, ⟨2, 2000, false⟩⟩,
      .deliver ⟨⟨trioC, trioB, .grant 2 trioB trioC⟩, ⟨2, 2000, false⟩⟩]

theorem exists_of_perform {acts : List Act} {p : Timed → Bool}
    (h : (acts.foldlM (perform trioGroup trioConfig scope) empty).any p = true) :
    ∃ w, Reachable (· = empty) (Step trioGroup trioRoster 1000 scope) w ∧ p w = true := by
  obtain ⟨w, hw, hp⟩ := (Option.any_eq_true _ _).mp h
  refine ⟨w, Reachable.of_foldlM ?_ (Reachable.start rfl) hw, hp⟩
  exact fun h => step_of_perform rfl h

/-- With renewal rounds alone in scope two leases may run at once. -/
theorem quorum_lease_overlap :
    ∃ w, Reachable (· = empty) (Step trioGroup trioRoster 1000 RoundTag.renewal) w ∧
      w.Leads trioA ∧ w.Leads trioB ∧ trioA ≠ trioB := by
  have hrun : (trioOverlap.foldlM (perform trioGroup trioConfig RoundTag.renewal) empty).any
      (fun w => w.leads? trioA && w.leads? trioB) = true := by decide +kernel
  obtain ⟨w, hw, hleads⟩ := exists_of_perform hrun
  obtain ⟨ha, hb⟩ := Bool.and_eq_true_iff.mp hleads
  exact ⟨w, hw, leads_of_leads? ha, leads_of_leads? hb, by decide⟩

theorem quorum_lease_exclusive_trio :
    ∃ w, Reachable (· = empty) (Step trioGroup trioRoster 1000 fun _ => true) w ∧
      w.Leads trioA ∧ ∀ n, w.Leads n → trioA = n := by
  have hrun : (trioRenewed.foldlM (perform trioGroup trioConfig fun _ => true) empty).any
      (fun w => w.leads? trioA) = true := by decide +kernel
  obtain ⟨w, hw, hleads⟩ := exists_of_perform hrun
  have ha := leads_of_leads? hleads
  exact ⟨w, hw, ha, fun n hn => quorum_lease_exclusive hw ha hn⟩

end Timed

end Groupnet
