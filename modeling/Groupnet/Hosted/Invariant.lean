import Groupnet.Lib.Run
import Groupnet.Rows.Events

/-!
# The election state invariant

The five fields the election's rows write are kept in step by every row: the adopted
epoch never passes the highest one seen, the role says who the adopted host is and
whether a claim stands, and a standing claim is above the adopted epoch.  The
invariant is `Fenced`.

A row also moves the adopted pair one way only.  It keeps it, raises it in the
fencing order, or drops its host, and a call has one row that is not of the first
kind at most.
-/

namespace Groupnet

open Wire (LeadBody)

/-- Frames come from other nodes. -/
def Input.Foreign (inp : Input) (me : NodeId) : Prop :=
  ∀ source body, inp = .frame source body → source ≠ me

/-- The invariant of the election state. -/
structure Fenced (s : Seat) : Prop where
  seen : s.el.epoch ≤ s.el.highestSeen
  /-- A host is what the adopted pair names. -/
  host : s.el.role = .host ↔ s.el.host = some s.me
  claim : s.el.role = .claimant ↔ s.el.claim.isSome = true
  bid : ∀ c, s.el.claim = some c → s.el.epoch < c.epoch ∧ c.epoch ≤ s.el.highestSeen
  /-- An anchored group has no claims. -/
  external : s.el.isExternal = true → s.el.role ≠ .claimant

/-- What a move does to the adopted pair. -/
def Move.Moves (s s' : Seat) : Move → Prop
  | .quiet | .renew => s'.pair = s.pair
  | .raise => cmpPair s.group s'.pair s.pair = .gt
  | .vacate => ∃ h, s.el.host = some h ∧ s'.pair = (s.el.epoch, none)

def Effect.bids : Effect → Bool
  | .send _ frame =>
    match frame.lead with
    | some (.claim _ _) | some (.grant _ _ _) => true
    | _ => false
  | .persistGrant .. => true
  | _ => false

theorem Effect.bids_of_plain {x : Effect} (h : x.isLead = false) : x.bids = false := by
  cases x with
  | send dest frame =>
    simp only [isLead, Option.isSome_eq_false_iff, Option.isNone_iff_eq_none] at h
    simp [bids, h]
  | persistGrant epoch claimant => cases h
  | _ => rfl

variable {now : Time} {inp : Input} {mv : Move} {s s' : Seat} {fx : List Effect}

/-! ## One row -/

theorem Row.seen_mono (h : Row now inp mv s fx s') (hlt : s'.el.highestSeen < u64Max) :
    s.el.highestSeen ≤ s'.el.highestSeen := by
  cases h with
  | openClaim =>
    simp only [Seat.withEl_el, Election.modifyQuorum_highestSeen] at hlt ⊢
    unfold satAdd at hlt ⊢
    omega
  | vote =>
    simp only [Seat.withEl_el, Election.modifyQuorum_highestSeen]
    unfold Seat.yield
    split <;> exact Nat.le_refl _
  | adopt =>
    simp only [Seat.withEl_el, Election.adopted]
    split <;> exact Nat.le_max_left _ _
  | observe | win | settle | award => exact Nat.le_max_left _ _
  | _ => exact Nat.le_refl _

/-- A node that takes an epoch is fenced, whatever it was before. -/
theorem Fenced.activated (s : Seat) (epoch : Nat) (leaseUntil : Time) :
    Fenced (s.withEl (s.el.activated s.me epoch leaseUntil)) where
  seen := Nat.le_max_right _ _
  host := by simp [Election.activated]
  claim := by simp [Election.activated]
  bid := by simp [Election.activated]
  external := by simp [Election.activated]

theorem Fenced.abandoned (hf : Fenced s) (hrole : s.el.role = .claimant) :
    Fenced (s.withEl s.el.abandoned) where
  seen := hf.seen
  host := by
    have hnot : s.el.host ≠ some s.me := fun h => by
      have := hf.host.mpr h
      rw [hrole] at this
      cases this
    simpa [Election.abandoned] using hnot
  claim := by simp [Election.abandoned]
  bid := by simp [Election.abandoned]
  external := by simp [Election.abandoned]

theorem Fenced.demoted (hf : Fenced s) (hrole : s.el.role = .host) :
    Fenced (s.withEl s.el.demoted) where
  __ := hf
  host := by simp [Election.demoted]
  claim := by
    have hnone := hf.claim
    simpa [Election.demoted, hrole] using hnone
  external := by simp [Election.demoted]

theorem Fenced.yield (hf : Fenced s) (epoch : Nat) (claimant : NodeId) :
    Fenced (s.withEl (s.yield epoch claimant)) := by
  unfold Seat.yield
  split
  next hout =>
    simp only [Seat.outrankedBy, Bool.and_eq_true, decide_eq_true_eq] at hout
    exact hf.abandoned hout.1
  next => exact hf

theorem cmpPair_gt_le {group : GroupId} {p p' : Nat × Option NodeId}
    (h : cmpPair group p' p = .gt) : p.1 ≤ p'.1 := by
  by_contra hlt
  have hcmp : compare p'.1 p.1 = .lt := Nat.compare_eq_lt.mpr (Nat.lt_of_not_le hlt)
  simp [cmpPair, hcmp] at h

theorem Fenced.adopted (hf : Fenced s) {epoch : Nat} {host : Option NodeId}
    (hhost : host ≠ some s.me) : Fenced (s.withEl (s.el.adopted epoch host)) := by
  unfold Election.adopted
  split
  next =>
    exact ⟨Nat.le_max_right _ _, by simpa using hhost, by simp, by simp, by simp⟩
  next hout =>
    simp only [Election.outdone, Bool.or_eq_true, decide_eq_true_eq, not_or,
      Option.any_eq_true, not_exists, not_and] at hout
    refine ⟨Nat.le_max_right _ _, ?_, hf.claim, ?_, hf.external⟩
    · simp [hout.1, hhost]
    intro c hc
    have hbid := hf.bid c hc
    exact ⟨Nat.lt_of_not_le (hout.2 c hc), Nat.le_trans hbid.2 (Nat.le_max_left _ _)⟩

/-- Every row keeps the invariant. -/
theorem Row.fenced (h : Row now inp mv s fx s') (hforeign : inp.Foreign s.me)
    (hlt : s'.el.highestSeen < u64Max) (hf : Fenced s) : Fenced s' := by
  cases h with
  | observe =>
    refine ⟨Nat.le_trans hf.seen (Nat.le_max_left _ _), hf.host, hf.claim, ?_, hf.external⟩
    intro c hc
    exact ⟨(hf.bid c hc).1, Nat.le_trans (hf.bid c hc).2 (Nat.le_max_left _ _)⟩
  | openClaim htick settleAt hrole hstay hhost hint =>
    simp only [Seat.withEl_el, Election.modifyQuorum_highestSeen] at hlt
    have hseen : s.el.highestSeen < satAdd s.el.highestSeen 1 := by
      unfold satAdd at hlt ⊢
      omega
    refine ⟨Nat.le_trans hf.seen (Nat.le_of_lt hseen), ?_, ?_, ?_, ?_⟩
    · simpa using hhost
    · simp
    · intro c hc
      simp only [Seat.withEl_el, Election.modifyQuorum_claim, Option.some.injEq] at hc
      subst hc
      exact ⟨Nat.lt_of_le_of_lt hf.seen hseen, Nat.le_refl _⟩
    · intro hext
      have hext' : s.el.isExternal = true := hext
      rw [hint] at hext'
      cases hext'
  | @vote _ q v source claimant epoch =>
    have hy := hf.yield epoch claimant
    exact { hy with }
  | abandon hrole => exact hf.abandoned hrole
  | win | settle | award => exact Fenced.activated s _ _
  | adopt heard hgt hhost => exact hf.adopted hhost
  | lapse hrole => exact hf.demoted hrole
  | leaveHost hrole | resignHost hr hrole =>
    have hd := hf.demoted hrole
    exact { hd with }
  | resignClaim hr hrole =>
    have ha := hf.abandoned hrole
    exact { ha with }
  | @vacate _ source epoch heard hepoch hhost =>
    -- The resigning host is another node, so this one is not the host.
    have hne : source ≠ s.me := hforeign source _ heard
    have hrole : s.el.role ≠ .host := by
      intro hrole
      have hme := hf.host.mp hrole
      rw [hhost] at hme
      exact hne (Option.some.inj hme)
    exact ⟨hf.seen, by simpa using hrole, hf.claim, hf.bid, hf.external⟩
  | _ => exact { hf with }

theorem Row.moves (h : Row now inp mv s fx s') (hf : Fenced s) : mv.Moves s s' := by
  cases h with
  | vote =>
    simp only [Move.Moves, Seat.pair, Seat.withEl_el, Election.modifyQuorum_epoch,
      Election.modifyQuorum_host]
    unfold Seat.yield
    split <;> rfl
  | win hr hq hrole hclaim | settle hset hrole hclaim =>
    exact GroupEngine.cmpPair_gt_of_lt s.group (hf.bid _ hclaim).1 _ _
  | @award _ epoch leaseUntil hcmd hext hstay hseen hown hnew =>
    rcases Nat.lt_or_eq_of_le (Nat.le_trans hf.seen hseen) with hlt | heq
    · exact GroupEngine.cmpPair_gt_of_lt s.group hlt _ _
    -- At the adopted epoch the pair has no host: naming this node it would be the host.
    have hnone : s.el.host = none := by
      cases hhost : s.el.host with
      | none => rfl
      | some h =>
        have hme := hown heq h hhost
        subst hme
        exact absurd ⟨hf.host.mpr hhost, heq⟩ hnew
    simp [Move.Moves, Seat.pair, Election.activated, cmpPair, hnone, heq]
  | adopt heard hgt hhost =>
    have hpair : ∀ epoch host, (s.withEl (s.el.adopted epoch host)).pair = (epoch, host) := by
      intro epoch host
      simp only [Seat.pair, Seat.withEl_el, Election.adopted]
      split <;> rfl
    simp only [Move.Moves, hpair]
    exact hgt
  | lapse hrole | leaveHost hrole | resignHost hr hrole => exact ⟨s.me, hf.host.mp hrole, rfl⟩
  | @vacate _ source epoch heard hepoch hhost => exact ⟨source, hhost, by simp [Seat.pair, hepoch]⟩
  | _ => rfl

/-- An anchored group bids for nothing and grants nothing. -/
theorem Row.no_bids (h : Row now inp mv s fx s') (hf : Fenced s) (hext : s.el.isExternal = true) :
    ∀ x ∈ fx, x.bids = false := by
  have hvoters := Election.voters_of_external hext
  have hnovoter : ¬s.isVoter := by
    rintro ⟨r, hr, _⟩
    rw [hvoters] at hr
    cases hr
  intro x hx
  cases h with
  | say hsays =>
    rw [List.mem_singleton.mp hx]
    cases hsays with
    | claim dest hrole => exact absurd hrole (hf.external hext)
    | renewal dest hr =>
      rw [hvoters] at hr
      cases hr
    | floor heard hstay hvoter => exact absurd hvoter hnovoter
    | _ => rfl
  | selfGrant hq hvoter | vote heard hq hvoter => exact absurd hvoter hnovoter
  | resignClaim hr | resignHost hr =>
    rw [hvoters] at hr
    cases hr
  | win | settle | award | adopt | lapse | leaveHost | vacate =>
    rw [List.mem_singleton.mp hx]
    rfl
  | _ => cases hx

/-! ## One call -/

theorem Move.Moves.epoch_le (h : mv.Moves s s') : s.el.epoch ≤ s'.el.epoch := by
  cases mv with
  | quiet | renew => exact Nat.le_of_eq (congrArg Prod.fst h).symm
  | raise => exact cmpPair_gt_le h
  | vacate =>
    obtain ⟨_, _, hpair⟩ := h
    exact Nat.le_of_eq (congrArg Prod.fst hpair).symm

/-- Moves compose when at most one of them is not quiet. -/
theorem Move.Moves.join {mv' : Move} {s'' : Seat} (h : mv.Moves s s') (h' : mv'.Moves s' s'')
    (hgroup : s'.group = s.group) (hquiet : mv = .quiet ∨ mv' = .quiet) :
    (mv.join mv').Moves s s'' := by
  rcases hquiet with rfl | rfl
  · have hpair : s'.pair = s.pair := h
    have hepoch : s'.el.epoch = s.el.epoch := congrArg Prod.fst hpair
    have hhost : s'.el.host = s.el.host := congrArg Prod.snd hpair
    cases mv' with
    | quiet | renew => exact Eq.trans h' hpair
    | raise => simpa only [Move.join, Move.Moves, hgroup, hpair] using h'
    | vacate => simpa only [Move.join, Move.Moves, hepoch, hhost] using h'
  · have hpair : s''.pair = s'.pair := h'
    cases mv with
    | quiet | renew => exact Eq.trans hpair h
    | raise | vacate => simpa only [Move.join, Move.Moves, hpair] using h

theorem Rows.seen_mono (h : Rows now inp mv s fx s') (hlt : s'.el.highestSeen < u64Max) :
    s.el.highestSeen ≤ s'.el.highestSeen := by
  induction h with
  | nil s => exact Nat.le_refl _
  | cons hrow hrows _ ih =>
    have hmid := ih hlt
    exact Nat.le_trans (hrow.seen_mono (Nat.lt_of_le_of_lt hmid hlt)) hmid

/-- A chain keeps the invariant, moves the pair as its move says and, in an anchored
group, bids for nothing. -/
theorem Rows.fenced (h : Rows now inp mv s fx s') (hforeign : inp.Foreign s.me)
    (hlt : s'.el.highestSeen < u64Max) (hf : Fenced s) :
    Fenced s' ∧ mv.Moves s s' ∧ (s.el.isExternal = true → ∀ x ∈ fx, x.bids = false) := by
  induction h with
  | nil s => exact ⟨hf, rfl, fun _ _ hx => absurd hx List.not_mem_nil⟩
  | @cons m m' s₁ s₂ s₃ fx₁ fx₂ hrow hrows hquiet ih =>
    have hfixed := hrow.fixed
    have hmid : s₂.el.highestSeen < u64Max := Nat.lt_of_le_of_lt (hrows.seen_mono hlt) hlt
    have hf₂ := hrow.fenced hforeign hmid hf
    have hforeign₂ : inp.Foreign s₂.me := by rwa [Seat.me_eq_of_fixed hfixed]
    obtain ⟨hf₃, hmoves, hbids⟩ := ih hforeign₂ hlt hf₂
    refine ⟨hf₃, (hrow.moves hf).join hmoves (Seat.group_eq_of_fixed hfixed) hquiet, ?_⟩
    intro hext x hx
    rcases List.mem_append.mp hx with hx | hx
    · exact hrow.no_bids hf hext x hx
    · refine hbids ?_ x hx
      rwa [Election.isExternal_eq_of_cfg (Seat.cfg_eq_of_fixed hfixed)]

/-! ## Whole runs -/

/-- An engine of a Hosted group as it is made: new, or restored from what its storage
holds. -/
inductive Booted (hosted : HostedConfig) : GroupEngine → Prop where
  | fresh {group : GroupId} {me : NodeId} {seeds : List NodeId} {config : Config} {e : GroupEngine}
      (hnew : GroupEngine.new group me seeds config = .ok e)
      (hmode : config.mode = .hosted hosted) : Booted hosted e
  | restored {group : GroupId} {me : NodeId} {seeds : List NodeId} {config : Config}
      {e : GroupEngine} (recovered : GroupEngine.RecoveredGrant)
      (hnew : GroupEngine.recovering group me seeds config = .ok e)
      (hmode : config.mode = .hosted hosted) : Booted hosted (e.restore recovered)

/-- The events of other nodes' frames, of time and of the application. -/
def Event.Foreign (me : NodeId) : Event → Prop
  | .message source _ _ => source ≠ me
  | .start _ | .tick _ | .command _ => True

/-- One call in which no epoch observed reaches the last one. -/
def ElectionStep (e e' : GroupEngine) : Prop :=
  ∃ ev : Event, ev.Foreign e.localId ∧ e' = (e.handle ev).1 ∧ e'.observedEpoch < u64Max

theorem Event.Foreign.input {me : NodeId} {ev : Event} (h : ev.Foreign me) :
    (Input.ofEvent ev).Foreign me := by
  intro source body hinp
  cases ev with
  | start now | tick now => cases hinp
  | command cmd => cases hinp
  | message src bytes now =>
    simp only [Input.ofEvent, Input.ofBytes, Input.ofFrame] at hinp
    split at hinp
    · split at hinp
      · cases hinp
        exact h
      · cases hinp
    · cases hinp

theorem fenced_new (me : NodeId) (group : GroupId) (hosted : HostedConfig) :
    Fenced ⟨me, group, false, Election.new hosted⟩ where
  seen := Nat.le_refl _
  host := by simp [Election.new]
  claim := by simp [Election.new]
  bid := by simp [Election.new]
  external := by simp [Election.new]

theorem Booted.fenced {hosted : HostedConfig} {e : GroupEngine} (h : Booted hosted e) :
    ∃ s, e.seat = some s ∧ Fenced s := by
  cases h with
  | fresh hnew hmode => exact ⟨_, GroupEngine.seat_new hnew hmode, fenced_new _ _ _⟩
  | @restored group me seeds config e recovered hnew hmode =>
    refine ⟨_, GroupEngine.seat_modifyElection (GroupEngine.seat_new hnew hmode) _, ?_⟩
    have hf := fenced_new me group hosted
    split
    · exact hf
    split
    · exact { hf with }
    · exact ⟨Nat.zero_le _, hf.host, hf.claim, by simp [Election.new], hf.external⟩

theorem Fenced.handle {e : GroupEngine} (hf : Fenced s) (h : e.seat = some s) {ev : Event}
    (hforeign : ev.Foreign e.localId) (hlt : (e.handle ev).1.observedEpoch < u64Max) :
    ∃ (mv : Move) (s' : Seat), (e.handle ev).1.seat = some s' ∧ Fenced s' ∧ mv.Moves s s' ∧
      s.el.highestSeen ≤ s'.el.highestSeen ∧
      (s.el.isExternal = true → ∀ x ∈ (e.handle ev).2, x.bids = false) := by
  obtain ⟨mv, s', hends⟩ := GroupEngine.handle_runs h ev 0
  rw [GroupEngine.localId_of_seat h] at hforeign
  have hlt' : s'.el.highestSeen < u64Max := by
    simpa [GroupEngine.observedEpoch, GroupEngine.election_of_seat hends.seat] using hlt
  obtain ⟨hf', hmoves, hbids⟩ := hends.rows.fenced hforeign.input hlt' hf
  refine ⟨mv, s', hends.seat, hf', hmoves, hends.rows.seen_mono hlt', ?_⟩
  intro hext x hx
  cases hlead : x.isLead with
  | false => exact Effect.bids_of_plain hlead
  | true => exact hbids hext x (List.mem_filter.mpr ⟨hx, hlead⟩)

theorem reachable_fenced {hosted : HostedConfig} {e : GroupEngine}
    (h : Reachable (Booted hosted) ElectionStep e) : ∃ s, e.seat = some s ∧ Fenced s := by
  refine h.invariant (fun _ => Booted.fenced) ?_
  rintro e e' ⟨s, hseat, hf⟩ ⟨ev, hforeign, rfl, hlt⟩
  obtain ⟨_, s', hseat', hf', _⟩ := hf.handle hseat hforeign hlt
  exact ⟨s', hseat', hf'⟩

/-- The election state invariant, over every run of a Hosted engine. -/
theorem election_state_invariant {hosted : HostedConfig} {e : GroupEngine}
    (h : Reachable (Booted hosted) ElectionStep e) :
    ∃ el, e.election = some el ∧
      el.epoch ≤ el.highestSeen ∧
      (el.role = .host ↔ el.host = some e.localId) ∧
      (el.role = .claimant ↔ el.claim.isSome = true) ∧
      (∀ c, el.claim = some c → el.epoch < c.epoch ∧ c.epoch ≤ el.highestSeen) ∧
      (el.isExternal = true → el.role ≠ .claimant) ∧
      ∀ ev : Event, ev.Foreign e.localId → (e.handle ev).1.observedEpoch < u64Max →
        ∃ el', (e.handle ev).1.election = some el' ∧
          el.epoch ≤ el'.epoch ∧ el.highestSeen ≤ el'.highestSeen ∧
          ((el'.epoch, el'.host) = (el.epoch, el.host) ∨
            cmpPair e.group (el'.epoch, el'.host) (el.epoch, el.host) = .gt ∨
            ((∃ host, el.host = some host) ∧ (el'.epoch, el'.host) = (el.epoch, none))) ∧
          (el.isExternal = true → ∀ x ∈ (e.handle ev).2, x.bids = false) := by
  obtain ⟨s, hseat, hf⟩ := reachable_fenced h
  have hme := GroupEngine.localId_of_seat hseat
  refine ⟨s.el, GroupEngine.election_of_seat hseat, hf.seen, hme ▸ hf.host, hf.claim, hf.bid,
    hf.external, ?_⟩
  intro ev hforeign hlt
  obtain ⟨mv, s', hseat', _, hmoves, hseen, hbids⟩ := hf.handle hseat hforeign hlt
  refine ⟨s'.el, GroupEngine.election_of_seat hseat', hmoves.epoch_le, hseen, ?_, hbids⟩
  rw [GroupEngine.group_of_seat hseat]
  cases mv with
  | quiet | renew => exact Or.inl hmoves
  | raise => exact Or.inr (Or.inl hmoves)
  | vacate =>
    obtain ⟨host, hhost, hpair⟩ := hmoves
    exact Or.inr (Or.inr ⟨⟨host, hhost⟩, hpair⟩)

/-- A lobby that one node has just joined. -/
def newLobby : GroupEngine :=
  (GroupEngine.blank (.ofChar 'g') (.ofChar 'a') []
    { Config.default with mode := .hosted HostedConfig.default }).filed

/-- A state frame on its way. -/
def stateMessage (group : GroupId) (source : NodeId) (epoch : Nat) (host : Option NodeId)
    (now : Time) : Event :=
  .message source
    (Wire.encode { Wire.Frame.bare .leadState group none with
      lead := some (.state epoch host) }) now

/-- The node hears of a first epoch without a host. -/
def lobbyHeard : GroupEngine :=
  ((newLobby.handle (.start 0)).1.handle (stateMessage (.ofChar 'g') (.ofChar 'b') 1 none 5)).1

/-- It claims the second, and hosts it. -/
def lobbyClaimed : GroupEngine := (lobbyHeard.handle (.tick 600)).1

def lobbyHosted : GroupEngine := (lobbyClaimed.handle (.tick 1200)).1

/-- Another node hosts the third. -/
def lobbyLost : Event := stateMessage (.ofChar 'g') (.ofChar 'b') 3 (some (.ofChar 'b')) 1300

theorem lobbyClaimed_reachable :
    Reachable (Booted HostedConfig.default) ElectionStep lobbyClaimed := by
  have hnew : GroupEngine.new (.ofChar 'g') (.ofChar 'a') []
      { Config.default with mode := .hosted HostedConfig.default } = .ok newLobby := rfl
  have hboot : Booted HostedConfig.default newLobby := Booted.fresh hnew rfl
  have hstart : ElectionStep newLobby (newLobby.handle (.start 0)).1 :=
    ⟨.start 0, trivial, rfl, by decide +kernel⟩
  have hother : NodeId.ofChar 'b' ≠ (newLobby.handle (.start 0)).1.localId := by decide +kernel
  have hheard : ElectionStep (newLobby.handle (.start 0)).1 lobbyHeard :=
    ⟨stateMessage (.ofChar 'g') (.ofChar 'b') 1 none 5, hother, rfl, by decide +kernel⟩
  exact (((Reachable.start hboot).next hstart).next hheard).next
    ⟨.tick 600, trivial, rfl, by decide +kernel⟩

theorem election_state_invariant_newLobby :
    (∃ el, lobbyClaimed.election = some el ∧ el.role = .claimant ∧ el.claim.isSome = true ∧
      el.epoch ≤ el.highestSeen) ∧
    ∃ el el', lobbyHosted.election = some el ∧ el.role = .host ∧
      el.host = some lobbyHosted.localId ∧
      (lobbyHosted.handle lobbyLost).1.election = some el' ∧ el'.epoch = 3 ∧ el.epoch ≤ el'.epoch ∧
      el.highestSeen ≤ el'.highestSeen := by
  have hhosted : Reachable (Booted HostedConfig.default) ElectionStep lobbyHosted :=
    lobbyClaimed_reachable.next ⟨.tick 1200, trivial, rfl, by decide +kernel⟩
  obtain ⟨el, hel, hseen, _, hclaim, _⟩ := election_state_invariant lobbyClaimed_reachable
  obtain ⟨el₁, hel₁, _, hhost, _, _, _, hstep⟩ := election_state_invariant hhosted
  have hother : NodeId.ofChar 'b' ≠ lobbyHosted.localId := by decide +kernel
  obtain ⟨el₂, hel₂, hepoch, hhighest, _⟩ := hstep lobbyLost hother (by decide +kernel)
  have hrole : lobbyClaimed.election.any (·.role = .claimant) = true := by decide +kernel
  have hrole₁ : lobbyHosted.election.any (·.role = .host) = true := by decide +kernel
  have hepoch₂ : (lobbyHosted.handle lobbyLost).1.election.any (·.epoch = 3) = true := by
    decide +kernel
  simp only [hel, hel₁, hel₂, Option.any_some, decide_eq_true_eq] at hrole hrole₁ hepoch₂
  exact ⟨⟨el, hel, hrole, hclaim.mp hrole, hseen⟩, el₁, el₂, hel₁, hrole₁, hhost.mp hrole₁, hel₂,
    hepoch₂, hepoch, hhighest⟩

end Groupnet
