import Mathlib.Data.List.Pairwise
import Groupnet.Anchor.Fleet
import Groupnet.Lib.Run

/-!
# The anchor allocates epochs

Every write that is applied keeps the epoch of the record it replaces and its host, or
claims a higher one.  So the epochs of the register never fall, and each names one host.
A task reports a hostship only off a record the register has held, and an engine becomes
host only on such a report, whatever its clocks read and whatever it hears from others.

Claims saturate at the last epoch, so this is about runs that stay below it.
-/

namespace Groupnet

/-! ## Hosts under an anchor -/

section Rows

variable {now : Time} {inp : Input} {mv : Move} {s s' : Seat} {fx : List Effect}

variable {terms : AnchorTerms} {n : NodeId}

section

variable (h : Row now inp mv s fx s') (hext : s.el.isExternal = true) (hbid : s.el.role ≠ .claimant)

include h hext hbid

/-- A host under an anchor was host before with the same lease, or was just awarded. -/
theorem Row.host_of_external (hhost : s'.el.role = .host) :
    s.el.role = .host ∧ s'.el.epoch = s.el.epoch ∧ s'.el.leaseUntil = s.el.leaseUntil ∨
      inp = .command (.anchorActivated s'.el.epoch s'.el.leaseUntil) := by
  have hvoters := Election.voters_of_external hext
  cases h with
  | openClaim => cases hhost
  | openRenewal _ hr | win hr | extend hr => cases hvoters.symm.trans hr
  | vote =>
    unfold Seat.yield at hhost ⊢
    split at hhost
    · cases hhost
    next hout =>
      rw [if_neg hout]
      exact .inl ⟨hhost, rfl, rfl⟩
  | abandon => cases hhost
  | settle _ hrole => exact absurd hrole hbid
  | renew hset =>
    unfold Election.closesOnWindow at hset
    unfold Election.isExternal at hext
    cases hact : s.el.cfg.activation with
    | external => simp [hact] at hset
    | settle | quorum => simp [hact] at hext
  | award hcmd => exact .inr hcmd
  | @prolong _ epoch leaseUntil hcmd _ _ _ hrole hepoch =>
    subst hepoch
    rcases Nat.le_total s.el.leaseUntil leaseUntil with hle | hle
    · right
      simpa [Nat.max_eq_right hle] using hcmd
    · left
      exact ⟨hrole, rfl, Nat.max_eq_left hle⟩
  | @adopt _ epoch host =>
    unfold Seat.withEl Election.adopted at hhost
    split at hhost
    · cases hhost
    next hout =>
      simp only [Election.outdone, Bool.or_eq_true, decide_eq_true_eq, not_or] at hout
      exact absurd hhost hout.1
  | lapse => cases hhost
  | leaveHost => cases hhost
  | resignClaim => cases hhost
  | resignHost => cases hhost
  | _ => exact .inl ⟨hhost, rfl, rfl⟩

theorem Row.no_bid_of_external : s'.el.role ≠ .claimant := by
  cases h with
  | openClaim _ _ _ _ _ hint => cases hint.symm.trans hext
  | vote =>
    simp only [Seat.withEl_el, Election.modifyQuorum_role]
    unfold Seat.yield
    split
    · exact Role.noConfusion
    · exact hbid
  | adopt =>
    simp only [Seat.withEl_el]
    unfold Election.adopted
    split
    · exact Role.noConfusion
    · exact hbid
  | abandon | win | settle | award | lapse | leaveHost | resignClaim | resignHost =>
    exact Role.noConfusion
  | _ => exact hbid

end

/-- What an engine under an anchor is at every event. -/
structure Anchored (terms : AnchorTerms) (n : NodeId) (s : Seat) : Prop where
  me : s.me = n
  cfg : s.el.cfg = ⟨.external terms.stealMarginMs, terms.ttlMs⟩
  bid : s.el.role ≠ .claimant

theorem Anchored.external (h : Anchored terms n s) : s.el.isExternal = true := by
  simp [Election.isExternal, h.cfg]

theorem Rows.anchored (h : Rows now inp mv s fx s') (ha : Anchored terms n s) :
    Anchored terms n s' := by
  refine h.invariant (P := Anchored terms n) (fun hrow ha => ?_) ha
  exact ⟨(Seat.me_eq_of_fixed hrow.fixed).trans ha.me,
    (Seat.cfg_eq_of_fixed hrow.fixed).trans ha.cfg, hrow.no_bid_of_external ha.external ha.bid⟩

/-- A host after a call was host before with the same lease, or was awarded by it. -/
theorem Rows.host_of_anchored (h : Rows now inp mv s fx s') (ha : Anchored terms n s)
    (hhost : s'.el.role = .host) :
    s.el.role = .host ∧ s'.el.epoch = s.el.epoch ∧ s'.el.leaseUntil = s.el.leaseUntil ∨
      inp = .command (.anchorActivated s'.el.epoch s'.el.leaseUntil) := by
  induction h with
  | nil => exact .inl ⟨hhost, rfl, rfl⟩
  | cons hrow _ _ ih =>
    rcases ih ((Rows.one hrow).anchored ha) hhost with ⟨hwas, hepoch, hlease⟩ | hinp
    · rw [hepoch, hlease]
      exact hrow.host_of_external ha.external ha.bid hwas
    · exact .inr hinp

end Rows

/-! ## Tasks -/

/-- The hold is of a record the register held for this node. -/
def Held.Backed (h : History Write) (n : NodeId) (held : Held) : Prop :=
  ∃ y, h.At held.token y ∧ y.record = ⟨held.epoch, n, held.expiresAtWallMs⟩

def BackedRead (h : History Write) (found : Loaded) : Prop :=
  ∀ record token, found = some (record, token) → ∃ y, h.At token y ∧ y.record = record

/-- A write extends the record it replaces, or claims a higher epoch. -/
structure Write.Follows (h : History Write) (x : Write) : Prop where
  host : x.record.host = x.node
  after : ∀ token, x.pre = .matches token → ∃ y, h.At token y ∧
    (x.claims = true → y.record.epoch < x.record.epoch) ∧
    (x.claims = false → x.record.epoch = y.record.epoch ∧ x.record.host = y.record.host)

/-- A task holds what the register held, and writes for itself. -/
structure Claimant.Backed (h : History Write) (n : NodeId) (c : Claimant) : Prop where
  me : c.me = n
  held : ∀ held, c.held = some held → held.Backed h n
  writing : ∀ x t0 renewing, c.phase = .writing x t0 renewing → x.record.host = n

/-- The register has held a record of this epoch for the node. -/
def Awarded (h : History Write) (n : NodeId) (epoch : Nat) : Prop :=
  ∃ y ∈ h, y.record.epoch = epoch ∧ y.record.host = n

section Tasks

variable {h : History Write} {n : NodeId} {c : Claimant} {ticket : Nat} {answer : Answer}
  {rx : Reaction}

theorem Held.Backed.append {held : Held} (hb : held.Backed h n) (x : Write) :
    held.Backed (h ++ [x]) n := by
  obtain ⟨y, hy, hrecord⟩ := hb
  exact ⟨y, hy.append x, hrecord⟩

theorem BackedRead.append {found : Loaded} (hb : BackedRead h found) (x : Write) :
    BackedRead (h ++ [x]) found := by
  intro record token hfound
  obtain ⟨y, hy, hrecord⟩ := hb record token hfound
  exact ⟨y, hy.append x, hrecord⟩

theorem Write.Follows.append {x : Write} (hx : x.Follows h) (y : Write) : x.Follows (h ++ [y]) where
  host := hx.host
  after := by
    intro token hpre
    obtain ⟨z, hz, hfollows⟩ := hx.after token hpre
    exact ⟨z, hz.append y, hfollows⟩

theorem Claimant.Backed.append (hc : c.Backed h n) (x : Write) : c.Backed (h ++ [x]) n where
  __ := hc
  held := fun held hheld => (hc.held held hheld).append x

theorem Awarded.append {epoch : Nat} (ha : Awarded h n epoch) (x : Write) :
    Awarded (h ++ [x]) n epoch := by
  obtain ⟨y, hy, hrest⟩ := ha
  exact ⟨y, List.mem_append_left _ hy, hrest⟩

theorem backedRead_anchor (h : History Write) : BackedRead h h.anchor := by
  intro record token hfound
  obtain ⟨⟨x, t⟩, hload, heq⟩ := Option.map_eq_some_iff.mp hfound
  cases heq
  exact ⟨x, (History.at_of_load hload).1, rfl⟩

structure Answer.Backed (h : History Write) (c : Claimant) (answer : Answer) : Prop where
  loaded : ∀ found, answer = .loaded found → BackedRead h found
  stored : ∀ token, answer = .stored token →
    ∃ x t0 renewing, c.phase = .writing x t0 renewing ∧ h.At token x

structure Reaction.Backed (h : History Write) (n : NodeId) (rx : Reaction) : Prop where
  task : rx.task.Backed h n
  feed : ∀ epoch leaseUntil, rx.feed = some (.anchorActivated epoch leaseUntil) →
    Awarded h n epoch
  store : ∀ x, rx.store = some x → x.Follows h

theorem observe_ne {found : Loaded} {epoch : Nat} {leaseUntil : Time} :
    (found.map fun l => Claimant.observe l.1) ≠ some (.anchorActivated epoch leaseUntil) := by
  cases found with
  | none => exact nofun
  | some l =>
    intro h
    cases h

/-- A reaction that neither wins nor writes. -/
theorem Reaction.Backed.quiet (hme : rx.task.me = n)
    (hheld : ∀ held, rx.task.held = some held → held.Backed h n)
    (hphase : ∀ x t0 renewing, rx.task.phase ≠ .writing x t0 renewing)
    (hfeed : ∀ epoch leaseUntil, rx.feed ≠ some (.anchorActivated epoch leaseUntil))
    (hstore : rx.store = none) : rx.Backed h n where
  task := ⟨hme, hheld, fun x t0 renewing hx => absurd hx (hphase x t0 renewing)⟩
  feed := fun epoch leaseUntil hf => absurd hf (hfeed epoch leaseUntil)
  store := fun x hx => by
    rw [hstore] at hx
    cases hx

/-- A reaction that issues a write. -/
theorem Claimant.Backed.write (hc : c.Backed h n) {pre : AnchorWriteIf} {record : AnchorRecord}
    {t0 : Time} {renewing : Bool} (hhost : record.host = c.me)
    (hafter : ∀ token, pre = .matches token → ∃ y, h.At token y ∧
      (renewing = false → y.record.epoch < record.epoch) ∧
      (renewing = true → record.epoch = y.record.epoch ∧ record.host = y.record.host)) :
    (c.write ticket pre record t0 renewing).Backed h n where
  task := by
    refine ⟨hc.me, hc.held, ?_⟩
    intro x t0 renewing hx
    cases hx
    exact hhost.trans hc.me
  feed := fun _ _ hf => by cases hf
  store := by
    intro x hx
    cases hx
    refine ⟨hhost, fun token hpre => ?_⟩
    obtain ⟨y, hy, hclaim, hextend⟩ := hafter token hpre
    refine ⟨y, hy, fun hclaims => hclaim ?_, fun hclaims => hextend ?_⟩
    · simpa using hclaims
    · simpa using hclaims

/-- A reaction that wins. -/
theorem Claimant.Backed.won (hc : c.Backed h n) {y : Write} {token : AnchorToken} {t0 : Time}
    (hy : h.At token y) (hhost : y.record.host = n) :
    (c.won y.record.epoch token y.record.expiresAtWallMs t0).Backed h n where
  task := by
    refine ⟨hc.me, ?_, fun _ _ _ hx => by cases hx⟩
    intro held hheld
    cases hheld
    refine ⟨y, hy, ?_⟩
    rw [← hhost]
  feed := by
    intro epoch leaseUntil hf
    cases hf
    exact ⟨y, hy.mem, rfl, hhost⟩
  store := fun _ hx => by cases hx

/-- Every reaction is backed, below the last epoch. -/
theorem Reacts.backed (hr : Reacts c ticket answer rx) (hc : c.Backed h n) (ha : answer.Backed h c)
    (hmax : ∀ x ∈ h, x.record.epoch < u64Max) : rx.Backed h n := by
  have hnone : ∀ held, (none : Option Held) = some held → held.Backed h n := fun _ h => by cases h
  have hquiet : ∀ epoch leaseUntil,
      (none : Option Command) ≠ some (.anchorActivated epoch leaseUntil) :=
    nofun
  cases hr with
  | sample | released | giveUp | lost | unsure =>
    exact .quiet hc.me hc.held (fun _ _ _ => Phase.noConfusion) hquiet rfl
  | notice hphase | drain hphase =>
    refine .quiet hc.me hc.held (fun x t0 renewing => ?_) hquiet rfl
    rw [hphase]
    exact Phase.noConfusion
  | @release _ nowWallMs held hphase hhosting hheld =>
    refine ⟨⟨hc.me, hnone, nofun⟩, nofun, ?_⟩
    intro x hx
    cases hx
    refine ⟨rfl, fun token hpre => ?_⟩
    cases hpre
    obtain ⟨y, hy, hrecord⟩ := hc.held held hheld
    refine ⟨y, hy, fun hclaims => (by cases hclaims), fun _ => ?_⟩
    rw [hrecord]
    exact ⟨rfl, hc.me⟩
  | pause hphase hheld =>
    refine .quiet hc.me ?_ (fun _ _ _ => Phase.noConfusion) hquiet rfl
    rcases hheld with rfl | rfl
    · exact hnone
    · exact hc.held
  | @renew w0 _ _ t0 held hphase hheld hpace =>
    refine hc.write rfl fun token hpre => ?_
    cases hpre
    obtain ⟨y, hy, hrecord⟩ := hc.held held hheld
    refine ⟨y, hy, fun hclaims => (by cases hclaims), fun _ => ?_⟩
    rw [hrecord]
    exact ⟨rfl, hc.me⟩
  | claim | superseded | unread =>
    exact .quiet hc.me hnone (fun _ _ _ => Phase.noConfusion) hquiet rfl
  | yield | learn =>
    exact .quiet hc.me hc.held (fun _ _ _ => Phase.noConfusion) (fun _ _ => observe_ne) rfl
  | create => exact hc.write rfl fun _ hpre => by cases hpre
  | @supersede epochHint t0 w0 current token hphase hentitled =>
    refine hc.write rfl fun token' hpre => ?_
    cases hpre
    obtain ⟨y, hy, hrecord⟩ := ha.loaded _ rfl current token rfl
    refine ⟨y, hy, fun _ => ?_, fun hclaims => by cases hclaims⟩
    have hlt := lt_satAdd_one (hmax y hy.mem)
    rw [hrecord] at hlt ⊢
    exact Nat.lt_of_lt_of_le hlt (Nat.le_max_left _ _)
  | @stored x t0 renewing token hphase =>
    obtain ⟨x', t0', renewing', hphase', hx⟩ := ha.stored token rfl
    rw [hphase] at hphase'
    cases hphase'
    exact hc.won hx (hc.writing x t0 renewing hphase)
  | @applied attempted t0 token hphase hhost =>
    obtain ⟨y, hy, hrecord⟩ := ha.loaded _ rfl attempted token rfl
    have hwon : (c.won y.record.epoch token y.record.expiresAtWallMs t0).Backed h n :=
      hc.won hy (by rw [hrecord, hhost, hc.me])
    rwa [hrecord] at hwon
  | unapplied =>
    exact .quiet hc.me hnone (fun _ _ _ => Phase.noConfusion) (fun _ _ => observe_ne) rfl

end Tasks

/-! ## Nodes -/

/-- A node hosts only an epoch it was fed, and is fed only by a task the register backs. -/
structure Post.Sound (terms : AnchorTerms) (h : History Write) (fed : List (NodeId × Nat))
    (n : NodeId) (p : Post) : Prop where
  seat : ∃ s, p.engine.seat = some s ∧ Anchored terms n s ∧
    (s.el.role = .host → (n, s.el.epoch) ∈ fed)
  inbox : ∀ epoch leaseUntil, .anchorActivated epoch leaseUntil ∈ p.inbox → (n, epoch) ∈ fed
  task : p.task.Backed h n
  reply : ∀ found, p.reply = some found → BackedRead h found

namespace Post.Sound

variable {terms : AnchorTerms} {h : History Write} {fed : List (NodeId × Nat)} {n : NodeId}
  {p : Post}

theorem append (hp : p.Sound terms h fed n) (x : Write) : p.Sound terms (h ++ [x]) fed n where
  __ := hp
  task := hp.task.append x
  reply := fun found hfound => (hp.reply found hfound).append x

theorem mono {fed' : List (NodeId × Nat)} (hp : p.Sound terms h fed n) (hsub : fed ⊆ fed') :
    p.Sound terms h fed' n where
  __ := hp
  seat := by
    obtain ⟨s, hseat, hanchored, hhost⟩ := hp.seat
    exact ⟨s, hseat, hanchored, fun hrole => hsub (hhost hrole)⟩
  inbox := fun epoch leaseUntil hmem => hsub (hp.inbox epoch leaseUntil hmem)

/-- A node that boots has been fed nothing. -/
theorem new {group : GroupId} {seeds : List NodeId} {config : Config} {e : GroupEngine}
    (hnew : GroupEngine.new group n seeds config = .ok e)
    (hmode : config.mode = .hosted ⟨.external terms.stealMarginMs, terms.ttlMs⟩) :
    (Post.new n terms e).Sound terms h fed n where
  seat := ⟨_, GroupEngine.seat_new hnew hmode, ⟨rfl, rfl, nofun⟩, nofun⟩
  inbox := fun _ _ hmem => absurd hmem List.not_mem_nil
  task := ⟨rfl, nofun, nofun⟩
  reply := nofun

/-- The engine hosts nothing that its task did not report. -/
theorem call (hp : p.Sound terms h fed n) (given : Time) (ev : Event)
    (hev : ∀ epoch leaseUntil, ev = .command (.anchorActivated epoch leaseUntil) →
      (n, epoch) ∈ fed) :
    Post.Sound terms h fed n
      { p with engine := (p.engine.handle ev).1, batch := (p.engine.handle ev).2 } where
  __ := hp
  seat := by
    obtain ⟨s, hseat, hanchored, hhost⟩ := hp.seat
    obtain ⟨mv, s', hends⟩ := GroupEngine.handle_runs hseat ev given
    refine ⟨s', hends.seat, hends.rows.anchored hanchored, fun hrole => ?_⟩
    rcases hends.rows.host_of_anchored hanchored hrole with ⟨hwas, hepoch, _⟩ | hinp
    · rw [hepoch]
      exact hhost hwas
    · exact hev s'.el.epoch s'.el.leaseUntil (Input.eq_command_of_ofEvent hinp)

end Post.Sound

/-! ## The register -/

variable {x y : Write} {h : History Write}

/-- Of two records of the register the later has no lower epoch, and a higher one if it
changes the host or claims. -/
def Write.Rises (x y : Write) : Prop :=
  x.record.epoch ≤ y.record.epoch ∧
    (x.record.host ≠ y.record.host ∨ y.claims = true → x.record.epoch < y.record.epoch)

/-- A write rises over the record it replaces. -/
theorem Write.Follows.rises {token : AnchorToken} (hx : x.Follows h) (hpre : x.pre = .matches token)
    (hy : h.At token y) : y.Rises x := by
  obtain ⟨z, hz, hclaim, hextend⟩ := hx.after token hpre
  obtain rfl := hy.unique hz
  cases hclaims : x.claims with
  | true => exact ⟨Nat.le_of_lt (hclaim hclaims), fun _ => hclaim hclaims⟩
  | false =>
    obtain ⟨hepoch, hhost⟩ := hextend hclaims
    refine ⟨hepoch.ge, fun h => ?_⟩
    rcases h with h | h
    · exact absurd hhost.symm h
    · rw [hclaims] at h
      cases h

theorem Write.Rises.trans {z : Write} (hxy : x.Rises y) (hyz : y.Rises z) : x.Rises z := by
  refine ⟨hxy.1.trans hyz.1, fun h => ?_⟩
  by_cases hyz' : y.record.host ≠ z.record.host ∨ z.claims = true
  · exact Nat.lt_of_le_of_lt hxy.1 (hyz.2 hyz')
  rw [not_or, not_not] at hyz'
  refine Nat.lt_of_lt_of_le (hxy.2 (.inl ?_)) hyz.1
  rw [hyz'.1]
  exact h.resolve_right hyz'.2

theorem rises_append (hh : h.Pairwise Write.Rises) (hx : x.Follows h)
    (hpre : h.admits x.pre = true) : (h ++ [x]).Pairwise Write.Rises := by
  cases hcond : x.pre with
  | absent =>
    rw [hcond] at hpre
    rw [History.nil_of_admits hpre]
    exact List.pairwise_singleton ..
  | «matches» token =>
    rw [hcond] at hpre
    obtain ⟨rfl, y, hy⟩ := History.at_of_admits hpre
    refine List.pairwise_append.mpr ⟨hh, List.pairwise_singleton .., fun z hz x' hx' => ?_⟩
    obtain rfl := List.mem_singleton.mp hx'
    have hlast := hx.rises hcond hy
    rcases History.eq_or_rel_newest hh hy hz with rfl | hrises
    · exact hlast
    · exact hrises.trans hlast

theorem one_host_of_rises (hh : h.Pairwise Write.Rises) (hx : x ∈ h) (hy : y ∈ h) :
    x.record.epoch = y.record.epoch → x.record.host = y.record.host := by
  let R : Write → Write → Prop := fun x y =>
    x.record.epoch = y.record.epoch → x.record.host = y.record.host
  have hsymm : Std.Symm R := ⟨fun _ _ hR hepoch => (hR hepoch.symm).symm⟩
  refine List.Pairwise.forall_of_forall (R := R) (fun _ _ _ => rfl) (hh.imp ?_) hx hy
  intro x y hrises hepoch
  by_contra hne
  exact absurd (hrises.2 (.inl hne)) hepoch.not_lt

namespace Fleet

/-- What holds of the nodes and their register. -/
structure Sound (terms : AnchorTerms) (w : Fleet) : Prop where
  post : ∀ n p, w.post n = some p → p.Sound terms w.history w.fed n
  issued : ∀ x ∈ w.issued, x.Follows w.history
  fed : ∀ n epoch, (n, epoch) ∈ w.fed → Awarded w.history n epoch
  hosted : ∀ n epoch, (n, epoch) ∈ w.hosted → (n, epoch) ∈ w.fed
  rises : w.history.Pairwise Write.Rises

namespace Sound

variable {terms : AnchorTerms} {w : Fleet} {n : NodeId} {p : Post}

theorem empty (terms : AnchorTerms) : Fleet.empty.Sound terms where
  post := fun _ _ hup => Option.noConfusion rfl (heq_of_eq hup)
  issued := fun _ hx => absurd hx List.not_mem_nil
  fed := fun _ _ hx => absurd hx List.not_mem_nil
  hosted := fun _ _ hx => absurd hx List.not_mem_nil
  rises := .nil

theorem set (hw : w.Sound terms) (hp : p.Sound terms w.history w.fed n) :
    (w.set n p).Sound terms where
  __ := hw
  post := by
    intro m q hq
    rcases eq_or_ne m n with rfl | hne
    · rw [set_post_self] at hq
      cases hq
      exact hp
    · rw [set_post_of_ne hne] at hq
      exact hw.post m q hq

theorem call (hw : w.Sound terms) (hp : p.Sound terms w.history w.fed n) (given : Time) (ev : Event)
    (hev : ∀ epoch leaseUntil, ev = .command (.anchorActivated epoch leaseUntil) →
      (n, epoch) ∈ w.fed) : (w.call n p ev).Sound terms := by
  have hp' := hp.call given ev hev
  have hset := hw.set hp'
  unfold Fleet.call
  dsimp only
  split
  next hrole =>
    refine ⟨hset.post, hset.issued, hset.fed, ?_, hset.rises⟩
    intro m epoch hmem
    rcases List.mem_cons.mp hmem with heq | hmem
    · cases heq
      obtain ⟨s, hseat, _, hhost⟩ := hp'.seat
      rw [GroupEngine.role_of_seat hseat] at hrole
      rw [GroupEngine.leadership_of_seat hseat]
      exact hhost hrole
    · exact hset.hosted m epoch hmem
  next => exact hset

theorem land (hw : w.Sound terms) (hx : x ∈ w.issued) (hpre : w.history.admits x.pre = true) :
    Sound terms { w with history := w.history ++ [x] } where
  post := fun m q hq => (hw.post m q hq).append x
  issued := fun y hy => (hw.issued y hy).append x
  fed := fun m epoch hmem => (hw.fed m epoch hmem).append x
  hosted := hw.hosted
  rises := rises_append hw.rises (hw.issued x hx) hpre

theorem mem_react_fed {answer : Answer} {rx : Reaction} {kept : Bool} {m : NodeId} {epoch : Nat} :
    (m, epoch) ∈ (w.react n p answer rx kept).fed ↔ (m, epoch) ∈ w.fed ∨
      m = n ∧ ∃ leaseUntil, rx.feed = some (.anchorActivated epoch leaseUntil) := by
  unfold Fleet.react
  dsimp only
  split
  next epoch' leaseUntil hfeed =>
    rw [List.mem_cons, Prod.mk.injEq, or_comm]
    refine or_congr_right (and_congr_right fun _ => ?_)
    constructor
    · rintro rfl
      exact ⟨leaseUntil, hfeed⟩
    rintro ⟨leaseUntil', hfeed'⟩
    cases hfeed.symm.trans hfeed'
    rfl
  next hfeed =>
    refine (or_iff_left ?_).symm
    rintro ⟨_, leaseUntil, h⟩
    exact hfeed _ _ h

theorem react (hw : w.Sound terms) (hmax : ∀ x ∈ w.history, x.record.epoch < u64Max)
    (hup : w.post n = some p) {clock : Clock} {answer : Answer} (hanswer : w.Answers p clock answer)
    {rx : Reaction} (hrx : p.task.react w.issued.length answer = some rx) (kept : Bool) :
    (w.react n p answer rx kept).Sound terms := by
  have hp := hw.post n p hup
  have hback : rx.Backed w.history n := by
    refine (Claimant.reacts hrx).backed hp.task ⟨?_, ?_⟩ hmax
    · rintro found rfl
      exact hp.reply found hanswer
    · rintro token rfl
      exact hanswer
  have hsub : w.fed ⊆ (w.react n p answer rx kept).fed := fun x hx => mem_react_fed.mpr (.inl hx)
  have hfed : ∀ epoch leaseUntil, rx.feed = some (.anchorActivated epoch leaseUntil) →
      (n, epoch) ∈ (w.react n p answer rx kept).fed := fun epoch leaseUntil h =>
    mem_react_fed.mpr (.inr ⟨rfl, leaseUntil, h⟩)
  refine ⟨?_, ?_, ?_, ?_, hw.rises⟩
  · intro m q hq
    rcases eq_or_ne m n with rfl | hne
    · cases (set_post_self ..).symm.trans hq
      refine ⟨(hp.mono hsub).seat, fun epoch leaseUntil hmem => ?_, hback.task, nofun⟩
      split at hmem
      · rcases List.mem_append.mp hmem with hmem | hmem
        · exact hsub (hp.inbox epoch leaseUntil hmem)
        · exact hfed epoch leaseUntil (Option.mem_toList.mp hmem)
      · exact hsub (hp.inbox epoch leaseUntil hmem)
    · exact (hw.post m q ((set_post_of_ne hne).symm.trans hq)).mono hsub
  · intro x hx
    rcases List.mem_append.mp hx with hx | hx
    · exact hw.issued x hx
    · exact hback.store x (Option.mem_toList.mp hx)
  · intro m epoch hmem
    rcases mem_react_fed.mp hmem with hmem | ⟨rfl, leaseUntil, hfeed⟩
    · exact hw.fed m epoch hmem
    · exact hback.feed epoch leaseUntil hfeed
  · exact fun m epoch hmem => hsub (hw.hosted m epoch hmem)

theorem step {group : GroupId} {clock : Clock} {w' : Fleet} (hw : w.Sound terms)
    (hmax : ∀ x ∈ w.history, x.record.epoch < u64Max) (hstep : Step group terms n clock w w') :
    w'.Sound terms := by
  cases hstep with
  | join _ hnew hmode => exact hw.set (.new hnew hmode)
  | drive hup _ _ hev =>
    exact hw.call (hw.post _ _ hup) clock.logical _ fun _ _ h => absurd h (hev _)
  | @take p cmd inbox hup _ hinbox =>
    have hp := hw.post _ _ hup
    have hsub : inbox ⊆ p.inbox := hinbox ▸ List.subset_cons_self ..
    have hrest : Post.Sound terms w.history w.fed n { p with inbox := inbox } :=
      ⟨hp.seat, fun epoch leaseUntil hmem => hp.inbox epoch leaseUntil (hsub hmem), hp.task,
        hp.reply⟩
    refine hw.call hrest clock.logical _ ?_
    rintro epoch leaseUntil hcmd
    cases hcmd
    exact hp.inbox epoch leaseUntil (hinbox ▸ List.mem_cons_self)
  | @dispatch p x batch hup _ =>
    have hp := hw.post _ _ hup
    refine hw.set ?_
    cases x <;> exact { hp with }
  | @submit p cmd hup hcmd =>
    have hp := hw.post _ _ hup
    refine hw.set ⟨hp.seat, fun epoch leaseUntil hmem => ?_, hp.task, hp.reply⟩
    rcases List.mem_append.mp hmem with hmem | hmem
    · exact hp.inbox epoch leaseUntil hmem
    · cases List.mem_singleton.mp hmem
      cases hcmd
  | prompt hup =>
    have hp := hw.post _ _ hup
    exact hw.set { hp with }
  | read hup =>
    have hp := hw.post _ _ hup
    refine hw.set ⟨hp.seat, hp.inbox, hp.task, fun found hfound => ?_⟩
    cases hfound
    exact backedRead_anchor w.history
  | react hup hanswer hrx => exact hw.react hmax hup hanswer hrx _
  | land hx hpre => exact hw.land hx hpre

end Sound

/-- A step of any node at any clock readings, below the last epoch. -/
def Below (group : GroupId) (terms : AnchorTerms) (w w' : Fleet) : Prop :=
  (∀ x ∈ w.history, x.record.epoch < u64Max) ∧ ∃ n clock, Step group terms n clock w w'

/-- In the register epochs never fall, a claim or a change of host raises them, and each
names one host.  A task feeds only epochs the register has held for its node, and no two
nodes ever host under one epoch. -/
theorem anchor_allocates_epochs {group : GroupId} {terms : AnchorTerms} {w : Fleet}
    (h : Reachable (· = Fleet.empty) (Below group terms) w) :
    w.history.Pairwise Write.Rises ∧
      (∀ x ∈ w.history, ∀ y ∈ w.history, x.record.epoch = y.record.epoch →
        x.record.host = y.record.host) ∧
      (∀ n epoch, (n, epoch) ∈ w.fed → Awarded w.history n epoch) ∧
      ∀ a b epoch, (a, epoch) ∈ w.hosted → (b, epoch) ∈ w.hosted → a = b := by
  have hw : w.Sound terms := by
    refine h.invariant (P := Sound terms) ?_ ?_
    · rintro _ rfl
      exact Sound.empty terms
    · rintro w w' hw ⟨hmax, n, clock, hstep⟩
      exact hw.step hmax hstep
  have hone : ∀ x ∈ w.history, ∀ y ∈ w.history, x.record.epoch = y.record.epoch →
      x.record.host = y.record.host := by
    intro x hx y hy
    exact one_host_of_rises hw.rises hx hy
  refine ⟨hw.rises, hone, hw.fed, ?_⟩
  intro a b epoch ha hb
  obtain ⟨x, hx, hxepoch, hxhost⟩ := hw.fed a epoch (hw.hosted a epoch ha)
  obtain ⟨y, hy, hyepoch, hyhost⟩ := hw.fed b epoch (hw.hosted b epoch hb)
  rw [← hxhost, ← hyhost]
  exact hone x hx y hy (hxepoch.trans hyepoch.symm)

/-- A schedule that stays below the last epoch. -/
def performBelow (w : Fleet) (x : NodeId × Clock × Act) : Option Fleet :=
  if w.history.all fun y => decide (y.record.epoch < u64Max) then
    w.perform duoGroup duoConfig duoTerms x.1 x.2.1 x.2.2
  else none

theorem below_of_performBelow {w w' : Fleet} {x : NodeId × Clock × Act}
    (h : w.performBelow x = some w') : Below duoGroup duoTerms w w' := by
  unfold performBelow at h
  split at h
  next hmax =>
    refine ⟨fun y hy => of_decide_eq_true (List.all_eq_true.mp hmax y hy), x.1, x.2.1, ?_⟩
    exact step_of_perform rfl h
  next => cases h

/-- `a` hosts the first epoch, and `b` the second once the record has expired. -/
def duoHandover : List (NodeId × Clock × Act) :=
  (duoClaim 0).map (duoA, ⟨0, 0⟩, ·) ++ (duoClaim 1).map (duoB, ⟨1100, 1100⟩, ·)

theorem anchor_allocates_epochs_duo :
    ∃ w, Reachable (· = Fleet.empty) (Below duoGroup duoTerms) w ∧
      w.hosted = [(duoB, 2), (duoA, 1)] ∧ w.history.Pairwise Write.Rises ∧
      Awarded w.history duoA 1 ∧ Awarded w.history duoB 2 ∧ ∀ n, (n, 2) ∈ w.hosted → n = duoB := by
  have hrun : (duoHandover.foldlM performBelow Fleet.empty).any (fun w =>
      decide (w.hosted = [(duoB, 2), (duoA, 1)]) && decide (w.fed = [(duoB, 2), (duoA, 1)])) =
        true := by
    decide +kernel
  obtain ⟨w, hw, hp⟩ := (Option.any_eq_true _ _).mp hrun
  obtain ⟨hhosted, hfed⟩ := Bool.and_eq_true_iff.mp hp
  have hhosted := of_decide_eq_true hhosted
  have hfed := of_decide_eq_true hfed
  have hreach : Reachable (· = Fleet.empty) (Below duoGroup duoTerms) w := by
    refine Reachable.of_foldlM ?_ (Reachable.start rfl) hw
    exact fun h => below_of_performBelow h
  obtain ⟨hrises, _, hawarded, hone⟩ := anchor_allocates_epochs hreach
  refine ⟨w, hreach, hhosted, hrises, hawarded _ _ ?_, hawarded _ _ ?_, fun n hn => ?_⟩
  · simp [hfed]
  · simp [hfed]
  · refine hone n duoB 2 hn ?_
    simp [hhosted]

end Fleet

end Groupnet
