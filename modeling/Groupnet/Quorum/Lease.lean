import Groupnet.Quorum.Ledger

/-!
# Promises and rounds

What a row does to the two halves of a seat under a roster.  As a voter the node keeps
its ballot, casts it for a pair it may be cast for, or is freed from it by a resign.
As a candidate it keeps its round, opens one, counts a voter into it, or turns a
majority into a lease that runs from the instant the round was opened.

`Fit` collects what every such seat satisfies by itself, whatever the others do.
-/

namespace Groupnet

open Wire (LeadBody)

variable {f : QuorumState → QuorumState} {epoch : Nat} (el : Election)

def Seat.q (s : Seat) : QuorumState := s.el.quorum.getD ⟨none, Time.max, 0, ∅, ∅, false, none⟩

structure Fit (r : VoterRoster) (leaseMs : Nat) (now : Time) (s : Seat) : Prop where
  cfg : s.el.cfg = ⟨.quorum r, leaseMs⟩
  quorum : s.el.quorum = some s.q
  seen : s.el.highestSeen ≤ u64Max
  adopted : s.el.epoch ≤ s.el.highestSeen
  standing : ∀ epoch, s.standing = some epoch → epoch ≤ s.el.highestSeen
  /-- A node that left runs no round. -/
  left : s.leaving = true → s.el.role = .follower
  /-- No round opens in the future. -/
  round : s.q.roundSentAt ≤ now
  /-- No promise reaches beyond one made now. -/
  promised : s.q.granted.isSome = true → s.q.grantPromiseUntil ≤ satAdd now leaseMs
  /-- Only a node that left resigns. -/
  resigned : ∀ epoch pending, s.q.resigning = some (epoch, pending) →
    s.leaving = true ∧ epoch ≤ s.el.highestSeen

/-- Whether a ballot may be cast for a pair at `now`. -/
def QuorumState.Free (q : QuorumState) (now : Time) (epoch : Nat) (claimant : NodeId) : Prop :=
  q.granted = none ∨ q.granted = some (epoch, claimant) ∨
    ∃ ge gc, q.granted = some (ge, gc) ∧ ge < epoch ∧ (gc = claimant ∨ q.grantPromiseUntil ≤ now)

/-- The quorum state holds a ballot cast for a pair at `now`. -/
structure QuorumState.Cast (q : QuorumState) (promise : Time) (epoch : Nat) (claimant : NodeId) :
    Prop where
  granted : q.granted = some (epoch, claimant)
  bound : q.resigned = false
  promise : q.grantPromiseUntil = promise

/-- What a row does to the voter. -/
inductive Ballot (now : Time) (inp : Input) (s s' : Seat) : Prop where
  | kept (hgranted : s'.q.granted = s.q.granted) (hbound : s'.q.resigned = s.q.resigned)
      (hpromise : s'.q.grantPromiseUntil = s.q.grantPromiseUntil ∨
        s.q.grantPromiseUntil = Time.max ∧
          s'.q.grantPromiseUntil = satAdd now s.el.cfg.leaseMs)
  | cast (epoch : Nat) (claimant : NodeId)
      (hsource : (∃ source, inp = .frame source (.claim epoch claimant)) ∨
        claimant = s.me ∧ s.standing = some epoch)
      (hfree : s.q.Free now epoch claimant)
      (hcast : s'.q.Cast (satAdd now s.el.cfg.leaseMs) epoch claimant)
  | freed (epoch : Nat) (claimant : NodeId) (heard : inp = .frame claimant (.resign epoch claimant))
      (hwas : s.q.granted = some (epoch, claimant)) (hgranted : s'.q.granted = s.q.granted)

inductive Candidacy (r : VoterRoster) (now : Time) (inp : Input) (mv : Move) (s s' : Seat) : Prop
    where
  | kept (hround : s'.q.roundSentAt = s.q.roundSentAt) (htally : s'.q.roundGrants = s.q.roundGrants)
      (hrole : s'.el.role = .follower ∨ s'.el.role = s.el.role ∧ s'.standing = s.standing ∧
        s'.el.leaseUntil = s.el.leaseUntil)
  | claimed (htick : inp = .tick) (hwas : s.standing = none) (hrole : s'.el.role = .claimant)
      (hstand : s'.standing = some (satAdd s.el.highestSeen 1))
      (hseen : s'.el.highestSeen = satAdd s.el.highestSeen 1)
      (hround : s'.q.roundSentAt = now) (htally : ∀ v, v ∉ s'.q.roundGrants)
  | renewed (htick : inp = .tick) (hmv : mv = .renew) (hwas : s.el.role = .host)
      (hrole : s'.el.role = .host)
      (hstand : s'.standing = s.standing) (hlease : s'.el.leaseUntil = s.el.leaseUntil)
      (hround : s'.q.roundSentAt = now) (htally : ∀ v, v ∉ s'.q.roundGrants)
  | counted (epoch : Nat) (v : NodeId) (hvoter : v ∈ r.voters) (hwas : s.standing = some epoch)
      (hsource : (∃ source, inp = .frame source (.grant epoch s.me v)) ∨
        v = s.me ∧ s'.q.Cast (satAdd now s.el.cfg.leaseMs) epoch s.me)
      (hrole : s'.el.role = s.el.role) (hstand : s'.standing = s.standing)
      (hlease : s'.el.leaseUntil = s.el.leaseUntil)
      (hround : s'.q.roundSentAt = s.q.roundSentAt)
      (htally : ∀ w, w ∈ s'.q.roundGrants → w = v ∨ w ∈ s.q.roundGrants)
  | leased (epoch : Nat) (hwas : s.standing = some epoch) (hrole : s'.el.role = .host)
      (hstand : s'.standing = some epoch) (hmaj : r.majority ≤ s.q.roundGrants.size)
      (hround : s'.q.roundSentAt = s.q.roundSentAt) (htally : s'.q.roundGrants = s.q.roundGrants)
      (hlease : s'.el.leaseUntil = satAdd s.q.roundSentAt s.el.cfg.leaseMs ∨
        s.el.role = .host ∧ s'.el.leaseUntil = s.el.leaseUntil)

inductive Ships (now : Time) (inp : Input) (s s' : Seat) : Envelope → Prop where
  | claim (dest : NodeId) (epoch : Nat) (hstand : s'.standing = some epoch) :
      Ships now inp s s' ⟨s.me, dest, .claim epoch s.me⟩
  | grant (epoch : Nat) (claimant : NodeId)
      (heard : ∃ source, inp = .frame source (.claim epoch claimant))
      (hcast : s'.q.Cast (satAdd now s.el.cfg.leaseMs) epoch claimant) :
      Ships now inp s s' ⟨s.me, claimant, .grant epoch claimant s.me⟩
  | floor (epoch ge : Nat) (claimant gc : NodeId)
      (heard : ∃ source, inp = .frame source (.claim epoch claimant))
      (hgranted : s'.q.granted = some (ge, gc)) (hne : ¬(epoch = ge ∧ claimant = gc)) :
      Ships now inp s s' ⟨s.me, claimant, .grant ge gc s.me⟩
  | state (dest : NodeId) (epoch : Nat) (host : Option NodeId)
      (hle : epoch ≤ s'.el.highestSeen ∨ ∃ source body, inp = .frame source body ∧
        body.epoch = epoch) : Ships now inp s s' ⟨s.me, dest, .state epoch host⟩
  | resign (dest : NodeId) (epoch : Nat) (hleft : s'.leaving = true)
      (hle : epoch ≤ s'.el.highestSeen) : Ships now inp s s' ⟨s.me, dest, .resign epoch s.me⟩

variable {now : Time} {inp : Input} {mv : Move} {s s' : Seat} {fx : List Effect}
  {r : VoterRoster} {leaseMs : Nat}

/-! ## Updates of the quorum state -/

theorem Seat.q_eq_of_quorum (h : s'.el.quorum = s.el.quorum) : s'.q = s.q := by
  unfold Seat.q
  rw [h]

theorem Fit.q_of_map (hf : Fit r leaseMs now s) (h : s'.el.quorum = s.el.quorum.map f) :
    s'.q = f s.q := by
  unfold Seat.q
  rw [h, hf.quorum]
  rfl

theorem Fit.voters (hf : Fit r leaseMs now s) : s.el.voters = some r := by
  simp [Election.voters, hf.cfg]

theorem Fit.not_external (hf : Fit r leaseMs now s) : s.el.isExternal = false := by
  simp [Election.isExternal, hf.cfg]

theorem Fit.leaseMs_eq (hf : Fit r leaseMs now s) : s.el.cfg.leaseMs = leaseMs := by
  rw [hf.cfg]

/-- A verdict that is not a refusal casts a ballot that was free. -/
theorem QuorumState.cast_of_verdict (leaseMs : Nat) {q : QuorumState} {v : Verdict} {leaving : Bool}
    {claimant : NodeId} (hv : q.verdict leaving now epoch claimant = v) (hne : v ≠ .refuse) :
    q.Free now epoch claimant ∧
      (q.recorded v leaseMs now epoch claimant).Cast (satAdd now leaseMs) epoch claimant := by
  unfold QuorumState.verdict grantVerdict at hv
  split at hv
  · exact absurd hv.symm hne
  split at hv
  next hnone =>
    split at hv
    · subst hv
      exact ⟨Or.inl hnone, rfl, rfl, rfl⟩
    · exact absurd hv.symm hne
  next ge gc hsome =>
    split at hv
    next hsame =>
      obtain ⟨rfl, rfl⟩ := hsame
      split at hv
      · exact absurd hv.symm hne
      next hbound =>
        subst hv
        exact ⟨Or.inr (Or.inl hsome), hsome, Bool.eq_false_iff.mpr hbound, rfl⟩
    next =>
      split at hv
      · exact absurd hv.symm hne
      next habove =>
        split at hv
        next hfree =>
          subst hv
          exact ⟨Or.inr (Or.inr ⟨ge, gc, hsome, Nat.lt_of_not_le habove, hfree⟩), rfl, rfl, rfl⟩
        next => exact absurd hv.symm hne

/-! ## Seats stay fit -/

theorem Fit.keepQ (hf : Fit r leaseMs now s) (hcfg : s'.el.cfg = s.el.cfg)
    (hq : s'.el.quorum = s.el.quorum) (hleave : s.leaving = true → s'.leaving = true)
    (hmono : s.el.highestSeen ≤ s'.el.highestSeen) (hseen : s'.el.highestSeen ≤ u64Max)
    (hadopted : s'.el.epoch ≤ s'.el.highestSeen)
    (hstanding : ∀ epoch, s'.standing = some epoch → epoch ≤ s'.el.highestSeen)
    (hleft : s'.leaving = true → s'.el.role = .follower) : Fit r leaseMs now s' := by
  have hsame : s'.q = s.q := Seat.q_eq_of_quorum hq
  refine ⟨hcfg.trans hf.cfg, ?_, hseen, hadopted, hstanding, hleft, ?_, ?_, ?_⟩ <;> rw [hsame]
  · exact hq.trans hf.quorum
  · exact hf.round
  · exact hf.promised
  intro epoch pending hres
  obtain ⟨hl, he⟩ := hf.resigned epoch pending hres
  exact ⟨hleave hl, Nat.le_trans he hmono⟩

theorem Fit.withQuorum (hf : Fit r leaseMs now s) (hround : (f s.q).roundSentAt ≤ now)
    (hpromised : (f s.q).granted.isSome = true → (f s.q).grantPromiseUntil ≤ satAdd now leaseMs)
    (hresigned : ∀ epoch pending, (f s.q).resigning = some (epoch, pending) →
      s.leaving = true ∧ epoch ≤ s.el.highestSeen) : Fit r leaseMs now (s.withQuorum f) := by
  have hq : (s.withQuorum f).q = f s.q := hf.q_of_map rfl
  refine ⟨hf.cfg, ?_, hf.seen, hf.adopted, hf.standing, hf.left, ?_, ?_, ?_⟩ <;> rw [hq]
  · simp [hf.quorum]
  · exact hround
  · exact hpromised
  · exact hresigned

/-- An update that touches neither the promise nor the round's instant. -/
theorem Fit.withTally (hf : Fit r leaseMs now s) (hround : (f s.q).roundSentAt = s.q.roundSentAt)
    (hgranted : (f s.q).granted = s.q.granted)
    (hpromise : (f s.q).grantPromiseUntil = s.q.grantPromiseUntil)
    (hresigning : (f s.q).resigning = s.q.resigning) : Fit r leaseMs now (s.withQuorum f) := by
  refine hf.withQuorum ?_ ?_ ?_
  · rw [hround]
    exact hf.round
  · rw [hgranted, hpromise]
    exact hf.promised
  · rw [hresigning]
    exact hf.resigned

theorem Fit.down (hf : Fit r leaseMs now s) {el : Election} {leaving : Bool}
    (hcfg : el.cfg = s.el.cfg) (hq : el.quorum = s.el.quorum)
    (hseen : el.highestSeen = s.el.highestSeen) (hepoch : el.epoch = s.el.epoch)
    (hrole : el.role = .follower) (hleave : s.leaving = true → leaving = true) :
    Fit r leaseMs now { s with leaving := leaving, el := el } := by
  refine hf.keepQ hcfg hq hleave (Nat.le_of_eq hseen.symm) ?_ ?_ ?_ fun _ => hrole
  · exact hseen ▸ hf.seen
  · show el.epoch ≤ el.highestSeen
    rw [hseen, hepoch]
    exact hf.adopted
  · intro epoch hstand
    simp [Seat.standing, hrole] at hstand

@[simp] theorem Election.adopted_quorum (epoch : Nat) (host : Option NodeId) :
    (el.adopted epoch host).quorum = el.quorum := by
  unfold adopted
  split <;> rfl

@[simp] theorem Election.adopted_epoch (epoch : Nat) (host : Option NodeId) :
    (el.adopted epoch host).epoch = epoch := by
  unfold adopted
  split <;> rfl

@[simp] theorem Election.adopted_highestSeen (epoch : Nat) (host : Option NodeId) :
    (el.adopted epoch host).highestSeen = max el.highestSeen epoch := by
  unfold adopted
  split <;> rfl

theorem Fit.adopt (hf : Fit r leaseMs now s) {epoch : Nat} (host : Option NodeId)
    (hle : epoch ≤ u64Max) : Fit r leaseMs now (s.withEl (s.el.adopted epoch host)) := by
  have hk : Keeps s (s.withEl (s.el.adopted epoch host)) := Keeps.adopted epoch host
  refine hf.keepQ (by simp) (by simp) id ?_ ?_ ?_ ?_ ?_ <;>
    simp only [Seat.withEl_el, Seat.withEl_leaving, Election.adopted_highestSeen,
      Election.adopted_epoch]
  · exact Nat.le_max_left _ _
  · exact Nat.max_le.mpr ⟨hf.seen, hle⟩
  · exact Nat.le_max_right _ _
  · intro epoch' hstand
    rcases hk.standing with hnone | hsame
    · rw [hnone] at hstand
      cases hstand
    · exact Nat.le_trans (hf.standing epoch' (hsame ▸ hstand)) (Nat.le_max_left _ _)
  · intro hleft
    have hrole := hf.left hleft
    unfold Election.adopted
    split
    · rfl
    · exact hrole

@[simp] theorem Seat.yield_quorum (s : Seat) (epoch : Nat) (claimant : NodeId) :
    (s.yield epoch claimant).quorum = s.el.quorum := by
  unfold yield
  split <;> rfl

theorem Fit.yield (hf : Fit r leaseMs now s) (epoch : Nat) (claimant : NodeId) :
    Fit r leaseMs now (s.withEl (s.yield epoch claimant)) := by
  unfold Seat.yield
  split
  · exact hf.down rfl rfl rfl rfl rfl id
  · exact hf

/-- A ballot that is cast leaves a fit seat. -/
theorem Fit.recorded (hf : Fit r leaseMs now s) {claimant : NodeId} (f : QuorumState → QuorumState)
    (hround : (f s.q).roundSentAt = s.q.roundSentAt)
    (hresigning : (f s.q).resigning = s.q.resigning)
    (hcast : (f s.q).Cast (satAdd now leaseMs) epoch claimant) :
    Fit r leaseMs now (s.withQuorum f) := by
  refine hf.withQuorum ?_ ?_ ?_
  · rw [hround]
    exact hf.round
  · intro _
    exact Nat.le_of_eq hcast.promise
  · rw [hresigning]
    exact hf.resigned

/-- Every epoch heard is a machine word. -/
def Input.Bounded (inp : Input) : Prop :=
  ∀ source body, inp = .frame source body → body.epoch ≤ u64Max

theorem Fit.about_le (hf : Fit r leaseMs now s) (hb : inp.Bounded) (h : inp.About s epoch) :
    epoch ≤ u64Max := by
  rcases h with ⟨source, body, hinp, rfl⟩ | ⟨hext, _⟩
  · exact hb source body hinp
  · rw [hf.not_external] at hext
    cases hext

theorem Row.fit (h : Row now inp mv s fx s') (hf : Fit r leaseMs now s) (hb : inp.Bounded) :
    Fit r leaseMs now s' := by
  have hms := hf.leaseMs_eq
  cases h with
  | say => exact hf
  | boot =>
    have hguard : Fit r leaseMs now
        (s.withEl { s.el with noClaimBefore := satAdd now s.el.activationWindowMs }) :=
      { hf with }
    refine hguard.withQuorum ?_ ?_ ?_ <;> split
    · exact hf.round
    · exact hf.round
    · exact fun _ => Nat.le_of_eq (congrArg (satAdd now) hms)
    · exact hf.promised
    · exact hf.resigned
    · exact hf.resigned
  | cursor | extend | vacate => exact { hf with }
  | observe heard =>
    refine hf.keepQ rfl rfl id (Nat.le_max_left _ _) ?_ ?_ ?_ hf.left
    · exact Nat.max_le.mpr ⟨hf.seen, hf.about_le hb heard⟩
    · exact Nat.le_trans hf.adopted (Nat.le_max_left _ _)
    · exact fun epoch hstand => Nat.le_trans (hf.standing epoch hstand) (Nat.le_max_left _ _)
  | openClaim htick settleAt hrole hstay hhost hint =>
    have hmono : s.el.highestSeen ≤ satAdd s.el.highestSeen 1 := le_satAdd 1 hf.seen
    refine Fit.withQuorum (s := s.withEl { s.el with
      highestSeen := satAdd s.el.highestSeen 1
      claim := some ⟨satAdd s.el.highestSeen 1, settleAt⟩
      role := .claimant }) (hf.keepQ rfl rfl id hmono (satAdd_le_u64Max _ _)
        (Nat.le_trans hf.adopted hmono) ?_ ?_) (Nat.le_refl _) hf.promised ?_
    · intro epoch hstand
      cases hstand
      exact Nat.le_refl _
    · intro hleft
      rw [Seat.withEl_leaving, hstay] at hleft
      cases hleft
    intro epoch pending hres
    obtain ⟨hl, he⟩ := hf.resigned epoch pending hres
    exact ⟨hl, Nat.le_trans he hmono⟩
  | openRenewal => exact hf.withQuorum (Nat.le_refl _) hf.promised hf.resigned
  | @selfGrant _ q v epoch hq hvoter hv hne hstand =>
    obtain rfl : q = s.q := Option.some.inj (hq.symm.trans hf.quorum)
    have hcast := (QuorumState.cast_of_verdict leaseMs hv hne).2
    rw [hms]
    exact hf.recorded _ (by cases v <;> rfl) (by cases v <;> rfl)
      ⟨hcast.granted, hcast.bound, hcast.promise⟩
  | @vote _ q v source claimant epoch heard hq hvoter hv hne =>
    have hy := hf.yield epoch claimant
    have hyq : (s.withEl (s.yield epoch claimant)).q = s.q :=
      Seat.q_eq_of_quorum (Seat.yield_quorum s epoch claimant)
    obtain rfl : q = s.q := Option.some.inj (hq.symm.trans hf.quorum)
    have hcast := (QuorumState.cast_of_verdict leaseMs hv hne).2
    rw [← hyq] at hcast
    rw [hms]
    exact hy.recorded (fun q => q.recorded v leaseMs now epoch claimant) (by cases v <;> rfl)
      (by cases v <;> rfl) hcast
  | abandon | lapse => exact hf.down rfl rfl rfl rfl rfl id
  | refusal granter =>
    refine hf.withTally ?_ ?_ ?_ ?_ <;>
      · unfold QuorumState.refusedBy
        split <;> rfl
  | count => exact hf.withTally rfl rfl rfl rfl
  | @win _ r' q c hr hq hrole hclaim hmaj =>
    have hstand : s.standing = some c.epoch := by simp [Seat.standing, hrole, hclaim]
    have hle := hf.standing _ hstand
    refine hf.keepQ rfl rfl id (Nat.le_max_left _ _) (Nat.max_le.mpr ⟨hf.seen, ?_⟩)
      (Nat.le_max_right _ _) ?_ ?_
    · exact Nat.le_trans hle hf.seen
    · intro epoch hstand'
      cases hstand'
      exact Nat.le_max_right _ _
    intro hleft
    rw [hf.left hleft] at hrole
    cases hrole
  | settle hset => cases hset.symm.trans hf.voters
  | renew hset => cases (Election.voters_of_closesOnWindow hset).symm.trans hf.voters
  | award hcmd hext | prolong hcmd hext =>
    cases (Election.voters_of_external hext).symm.trans hf.voters
  | adopt heard => exact hf.adopt _ (hf.about_le hb heard)
  | leaveFollower hrole =>
    exact hf.keepQ rfl rfl (fun _ => rfl) (Nat.le_refl _) hf.seen hf.adopted hf.standing
      fun _ => hrole
  | leaveHost => exact hf.down rfl rfl rfl rfl rfl fun _ => rfl
  | @resignClaim _ _ c hr hrole hclaim pending dests =>
    have hstand : s.standing = some c.epoch := by simp [Seat.standing, hrole, hclaim]
    have hd : Fit r leaseMs now { s with leaving := true, el := s.el.abandoned } :=
      hf.down rfl rfl rfl rfl rfl fun _ => rfl
    refine hd.withQuorum hf.round hf.promised ?_
    intro epoch pending' hres
    cases hres
    exact ⟨rfl, hf.standing _ hstand⟩
  | resignHost hr hrole pending dests =>
    have hd : Fit r leaseMs now { s with leaving := true, el := s.el.demoted } :=
      hf.down rfl rfl rfl rfl rfl fun _ => rfl
    refine hd.withQuorum hf.round hf.promised ?_
    intro epoch pending' hres
    cases hres
    exact ⟨rfl, hf.adopted⟩
  | receipted voter epoch host =>
    have hres : ∀ epoch' pending, (s.q.receipted s.me voter epoch host).resigning =
        some (epoch', pending) → ∃ pending', s.q.resigning = some (epoch', pending') := by
      intro epoch' pending h
      unfold QuorumState.receipted at h
      split at h
      next hnone =>
        rw [hnone] at h
        cases h
      next resigned pending' hsome =>
        split at h
        · cases h
          exact ⟨pending', hsome⟩
        · exact ⟨pending, h⟩
    have hkeep : ∀ {α : Type} (g : QuorumState → α), (∀ q x, g { q with resigning := x } = g q) →
        g (s.q.receipted s.me voter epoch host) = g s.q := by
      intro α g hg
      unfold QuorumState.receipted
      split
      · rfl
      split
      · exact hg _ _
      · rfl
    refine hf.withQuorum ?_ ?_ ?_
    · rw [hkeep QuorumState.roundSentAt fun _ _ => rfl]
      exact hf.round
    · rw [hkeep QuorumState.granted fun _ _ => rfl,
        hkeep QuorumState.grantPromiseUntil fun _ _ => rfl]
      exact hf.promised
    intro epoch' pending h
    obtain ⟨pending', h'⟩ := hres epoch' pending h
    exact hf.resigned epoch' pending' h'
  | @release _ source epoch heard =>
    refine hf.withQuorum ?_ ?_ ?_ <;> unfold QuorumState.released <;> split
    · exact hf.round
    · exact hf.round
    · exact fun hsome => Nat.le_trans (Nat.min_le_left _ _) (hf.promised hsome)
    · exact hf.promised
    · exact hf.resigned
    · exact hf.resigned

/-! ## What each row does -/

theorem Row.leaving_mono (h : Row now inp mv s fx s') (hl : s.leaving = true) :
    s'.leaving = true := by
  cases h with
  | leaveFollower | leaveHost | resignClaim | resignHost => rfl
  | _ => exact hl

/-- What a fit node has observed is never forgotten. -/
theorem Row.seen_le (h : Row now inp mv s fx s') (hf : Fit r leaseMs now s) :
    s.el.highestSeen ≤ s'.el.highestSeen := by
  cases h with
  | openClaim => exact le_satAdd 1 hf.seen
  | vote =>
    simp only [Seat.withEl_el, Election.modifyQuorum_highestSeen]
    unfold Seat.yield
    split <;> exact Nat.le_refl _
  | adopt =>
    simp only [Seat.withEl_el, Election.adopted_highestSeen]
    exact Nat.le_max_left _ _
  | observe | win | settle | award => exact Nat.le_max_left _ _
  | _ => exact Nat.le_refl _

theorem Ballot.of_q (hg : s'.q.granted = s.q.granted) (hr : s'.q.resigned = s.q.resigned)
    (hp : s'.q.grantPromiseUntil = s.q.grantPromiseUntil) : Ballot now inp s s' :=
  .kept hg hr (.inl hp)

theorem Row.ballot (h : Row now inp mv s fx s') (hf : Fit r leaseMs now s) :
    Ballot now inp s s' := by
  cases h with
  | boot =>
    have hq : (s.withEl ({ s.el with
        noClaimBefore := satAdd now s.el.activationWindowMs }.quorumStart now)).q =
        if s.q.grantPromiseUntil = Time.max then
          { s.q with grantPromiseUntil := satAdd now s.el.cfg.leaseMs } else s.q :=
      hf.q_of_map (f := fun q => if q.grantPromiseUntil = Time.max then
        { q with grantPromiseUntil := satAdd now s.el.cfg.leaseMs } else q) rfl
    split at hq
    next hmax => exact .kept (by rw [hq]) (by rw [hq]) (.inr ⟨hmax, by rw [hq]⟩)
    next => exact .kept (by rw [hq]) (by rw [hq]) (.inl (by rw [hq]))
  | openClaim | openRenewal | count | resignClaim | resignHost =>
    refine Ballot.of_q ?_ ?_ ?_ <;> rw [hf.q_of_map rfl] <;> rfl
  | @selfGrant _ q v epoch hq hvoter hv hne hstand =>
    obtain rfl : q = s.q := Option.some.inj (hq.symm.trans hf.quorum)
    obtain ⟨hfree, hcast⟩ := QuorumState.cast_of_verdict s.el.cfg.leaseMs hv hne
    refine .cast epoch s.me (.inr ⟨rfl, hstand⟩) hfree ?_
    rw [hf.q_of_map rfl]
    exact ⟨hcast.granted, hcast.bound, hcast.promise⟩
  | @vote _ q v source claimant epoch heard hq hvoter hv hne =>
    obtain rfl : q = s.q := Option.some.inj (hq.symm.trans hf.quorum)
    obtain ⟨hfree, hcast⟩ := QuorumState.cast_of_verdict s.el.cfg.leaseMs hv hne
    refine .cast epoch claimant (.inl ⟨source, heard⟩) hfree ?_
    rw [(hf.yield epoch claimant).q_of_map rfl, Seat.q_eq_of_quorum (s := s)]
    · exact hcast
    · exact Seat.yield_quorum s epoch claimant
  | refusal granter =>
    refine Ballot.of_q ?_ ?_ ?_ <;> rw [hf.q_of_map rfl] <;>
      · unfold QuorumState.refusedBy
        split <;> rfl
  | adopt => refine Ballot.of_q ?_ ?_ ?_ <;> rw [Seat.q_eq_of_quorum (s := s) (by simp)]
  | receipted voter epoch host =>
    refine Ballot.of_q ?_ ?_ ?_ <;> rw [hf.q_of_map rfl] <;>
      · unfold QuorumState.receipted
        split
        · rfl
        · split <;> rfl
  | @release _ source epoch heard =>
    have hq : (s.withQuorum fun q => q.released epoch source now).q =
        s.q.released epoch source now := hf.q_of_map (f := fun q => q.released epoch source now) rfl
    by_cases hpair : s.q.granted = some (epoch, source)
    · rw [show s.q.released epoch source now = _ from if_pos hpair] at hq
      exact .freed epoch source heard hpair (by rw [hq])
    · rw [show s.q.released epoch source now = _ from if_neg hpair] at hq
      exact Ballot.of_q (by rw [hq]) (by rw [hq]) (by rw [hq])
  | _ => exact Ballot.of_q rfl rfl rfl

/-- A row that keeps the round leaves the candidate as it was, or stands it down. -/
theorem Candidacy.of_keeps (hf : Fit r leaseMs now s) (hq : s'.el.quorum = s.el.quorum.map f)
    (hround : (f s.q).roundSentAt = s.q.roundSentAt)
    (htally : (f s.q).roundGrants = s.q.roundGrants)
    (hrole : s'.el.role = .follower ∨ s'.el.role = s.el.role ∧ s'.standing = s.standing ∧
      s'.el.leaseUntil = s.el.leaseUntil) : Candidacy r now inp mv s s' := by
  refine .kept ?_ ?_ hrole <;> rw [hf.q_of_map hq]
  · exact hround
  · exact htally

theorem Row.candidacy (h : Row now inp mv s fx s') (hf : Fit r leaseMs now s) :
    Candidacy r now inp mv s s' := by
  have hmem : ∀ {q : QuorumState} {v w : NodeId}, w ∈ (q.counted v).roundGrants →
      w = v ∨ w ∈ q.roundGrants := by
    intro q v w hw
    simp only [QuorumState.counted, Std.TreeSet.mem_insert, compare_eq_iff_eq] at hw
    exact hw.imp_left Eq.symm
  cases h with
  | boot =>
    refine Candidacy.of_keeps hf (f := fun q => if q.grantPromiseUntil = Time.max then
      { q with grantPromiseUntil := satAdd now s.el.cfg.leaseMs } else q) rfl ?_ ?_
      (.inr ⟨rfl, rfl, rfl⟩)
    · split <;> rfl
    · split <;> rfl
  | openClaim htick settleAt hrole =>
    refine .claimed htick (by simp [Seat.standing, hrole]) rfl rfl rfl ?_ ?_ <;>
      rw [hf.q_of_map (f := fun q => q.opened now) rfl]
    · rfl
    · exact fun v => Std.TreeSet.not_mem_emptyc
  | openRenewal htick hr hrole =>
    refine .renewed htick rfl hrole hrole rfl rfl ?_ ?_ <;>
      rw [hf.q_of_map (f := fun q => q.opened now) rfl]
    · rfl
    · exact fun v => Std.TreeSet.not_mem_emptyc
  | @selfGrant _ q v epoch hq hvoter hv hne hstand =>
    obtain rfl : q = s.q := Option.some.inj (hq.symm.trans hf.quorum)
    have hcast := (QuorumState.cast_of_verdict s.el.cfg.leaseMs hv hne).2
    refine .counted epoch s.me (hvoter.mem hf.voters) hstand (.inr ⟨rfl, ?_⟩) rfl rfl rfl ?_ ?_ <;>
      rw [hf.q_of_map (f := fun q =>
        (q.recorded v s.el.cfg.leaseMs now epoch s.me).counted s.me) rfl]
    · exact ⟨hcast.granted, hcast.bound, hcast.promise⟩
    · cases v <;> rfl
    intro w hw
    have hw := hmem hw
    rwa [QuorumState.recorded_roundGrants] at hw
  | @vote _ q v source claimant epoch heard hq hvoter hv hne =>
    refine Candidacy.of_keeps hf (f := fun q => q.recorded v s.el.cfg.leaseMs now epoch claimant)
      ?_ (by cases v <;> rfl) (QuorumState.recorded_roundGrants ..) ?_
    · exact congrArg (Option.map _) (Seat.yield_quorum s epoch claimant)
    unfold Seat.yield
    split
    · exact .inl rfl
    · exact .inr ⟨rfl, rfl, rfl⟩
  | refusal granter =>
    refine Candidacy.of_keeps hf (f := fun q => q.refusedBy granter) rfl ?_ ?_
      (.inr ⟨rfl, rfl, rfl⟩) <;>
      · unfold QuorumState.refusedBy
        split <;> rfl
  | @count _ r' source granter epoch heard hr hv hstand =>
    cases hr.symm.trans hf.voters
    refine .counted epoch granter hv hstand (.inl ⟨source, heard⟩) rfl rfl rfl ?_ ?_ <;>
      rw [hf.q_of_map (f := fun q => q.counted granter) rfl]
    · rfl
    · exact fun w hw => hmem hw
  | @win _ r' q c hr hq hrole hclaim hmaj =>
    cases hr.symm.trans hf.voters
    obtain rfl : q = s.q := Option.some.inj (hq.symm.trans hf.quorum)
    exact .leased c.epoch (by simp [Seat.standing, hrole, hclaim]) rfl rfl hmaj rfl rfl (.inl rfl)
  | @extend _ r' q hr hq hrole hmaj =>
    cases hr.symm.trans hf.voters
    obtain rfl : q = s.q := Option.some.inj (hq.symm.trans hf.quorum)
    have hstand : s.standing = some s.el.epoch := by simp [Seat.standing, hrole]
    refine .leased s.el.epoch hstand hrole hstand hmaj rfl rfl ?_
    rcases Nat.le_total s.el.leaseUntil (satAdd s.q.roundSentAt s.el.cfg.leaseMs) with hle | hle
    · exact .inl (Nat.max_eq_right hle)
    · exact .inr ⟨hrole, Nat.max_eq_left hle⟩
  | settle hset => cases hset.symm.trans hf.voters
  | renew hset => cases (Election.voters_of_closesOnWindow hset).symm.trans hf.voters
  | award hcmd hext | prolong hcmd hext =>
    cases (Election.voters_of_external hext).symm.trans hf.voters
  | @adopt _ epoch host =>
    have hq : (s.withEl (s.el.adopted epoch host)).q = s.q := Seat.q_eq_of_quorum (by simp)
    refine .kept (by rw [hq]) (by rw [hq]) ?_
    unfold Election.adopted
    split
    · exact .inl rfl
    next hout =>
      have hrole : s.el.role ≠ .host := by
        simp only [Election.outdone, Bool.or_eq_true, decide_eq_true_eq, not_or] at hout
        exact hout.1
      refine .inr ⟨rfl, ?_, rfl⟩
      unfold Seat.standing
      cases hr : s.el.role with
      | follower | claimant => simp
      | host => exact absurd hr hrole
  | abandon | lapse | leaveHost => exact .kept rfl rfl (.inl rfl)
  | resignClaim hr hrole hclaim pending | resignHost hr hrole pending =>
    exact Candidacy.of_keeps hf (f := fun q => { q with resigning := some (_, pending) }) rfl
      rfl rfl (.inl rfl)
  | receipted voter epoch host =>
    refine Candidacy.of_keeps hf (f := fun q => q.receipted s.me voter epoch host) rfl ?_ ?_
      (.inr ⟨rfl, rfl, rfl⟩) <;>
      · unfold QuorumState.receipted
        split
        · rfl
        · split <;> rfl
  | @release _ source epoch heard =>
    refine Candidacy.of_keeps hf (f := fun q => q.released epoch source now) rfl ?_ ?_
      (.inr ⟨rfl, rfl, rfl⟩) <;>
      · unfold QuorumState.released
        split <;> rfl
  | say | cursor | observe | leaveFollower | vacate => exact .kept rfl rfl (.inr ⟨rfl, rfl, rfl⟩)

theorem Ships.resigns (dests : List NodeId) (hleft : s'.leaving = true)
    (hle : epoch ≤ s'.el.highestSeen) :
    ∀ env ∈ envelopes s.me (dests.map fun d => s.lead d (.resign epoch s.me)),
      Ships now inp s s' env := by
  intro env henv
  obtain ⟨x, hx, henv⟩ := List.mem_filterMap.mp henv
  obtain ⟨d, _, rfl⟩ := List.mem_map.mp hx
  cases henv
  exact .resign d epoch hleft hle

theorem Says.ships {x : Effect} (h : Says inp s x) (hf : Fit r leaseMs now s) :
    ∀ env ∈ envelopes s.me [x], Ships now inp s s env := by
  intro env henv
  cases h with
  | teach dest =>
    cases List.mem_singleton.mp henv
    exact .state dest _ _ (.inl hf.adopted)
  | receipt heard =>
    cases List.mem_singleton.mp henv
    exact .state _ _ _ (.inr ⟨_, _, heard, rfl⟩)
  | claim dest hrole hclaim =>
    cases List.mem_singleton.mp henv
    exact .claim dest _ (by simp [Seat.standing, hrole, hclaim])
  | renewal dest hr hrole =>
    cases List.mem_singleton.mp henv
    exact .claim dest _ (by simp [Seat.standing, hrole])
  | @floor source claimant gc epoch ge heard hstay hvoter hother hgranted hle hne =>
    cases List.mem_singleton.mp henv
    refine .floor epoch ge claimant gc ⟨source, heard⟩ ?_ hne
    simpa [Seat.granted, hf.quorum] using hgranted
  | resign dest hq hres =>
    cases List.mem_singleton.mp henv
    obtain rfl := Option.some.inj (hq.symm.trans hf.quorum)
    obtain ⟨hleft, hle⟩ := hf.resigned _ _ hres
    exact .resign dest _ hleft hle
  | prompt => cases henv

theorem Row.ships (h : Row now inp mv s fx s') (hf : Fit r leaseMs now s) :
    ∀ env ∈ envelopes s.me fx, Ships now inp s s' env := by
  cases h with
  | say hsays => exact hsays.ships hf
  | selfGrant =>
    rw [envelopes_persistOf]
    exact fun _ henv => absurd henv List.not_mem_nil
  | @vote _ q v source claimant epoch heard hq hvoter hv hne =>
    rw [envelopes_append, envelopes_persistOf, List.nil_append]
    intro env henv
    cases List.mem_singleton.mp henv
    obtain rfl : q = s.q := Option.some.inj (hq.symm.trans hf.quorum)
    refine .grant epoch claimant ⟨source, heard⟩ ?_
    rw [hf.q_of_map (f := fun q => q.recorded v s.el.cfg.leaseMs now epoch claimant)
      (congrArg (Option.map _) (Seat.yield_quorum s epoch claimant))]
    exact (QuorumState.cast_of_verdict s.el.cfg.leaseMs hv hne).2
  | @resignClaim _ _ c hr hrole hclaim pending dests =>
    exact Ships.resigns dests rfl (hf.standing _ (by simp [Seat.standing, hrole, hclaim]))
  | resignHost hr hrole pending dests => exact Ships.resigns dests rfl hf.adopted
  | _ => exact fun _ henv => absurd henv List.not_mem_nil

/-- What a row does, as far as promises and leases go. -/
structure Deed (r : VoterRoster) (leaseMs : Nat) (now : Time) (inp : Input) (mv : Move) (s : Seat)
    (fx : List Effect) (s' : Seat) : Prop where
  me : s'.me = s.me
  fit : Fit r leaseMs now s'
  leaving : s.leaving = true → s'.leaving = true
  seen : s.el.highestSeen ≤ s'.el.highestSeen
  ballot : Ballot now inp s s'
  candidacy : Candidacy r now inp mv s s'
  ships : ∀ env ∈ envelopes s.me fx, Ships now inp s s' env

theorem Row.deed (h : Row now inp mv s fx s') (hf : Fit r leaseMs now s) (hb : inp.Bounded) :
    Deed r leaseMs now inp mv s fx s' where
  me := Seat.me_eq_of_fixed h.fixed
  fit := h.fit hf hb
  leaving := h.leaving_mono
  seen := h.seen_le hf
  ballot := h.ballot hf
  candidacy := h.candidacy hf
  ships := h.ships hf

/-! ## Renewal rounds -/

/-- A quiet row neither makes a host nor unmakes one. -/
theorem Row.host_iff_of_quiet (h : Row now inp .quiet s fx s') :
    s'.el.role = .host ↔ s.el.role = .host := by
  cases h with
  | openClaim _ _ hrole => simp [hrole]
  | vote =>
    simp only [Seat.withEl_el, Election.modifyQuorum_role]
    unfold Seat.yield
    split
    next hout =>
      have hrole : s.el.role = .claimant := by
        simp only [Seat.outrankedBy, Bool.and_eq_true, decide_eq_true_eq] at hout
        exact hout.1
      simp [Election.abandoned, hrole]
    next => exact Iff.rfl
  | abandon hrole | resignClaim hr hrole => simp [Election.abandoned, hrole]
  | _ => exact Iff.rfl

theorem Rows.host_iff_of_quiet (h : Rows now inp mv s fx s') (hmv : mv = .quiet) :
    s'.el.role = .host ↔ s.el.role = .host := by
  induction h with
  | nil => exact Iff.rfl
  | cons hrow _ _ ih =>
    obtain ⟨rfl, rfl⟩ := Move.join_eq_quiet.mp hmv
    exact (ih rfl).trans hrow.host_iff_of_quiet

theorem Rows.host_of_renew (h : Rows now inp mv s fx s') (hmv : mv = .renew) :
    s.el.role = .host ∧ s'.el.role = .host := by
  induction h with
  | nil => cases hmv
  | @cons m m' s₁ s₂ s₃ fx₁ fx₂ hrow hrows hquiet ih =>
    cases m with
    | quiet =>
      obtain ⟨h₂, h₃⟩ := ih hmv
      exact ⟨hrow.host_iff_of_quiet.mp h₂, h₃⟩
    | renew =>
      obtain rfl : m' = .quiet := hquiet.resolve_left (by decide)
      cases hrow with
      | openRenewal htick hr hrole => exact ⟨hrole, (hrows.host_iff_of_quiet rfl).mpr hrole⟩
    | raise => cases hmv
    | vacate => cases hmv

theorem Row.round_of_renew (h : Row now inp .renew s fx s') (hf : Fit r leaseMs now s) :
    s'.q.roundSentAt = now := by
  cases h with
  | openRenewal =>
    rw [hf.q_of_map (f := fun q => q.opened now) rfl]
    rfl

end Groupnet
