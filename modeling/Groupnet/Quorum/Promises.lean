import Groupnet.Quorum.Lease

/-!
# Promises outlive the leases made of them

The seats of a group on one clock, with the election frames they shipped.  A claim is
tagged with the round it was sent in, and a grant with the round of the claim it
answers, so that one can say which round a grant that is counted was meant for.

A lease holds while a majority of the roster is bound to it: each of them granted the
host its epoch, did not see it resigned, and promised at least as long as the lease
runs.  `Orderly` is the invariant behind this, and every row of every seat keeps it, as
long as a grant that is counted answers the round it is counted into, or that round is
the one its claim opened.
-/

namespace Groupnet

open Wire (LeadBody)

/-- The round a claim was sent in. -/
structure RoundTag where
  epoch : Nat
  opened : Time
  /-- Whether a host opened it to renew its lease. -/
  renewal : Bool
deriving DecidableEq

/-- An election frame, with the round it was sent in or that it answers. -/
structure Tagged where
  env : Envelope
  tag : RoundTag
deriving DecidableEq

/-- The seats of a group on one clock. -/
structure Chamber where
  now : Time
  seat : NodeId → Option Seat
  /-- When the claim a node stands for was opened. -/
  since : NodeId → Time
  sent : List Tagged

namespace Chamber

/-- The voter is bound to a pair until `stop`.  At the last epoch it is bound for good. -/
def Held (w : Chamber) (v : NodeId) (epoch : Nat) (claimant : NodeId) (stop : Time) : Prop :=
  ∃ s, w.seat v = some s ∧ s.q.granted = some (epoch, claimant) ∧
    (u64Max ≤ epoch ∨ s.q.resigned = false ∧ stop ≤ s.q.grantPromiseUntil)

/-- The voter is bound to a pair until `stop`, unless that has passed. -/
def Secured (w : Chamber) (v : NodeId) (epoch : Nat) (claimant : NodeId) (stop : Time) : Prop :=
  stop ≤ w.now ∨ w.Held v epoch claimant stop

/-- The node opened the round of a tag, and stands for none older. -/
def Traced (w : Chamber) (n : NodeId) (tag : RoundTag) : Prop :=
  tag.opened ≤ w.now ∧ ∃ s, w.seat n = some s ∧ tag.epoch ≤ s.el.highestSeen ∧
    ∀ epoch, s.standing = some epoch →
      tag.epoch ≤ epoch ∧ (tag.epoch ≠ epoch → tag.opened ≤ w.since n)

/-- What is known of a grant in flight. -/
structure Granted (leaseMs : Nat) (w : Chamber) (m : Tagged) (epoch : Nat)
    (claimant granter : NodeId) :
    Prop where
  traced : w.Traced m.env.dest m.tag
  /-- The granter holds the pair, or one at a higher epoch. -/
  above : ∃ s ge gc, w.seat granter = some s ∧ s.q.granted = some (ge, gc) ∧
    (epoch < ge ∨ epoch = ge ∧ claimant = gc)
  seen : ∃ s, w.seat claimant = some s ∧ epoch ≤ s.el.highestSeen
  /-- It secures the round it answers. -/
  answers : m.env.dest = claimant → m.tag.epoch = epoch → ∀ s, w.seat claimant = some s →
    s.standing = some epoch → w.Secured granter epoch claimant (satAdd m.tag.opened leaseMs)
  /-- It secures the round its claim opened. -/
  first : ∀ s, w.seat claimant = some s → s.standing = some epoch →
    w.Secured granter epoch claimant (satAdd (w.since claimant) leaseMs)

/-- What is known of the pair a voter holds. -/
def Promised (leaseMs : Nat) (w : Chamber) (q : QuorumState) (epoch : Nat) (claimant : NodeId) :
    Prop :=
  ∃ s, w.seat claimant = some s ∧ epoch ≤ s.el.highestSeen ∧
    ∀ epoch', s.standing = some epoch' → epoch ≤ epoch' ∧ (epoch = epoch' →
      u64Max ≤ epoch ∨ q.resigned = false ∧ satAdd (w.since claimant) leaseMs ≤ q.grantPromiseUntil)

structure Orderly (r : VoterRoster) (leaseMs : Nat) (w : Chamber) : Prop where
  fit : ∀ n s, w.seat n = some s → s.me = n ∧ Fit r leaseMs w.now s
  since : ∀ n s epoch, w.seat n = some s → s.standing = some epoch → w.since n ≤ s.q.roundSentAt
  bounded : ∀ m ∈ w.sent, m.env.body.epoch ≤ u64Max
  claims : ∀ m ∈ w.sent, ∀ epoch claimant, m.env.body = .claim epoch claimant →
    m.tag.epoch = epoch ∧ w.Traced claimant m.tag
  grants : ∀ m ∈ w.sent, ∀ epoch claimant granter, m.env.body = .grant epoch claimant granter →
    w.Granted leaseMs m epoch claimant granter
  resigns : ∀ m ∈ w.sent, ∀ epoch host, m.env.body = .resign epoch host →
    ∃ s, w.seat host = some s ∧ s.leaving = true
  ledger : ∀ v s epoch claimant, w.seat v = some s → s.q.granted = some (epoch, claimant) →
    w.Promised leaseMs s.q epoch claimant
  /-- Whoever is counted is bound for as long as the round can lease. -/
  tally : ∀ n s epoch, w.seat n = some s → s.standing = some epoch → ∀ v ∈ s.q.roundGrants,
    v ∈ r.voters ∧ w.Secured v epoch n (satAdd s.q.roundSentAt leaseMs)
  /-- A majority is bound to a host for as long as its lease runs. -/
  lease : ∀ n s, w.seat n = some s → s.el.role = .host → s.el.leaseUntil ≤ w.now ∨
    Majority r.voters fun v => w.Held v s.el.epoch n s.el.leaseUntil

/-- A seat after a row, and what it shipped. -/
def act (w : Chamber) (n : NodeId) (s s' : Seat) (new : List Tagged) : Chamber where
  now := w.now
  seat := Function.update w.seat n (some s')
  since := if s.standing = none ∧ s'.standing ≠ none then Function.update w.since n w.now
    else w.since
  sent := w.sent ++ new

/-- One row of one seat, on what it heard. -/
structure Turn (r : VoterRoster) (leaseMs : Nat) (w : Chamber) (n : NodeId) (inp : Input)
    (mv : Move) (tag : RoundTag) (s : Seat) (fx : List Effect) (s' : Seat) (new : List Tagged) :
    Prop where
  up : w.seat n = some s
  deed : Deed r leaseMs w.now inp mv s fx s'
  heard : ∀ source body, inp = .frame source body → ⟨⟨source, n, body⟩, tag⟩ ∈ w.sent
  /-- A grant is for the round it reaches, or that round is the one its claim opened. -/
  timely : ∀ source epoch granter, inp = .frame source (.grant epoch n granter) →
    s.standing = some epoch → s.q.roundSentAt = w.since n ∨ s.q.roundSentAt ≤ tag.opened
  shipped : ∀ m ∈ new, m.env ∈ envelopes n fx
  claims : ∀ m ∈ new, ∀ epoch claimant, m.env.body = .claim epoch claimant →
    m.tag.epoch = epoch ∧ m.tag.opened ≤ w.now
  grants : ∀ m ∈ new, ∀ epoch claimant granter, m.env.body = .grant epoch claimant granter →
    m.tag = tag

variable {r : VoterRoster} {leaseMs : Nat} {w : Chamber} {n : NodeId} {inp : Input} {mv : Move}
  {tag : RoundTag} {s s' : Seat} {fx : List Effect} {new : List Tagged}

@[simp] theorem act_seat_self (w : Chamber) (n : NodeId) (s s' : Seat) (new : List Tagged) :
    (w.act n s s' new).seat n = some s' := Function.update_self ..

theorem act_seat_of_ne {m : NodeId} (h : m ≠ n) : (w.act n s s' new).seat m = w.seat m :=
  Function.update_of_ne h ..

theorem act_since_of_ne {m : NodeId} (h : m ≠ n) : (w.act n s s' new).since m = w.since m := by
  unfold act
  split
  · exact Function.update_of_ne h ..
  · rfl

theorem act_since_of_standing {epoch : Nat} (h : s.standing = some epoch) (m : NodeId) :
    (w.act n s s' new).since m = w.since m := by
  simp [act, h]

theorem act_since_of_claimed {epoch : Nat} (h : s.standing = none) (h' : s'.standing = some epoch) :
    (w.act n s s' new).since n = w.now := by
  simp [act, h, h']

theorem act_seat_cases {m : NodeId} {t : Seat} (h : (w.act n s s' new).seat m = some t) :
    m = n ∧ t = s' ∨ m ≠ n ∧ w.seat m = some t := by
  by_cases hm : m = n
  · subst hm
    rw [act_seat_self] at h
    exact .inl ⟨rfl, (Option.some.inj h).symm⟩
  · rw [act_seat_of_ne hm] at h
    exact .inr ⟨hm, h⟩

end Chamber

/-- A node stands for what it stood for, or has just opened a claim. -/
theorem Deed.stood {r : VoterRoster} {leaseMs : Nat} {now : Time} {inp : Input} {mv : Move}
    {s s' : Seat} {fx : List Effect} {epoch : Nat} (hd : Deed r leaseMs now inp mv s fx s')
    (h : s'.standing = some epoch) :
    s.standing = some epoch ∨ s.standing = none ∧ epoch = satAdd s.el.highestSeen 1 ∧
      s'.q.roundSentAt = now ∧ (∀ v, v ∉ s'.q.roundGrants) ∧ s'.el.role = .claimant := by
  cases hd.candidacy with
  | kept _ _ hrole =>
    rcases hrole with hdown | ⟨_, hsame, _⟩
    · simp [Seat.standing, hdown] at h
    · exact .inl (hsame ▸ h)
  | claimed _ hwas hrole hstand hseen hround htally =>
    exact .inr ⟨hwas, Option.some.inj (h.symm.trans hstand), hround, htally, hrole⟩
  | renewed _ _ _ _ hstand | counted _ _ _ _ _ _ hstand => exact .inl (hstand ▸ h)
  | leased _ hwas _ hstand => exact .inl (hwas.trans (hstand.symm.trans h))

namespace Chamber

variable {r : VoterRoster} {leaseMs : Nat} {w : Chamber} {n : NodeId} {inp : Input} {mv : Move}
  {tag : RoundTag} {s s' : Seat} {fx : List Effect} {new : List Tagged}

/-! ## What a turn leaves -/

namespace Turn

variable (ht : Turn r leaseMs w n inp mv tag s fx s' new)

include ht

/-- A node stands for what it stood for, or it took the turn to open a claim. -/
theorem stood {c : NodeId} {t : Seat} {epoch : Nat} (hc : (w.act n s s' new).seat c = some t)
    (hstand : t.standing = some epoch) :
    (∃ t₀, w.seat c = some t₀ ∧ t₀.standing = some epoch ∧
        (w.act n s s' new).since c = w.since c) ∨
      c = n ∧ epoch = satAdd s.el.highestSeen 1 ∧ (w.act n s s' new).since c = w.now := by
  rcases act_seat_cases hc with ⟨rfl, rfl⟩ | ⟨hne, hc⟩
  · rcases ht.deed.stood hstand with hwas | ⟨hnone, hepoch, _⟩
    · exact .inl ⟨s, ht.up, hwas, act_since_of_standing hwas c⟩
    · exact .inr ⟨rfl, hepoch, act_since_of_claimed hnone hstand⟩
  · exact .inl ⟨t, hc, hstand, act_since_of_ne hne⟩

theorem seen {c : NodeId} {epoch : Nat} (h : ∃ t, w.seat c = some t ∧ epoch ≤ t.el.highestSeen) :
    ∃ t, (w.act n s s' new).seat c = some t ∧ epoch ≤ t.el.highestSeen := by
  obtain ⟨t, hc, hle⟩ := h
  by_cases hcn : c = n
  · subst hcn
    cases hc.symm.trans ht.up
    exact ⟨s', act_seat_self .., Nat.le_trans hle ht.deed.seen⟩
  · exact ⟨t, by rwa [act_seat_of_ne hcn], hle⟩

theorem left {c : NodeId} (h : ∃ t, w.seat c = some t ∧ t.leaving = true) :
    ∃ t, (w.act n s s' new).seat c = some t ∧ t.leaving = true := by
  obtain ⟨t, hc, hleft⟩ := h
  by_cases hcn : c = n
  · subst hcn
    cases hc.symm.trans ht.up
    exact ⟨s', act_seat_self .., ht.deed.leaving hleft⟩
  · exact ⟨t, by rwa [act_seat_of_ne hcn], hleft⟩

theorem above (h : ∃ t ge gc, w.seat v = some t ∧ t.q.granted = some (ge, gc) ∧
      (epoch < ge ∨ epoch = ge ∧ c = gc)) :
    ∃ t ge gc, (w.act n s s' new).seat v = some t ∧ t.q.granted = some (ge, gc) ∧
      (epoch < ge ∨ epoch = ge ∧ c = gc) := by
  obtain ⟨t, ge, gc, hv, hg, habove⟩ := h
  by_cases hvn : v = n
  · subst hvn
    cases hv.symm.trans ht.up
    cases ht.deed.ballot with
    | kept hgranted | freed _ _ _ _ hgranted =>
      exact ⟨s', ge, gc, act_seat_self .., hgranted.trans hg, habove⟩
    | cast epoch' claimant hsource hfree hcast =>
      refine ⟨s', epoch', claimant, act_seat_self .., hcast.granted, ?_⟩
      rcases hfree with hnone | hsame | ⟨ge', gc', hpair, hlt, _⟩
      · rw [hnone] at hg
        cases hg
      · cases hg.symm.trans hsame
        exact habove
      · cases hg.symm.trans hpair
        omega
  · exact ⟨t, ge, gc, by rwa [act_seat_of_ne hvn], hg, habove⟩

theorem fit (hw : Orderly r leaseMs w) (m : NodeId) (t : Seat)
    (h : (w.act n s s' new).seat m = some t) : t.me = m ∧ Fit r leaseMs w.now t := by
  rcases act_seat_cases h with ⟨rfl, rfl⟩ | ⟨_, h⟩
  · exact ⟨ht.deed.me.trans (hw.fit m s ht.up).1, ht.deed.fit⟩
  · exact hw.fit m t h

end Turn

/-- A claim was opened before now. -/
theorem Orderly.since_le (hw : Orderly r leaseMs w) {c : NodeId} {t : Seat} {epoch : Nat}
    (hc : w.seat c = some t) (hstand : t.standing = some epoch) : w.since c ≤ w.now :=
  Nat.le_trans (hw.since c t epoch hc hstand) (hw.fit c t hc).2.round

namespace Turn

variable {epoch : Nat} {m : Tagged} {claimant c v : NodeId}

variable (ht : Turn r leaseMs w n inp mv tag s fx s' new) (hw : Orderly r leaseMs w)

include ht hw

theorem since_le {t : Seat} (hc : (w.act n s s' new).seat c = some t)
    (hstand : t.standing = some epoch) :
    (w.act n s s' new).since c ≤ w.now := by
  rcases ht.stood hc hstand with ⟨t₀, hc₀, hstand₀, hsame⟩ | ⟨_, _, hnow⟩
  · rw [hsame]
    exact hw.since_le hc₀ hstand₀
  · exact Nat.le_of_eq hnow

theorem claim_heard {source : NodeId} (h : inp = .frame source (.claim epoch claimant)) :
    tag.epoch = epoch ∧ w.Traced claimant tag :=
  hw.claims _ (ht.heard _ _ h) _ _ rfl

/-- Whoever a ballot is cast for has bid that epoch, and stands for none below it. -/
theorem source (h : (∃ source, inp = .frame source (.claim epoch claimant)) ∨
      claimant = s.me ∧ s.standing = some epoch) : ∃ t, w.seat claimant = some t ∧
        epoch ≤ t.el.highestSeen ∧
      ∀ epoch', t.standing = some epoch' → epoch ≤ epoch' := by
  rcases h with ⟨source, hinp⟩ | ⟨rfl, hstand⟩
  · obtain ⟨rfl, _, t, hc, hseen, hstands⟩ := ht.claim_heard hw hinp
    exact ⟨t, hc, hseen, fun epoch' h' => (hstands epoch' h').1⟩
  obtain ⟨hme, hfit⟩ := hw.fit n s ht.up
  refine ⟨s, hme ▸ ht.up, hfit.standing epoch hstand, ?_⟩
  intro epoch' hstand'
  exact Nat.le_of_eq (Option.some.inj (hstand.symm.trans hstand'))

theorem traced {tag' : RoundTag} (h : w.Traced c tag') : (w.act n s s' new).Traced c tag' := by
  obtain ⟨hopened, t, hc, hseen, hstands⟩ := h
  obtain ⟨t', hc', hseen'⟩ := ht.seen ⟨t, hc, hseen⟩
  refine ⟨hopened, t', hc', hseen', ?_⟩
  intro epoch hstand
  rcases ht.stood hc' hstand with ⟨t₀, hc₀, hstand₀, hsame⟩ | ⟨rfl, rfl, hnow⟩
  · cases hc₀.symm.trans hc
    rw [hsame]
    exact hstands epoch hstand₀
  cases hc.symm.trans ht.up
  rw [hnow]
  exact ⟨Nat.le_trans hseen (le_satAdd 1 (hw.fit c s hc).2.seen), fun _ => hopened⟩

/-- A voter stays bound to whoever stands for what it granted, and at the last epoch to
anyone. -/
theorem secured {stop : Time}
    (hc : u64Max ≤ epoch ∨ ∃ t, w.seat c = some t ∧ t.standing = some epoch)
    (h : w.Secured v epoch c stop) : (w.act n s s' new).Secured v epoch c stop := by
  rcases h with hpast | ⟨sv, hv, hg, hbound⟩
  · exact .inl hpast
  by_cases hvn : v = n
  · subst hvn
    cases hv.symm.trans ht.up
    obtain ⟨_, hfit⟩ := hw.fit v s hv
    have hpromise := hfit.promised (by rw [hg]; rfl)
    have hms := hfit.leaseMs_eq
    cases ht.deed.ballot with
    | kept hgranted hfree hp =>
      refine .inr ⟨s', act_seat_self .., hgranted.trans hg, hbound.imp_right ?_⟩
      rintro ⟨hb, hstop⟩
      refine ⟨hfree.trans hb, ?_⟩
      rcases hp with hsame | ⟨_, hnow⟩
      · rwa [hsame]
      · rw [hnow, hms]
        exact Nat.le_trans hstop hpromise
    | cast epoch' claimant hsource hfree hcast =>
      obtain ⟨t, ht', hseen, hstands⟩ := ht.source hw hsource
      have hmax : epoch' ≤ u64Max := Nat.le_trans hseen (hw.fit _ _ ht').2.seen
      rcases hfree with hnone | hsame | ⟨ge, gc, hpair, hlt, hwhy⟩
      · rw [hnone] at hg
        cases hg
      · cases hg.symm.trans hsame
        refine .inr ⟨s', act_seat_self .., hcast.granted, hbound.imp_right ?_⟩
        rintro ⟨_, hstop⟩
        refine ⟨hcast.bound, ?_⟩
        rw [hcast.promise, hms]
        exact Nat.le_trans hstop hpromise
      · cases hg.symm.trans hpair
        -- A higher epoch: its claimant is another node, which waited for the promise to end.
        have hnot : ¬u64Max ≤ epoch := fun hle => absurd (Nat.lt_of_lt_of_le hlt hmax) (by omega)
        obtain ⟨t₀, hc₀, hstand₀⟩ := hc.resolve_left hnot
        rcases hwhy with rfl | hended
        · cases hc₀.symm.trans ht'
          exact absurd (hstands epoch hstand₀) (Nat.not_le.mpr hlt)
        · exact .inl (Nat.le_trans (hbound.resolve_left hnot).2 hended)
    | freed epoch' claimant heard hwas hgranted =>
      cases hg.symm.trans hwas
      refine .inr ⟨s', act_seat_self .., hgranted.trans hg, ?_⟩
      rcases hc with hmax | ⟨t₀, hc₀, hstand₀⟩
      · exact .inl hmax
      -- Who resigned has left, and stands for nothing.
      obtain ⟨t, ht', hleft⟩ := hw.resigns _ (ht.heard _ _ heard) _ _ rfl
      cases hc₀.symm.trans ht'
      have hrole := (hw.fit _ _ hc₀).2.left hleft
      simp [Seat.standing, hrole] at hstand₀
  · exact .inr ⟨sv, by rwa [act_seat_of_ne hvn], hg, hbound⟩

/-! ## Every turn keeps order -/

theorem since (m : NodeId) (t : Seat) (epoch : Nat) (hm : (w.act n s s' new).seat m = some t)
    (hstand : t.standing = some epoch) : (w.act n s s' new).since m ≤ t.q.roundSentAt := by
  rcases act_seat_cases hm with ⟨rfl, rfl⟩ | ⟨hne, hm⟩
  · rcases ht.deed.stood hstand with hwas | ⟨hnone, _, hround, _⟩
    · rw [act_since_of_standing hwas]
      have hold := hw.since m s epoch ht.up hwas
      cases ht.deed.candidacy with
      | kept hround | counted _ _ _ _ _ _ _ _ hround | leased _ _ _ _ _ hround => rwa [hround]
      | claimed _ hnone => cases hnone.symm.trans hwas
      | renewed _ _ _ _ _ _ hround =>
        rw [hround]
        exact hw.since_le ht.up hwas
    · rw [act_since_of_claimed hnone hstand, hround]
  · rw [act_since_of_ne hne]
    exact hw.since m t epoch hm hstand

theorem promised {q : QuorumState} (h : w.Promised leaseMs q epoch claimant) :
    (w.act n s s' new).Promised leaseMs q epoch claimant := by
  obtain ⟨t, hc, hseen, hstands⟩ := h
  obtain ⟨t', hc', hseen'⟩ := ht.seen ⟨t, hc, hseen⟩
  refine ⟨t', hc', hseen', ?_⟩
  intro epoch' hstand
  rcases ht.stood hc' hstand with ⟨t₀, hc₀, hstand₀, hsame⟩ | ⟨rfl, rfl, hnow⟩
  · cases hc₀.symm.trans hc
    rw [hsame]
    exact hstands epoch' hstand₀
  cases hc.symm.trans ht.up
  refine ⟨Nat.le_trans hseen (le_satAdd 1 (hw.fit claimant s hc).2.seen), ?_⟩
  -- A new claim is above the pair, except where epochs end.
  rintro rfl
  left
  unfold satAdd at hseen ⊢
  omega

theorem ledger (v : NodeId) (t : Seat) (epoch : Nat) (claimant : NodeId)
    (hv : (w.act n s s' new).seat v = some t) (hg : t.q.granted = some (epoch, claimant)) :
    (w.act n s s' new).Promised leaseMs t.q epoch claimant := by
  rcases act_seat_cases hv with ⟨rfl, rfl⟩ | ⟨_, hv⟩
  · have hms := (hw.fit v s ht.up).2.leaseMs_eq
    cases ht.deed.ballot with
    | kept hgranted hfree hp =>
      rw [hgranted] at hg
      have hpromise := (hw.fit v s ht.up).2.promised (by rw [hg]; rfl)
      obtain ⟨t', hc, hseen, hstands⟩ := ht.promised hw (hw.ledger v s epoch claimant ht.up hg)
      refine ⟨t', hc, hseen, fun epoch' hstand => ⟨(hstands epoch' hstand).1, fun heq => ?_⟩⟩
      refine ((hstands epoch' hstand).2 heq).imp_right ?_
      rintro ⟨hb, hle⟩
      refine ⟨hfree.trans hb, ?_⟩
      rcases hp with hsame | ⟨_, hnow⟩
      · rwa [hsame]
      · rw [hnow, hms]
        exact Nat.le_trans hle hpromise
    | cast epoch' claimant' hsource hfree hcast =>
      cases hg.symm.trans hcast.granted
      obtain ⟨t₀, hc₀, hseen₀, hstands⟩ := ht.source hw hsource
      obtain ⟨t', hc, hseen⟩ := ht.seen ⟨t₀, hc₀, hseen₀⟩
      refine ⟨t', hc, hseen, fun epoch' hstand => ⟨?_, fun _ => .inr ⟨hcast.bound, ?_⟩⟩⟩
      · rcases ht.stood hc hstand with ⟨t₁, hc₁, hstand₁, _⟩ | ⟨rfl, rfl, _⟩
        · cases hc₁.symm.trans hc₀
          exact hstands epoch' hstand₁
        · cases hc₀.symm.trans ht.up
          exact Nat.le_trans hseen₀ (le_satAdd 1 (hw.fit claimant s hc₀).2.seen)
      · rw [hcast.promise, hms]
        exact satAdd_mono_left leaseMs (ht.since_le hw hc hstand)
    | freed epoch' claimant' heard hwas hgranted =>
      rw [hgranted] at hg
      cases hg.symm.trans hwas
      obtain ⟨t₀, hc₀, hseen₀, _⟩ := hw.ledger v s epoch claimant ht.up hg
      obtain ⟨t', hc, hleft⟩ := ht.left (hw.resigns _ (ht.heard _ _ heard) _ _ rfl)
      obtain ⟨t₁, hc₁, hseen⟩ := ht.seen ⟨t₀, hc₀, hseen₀⟩
      cases hc₁.symm.trans hc
      refine ⟨t', hc, hseen, fun epoch' hstand => ?_⟩
      have hrole := (ht.fit hw _ _ hc).2.left hleft
      simp [Seat.standing, hrole] at hstand
  · exact ht.promised hw (hw.ledger v t epoch claimant hv hg)

theorem granted {granter : NodeId} (h : w.Granted leaseMs m epoch claimant granter) :
    (w.act n s s' new).Granted leaseMs m epoch claimant granter := by
  -- Where epochs end a new claim may repeat the epoch of an old one.
  have hlast : u64Max ≤ epoch → ∀ stop, (w.act n s s' new).Secured granter epoch claimant stop := by
    intro hmax stop
    refine ht.secured hw (.inl hmax) (.inr ?_)
    obtain ⟨t, ge, gc, hv, hg, habove⟩ := h.above
    obtain ⟨t₀, hc₀, hge, _⟩ := hw.ledger granter t ge gc hv hg
    have hle : ge ≤ u64Max := Nat.le_trans hge (hw.fit gc t₀ hc₀).2.seen
    obtain ⟨rfl, rfl⟩ : epoch = ge ∧ claimant = gc := habove.resolve_left (by omega)
    exact ⟨t, hv, hg, .inl hmax⟩
  have hreopened : claimant = n → epoch = satAdd s.el.highestSeen 1 → u64Max ≤ epoch := by
    rintro rfl rfl
    obtain ⟨t, hc, hseen⟩ := h.seen
    cases hc.symm.trans ht.up
    unfold satAdd at hseen ⊢
    omega
  refine ⟨ht.traced hw h.traced, ht.above h.above, ht.seen h.seen, ?_, ?_⟩
  · intro hdest htag t hc hstand
    rcases ht.stood hc hstand with ⟨t₀, hc₀, hstand₀, _⟩ | ⟨hcn, hepoch, _⟩
    · exact ht.secured hw (.inr ⟨t₀, hc₀, hstand₀⟩) (h.answers hdest htag t₀ hc₀ hstand₀)
    · exact hlast (hreopened hcn hepoch) _
  · intro t hc hstand
    rcases ht.stood hc hstand with ⟨t₀, hc₀, hstand₀, hsame⟩ | ⟨hcn, hepoch, _⟩
    · rw [hsame]
      exact ht.secured hw (.inr ⟨t₀, hc₀, hstand₀⟩) (h.first t₀ hc₀ hstand₀)
    · exact hlast (hreopened hcn hepoch) _

theorem ships (hm : m ∈ new) : Ships w.now inp s s' m.env :=
  ht.deed.ships m.env ((hw.fit n s ht.up).1.symm ▸ ht.shipped m hm)

theorem granted_new (hm : m ∈ new) {ge : Nat} {gc granter : NodeId}
    (hbody : m.env.body = .grant ge gc granter) :
    (w.act n s s' new).Granted leaseMs m ge gc granter := by
  obtain ⟨hme, hfit⟩ := hw.fit n s ht.up
  have hms := hfit.leaseMs_eq
  have htag := ht.grants m hm _ _ _ hbody
  have hships := ht.ships hw hm
  obtain ⟨env, tag'⟩ := m
  obtain rfl : tag = tag' := htag.symm
  have hself : (w.act n s s' new).seat s.me = some s' := by rw [hme, act_seat_self]
  cases hships with
  | claim | state | resign => cases hbody
  | grant _ _ heard hcast =>
    cases hbody
    obtain ⟨source, heard⟩ := heard
    obtain ⟨rfl, htraced⟩ := ht.claim_heard hw heard
    have hpromise : ∀ opened, opened ≤ w.now →
        (w.act n s s' new).Secured s.me tag.epoch gc (satAdd opened leaseMs) := by
      intro opened hle
      refine .inr ⟨s', hself, hcast.granted, .inr ⟨hcast.bound, ?_⟩⟩
      rw [hcast.promise, hms]
      exact satAdd_mono_left leaseMs hle
    refine ⟨ht.traced hw htraced, ⟨s', _, _, hself, hcast.granted, .inr ⟨rfl, rfl⟩⟩, ?_, ?_, ?_⟩
    · obtain ⟨_, t, hc, hseen, _⟩ := htraced
      exact ht.seen ⟨t, hc, hseen⟩
    · exact fun _ _ t _ _ => hpromise _ htraced.1
    · exact fun t hc hstand => hpromise _ (ht.since_le hw hc hstand)
  | floor epoch _ claimant _ heard hgranted hne =>
    cases hbody
    obtain ⟨source, heard⟩ := heard
    obtain ⟨rfl, htraced⟩ := ht.claim_heard hw heard
    obtain ⟨t, hc, hseen, hstands⟩ := ht.ledger hw s.me s' ge gc hself hgranted
    refine ⟨ht.traced hw htraced, ⟨s', _, _, hself, hgranted, .inr ⟨rfl, rfl⟩⟩, ⟨t, hc, hseen⟩,
      ?_, ?_⟩
    · intro hdest htag
      exact absurd ⟨htag, hdest⟩ hne
    intro t₁ hc₁ hstand
    cases hc₁.symm.trans hc
    exact .inr ⟨s', hself, hgranted, (hstands ge hstand).2 rfl⟩

theorem bounded (hm : m ∈ new) : m.env.body.epoch ≤ u64Max := by
  have hself : (w.act n s s' new).seat s.me = some s' := by
    rw [(hw.fit n s ht.up).1, act_seat_self]
  have hheard : ∀ source body, inp = .frame source body → body.epoch ≤ u64Max :=
    fun _ _ h => hw.bounded _ (ht.heard _ _ h)
  have hfit := ht.deed.fit
  have hships := ht.ships hw hm
  obtain ⟨env, tag'⟩ := m
  cases hships with
  | claim dest epoch hstand => exact Nat.le_trans (hfit.standing epoch hstand) hfit.seen
  | grant epoch claimant heard =>
    obtain ⟨source, heard⟩ := heard
    have hle := hheard source _ heard
    exact hle
  | floor epoch ge claimant gc heard hgranted =>
    obtain ⟨t, hc, hseen, _⟩ := ht.ledger hw s.me s' ge gc hself hgranted
    exact Nat.le_trans hseen (ht.fit hw gc t hc).2.seen
  | state dest epoch host hle =>
    rcases hle with hle | ⟨source, body, heard, rfl⟩
    · exact Nat.le_trans hle hfit.seen
    · have hle := hheard source body heard
      exact hle
  | resign dest epoch hleft hle => exact Nat.le_trans hle hfit.seen

theorem claimed_new (hm : m ∈ new) (hbody : m.env.body = .claim epoch claimant) :
    m.tag.epoch = epoch ∧ (w.act n s s' new).Traced claimant m.tag := by
  obtain ⟨htag, hopened⟩ := ht.claims m hm epoch claimant hbody
  have hme := (hw.fit n s ht.up).1
  have hships := ht.ships hw hm
  obtain ⟨env, tag'⟩ := m
  refine ⟨htag, hopened, ?_⟩
  cases hships with
  | grant | floor | state | resign => cases hbody
  | claim dest _ hstand =>
    cases hbody
    refine ⟨s', by rw [hme, act_seat_self], ?_, ?_⟩
    · rw [htag]
      exact ht.deed.fit.standing epoch hstand
    intro epoch' hstand'
    cases hstand.symm.trans hstand'
    exact ⟨Nat.le_of_eq htag, fun hne => absurd htag hne⟩

theorem resigned_new (hm : m ∈ new) {host : NodeId} (hbody : m.env.body = .resign epoch host) :
    ∃ t, (w.act n s s' new).seat host = some t ∧ t.leaving = true := by
  have hme := (hw.fit n s ht.up).1
  have hships := ht.ships hw hm
  obtain ⟨env, tag'⟩ := m
  cases hships with
  | grant | floor | state | claim => cases hbody
  | resign dest _ hleft =>
    cases hbody
    exact ⟨s', by rw [hme, act_seat_self], hleft⟩

/-- A grant that is counted secures the round it is counted into. -/
theorem counted {source : NodeId} (heard : inp = .frame source (.grant epoch n v))
    (hstand : s.standing = some epoch) :
    w.Secured v epoch n (satAdd s.q.roundSentAt leaseMs) := by
  have hgrant := hw.grants _ (ht.heard _ _ heard) _ _ _ rfl
  have hfirst := hgrant.first s ht.up hstand
  rcases ht.timely _ _ _ heard hstand with hsame | hlate
  · rwa [hsame]
  by_cases htag : tag.epoch = epoch
  · rcases hgrant.answers rfl htag s ht.up hstand with hpast | ⟨t, hv, hg, hbound⟩
    · exact .inl (Nat.le_trans (satAdd_mono_left leaseMs hlate) hpast)
    refine .inr ⟨t, hv, hg, hbound.imp_right ?_⟩
    rintro ⟨hb, hle⟩
    exact ⟨hb, Nat.le_trans (satAdd_mono_left leaseMs hlate) hle⟩
  · -- The claim it answers is older than the one that stands, so no renewal came between.
    obtain ⟨_, t, hn, _, hstands⟩ := hgrant.traced
    cases hn.symm.trans ht.up
    have hopened := (hstands epoch hstand).2 htag
    have hsince := hw.since n s epoch ht.up hstand
    rwa [Nat.le_antisymm (Nat.le_trans hlate hopened) hsince]

theorem tally (m : NodeId) (t : Seat) (epoch : Nat) (hm : (w.act n s s' new).seat m = some t)
    (hstand : t.standing = some epoch) (v : NodeId) (hv : v ∈ t.q.roundGrants) :
    v ∈ r.voters ∧ (w.act n s s' new).Secured v epoch m (satAdd t.q.roundSentAt leaseMs) := by
  rcases act_seat_cases hm with ⟨rfl, rfl⟩ | ⟨_, hm⟩
  · obtain ⟨hme, hfit⟩ := hw.fit m s ht.up
    rcases ht.deed.stood hstand with hwas | ⟨_, _, _, hempty, _⟩
    · have hstill : u64Max ≤ epoch ∨ ∃ t, w.seat m = some t ∧ t.standing = some epoch :=
        .inr ⟨s, ht.up, hwas⟩
      have hold : ∀ v ∈ s.q.roundGrants, v ∈ r.voters ∧
          (w.act m s t new).Secured v epoch m (satAdd s.q.roundSentAt leaseMs) := fun v hv =>
        (hw.tally m s epoch ht.up hwas v hv).imp_right (ht.secured hw hstill)
      cases ht.deed.candidacy with
      | kept hround htally | leased _ _ _ _ _ hround htally =>
        rw [hround]
        exact hold v (htally ▸ hv)
      | claimed _ hnone => cases hnone.symm.trans hwas
      | renewed _ _ _ _ _ _ _ hempty => exact absurd hv (hempty v)
      | counted epoch' v' hvoter hwas' hsource _ _ _ hround htally =>
        cases hwas.symm.trans hwas'
        rw [hround]
        rcases htally v hv with rfl | hin
        · refine ⟨hvoter, ?_⟩
          rcases hsource with ⟨source, heard⟩ | ⟨rfl, hcast⟩
          · rw [hme] at heard
            exact ht.secured hw hstill (ht.counted hw heard hwas)
          refine .inr ⟨t, by rw [hme, act_seat_self], by rw [hcast.granted, hme],
            .inr ⟨hcast.bound, ?_⟩⟩
          rw [hcast.promise, hfit.leaseMs_eq]
          exact satAdd_mono_left leaseMs hfit.round
        · exact hold v hin
    · exact absurd hv (hempty v)
  · obtain ⟨hvoter, hsec⟩ := hw.tally m t epoch hm hstand v hv
    exact ⟨hvoter, ht.secured hw (.inr ⟨t, hm, hstand⟩) hsec⟩

/-- A lease that runs on is still backed. -/
theorem leased {m : NodeId} {t : Seat} (hm : w.seat m = some t) (hrole : t.el.role = .host) :
    t.el.leaseUntil ≤ w.now ∨
      Majority r.voters fun v => (w.act n s s' new).Held v t.el.epoch m t.el.leaseUntil := by
  rcases hw.lease m t hm hrole with hpast | hmaj
  · exact .inl hpast
  by_cases hlive : t.el.leaseUntil ≤ w.now
  · exact .inl hlive
  refine .inr (hmaj.mono fun v _ hheld => ?_)
  have hstand : t.standing = some t.el.epoch := by simp [Seat.standing, hrole]
  exact (ht.secured hw (.inr ⟨t, hm, hstand⟩) (.inr hheld)).resolve_left hlive

theorem lease (m : NodeId) (t : Seat) (hm : (w.act n s s' new).seat m = some t)
    (hrole : t.el.role = .host) :
    t.el.leaseUntil ≤ w.now ∨
      Majority r.voters fun v => (w.act n s s' new).Held v t.el.epoch m t.el.leaseUntil := by
  have hself := hm
  rcases act_seat_cases hm with ⟨rfl, rfl⟩ | ⟨_, hm⟩
  · have hstand : t.standing = some t.el.epoch := by simp [Seat.standing, hrole]
    have hsame : ∀ {role}, s.el.role = role → t.el.role = role → t.standing = s.standing →
        t.el.leaseUntil = s.el.leaseUntil → t.el.leaseUntil ≤ w.now ∨
          Majority r.voters fun v => (w.act m s t new).Held v t.el.epoch m t.el.leaseUntil := by
      rintro role hwas rfl hstands hlease
      have hhost : s.el.role = .host := hwas.trans hrole
      have hepoch : s.el.epoch = t.el.epoch := by
        have hstand₀ : s.standing = some s.el.epoch := by simp [Seat.standing, hhost]
        exact Option.some.inj (hstand₀.symm.trans (hstands.symm.trans hstand))
      rw [← hepoch, hlease]
      exact ht.leased hw ht.up hhost
    cases ht.deed.candidacy with
    | kept _ _ hkept =>
      rcases hkept with hdown | ⟨hwas, hstands, hlease⟩
      · cases hdown.symm.trans hrole
      · exact hsame rfl hwas hstands hlease
    | claimed _ _ hclaimant => cases hclaimant.symm.trans hrole
    | renewed _ _ hwas _ hstands hlease => exact hsame hwas hrole hstands hlease
    | counted _ _ _ _ _ hwas hstands hlease => exact hsame rfl hwas hstands hlease
    | leased epoch hwas _ hstand' hmaj hround htally hlease =>
      cases hstand.symm.trans hstand'
      rcases hlease with hlease | ⟨hhost, hlease⟩
      · by_cases hlive : t.el.leaseUntil ≤ w.now
        · exact .inl hlive
        refine .inr (Majority.of_tally (htally ▸ hmaj) fun v hv => ?_)
        obtain ⟨hvoter, hsec⟩ := ht.tally hw m t t.el.epoch hself hstand v (htally.symm ▸ hv)
        rw [hround, ← (hw.fit m s ht.up).2.leaseMs_eq, ← hlease] at hsec
        exact ⟨hvoter, hsec.resolve_left hlive⟩
      · exact hsame hhost hrole (hstand'.trans hwas.symm) hlease
  · exact ht.leased hw hm hrole

end Turn

theorem Orderly.turn (hw : Orderly r leaseMs w) (ht : Turn r leaseMs w n inp mv tag s fx s' new) :
    Orderly r leaseMs (w.act n s s' new) where
  fit := ht.fit hw
  since := ht.since hw
  bounded := by
    intro m hm
    rcases List.mem_append.mp hm with hm | hm
    · exact hw.bounded m hm
    · exact ht.bounded hw hm
  claims := by
    intro m hm epoch claimant hbody
    rcases List.mem_append.mp hm with hm | hm
    · exact (hw.claims m hm epoch claimant hbody).imp_right (ht.traced hw)
    · exact ht.claimed_new hw hm hbody
  grants := by
    intro m hm epoch claimant granter hbody
    rcases List.mem_append.mp hm with hm | hm
    · exact ht.granted hw (hw.grants m hm epoch claimant granter hbody)
    · exact ht.granted_new hw hm hbody
  resigns := by
    intro m hm epoch host hbody
    rcases List.mem_append.mp hm with hm | hm
    · exact ht.left (hw.resigns m hm epoch host hbody)
    · exact ht.resigned_new hw hm hbody
  ledger := ht.ledger hw
  tally := ht.tally hw
  lease := ht.lease hw

/-- Two leases never run at once. -/
theorem Orderly.exclusive (hw : Orderly r leaseMs w) {a b : NodeId} {sa sb : Seat}
    (ha : w.seat a = some sa) (hhosta : sa.el.role = .host) (hlivea : w.now < sa.el.leaseUntil)
    (hb : w.seat b = some sb) (hhostb : sb.el.role = .host) (hliveb : w.now < sb.el.leaseUntil) :
    a = b := by
  have hma := (hw.lease a sa ha hhosta).resolve_left (Nat.not_le.mpr hlivea)
  have hmb := (hw.lease b sb hb hhostb).resolve_left (Nat.not_le.mpr hliveb)
  obtain ⟨v, _, ⟨s₁, h₁, hg₁, _⟩, ⟨s₂, h₂, hg₂, _⟩⟩ := Majority.meet r.nodup hma hmb
  cases h₁.symm.trans h₂
  exact congrArg Prod.snd (Option.some.inj (hg₁.symm.trans hg₂))

/-! ## Whole calls -/

/-- The round a node runs is the one its claim opened, or its last renewal. -/
def Linked (renewed : Option Time) (since : Time) (s : Seat) : Prop :=
  ∀ epoch, s.standing = some epoch → s.q.roundSentAt = since ∨ renewed = some s.q.roundSentAt

theorem Turn.linked (ht : Turn r leaseMs w n inp mv tag s fx s' new) (hw : Orderly r leaseMs w)
    (hrow : Row w.now inp mv s fx s') {renewed : Option Time} (h : Linked renewed (w.since n) s) :
    Linked (if mv = .renew then some w.now else renewed) ((w.act n s s' new).since n) s' := by
  intro epoch hstand
  by_cases hmv : mv = .renew
  · subst hmv
    rw [if_pos rfl, hrow.round_of_renew (hw.fit n s ht.up).2]
    exact .inr rfl
  rw [if_neg hmv]
  rcases ht.deed.stood hstand with hwas | ⟨hnone, _, hround, _⟩
  · rw [act_since_of_standing hwas]
    cases ht.deed.candidacy with
    | claimed _ hnone => cases hnone.symm.trans hwas
    | renewed _ hmv' => exact absurd hmv' hmv
    | kept hround | counted _ _ _ _ _ _ _ _ hround | leased _ _ _ _ _ hround =>
      rw [hround]
      exact h epoch hwas
  · rw [act_since_of_claimed hnone hstand]
    exact .inl hround

/-- A frame opens no round, so a grant that comes in time is in time at every row. -/
theorem Turn.timely_next (ht : Turn r leaseMs w n inp mv tag s fx s' new) {source granter : NodeId}
    {epoch : Nat} (heard : inp = .frame source (.grant epoch n granter))
    (hstand : s'.standing = some epoch) :
    s'.q.roundSentAt = (w.act n s s' new).since n ∨ s'.q.roundSentAt ≤ tag.opened := by
  have hframe : inp ≠ .tick := by
    rw [heard]
    exact Input.noConfusion
  cases ht.deed.candidacy with
  | claimed htick | renewed htick => exact absurd htick hframe
  | kept hround _ hrole =>
    rcases hrole with hdown | ⟨_, hsame, _⟩
    · simp [Seat.standing, hdown] at hstand
    have hwas : s.standing = some epoch := hsame ▸ hstand
    rw [act_since_of_standing hwas, hround]
    exact ht.timely _ _ _ heard hwas
  | counted _ _ _ _ _ _ hsame _ hround =>
    have hwas : s.standing = some epoch := hsame ▸ hstand
    rw [act_since_of_standing hwas, hround]
    exact ht.timely _ _ _ heard hwas
  | leased epoch' hwas' _ hsame _ hround =>
    have hwas : s.standing = some epoch := hwas'.trans (hsame.symm.trans hstand)
    rw [act_since_of_standing hwas, hround]
    exact ht.timely _ _ _ heard hwas

/-- A seat after the rows of a call, and what they shipped. -/
def after (w : Chamber) (n : NodeId) (s' : Seat) (since : NodeId → Time) (new : List Tagged) :
    Chamber where
  now := w.now
  seat := Function.update w.seat n (some s')
  since := since
  sent := w.sent ++ new

@[simp] theorem after_seat_self (w : Chamber) (n : NodeId) (s' : Seat) (since : NodeId → Time)
    (new : List Tagged) : (w.after n s' since new).seat n = some s' := Function.update_self ..

theorem after_seat_of_ne {m : NodeId} (h : m ≠ n) (since : NodeId → Time) :
    (w.after n s' since new).seat m = w.seat m :=
  Function.update_of_ne h ..

theorem Orderly.run (hrows : Rows w.now inp mv s fx s') (hw : Orderly r leaseMs w)
    (hup : w.seat n = some s)
    (heard : ∀ source body, inp = .frame source body → ⟨⟨source, n, body⟩, tag⟩ ∈ w.sent)
    (timely : ∀ source epoch granter, inp = .frame source (.grant epoch n granter) →
      s.standing = some epoch → s.q.roundSentAt = w.since n ∨ s.q.roundSentAt ≤ tag.opened)
    (stamp : Envelope → RoundTag)
    (hclaims : ∀ env epoch claimant, env.body = .claim epoch claimant →
      (stamp env).epoch = epoch ∧ (stamp env).opened ≤ w.now)
    (hgrants : ∀ env epoch claimant granter, env.body = .grant epoch claimant granter →
      stamp env = tag)
    {renewed : Option Time} (hlink : Linked renewed (w.since n) s) :
    ∃ since, Orderly r leaseMs
        (w.after n s' since ((envelopes n fx).map fun env => ⟨env, stamp env⟩)) ∧
      (∀ m, m ≠ n → since m = w.since m) ∧ (since n = w.since n ∨ since n = w.now) ∧
      Linked (if mv = .renew then some w.now else renewed) (since n) s' := by
  generalize hnow : w.now = now at hrows
  induction hrows generalizing w renewed with
  | nil s =>
    refine ⟨w.since, ?_, fun _ _ => rfl, .inl rfl, hlink⟩
    have hsame : w.after n s w.since [] = w := by
      unfold after
      rw [← hup, Function.update_eq_self, List.append_nil]
    exact hsame.symm ▸ hw
  | @cons m m' s₁ s₂ s₃ fx₁ fx₂ hrow hrows hquiet ih =>
    subst hnow
    have hbounded : inp.Bounded := fun source body h => hw.bounded _ (heard source body h)
    have ht : Turn r leaseMs w n inp m tag s₁ fx₁ s₂
        ((envelopes n fx₁).map fun env => ⟨env, stamp env⟩) := by
      refine ⟨hup, hrow.deed (hw.fit n s₁ hup).2 hbounded, heard, timely, ?_, ?_, ?_⟩
      · intro x hx
        obtain ⟨env, henv, rfl⟩ := List.mem_map.mp hx
        exact henv
      · intro x hx
        obtain ⟨env, _, rfl⟩ := List.mem_map.mp hx
        exact hclaims env
      intro x hx
      obtain ⟨env, _, rfl⟩ := List.mem_map.mp hx
      exact hgrants env
    obtain ⟨since, hord, hothers, hself, hlinked⟩ := ih (hw.turn ht) (act_seat_self ..)
      (fun source body h => List.mem_append_left _ (heard source body h))
      (fun source epoch granter h hstand => ht.timely_next h hstand) hclaims
      (ht.linked hw hrow hlink) rfl
    refine ⟨since, ?_, ?_, ?_, ?_⟩
    · have hsame : (w.act n s₁ s₂ ((envelopes n fx₁).map fun env => ⟨env, stamp env⟩)).after n s₃
          since ((envelopes n fx₂).map fun env => ⟨env, stamp env⟩) = w.after n s₃ since
            ((envelopes n (fx₁ ++ fx₂)).map fun env => ⟨env, stamp env⟩) := by
        simp [after, act, envelopes_append]
      exact hsame ▸ hord
    · intro k hk
      rw [hothers k hk, act_since_of_ne hk]
    · rcases hself with hself | hself
      · rw [hself]
        unfold act
        split
        · exact .inr (Function.update_self ..)
        · exact .inl rfl
      · exact .inr hself
    · intro epoch hstand
      have hl := hlinked epoch hstand
      refine hl.imp_right fun hsome => ?_
      rw [← hsome]
      cases m with
      | quiet => rfl
      | renew | raise | vacate =>
        obtain rfl : m' = .quiet := hquiet.resolve_left (by decide)
        rfl

/-! ## Time and new nodes -/

theorem Secured.pass {v c : NodeId} {epoch : Nat} {stop t : Time} (h : w.Secured v epoch c stop)
    (hle : w.now ≤ t) : ({ w with now := t } : Chamber).Secured v epoch c stop :=
  h.imp_left fun hpast => Nat.le_trans hpast hle

theorem Orderly.pass (hw : Orderly r leaseMs w) {t : Time} (hle : w.now ≤ t) :
    Orderly r leaseMs { w with now := t } where
  __ := hw
  fit := by
    intro n s hn
    obtain ⟨hme, hf⟩ := hw.fit n s hn
    refine ⟨hme, { hf with round := Nat.le_trans hf.round hle, promised := fun hg => ?_ }⟩
    exact Nat.le_trans (hf.promised hg) (satAdd_mono_left leaseMs hle)
  claims := by
    intro m hm epoch claimant hbody
    obtain ⟨htag, hopened, htraced⟩ := hw.claims m hm epoch claimant hbody
    exact ⟨htag, Nat.le_trans hopened hle, htraced⟩
  grants := by
    intro m hm epoch claimant granter hbody
    have hg := hw.grants m hm epoch claimant granter hbody
    exact ⟨⟨Nat.le_trans hg.traced.1 hle, hg.traced.2⟩, hg.above, hg.seen,
      fun hdest htag s hs hstand => (hg.answers hdest htag s hs hstand).pass hle,
      fun s hs hstand => (hg.first s hs hstand).pass hle⟩
  tally := by
    intro n s epoch hn hstand v hv
    exact (hw.tally n s epoch hn hstand v hv).imp_right fun hsec => hsec.pass hle
  lease := by
    intro n s hn hrole
    exact (hw.lease n s hn hrole).imp_left fun hpast => Nat.le_trans hpast hle

/-- A node that joins: it follows no one and has promised nothing. -/
structure Newcomer (r : VoterRoster) (leaseMs : Nat) (now : Time) (n : NodeId) (s : Seat) :
    Prop where
  me : s.me = n
  fit : Fit r leaseMs now s
  role : s.el.role = .follower
  granted : s.q.granted = none

/-- Puts a seat in place. -/
def boot (w : Chamber) (n : NodeId) (s : Seat) : Chamber :=
  { w with seat := Function.update w.seat n (some s) }

@[simp] theorem boot_seat_self (w : Chamber) (n : NodeId) (s : Seat) :
    (w.boot n s).seat n = some s := Function.update_self ..

theorem boot_seat_of_ne {m : NodeId} (h : m ≠ n) : (w.boot n s).seat m = w.seat m :=
  Function.update_of_ne h ..

/-- Order outlasts the joining of a node. -/
theorem Orderly.boot (hw : Orderly r leaseMs w) (hdown : w.seat n = none)
    (hnew : Newcomer r leaseMs w.now n s) : Orderly r leaseMs (w.boot n s) := by
  have hkeep : ∀ {k : NodeId} {t : Seat}, w.seat k = some t → (w.boot n s).seat k = some t := by
    intro k t hk
    have hne : k ≠ n := by
      rintro rfl
      rw [hdown] at hk
      cases hk
    rw [boot_seat_of_ne hne, hk]
  have hcases : ∀ {k : NodeId} {t : Seat}, (w.boot n s).seat k = some t →
      k = n ∧ t = s ∨ w.seat k = some t := by
    intro k t hk
    by_cases hkn : k = n
    · subst hkn
      rw [boot_seat_self] at hk
      exact .inl ⟨rfl, (Option.some.inj hk).symm⟩
    · rw [boot_seat_of_ne hkn] at hk
      exact .inr hk
  have hidle : s.standing = none := by simp [Seat.standing, hnew.role]
  have hsec : ∀ {v c : NodeId} {epoch : Nat} {stop : Time}, w.Secured v epoch c stop →
      (w.boot n s).Secured v epoch c stop := by
    rintro v c epoch stop (hpast | ⟨t, hv, hheld⟩)
    · exact .inl hpast
    · exact .inr ⟨t, hkeep hv, hheld⟩
  have htraced : ∀ {c : NodeId} {tag : RoundTag}, w.Traced c tag →
      (w.boot n s).Traced c tag := by
    rintro c tag ⟨hopened, t, hc, htrace⟩
    exact ⟨hopened, t, hkeep hc, htrace⟩
  refine ⟨?_, ?_, hw.bounded, ?_, ?_, ?_, ?_, ?_, ?_⟩
  · intro k t hk
    rcases hcases hk with ⟨rfl, rfl⟩ | hk
    · exact ⟨hnew.me, hnew.fit⟩
    · exact hw.fit k t hk
  · intro k t epoch hk hstand
    rcases hcases hk with ⟨rfl, rfl⟩ | hk
    · cases hidle.symm.trans hstand
    · exact hw.since k t epoch hk hstand
  · intro m hm epoch claimant hbody
    exact (hw.claims m hm epoch claimant hbody).imp_right htraced
  · intro m hm epoch claimant granter hbody
    have hg := hw.grants m hm epoch claimant granter hbody
    obtain ⟨tv, ge, gc, hv, habove⟩ := hg.above
    obtain ⟨tc, hc, hseen⟩ := hg.seen
    refine ⟨htraced hg.traced, ⟨tv, ge, gc, hkeep hv, habove⟩, ⟨tc, hkeep hc, hseen⟩, ?_, ?_⟩
    · intro hdest htag t ht hstand
      cases (hkeep hc).symm.trans ht
      exact hsec (hg.answers hdest htag tc hc hstand)
    intro t ht hstand
    cases (hkeep hc).symm.trans ht
    exact hsec (hg.first tc hc hstand)
  · intro m hm epoch host hbody
    obtain ⟨t, hhost, hleft⟩ := hw.resigns m hm epoch host hbody
    exact ⟨t, hkeep hhost, hleft⟩
  · intro v t epoch claimant hv hg
    rcases hcases hv with ⟨rfl, rfl⟩ | hv
    · cases hnew.granted.symm.trans hg
    · obtain ⟨tc, hc, hpromised⟩ := hw.ledger v t epoch claimant hv hg
      exact ⟨tc, hkeep hc, hpromised⟩
  · intro k t epoch hk hstand v hv
    rcases hcases hk with ⟨rfl, rfl⟩ | hk
    · cases hidle.symm.trans hstand
    · exact (hw.tally k t epoch hk hstand v hv).imp_right hsec
  · intro k t hk hrole
    rcases hcases hk with ⟨rfl, rfl⟩ | hk
    · cases hnew.role.symm.trans hrole
    refine (hw.lease k t hk hrole).imp_right fun hmaj => hmaj.mono fun v _ hheld => ?_
    obtain ⟨tv, hv, hrest⟩ := hheld
    exact ⟨tv, hkeep hv, hrest⟩

end Chamber

end Groupnet
