import Mathlib.Data.List.Pairwise
import Mathlib.Logic.Function.Basic
import Groupnet.Lib.Majority
import Groupnet.Rows.Events

/-!
# What the voters of a roster wrote down

A voter's ledger in the engine is one pair.  Here it is the list of all the pairs it
ever wrote down, so that a grant counted long after it was given can still be traced
to it.  The list grows in strictly rising epochs, so it names one claimant per epoch.

`Backed` ties a seat to the ledgers: its own pair is the last it wrote down, every
grant its round has counted was written down by the voter it counts, and a host's
epoch was written down for it by a majority.  Every row keeps it.
-/

namespace Groupnet

open Wire (LeadBody)

/-- The pairs each node wrote down, oldest first. -/
abbrev Ledger := NodeId → List (Nat × NodeId)

/-- The pairs a batch writes down. -/
def persisted (fx : List Effect) : List (Nat × NodeId) :=
  fx.filterMap fun
    | .persistGrant epoch claimant => some (epoch, claimant)
    | _ => none

/-- An election frame in flight. -/
structure Envelope where
  source : NodeId
  dest : NodeId
  body : LeadBody
deriving DecidableEq

/-- The election frames a batch of `source` ships. -/
def envelopes (source : NodeId) (fx : List Effect) : List Envelope :=
  fx.filterMap fun
    | .send dest frame => frame.lead.map fun body => ⟨source, dest, body⟩
    | _ => none

theorem persisted_leads (fx : List Effect) : persisted (leads fx) = persisted fx := by
  induction fx with
  | nil => rfl
  | cons x fx ih =>
    have hcons : ∀ l, persisted (x :: l) = persisted [x] ++ persisted l := fun l => by
      cases x <;> rfl
    cases hx : x.isLead with
    | true =>
      rw [leads, List.filter_cons_of_pos hx, hcons, hcons fx]
      exact congrArg _ ih
    | false =>
      have hnone : persisted [x] = [] := by
        cases x <;> first | rfl | cases hx
      rw [leads, List.filter_cons_of_neg (by simp [hx]), hcons, hnone]
      exact ih

theorem envelopes_leads (n : NodeId) (fx : List Effect) :
    envelopes n (leads fx) = envelopes n fx := by
  induction fx with
  | nil => rfl
  | cons x fx ih =>
    have hcons : ∀ l, envelopes n (x :: l) = envelopes n [x] ++ envelopes n l := fun l =>
      List.filterMap_append (l := [x])
    cases hx : x.isLead with
    | true =>
      rw [leads, List.filter_cons_of_pos hx, hcons, hcons fx]
      exact congrArg _ ih
    | false =>
      have hnone : envelopes n [x] = [] := by
        cases x with
        | send dest frame =>
          simp only [Effect.isLead, Option.isSome_eq_false_iff, Option.isNone_iff_eq_none] at hx
          simp [envelopes, hx]
        | _ => rfl
      rw [leads, List.filter_cons_of_neg (by simp [hx]), hcons, hnone]
      exact ih

theorem persisted_append (fx fx' : List Effect) :
    persisted (fx ++ fx') = persisted fx ++ persisted fx' := List.filterMap_append

theorem envelopes_append (n : NodeId) (fx fx' : List Effect) :
    envelopes n (fx ++ fx') = envelopes n fx ++ envelopes n fx' := List.filterMap_append

namespace Ledger

variable {L : Ledger} {n : NodeId}

/-- The ledgers after `n` wrote down what a batch says. -/
def record (L : Ledger) (n : NodeId) (fx : List Effect) : Ledger :=
  Function.update L n (L n ++ persisted fx)

@[simp] theorem record_self (L : Ledger) (n : NodeId) (fx : List Effect) :
    L.record n fx n = L n ++ persisted fx := Function.update_self ..

theorem record_of_ne {m : NodeId} (h : m ≠ n) (fx : List Effect) : L.record n fx m = L m :=
  Function.update_of_ne h ..

theorem record_nil {fx : List Effect} (h : persisted fx = []) : L.record n fx = L := by
  rw [record, h, List.append_nil, Function.update_eq_self]

theorem record_append (fx fx' : List Effect) :
    (L.record n fx).record n fx' = L.record n (fx ++ fx') := by
  unfold record
  rw [Function.update_self, Function.update_idem, persisted_append, List.append_assoc]

theorem mem_record {fx : List Effect} {v : NodeId} {p : Nat × NodeId} (h : p ∈ L v) :
    p ∈ L.record n fx v := by
  by_cases hv : v = n
  · subst hv
    rw [record_self]
    exact List.mem_append_left _ h
  · rwa [record_of_ne hv]

def Rising (L : Ledger) : Prop := ∀ v, (L v).Pairwise fun p p' => p.1 < p'.1

/-- A rising ledger names one claimant per epoch. -/
theorem Rising.unique (h : L.Rising) {v : NodeId} {epoch : Nat} {c c' : NodeId}
    (hc : (epoch, c) ∈ L v) (hc' : (epoch, c') ∈ L v) : c = c' := by
  have hpairs : (L v).Pairwise fun p p' => p.1 = p'.1 → p = p' :=
    (h v).imp fun hlt heq => absurd heq (Nat.ne_of_lt hlt)
  have hsymm : Std.Symm fun p p' : Nat × NodeId => p.1 = p'.1 → p = p' :=
    ⟨fun _ _ himp heq => (himp heq.symm).symm⟩
  exact congrArg Prod.snd (hpairs.forall_of_forall (fun _ _ _ => rfl) hc hc' rfl)

/-- A pair above the last one written down keeps a ledger rising. -/
theorem Rising.record_fresh (h : L.Rising) {epoch : Nat} {claimant : NodeId}
    (habove : ∀ p, (L n).getLast? = some p → p.1 < epoch) :
    (L.record n [.persistGrant epoch claimant]).Rising := by
  intro v
  by_cases hv : v = n
  · subst hv
    rw [record_self]
    refine List.pairwise_append.mpr ⟨h v, List.pairwise_singleton _ _, ?_⟩
    intro p hp p' hp'
    rw [List.mem_singleton.mp hp']
    -- Every pair is at or below the last.
    obtain ⟨init, last, hlist⟩ : ∃ init last, L v = init ++ [last] :=
      ⟨_, _, (List.dropLast_append_getLast (List.ne_nil_of_mem hp)).symm⟩
    have hlast : last.1 < epoch := habove last (by simp [hlist])
    have hpair := h v
    rw [hlist] at hp hpair
    rcases List.mem_append.mp hp with hp | hp
    · exact Nat.lt_trans ((List.pairwise_append.mp hpair).2.2 p hp last (by simp)) hlast
    · rwa [List.mem_singleton.mp hp]
  · rw [record_of_ne hv]
    exact h v

end Ledger

/-! ## Seats -/

variable (epoch : Nat) {q : QuorumState} {f : QuorumState → QuorumState} {v : Verdict}

def Seat.tally (s : Seat) : Option (Std.TreeSet NodeId) := s.el.quorum.map QuorumState.roundGrants

structure Backed (r : VoterRoster) (L : Ledger) (s : Seat) : Prop where
  roster : s.el.voters = some r
  /-- The pair granted is the last written down. -/
  granted : s.granted = (L s.me).getLast?
  /-- A counted voter wrote down the epoch the round is for. -/
  counted : ∀ tally epoch, s.tally = some tally → s.standing = some epoch →
    ∀ v ∈ tally, v ∈ r.voters ∧ (epoch, s.me) ∈ L v
  elected : s.el.role = .host → Majority r.voters fun v => (s.el.epoch, s.me) ∈ L v

/-- A seat that keeps its ledger and its tally, and the epoch it stands for if it still
stands. -/
structure Keeps (s s' : Seat) : Prop where
  me : s'.me = s.me
  voters : s'.el.voters = s.el.voters
  granted : s'.granted = s.granted
  tally : s'.tally = s.tally
  standing : s'.standing = none ∨ s'.standing = s.standing
  host : s'.el.role = .host → s.el.role = .host ∧ s'.el.epoch = s.el.epoch

variable {now : Time} {inp : Input} {mv : Move} {s s' : Seat} {fx : List Effect}
  {r : VoterRoster} {L : Ledger}

theorem Backed.keeps (hb : Backed r L s) (hk : Keeps s s') : Backed r L s' where
  roster := hk.voters.trans hb.roster
  granted := by rw [hk.granted, hk.me, hb.granted]
  counted := by
    intro tally epoch htally hstand v hv
    rw [hk.me]
    rcases hk.standing with hnone | hsame
    · rw [hnone] at hstand
      cases hstand
    · exact hb.counted tally epoch (hk.tally ▸ htally) (hsame ▸ hstand) v hv
  elected := by
    intro hhost
    obtain ⟨hrole, hepoch⟩ := hk.host hhost
    rw [hepoch, hk.me]
    exact hb.elected hrole

/-- More written down elsewhere backs a seat as well. -/
theorem Backed.mono {L' : Ledger} (hb : Backed r L s) (hme : L' s.me = L s.me)
    (hsub : ∀ v p, p ∈ L v → p ∈ L' v) : Backed r L' s where
  roster := hb.roster
  granted := by rw [hme, hb.granted]
  counted := fun tally epoch htally hstand v hv =>
    ⟨(hb.counted tally epoch htally hstand v hv).1,
      hsub v _ (hb.counted tally epoch htally hstand v hv).2⟩
  elected := fun hhost => (hb.elected hhost).mono fun v _ hv => hsub v _ hv

/-! ## Rows that write nothing down -/

theorem Seat.granted_withQuorum (hf : ∀ q, (f q).granted = q.granted) :
    (s.withQuorum f).granted = s.granted := by
  unfold Seat.granted Seat.withQuorum
  cases hq : s.el.quorum <;> simp [hq, hf]

theorem Seat.tally_withQuorum (hf : ∀ q, (f q).roundGrants = q.roundGrants) :
    (s.withQuorum f).tally = s.tally := by
  unfold Seat.tally Seat.withQuorum
  cases hq : s.el.quorum <;> simp [hq, hf]

theorem Keeps.withQuorum (hg : ∀ q, (f q).granted = q.granted)
    (ht : ∀ q, (f q).roundGrants = q.roundGrants) : Keeps s (s.withQuorum f) where
  me := rfl
  voters := rfl
  granted := Seat.granted_withQuorum hg
  tally := Seat.tally_withQuorum ht
  standing := Or.inr rfl
  host := fun h => ⟨h, rfl⟩

theorem Keeps.trans {s'' : Seat} (h : Keeps s s') (h' : Keeps s' s'') : Keeps s s'' where
  me := h'.me.trans h.me
  voters := h'.voters.trans h.voters
  granted := h'.granted.trans h.granted
  tally := h'.tally.trans h.tally
  standing := by
    rcases h'.standing with hnone | hsame
    · exact Or.inl hnone
    · rw [hsame]
      exact h.standing
  host := by
    intro hhost
    obtain ⟨hrole, hepoch⟩ := h'.host hhost
    exact ⟨(h.host hrole).1, hepoch.trans (h.host hrole).2⟩

/-- A node that no longer stands keeps its ledger. -/
theorem Keeps.down {el : Election} {leaving : Bool} (hcfg : el.cfg = s.el.cfg)
    (hq : el.quorum = s.el.quorum) (hrole : el.role = .follower) :
    Keeps s { s with leaving := leaving, el := el } where
  me := rfl
  voters := by simp [Election.voters, hcfg]
  granted := by simp [Seat.granted, hq]
  tally := by simp [Seat.tally, hq]
  standing := by simp [Seat.standing, hrole]
  host := by simp [hrole]

theorem Keeps.adopted (host : Option NodeId) : Keeps s (s.withEl (s.el.adopted epoch host)) := by
  unfold Election.adopted
  split
  next => exact Keeps.down rfl rfl rfl
  next hout =>
    have hrole : s.el.role ≠ .host := by
      simp only [Election.outdone, Bool.or_eq_true, decide_eq_true_eq, not_or] at hout
      exact hout.1
    refine ⟨rfl, rfl, rfl, rfl, ?_, fun hhost => absurd hhost hrole⟩
    unfold Seat.standing
    cases hr : s.el.role with
    | follower | claimant => simp
    | host => exact absurd hr hrole

theorem Keeps.yield (claimant : NodeId) : Keeps s (s.withEl (s.yield epoch claimant)) := by
  unfold Seat.yield
  split
  · exact Keeps.down rfl rfl rfl
  · exact ⟨rfl, rfl, rfl, rfl, Or.inr rfl, fun h => ⟨h, rfl⟩⟩

/-! ## Rows -/

/-- A grant in flight was written down by its granter. -/
def Wire.LeadBody.Recorded (L : Ledger) : LeadBody → Prop
  | .grant epoch claimant granter => (epoch, claimant) ∈ L granter
  | .claim .. | .state .. | .resign .. => True

/-- What is heard was written down. -/
def Input.Recorded (L : Ledger) (inp : Input) : Prop :=
  ∀ source body, inp = .frame source body → body.Recorded L

/-- The ledgers after a row of `s` back what it leaves and what it ships. -/
structure Settled (r : VoterRoster) (L : Ledger) (s : Seat) (fx : List Effect) (s' : Seat) : Prop
    where
  backed : Backed r (L.record s.me fx) s'
  rising : (L.record s.me fx).Rising
  shipped : ∀ env ∈ envelopes s.me fx, env.body.Recorded (L.record s.me fx)

/-- A row that writes nothing down and keeps the tally. -/
theorem Settled.of_keeps (hb : Backed r L s) (hrise : L.Rising) (hk : Keeps s s')
    (hp : persisted fx = []) (hship : ∀ env ∈ envelopes s.me fx, env.body.Recorded L) :
    Settled r L s fx s' := by
  refine ⟨?_, ?_, ?_⟩ <;> rw [Ledger.record_nil hp]
  · exact hb.keeps hk
  · exact hrise
  · exact hship

theorem persisted_resigns (dests : List NodeId) :
    persisted (dests.map fun d => s.lead d (.resign epoch s.me)) = [] := by
  induction dests with
  | nil => rfl
  | cons d dests ih => exact ih

theorem recorded_resigns (dests : List NodeId) :
    ∀ env ∈ envelopes s.me (dests.map fun d => s.lead d (.resign epoch s.me)),
      env.body.Recorded L := by
  intro env henv
  obtain ⟨x, hx, henv⟩ := List.mem_filterMap.mp henv
  obtain ⟨d, _, rfl⟩ := List.mem_map.mp hx
  cases henv
  trivial

theorem Backed.granted_mem (hb : Backed r L s) {p : Nat × NodeId} (h : s.granted = some p) :
    p ∈ L s.me :=
  List.mem_of_getLast? (hb.granted ▸ h)

/-- What is said was written down. -/
theorem Says.settled {x : Effect} (h : Says inp s x) (hb : Backed r L s) (hrise : L.Rising) :
    Settled r L s [x] s := by
  have hself : Keeps s s := ⟨rfl, rfl, rfl, rfl, Or.inr rfl, fun h => ⟨h, rfl⟩⟩
  refine Settled.of_keeps hb hrise hself (by cases h <;> rfl) ?_
  intro env henv
  cases h with
  | floor heard hstay hvoter hother hgranted =>
    cases List.mem_singleton.mp henv
    exact hb.granted_mem hgranted
  | prompt => cases henv
  | _ =>
    cases List.mem_singleton.mp henv
    trivial

/-- A verdict that is not a refusal leaves the pair written down last. -/
theorem Backed.recorded (hb : Backed r L s) (hrise : L.Rising) {epoch : Nat} {claimant : NodeId}
    (hq : s.el.quorum = some q) (hv : q.verdict s.leaving now epoch claimant = v)
    (hne : v ≠ .refuse) :
    (L.record s.me (GroupEngine.persistOf v epoch claimant)).Rising ∧
      (L.record s.me (GroupEngine.persistOf v epoch claimant) s.me).getLast? =
        some (epoch, claimant) ∧
      (q.recorded v s.el.cfg.leaseMs now epoch claimant).granted = some (epoch, claimant) := by
  have hgranted : q.granted = (L s.me).getLast? := by
    rw [← hb.granted]
    simp [Seat.granted, hq]
  unfold QuorumState.verdict grantVerdict at hv
  split at hv
  · exact absurd hv.symm hne
  split at hv
  next hnone =>
    split at hv
    · subst hv
      refine ⟨hrise.record_fresh ?_, by simp [GroupEngine.persistOf, persisted], rfl⟩
      intro p hp
      rw [← hgranted, hnone] at hp
      cases hp
    · exact absurd hv.symm hne
  next ge gc hsome =>
    split at hv
    next hsame =>
      obtain ⟨rfl, rfl⟩ := hsame
      split at hv
      · exact absurd hv.symm hne
      subst hv
      refine ⟨?_, ?_, hsome⟩ <;> rw [Ledger.record_nil rfl]
      · exact hrise
      · rw [← hgranted, hsome]
    next =>
      split at hv
      · exact absurd hv.symm hne
      next habove =>
        split at hv
        · subst hv
          refine ⟨hrise.record_fresh ?_, by simp [GroupEngine.persistOf, persisted], rfl⟩
          intro p hp
          rw [← hgranted, hsome] at hp
          cases hp
          exact Nat.lt_of_not_le habove
        · exact absurd hv.symm hne

theorem QuorumState.recorded_roundGrants (q : QuorumState) (v : Verdict) (leaseMs : Nat)
    (epoch : Nat) (claimant : NodeId) :
    (q.recorded v leaseMs now epoch claimant).roundGrants = q.roundGrants := by
  cases v <;> rfl

theorem envelopes_persistOf (n : NodeId) (v : Verdict) (epoch : Nat) (claimant : NodeId) :
    envelopes n (GroupEngine.persistOf v epoch claimant) = [] := by
  cases v <;> rfl

theorem Seat.isVoter.mem (h : s.isVoter) (hr : s.el.voters = some r) : s.me ∈ r.voters := by
  obtain ⟨r', hr', hmem⟩ := h
  rw [hr] at hr'
  cases hr'
  exact hmem

/-- A round that opens has counted no one. -/
theorem Settled.of_opened (hb : Backed r L s) (hrise : L.Rising) (hme : s'.me = s.me)
    (hvoters : s'.el.voters = s.el.voters) (hgranted : s'.granted = s.granted)
    (hempty : ∀ tally, s'.tally = some tally → ∀ v, v ∉ tally)
    (hhost : s'.el.role = .host → s.el.role = .host ∧ s'.el.epoch = s.el.epoch) :
    Settled r L s [] s' := by
  refine ⟨?_, ?_, ?_⟩ <;> rw [Ledger.record_nil rfl]
  · refine ⟨hvoters.trans hb.roster, by rw [hgranted, hme, hb.granted], ?_, ?_⟩
    · intro tally epoch htally _ v hv
      exact absurd hv (hempty tally htally v)
    intro hrole
    rw [(hhost hrole).2, hme]
    exact hb.elected (hhost hrole).1
  · exact hrise
  · exact fun _ henv => absurd henv List.not_mem_nil

theorem tally_opened {el : Election} {tally : Std.TreeSet NodeId}
    (h : (s.withEl (el.modifyQuorum fun q => q.opened now)).tally = some tally) (v : NodeId) :
    v ∉ tally := by
  obtain ⟨q, hq, rfl⟩ := Option.map_eq_some_iff.mp h
  obtain ⟨q', _, rfl⟩ := Option.map_eq_some_iff.mp hq
  exact Std.TreeSet.not_mem_emptyc

section

variable (hb : Backed r L s) (hrise : L.Rising)

include hb hrise

/-- A self-grant is written down before it is counted. -/
theorem settled_selfGrant {epoch : Nat} (hq : s.el.quorum = some q) (hvoter : s.isVoter)
    (hv : q.verdict s.leaving now epoch s.me = v) (hne : v ≠ .refuse)
    (hstand : s.standing = some epoch) : Settled r L s (GroupEngine.persistOf v epoch s.me)
      (s.withQuorum fun q => (q.recorded v s.el.cfg.leaseMs now epoch s.me).counted s.me) := by
  obtain ⟨hrise', hlast, hgranted⟩ := hb.recorded hrise hq hv hne
  refine ⟨⟨hb.roster, ?_, ?_, ?_⟩, hrise', ?_⟩
  · refine Eq.trans ?_ hlast.symm
    simpa [Seat.granted, hq, QuorumState.counted] using hgranted
  · intro tally epoch' htally hstand' w hw
    have hepoch : epoch' = epoch := Option.some.inj (hstand'.symm.trans hstand)
    subst hepoch
    simp only [Seat.tally, Seat.withQuorum_el, Election.modifyQuorum_quorum, hq, Option.map_some,
      Option.some.injEq] at htally
    subst htally
    simp only [QuorumState.counted, QuorumState.recorded_roundGrants,
      Std.TreeSet.mem_insert, compare_eq_iff_eq] at hw
    rcases hw with rfl | hw
    · exact ⟨hvoter.mem hb.roster, List.mem_of_getLast? hlast⟩
    · obtain ⟨hmem, hin⟩ := hb.counted q.roundGrants epoch' (by simp [Seat.tally, hq]) hstand w hw
      exact ⟨hmem, Ledger.mem_record hin⟩
  · intro hhost
    exact (hb.elected hhost).mono fun w _ hw => Ledger.mem_record hw
  · rw [envelopes_persistOf]
    exact fun _ henv => absurd henv List.not_mem_nil

/-- A grant is written down before it is shipped. -/
theorem settled_vote {claimant : NodeId} {epoch : Nat} (hq : s.el.quorum = some q)
    (hv : q.verdict s.leaving now epoch claimant = v) (hne : v ≠ .refuse) :
    Settled r L s
      (GroupEngine.persistOf v epoch claimant ++ [s.lead claimant (.grant epoch claimant s.me)])
      (s.withEl ((s.yield epoch claimant).modifyQuorum fun q =>
        q.recorded v s.el.cfg.leaseMs now epoch claimant)) := by
  obtain ⟨hrise', hlast, hgranted⟩ := hb.recorded hrise hq hv hne
  have hk : Keeps s (s.withEl (s.yield epoch claimant)) := Keeps.yield epoch claimant
  have hsame : L.record s.me (GroupEngine.persistOf v epoch claimant ++
      [s.lead claimant (.grant epoch claimant s.me)]) =
      L.record s.me (GroupEngine.persistOf v epoch claimant) := by
    rw [← Ledger.record_append, Ledger.record_nil rfl]
  have hyq : (s.yield epoch claimant).quorum = some q := by
    unfold Seat.yield
    split <;> exact hq
  refine ⟨?_, ?_, ?_⟩ <;> rw [hsame]
  · refine ⟨hk.voters.trans hb.roster, ?_, ?_, ?_⟩
    · refine Eq.trans ?_ hlast.symm
      simpa [Seat.granted, hyq] using hgranted
    · intro tally epoch' htally hstand' w hw
      have htally' : s.tally = some tally := by
        simpa [Seat.tally, hyq, hq, QuorumState.recorded_roundGrants] using htally
      have hyield : (s.withEl (s.yield epoch claimant)).standing = some epoch' := hstand'
      have hstand : s.standing = some epoch' := by
        rcases hk.standing with hdown | hup
        · rw [hdown] at hyield
          cases hyield
        · exact hup.symm.trans hyield
      obtain ⟨hmem, hin⟩ := hb.counted tally epoch' htally' hstand w hw
      exact ⟨hmem, Ledger.mem_record hin⟩
    · intro hhost
      obtain ⟨hrole, hepoch⟩ := hk.host hhost
      have hel := (hb.elected hrole).mono (Q := fun w => (s.el.epoch, s.me) ∈ L.record s.me
        (GroupEngine.persistOf v epoch claimant) w) fun w _ hw => Ledger.mem_record hw
      rw [← hepoch] at hel
      exact hel
  · exact hrise'
  · intro env henv
    rw [envelopes_append, envelopes_persistOf, List.nil_append] at henv
    rw [List.mem_singleton.mp henv]
    exact List.mem_of_getLast? hlast

/-- A grant that is counted was written down by the voter it counts. -/
theorem settled_count {granter : NodeId} {epoch : Nat} (hmem : granter ∈ r.voters)
    (hgrant : (epoch, s.me) ∈ L granter) (hstand : s.standing = some epoch) :
    Settled r L s [] (s.withQuorum fun q => q.counted granter) := by
  refine ⟨?_, ?_, ?_⟩ <;> rw [Ledger.record_nil rfl]
  · refine ⟨hb.roster, ?_, ?_, hb.elected⟩
    · have hsame : (s.withQuorum fun q => q.counted granter).granted = s.granted :=
        Seat.granted_withQuorum fun q => rfl
      exact hsame.trans hb.granted
    intro tally epoch' htally hstand' w hw
    have hepoch : epoch' = epoch := Option.some.inj (hstand'.symm.trans hstand)
    subst hepoch
    obtain ⟨q', hq', rfl⟩ := Option.map_eq_some_iff.mp htally
    obtain ⟨q, hq, rfl⟩ := Option.map_eq_some_iff.mp hq'
    simp only [QuorumState.counted, Std.TreeSet.mem_insert, compare_eq_iff_eq] at hw
    rcases hw with rfl | hw
    · exact ⟨hmem, hgrant⟩
    · exact hb.counted q.roundGrants epoch' (by simp [Seat.tally, hq]) hstand w hw
  · exact hrise
  · exact fun _ henv => absurd henv List.not_mem_nil

/-- A claim that wins was written down by a majority. -/
theorem settled_win {c : Claim} {leaseUntil : Time} (hq : s.el.quorum = some q)
    (hrole : s.el.role = .claimant) (hclaim : s.el.claim = some c)
    (hmaj : r.majority ≤ q.roundGrants.size) :
    Settled r L s [.leadershipChanged c.epoch (some s.me)]
      (s.withEl (s.el.activated s.me c.epoch leaseUntil)) := by
  have hstand : s.standing = some c.epoch := by simp [Seat.standing, hrole, hclaim]
  have htally : s.tally = some q.roundGrants := by simp [Seat.tally, hq]
  refine ⟨?_, ?_, ?_⟩ <;> rw [Ledger.record_nil rfl]
  · refine ⟨hb.roster, hb.granted, ?_, ?_⟩
    · intro tally epoch htally' hstand'
      exact hb.counted tally epoch htally' (hstand.trans hstand')
    · intro _
      exact Majority.of_tally hmaj (hb.counted q.roundGrants c.epoch htally hstand)
  · exact hrise
  · exact fun _ henv => absurd henv List.not_mem_nil

end

/-- Every row leaves the ledgers and the seat in agreement. -/
theorem Row.settled (h : Row now inp mv s fx s') (hb : Backed r L s) (hrise : L.Rising)
    (hinp : inp.Recorded L) : Settled r L s fx s' := by
  have hnone : ∀ env ∈ envelopes s.me [], env.body.Recorded L := fun _ henv =>
    absurd henv List.not_mem_nil
  have hnews : ∀ epoch host, ∀ env ∈ envelopes s.me [Effect.leadershipChanged epoch host],
      env.body.Recorded L := fun _ _ _ henv => absurd henv List.not_mem_nil
  cases h with
  | say hsays => exact hsays.settled hb hrise
  | boot =>
    have hk : Keeps s (s.withQuorum fun q => if q.grantPromiseUntil = Time.max then
        { q with grantPromiseUntil := satAdd now s.el.cfg.leaseMs } else q) :=
      Keeps.withQuorum (fun q => by split <;> rfl) (fun q => by split <;> rfl)
    exact Settled.of_keeps hb hrise
      { hk with } rfl hnone
  | cursor | observe | extend | renew | prolong | leaveFollower | vacate =>
    refine Settled.of_keeps hb hrise ⟨rfl, rfl, rfl, rfl, Or.inr rfl, fun h => ⟨h, rfl⟩⟩ rfl ?_
    exact fun _ henv => absurd henv List.not_mem_nil
  | openClaim =>
    refine Settled.of_opened hb hrise rfl rfl ?_ (fun _ => tally_opened) (by simp)
    exact Seat.granted_withQuorum (s := s.withEl _) fun q => rfl
  | openRenewal =>
    exact Settled.of_opened hb hrise rfl rfl (Seat.granted_withQuorum fun q => rfl)
      (fun _ => tally_opened) fun h => ⟨h, rfl⟩
  | selfGrant hq hvoter hv hne hstand => exact settled_selfGrant hb hrise hq hvoter hv hne hstand
  | vote heard hq hvoter hv hne => exact settled_vote hb hrise hq hv hne
  | abandon => exact Settled.of_keeps hb hrise (Keeps.down rfl rfl rfl) rfl hnone
  | refusal granter =>
    refine Settled.of_keeps hb hrise (Keeps.withQuorum ?_ ?_) rfl hnone <;>
      · intro q
        unfold QuorumState.refusedBy
        split <;> rfl
  | count heard hr hmem hstand =>
    cases hr.symm.trans hb.roster
    exact settled_count hb hrise hmem (hinp _ _ heard) hstand
  | win hr hq hrole hclaim hmaj =>
    cases hr.symm.trans hb.roster
    exact settled_win hb hrise hq hrole hclaim hmaj
  | settle hset => cases hset.symm.trans hb.roster
  | award hcmd hext => cases (Election.voters_of_external hext).symm.trans hb.roster
  | adopt => exact Settled.of_keeps hb hrise (Keeps.adopted _ _) rfl (hnews _ _)
  | lapse | leaveHost => exact Settled.of_keeps hb hrise (Keeps.down rfl rfl rfl) rfl (hnews _ _)
  | @resignClaim _ _ c hr hrole hclaim pending dests =>
    have hk : Keeps s { s with leaving := true, el := s.el.abandoned } := Keeps.down rfl rfl rfl
    exact Settled.of_keeps hb hrise (hk.trans (Keeps.withQuorum (fun _ => rfl) fun _ => rfl))
      (persisted_resigns c.epoch dests) (recorded_resigns c.epoch dests)
  | resignHost hr hrole pending dests =>
    have hk : Keeps s { s with leaving := true, el := s.el.demoted } := Keeps.down rfl rfl rfl
    exact Settled.of_keeps hb hrise (hk.trans (Keeps.withQuorum (fun _ => rfl) fun _ => rfl))
      (persisted_resigns s.el.epoch dests) (recorded_resigns s.el.epoch dests)
  | receipted voter epoch host =>
    refine Settled.of_keeps hb hrise (Keeps.withQuorum ?_ ?_) rfl hnone <;>
      · intro q
        unfold QuorumState.receipted
        split
        · rfl
        · split <;> rfl
  | release heard =>
    refine Settled.of_keeps hb hrise (Keeps.withQuorum ?_ ?_) rfl hnone <;>
      · intro q
        unfold QuorumState.released
        split <;> rfl

/-- A chain of rows leaves the ledgers and the seat in agreement. -/
theorem Rows.settled (h : Rows now inp mv s fx s') (hb : Backed r L s) (hrise : L.Rising)
    (hinp : inp.Recorded L) : Settled r L s fx s' := by
  induction h generalizing L with
  | nil s =>
    refine ⟨?_, ?_, ?_⟩ <;> rw [Ledger.record_nil rfl]
    · exact hb
    · exact hrise
    · exact fun _ henv => absurd henv List.not_mem_nil
  | @cons m m' s₁ s₂ s₃ fx₁ fx₂ hrow hrows hquiet ih =>
    have hme := Seat.me_eq_of_fixed hrow.fixed
    have hone := hrow.settled hb hrise hinp
    have hgrow : ∀ (fx : List Effect) {body : LeadBody} {L' : Ledger}, body.Recorded L' →
        body.Recorded (L'.record s₁.me fx) := by
      intro fx body L' hrec
      cases body with
      | grant epoch claimant granter => exact Ledger.mem_record hrec
      | _ => trivial
    have hrest := ih hone.backed hone.rising fun source body heard =>
      hgrow fx₁ (hinp source body heard)
    have hsame : (L.record s₁.me fx₁).record s₂.me fx₂ = L.record s₁.me (fx₁ ++ fx₂) := by
      rw [hme, Ledger.record_append]
    refine ⟨hsame ▸ hrest.backed, hsame ▸ hrest.rising, ?_⟩
    intro env henv
    rw [envelopes_append] at henv
    rcases List.mem_append.mp henv with henv | henv
    · have hrec := hgrow fx₂ (hone.shipped env henv)
      rwa [Ledger.record_append] at hrec
    · have hrec := hrest.shipped env (hme.symm ▸ henv)
      rwa [hsame] at hrec

end Groupnet
