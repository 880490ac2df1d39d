import Groupnet.Gossip.Members
import Groupnet.Gossip.Liveness
import Groupnet.Gossip.Calls

/-!
# Convergence of liveness

An engine hears of a remote member's liveness in the lines of digests and in the sections
of deltas.  It treats each as `Liveness.hear` says, so two engines that heard the same
verdicts and then exchange one line each agree exactly when the verdicts are settled
between them.
-/

namespace Groupnet

open Wire (Frame)

def Member.liveness (m : Member) : Liveness := ⟨m.incarnation, m.status⟩

namespace Member

variable {m : Member} {now : Time}

theorem supersededBy_liveness (m : Member) (incarnation : Nat) (status : Status) :
    m.supersededBy incarnation status = m.liveness.supersededBy ⟨incarnation, status⟩ := by
  cases status <;> rfl

@[simp] theorem liveness_armStatus (m : Member) (status : Status) (now : Time) (heard own : Nat) :
    (GroupEngine.armStatus m status now heard own).liveness = m.liveness := by
  cases status with
  | alive | dead => rfl
  | suspect =>
    unfold GroupEngine.armStatus hearSuspicion
    dsimp only
    split <;> rfl

theorem liveness_adoptStatus (m : Member) (incarnation : Nat) (status : Status) (now : Time) :
    ({ m with incarnation := incarnation }.adoptStatus status now).liveness =
      ⟨incarnation, status⟩ := by
  unfold adoptStatus
  dsimp only
  split
  · split <;> simp_all [liveness]
  · split <;> simp_all [liveness]

@[simp] theorem liveness_putEntry (m : Member) (key : String) (entry : StateEntry)
    (reapAfter : Nat) :
    (m.putEntry key entry reapAfter).liveness = m.liveness := by
  obtain ⟨dues, hput⟩ := m.exists_putEntry key entry reapAfter
  rw [hput]
  rfl

@[simp] theorem liveness_observeVersion (m : Member) (version : Nat) :
    (m.observeVersion version).liveness = m.liveness := rfl

theorem liveness_adoptEntries (m : Member) (reapAfter : Nat) (now : Time)
    (entries : List Wire.EntryDelta) :
    (GroupEngine.adoptEntries m reapAfter now entries).liveness = m.liveness := by
  unfold GroupEngine.adoptEntries
  induction entries generalizing m with
  | nil => rfl
  | cons entry rest ih => rw [List.foldl_cons, ih, liveness_putEntry, liveness_observeVersion]

theorem liveness_mergeEntries (m : Member) (reapAfter : Nat) (now : Time)
    (entries : List Wire.EntryDelta) :
    (GroupEngine.mergeEntries reapAfter now m entries).1.liveness = m.liveness := by
  induction entries generalizing m with
  | nil => rfl
  | cons entry rest ih =>
    unfold GroupEngine.mergeEntries
    dsimp only
    split
    · rw [ih, liveness_putEntry, liveness_observeVersion]
    · rw [ih, liveness_observeVersion]

end Member

/-! ## What a frame claims -/

/-- The verdict of one line or section, if it is about `x` and its code is known. -/
def claimOf (x node : NodeId) (incarnation : Nat) (status : UInt8) : List Liveness :=
  if node = x then (Status.fromWire status).toList.map (⟨incarnation, ·⟩) else []

def Frame.claims (x : NodeId) (frame : Frame) : List Liveness :=
  match frame.kind with
  | .digest => frame.digest.flatMap fun d => claimOf x d.node d.incarnation d.status
  | .delta => frame.members.flatMap fun md => claimOf x md.node md.incarnation md.status
  | _ => []

namespace GroupEngine

variable {e : GroupEngine} {x : NodeId} {now : Time}

def liveness (e : GroupEngine) (x : NodeId) : Option Liveness := (e.bare x).map Member.liveness

theorem liveness_congr {e e' : GroupEngine} (h : e'.bare x = e.bare x) :
    e'.liveness x = e.liveness x := by
  rw [liveness, h, liveness]

theorem liveness_insert {e e' : GroupEngine} {n : NodeId} {m : Member}
    (h : e'.members = e.members.insert n m) (x : NodeId) :
    e'.liveness x = if x = n then some m.liveness else e.liveness x := by
  unfold liveness
  rw [bare_insert h]
  split <;> rfl

theorem liveness_refreshContentHash (e : GroupEngine) (n : NodeId) (now : Time) (x : NodeId) :
    (e.refreshContentHash n now).liveness x = e.liveness x := by
  unfold refreshContentHash
  split
  · rfl
  next m hm =>
    split
    · rfl
    rw [modifyMember, hm, liveness_insert rfl]
    split
    next heq => rw [heq, liveness, bare_of_some hm]; rfl
    next => rfl

/-! ## Merges -/

theorem liveness_mergeRemoteLiveness (e : GroupEngine) (node : NodeId) (incarnation : Nat)
    (status : Status) (now : Time) (x : NodeId) :
    (e.mergeRemoteLiveness node incarnation status now).1.liveness x =
      if x = node then Liveness.hear (e.liveness x) ⟨incarnation, status⟩ else e.liveness x := by
  unfold mergeRemoteLiveness
  split
  next hnone =>
    rw [liveness_congr (bare_stamp ..), liveness_insert rfl, Member.liveness_armStatus]
    split
    next heq =>
      rw [heq, liveness, bare_of_none hnone]
      rfl
    next => rfl
  next cur hcur =>
    have hheld : x = node → e.liveness x = some cur.liveness := by
      rintro rfl
      rw [liveness, bare_of_some hcur]
      rfl
    rw [Member.supersededBy_liveness]
    split
    next hwins =>
      rw [liveness_congr (bare_stamp ..), liveness_insert rfl, Member.liveness_armStatus,
        Member.liveness_adoptStatus]
      split
      next heq => rw [hheld heq, Liveness.hear_of_superseded hwins]
      next => rfl
    next hkeeps =>
      split
      next heq => rw [hheld heq, Liveness.hear_of_not_superseded (by simpa using hkeeps)]
      next => rfl

theorem liveness_mergePeerDelta (e : GroupEngine) (delta : Wire.MemberDelta) (status : Status)
    (now : Time) (x : NodeId) :
    (e.mergePeerDelta delta status now).1.liveness x =
      if x = delta.node then Liveness.hear (e.liveness x) ⟨delta.incarnation, status⟩
      else e.liveness x := by
  have hstamp : ∀ (b : Bool) (e : GroupEngine) (n : NodeId),
      (if b then e.stamp n else e).liveness x = e.liveness x := by
    intro b e n
    cases b
    · rfl
    · exact liveness_congr (bare_stamp ..)
  unfold mergePeerDelta
  split
  next hnone =>
    rw [liveness_congr (bare_stamp ..), liveness_insert rfl, Member.liveness_observeVersion,
      Member.liveness_adoptEntries, Member.liveness_armStatus]
    split
    next heq =>
      rw [heq, liveness, bare_of_none hnone]
      rfl
    next => rfl
  next cur hcur =>
    rw [hstamp, liveness_insert rfl, Member.liveness_observeVersion, Member.liveness_mergeEntries]
    split
    next heq =>
      have hheld : e.liveness x = some cur.liveness := by
        rw [heq, liveness, bare_of_some hcur]
        rfl
      rw [hheld, Member.supersededBy_liveness]
      split
      next hwins =>
        rw [Member.liveness_armStatus, Member.liveness_adoptStatus,
          Liveness.hear_of_superseded hwins]
      next hkeeps => rw [Liveness.hear_of_not_superseded (by simpa using hkeeps)]
    next => rfl

theorem liveness_applyRefutation (e : GroupEngine) (t : Option Nat) (hx : x ≠ e.localId) :
    (e.applyRefutation t).1.liveness x = e.liveness x := by
  unfold applyRefutation
  split
  · rfl
  refine (liveness_congr (bare_stamp ..)).trans ?_
  unfold modifyMember
  split
  · rw [liveness_insert rfl, if_neg hx]
    rfl
  · rfl

theorem liveness_mergeOwnEcho (e : GroupEngine) (entry : Wire.EntryDelta) (now : Time)
    (hx : x ≠ e.localId) : (e.mergeOwnEcho entry now).1.liveness x = e.liveness x := by
  have hput : ∀ m : Member,
    ({ e with members := e.members.insert e.localId m } : GroupEngine).stampSelf.liveness x =
      e.liveness x := by
    intro m
    refine (liveness_congr (bare_stamp ..)).trans ?_
    rw [liveness_insert rfl, if_neg hx]
  unfold mergeOwnEcho
  split
  · rfl
  split
  · rfl
  split
  · split
    · rfl
    · exact hput _
  · exact hput _

theorem liveness_mergeOwnEchoes (e : GroupEngine) (entries : List Wire.EntryDelta) (now : Time)
    (hx : x ≠ e.localId) : (mergeOwnEchoes now e entries).1.liveness x = e.liveness x := by
  induction entries generalizing e with
  | nil => rfl
  | cons entry rest ih =>
    have hlocal : (e.mergeOwnEcho entry now).1.localId = e.localId :=
      congrArg Still.localId (still_mergeOwnEcho e entry now)
    exact (ih _ (hlocal ▸ hx)).trans (liveness_mergeOwnEcho e entry now hx)

theorem liveness_finishMerge (s : MergeState) (hx : x ≠ s.engine.localId) :
    (finishMerge s).1.liveness x = s.engine.liveness x := by
  unfold finishMerge
  dsimp only [Emit.andSay_fst]
  split
  · exact (liveness_congr (bare_recomputeCoordinator ..)).trans (liveness_applyRefutation _ _ hx)
  · exact liveness_applyRefutation _ _ hx

theorem liveness_mergeDigestLine (s : MergeState) (d : Wire.NodeDigest)
    (hx : x ≠ s.engine.localId) :
    (mergeDigestLine now s d).engine.liveness x =
      Liveness.hearAll (s.engine.liveness x) (claimOf x d.node d.incarnation d.status) := by
  unfold mergeDigestLine claimOf
  cases hcode : Status.fromWire d.status with
  | none =>
    dsimp only
    split <;> rfl
  | some status =>
    dsimp only
    by_cases hself : d.node = s.engine.localId
    · rw [if_pos hself, if_neg fun h => hx (h.symm.trans hself)]
      split <;> rfl
    rw [if_neg hself, liveness_mergeRemoteLiveness]
    by_cases hnode : d.node = x
    · rw [if_pos hnode.symm, if_pos hnode]
      rfl
    · rw [if_neg fun h => hnode h.symm, if_neg hnode]
      rfl

theorem liveness_mergeMember (s : MergeState) (md : Wire.MemberDelta) (hx : x ≠ s.engine.localId) :
    (mergeMember now s md).engine.liveness x =
      Liveness.hearAll (s.engine.liveness x) (claimOf x md.node md.incarnation md.status) := by
  unfold mergeMember claimOf
  cases hcode : Status.fromWire md.status with
  | none =>
    dsimp only
    split <;> rfl
  | some status =>
    dsimp only
    by_cases hself : md.node = s.engine.localId
    · rw [if_pos hself, if_neg fun h => hx (h.symm.trans hself)]
      exact liveness_mergeOwnEchoes _ _ _ hx
    rw [if_neg hself]
    rw [liveness_mergePeerDelta]
    by_cases hnode : md.node = x
    · rw [if_pos hnode.symm, if_pos hnode]
      rfl
    · rw [if_neg fun h => hnode h.symm, if_neg hnode]
      rfl

theorem localId_mergeDigestLine (s : MergeState) (d : Wire.NodeDigest) :
    (mergeDigestLine now s d).engine.localId = s.engine.localId := by
  unfold mergeDigestLine
  split
  · rfl
  split
  · split <;> rfl
  · exact congrArg Still.localId (still_mergeRemoteLiveness ..)

theorem localId_mergeMember (s : MergeState) (delta : Wire.MemberDelta) :
    (mergeMember now s delta).engine.localId = s.engine.localId := by
  unfold mergeMember
  split
  · rfl
  split
  · exact congrArg Still.localId (still_mergeOwnEchoes ..)
  · exact congrArg Still.localId (still_mergePeerDelta ..)

/-- A pass over the sections of a frame hears their claims in order. -/
theorem liveness_pass {α : Type} {f : MergeState → α → MergeState} {claim : α → List Liveness}
    (hlocal : ∀ s a, (f s a).engine.localId = s.engine.localId)
    (hf : ∀ s a, x ≠ s.engine.localId →
      (f s a).engine.liveness x = Liveness.hearAll (s.engine.liveness x) (claim a))
    (s : MergeState) (l : List α) (hx : x ≠ s.engine.localId) :
    (l.foldl f s).engine.liveness x = Liveness.hearAll (s.engine.liveness x) (l.flatMap claim) ∧
      (l.foldl f s).engine.localId = s.engine.localId := by
  induction l generalizing s with
  | nil => exact ⟨rfl, rfl⟩
  | cons a l ih =>
    obtain ⟨hrest, hsame⟩ := ih (f s a) ((hlocal s a).symm ▸ hx)
    rw [List.foldl_cons, hrest, hf s a hx, List.flatMap_cons, Liveness.hearAll_append]
    exact ⟨rfl, hsame.trans (hlocal s a)⟩

theorem members_mergeMetadata (e : GroupEngine) (incoming : List Wire.MetaDelta) :
    (e.mergeMetadata incoming).1.members = e.members := by
  refine Emit.each_inv (P := fun (e' : GroupEngine) => e'.members = e.members)
    (fun s d _ hs => ?_) rfl
  unfold mergeMeta
  dsimp only
  split
  · split <;> exact hs
  · exact hs

/-! ## Frames -/

/-- An engine hears exactly what a digest or a delta claims. -/
theorem liveness_onFrame (e : GroupEngine) (source : NodeId) (frame : Frame) (now : Time)
    (hkind : frame.kind = .digest ∨ frame.kind = .delta) (hx : x ≠ e.localId) :
    (e.onFrame source frame now).1.liveness x =
      Liveness.hearAll (e.liveness x) (Frame.claims x frame) := by
  unfold onFrame Frame.claims
  rcases hkind with hkind | hkind <;> rw [hkind] <;> dsimp only
  · unfold onDigest
    dsimp only [Emit.andSay_fst, Emit.andThen_fst]
    rw [liveness_congr (bare_congr (members_mergeMetadata ..) x)]
    have hhash : ∀ (l : List Wire.NodeDigest) (e : GroupEngine),
        (l.foldl (fun e d => e.refreshContentHash d.node now) e).liveness x = e.liveness x := by
      intro l
      induction l with
      | nil => exact fun _ => rfl
      | cons d l ih => exact fun e => (ih _).trans (liveness_refreshContentHash ..)
    rw [hhash]
    unfold mergeDigestLiveness
    obtain ⟨hpass, hlocal⟩ := liveness_pass (f := mergeDigestLine now) localId_mergeDigestLine
      (fun s d => liveness_mergeDigestLine s d) ⟨e, false, [], none⟩ frame.digest hx
    rw [liveness_finishMerge _ (hlocal ▸ hx)]
    exact hpass
  · unfold onDelta mergeMembers
    dsimp only [Emit.andSay_fst]
    obtain ⟨hpass, hlocal⟩ := liveness_pass (f := mergeMember now) localId_mergeMember
      (fun s md => liveness_mergeMember s md) ⟨e, false, [], none⟩ frame.members hx
    rw [liveness_finishMerge _ (hlocal ▸ hx)]
    exact hpass

/-! ## Two engines -/

/-- A frame from a node, at an instant. -/
structure Inbound where
  source : NodeId
  frame : Frame
  now : Time

def hearFrames (e : GroupEngine) (fs : List Inbound) : GroupEngine :=
  fs.foldl (fun e f => (e.onFrame f.source f.frame f.now).1) e

/-- The frames are digests and deltas, and claim these verdicts about `x` in order. -/
structure Carries (x : NodeId) (fs : List Inbound) (claims : List Liveness) : Prop where
  kind : ∀ f ∈ fs, f.frame.kind = .digest ∨ f.frame.kind = .delta
  claims : fs.flatMap (fun f => Frame.claims x f.frame) = claims

/-- The engine after it was sent another's digest line about `x`, if the other has one. -/
def hearLine (e other : GroupEngine) (x source : NodeId) (sent now : Time) : GroupEngine :=
  match other.members[x]? with
  | none => e
  | some m =>
    (e.onFrame source { Frame.bare .digest e.group none with digest := [other.summary x m sent] }
      now).1

theorem localId_onFrame (e : GroupEngine) (f : Inbound) :
    (e.onFrame f.source f.frame f.now).1.localId = e.localId :=
  localId_of_touched (touched_onFrame e f.source f.frame (.inl rfl))

theorem localId_hearFrames (e : GroupEngine) (fs : List Inbound) :
    (e.hearFrames fs).localId = e.localId := by
  induction fs generalizing e with
  | nil => rfl
  | cons f fs ih => exact (ih _).trans (localId_onFrame e f)

theorem liveness_hearFrames {fs : List Inbound} {claims : List Liveness} (h : Carries x fs claims)
    (hx : x ≠ e.localId) :
    (e.hearFrames fs).liveness x = Liveness.hearAll (e.liveness x) claims := by
  obtain ⟨hkind, rfl⟩ := h
  induction fs generalizing e with
  | nil => rfl
  | cons f fs ih =>
    refine (ih ((localId_onFrame e f).symm ▸ hx) fun g hg =>
      hkind g (List.mem_cons_of_mem f hg)).trans ?_
    rw [liveness_onFrame _ _ _ _ (hkind f List.mem_cons_self) hx, List.flatMap_cons,
      Liveness.hearAll_append]

theorem liveness_hearLine (e other : GroupEngine) (source : NodeId) (sent now : Time)
    (hx : x ≠ e.localId) :
    (e.hearLine other x source sent now).liveness x =
      Liveness.hearFrom (e.liveness x) (other.liveness x) := by
  unfold hearLine
  split
  next hnone =>
    rw [liveness, liveness, bare_of_none hnone]
    rfl
  next m hm =>
    have hclaims : Frame.claims x { Frame.bare .digest e.group none with
        digest := [other.summary x m sent] } = [m.liveness] := by
      simp [Frame.claims, Frame.bare, claimOf, summary, Member.liveness]
    have hother : other.liveness x = some m.liveness := by
      rw [liveness, bare_of_some hm]
      rfl
    rw [liveness_onFrame _ _ _ _ (.inl rfl) hx, hclaims, hother]
    rfl

/-- Any sequence of verdicts reaches an engine in some frames. -/
theorem exists_carries (group : GroupId) (x : NodeId) (claims : List Liveness) :
    ∃ fs, Carries x fs claims := by
  refine ⟨claims.map fun w => ⟨x, { Frame.bare .digest group none with
    digest := [⟨x, w.incarnation, w.status.toWire, 0, 0⟩] }, 0⟩, ?_, ?_⟩
  · intro f hf
    obtain ⟨w, -, rfl⟩ := List.mem_map.mp hf
    exact .inl rfl
  · rw [List.flatMap_map]
    simp [Frame.claims, Frame.bare, claimOf]

/-- Engines that exchange lines agree when their records do. -/
theorem exchange_iff {a b : GroupEngine} (ha : x ≠ a.localId) (hb : x ≠ b.localId)
    {fs gs : List Inbound} {p q : List Liveness} (hfs : Carries x fs p) (hgs : Carries x gs q)
    (source source' : NodeId) (sent sent' now now' : Time) :
    ((a.hearFrames fs).hearLine (b.hearFrames gs) x source sent now).liveness x =
        ((b.hearFrames gs).hearLine (a.hearFrames fs) x source' sent' now').liveness x ↔
      Liveness.hearFrom (Liveness.hearAll (a.liveness x) p) (Liveness.hearAll (b.liveness x) q) =
        Liveness.hearFrom (Liveness.hearAll (b.liveness x) q)
          (Liveness.hearAll (a.liveness x) p) := by
  have hlocal : x ≠ (a.hearFrames fs).localId := localId_hearFrames a fs ▸ ha
  have hlocal' : x ≠ (b.hearFrames gs).localId := localId_hearFrames b gs ▸ hb
  rw [liveness_hearLine _ _ _ _ _ hlocal, liveness_hearLine _ _ _ _ _ hlocal',
    liveness_hearFrames hfs ha, liveness_hearFrames hgs hb]

/-- Two engines that hear the same verdicts about a remote member, in any frames and any two
orders, and then one digest line of each other, agree on it exactly when the verdicts are
settled between the records they began with. -/
theorem liveness_converges_iff {a b : GroupEngine} (ha : x ≠ a.localId) (hb : x ≠ b.localId)
    (claims : List Liveness) :
    (∀ fs gs p q, Carries x fs p → Carries x gs q → p.Perm claims → q.Perm claims →
      ∀ source source' sent sent' now now',
        ((a.hearFrames fs).hearLine (b.hearFrames gs) x source sent now).liveness x =
          ((b.hearFrames gs).hearLine (a.hearFrames fs) x source' sent' now').liveness x) ↔
      Liveness.Settled (a.liveness x) (b.liveness x) claims := by
  rw [← Liveness.settled_iff]
  constructor
  · intro h p q hp hq
    obtain ⟨fs, hfs⟩ := exists_carries a.group x p
    obtain ⟨gs, hgs⟩ := exists_carries a.group x q
    exact (exchange_iff ha hb hfs hgs x x 0 0 0 0).mp (h fs gs p q hfs hgs hp hq x x 0 0 0 0)
  · intro h fs gs p q hfs hgs hp hq source source' sent sent' now now'
    exact (exchange_iff ha hb hfs hgs source source' sent sent' now now').mpr (h p q hp hq)

/-! Two engines that have never heard of `x`. -/

def strangerA : GroupEngine := .blank (.ofChar 'g') (.ofChar 'a') [] .default

def strangerB : GroupEngine := .blank (.ofChar 'g') (.ofChar 'b') [] .default

theorem liveness_blank {group : GroupId} {me x : NodeId} {seeds : List NodeId} {config : Config}
    (h : x ≠ me) : (blank group me seeds config).liveness x = none := by
  have hnone : (blank group me seeds config).members[x]? = none := by
    unfold blank
    rw [getElem?_insert_of_ne _ _ h]
    simp
  rw [liveness, bare_of_none hnone]
  rfl

theorem strangerA_liveness : strangerA.liveness (.ofChar 'x') = none := liveness_blank (by decide)

theorem strangerB_liveness : strangerB.liveness (.ofChar 'x') = none := liveness_blank (by decide)

/-- One engine hears of a death first and the other of a later suspicion. -/
theorem death_and_suspicion_diverge :
    ∃ fs gs p q, Carries (.ofChar 'x') fs p ∧ Carries (.ofChar 'x') gs q ∧
      p.Perm [⟨1, .dead⟩, ⟨2, .suspect⟩] ∧ q.Perm [⟨1, .dead⟩, ⟨2, .suspect⟩] ∧
      ∀ source source' sent sent' now now',
        ((strangerA.hearFrames fs).hearLine (strangerB.hearFrames gs) (.ofChar 'x') source sent
            now).liveness (.ofChar 'x') ≠
          ((strangerB.hearFrames gs).hearLine (strangerA.hearFrames fs) (.ofChar 'x') source' sent'
            now').liveness (.ofChar 'x') := by
  obtain ⟨fs, hfs⟩ := exists_carries (.ofChar 'g') (.ofChar 'x') [⟨1, .dead⟩, ⟨2, .suspect⟩]
  obtain ⟨gs, hgs⟩ := exists_carries (.ofChar 'g') (.ofChar 'x') [⟨2, .suspect⟩, ⟨1, .dead⟩]
  refine ⟨fs, gs, _, _, hfs, hgs, .refl _, .swap .., ?_⟩
  intro source source' sent sent' now now'
  have ha : NodeId.ofChar 'x' ≠ strangerA.localId := by decide
  have hb : NodeId.ofChar 'x' ≠ strangerB.localId := by decide
  rw [ne_eq, exchange_iff ha hb hfs hgs, strangerA_liveness, strangerB_liveness]
  decide

theorem liveness_converges_iff_strangers :
    NodeId.ofChar 'x' ≠ strangerA.localId ∧ NodeId.ofChar 'x' ≠ strangerB.localId ∧
    ∀ fs gs p q, Carries (.ofChar 'x') fs p → Carries (.ofChar 'x') gs q →
      p.Perm [⟨1, .alive⟩, ⟨1, .suspect⟩] → q.Perm [⟨1, .alive⟩, ⟨1, .suspect⟩] →
      ∀ source source' sent sent' now now',
        ((strangerA.hearFrames fs).hearLine (strangerB.hearFrames gs) (.ofChar 'x') source sent
            now).liveness (.ofChar 'x') =
          ((strangerB.hearFrames gs).hearLine (strangerA.hearFrames fs) (.ofChar 'x') source' sent'
            now').liveness (.ofChar 'x') := by
  have ha : NodeId.ofChar 'x' ≠ strangerA.localId := by decide
  have hb : NodeId.ofChar 'x' ≠ strangerB.localId := by decide
  refine ⟨ha, hb, (liveness_converges_iff ha hb _).mpr ?_⟩
  rw [strangerA_liveness, strangerB_liveness]
  have hnone : ∀ v, Liveness.Lasting none [⟨1, .alive⟩, ⟨1, .suspect⟩] v → v.status ≠ .dead := by
    rintro v ⟨hv | ⟨hv, _⟩, _⟩
    · cases hv
    · simp only [List.mem_cons, List.not_mem_nil, or_false] at hv
      rcases hv with rfl | rfl <;> simp
  intro v w hv hw hclash
  rcases hclash with ⟨hdead, _⟩ | ⟨hdead, _⟩
  · exact hnone v hv hdead
  · exact hnone w hw hdead

end GroupEngine

end Groupnet
