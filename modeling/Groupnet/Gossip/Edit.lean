import Groupnet.Gossip.Calls
import Groupnet.Gossip.Deadlines

/-!
# What a touch does to a record

Behind the index every touch edits at most one member's record.  `Edit` lists the edits:
the record before, the keys whose entries it changes, and the record after.  A property of
records that the index marks do not matter to is kept by every call when every edit keeps
it.
-/

namespace Groupnet

open Wire (Frame)

namespace GroupEngine

/-- The record of a node after a claim about its liveness. -/
def hearClaim (e : GroupEngine) (m : Option Member) (incarnation : Nat) (status : Status)
    (now : Time) : Member :=
  match m with
  | none => armStatus (Member.new incarnation status now) status now e.heardSuspicionMs
      e.config.suspectTimeoutMs
  | some cur =>
    if cur.supersededBy incarnation status then
      armStatus ({ cur with incarnation := incarnation }.adoptStatus status now) status now
        e.heardSuspicionMs e.config.suspectTimeoutMs
    else cur

/-- A node's record after the entries of a section, with the keys adopted.  Of an unknown
node all are. -/
def hearEntries (e : GroupEngine) (known : Bool) (m : Member) (entries : List Wire.EntryDelta)
    (now : Time) : Member × List String :=
  if known then mergeEntries e.reapAfter now m entries
  else (adoptEntries m e.reapAfter now entries, entries.map Wire.EntryDelta.key)

end GroupEngine

open GroupEngine

/-- One edit of the record of `x`, with the keys whose entries it changes. -/
inductive Edit (now : Time) (c : Cause) (e : GroupEngine) (x : NodeId) :
    Option Member → List String → Option Member → Prop
  | kept (m : Option Member) : Edit now c e x m [] m
  | hashed (m : Member) : Edit now c e x (some m) []
      (some { m with hashCache := some (e.computeContentHash m now) })
  | met (since : Time) (hc : (∃ f, c = .frame f) ∨ c = .command (.addPeer x)) (hx : x ≠ e.localId) :
      Edit now c e x none [] (some (Member.new 0 .alive since))
  | heard (m : Option Member) (f : Frame) (incarnation : Nat) (status : Status) (hc : c = .frame f)
      (hx : x ≠ e.localId) : Edit now c e x m [] (some (e.hearClaim m incarnation status now))
  | merged (m : Option Member) (f : Frame) (d : Wire.MemberDelta) (status : Status)
      (hc : c = .frame f) (hkind : f.kind = .delta) (hd : d ∈ f.members) (hnode : d.node = x)
      (hx : x ≠ e.localId) :
      Edit now c e x m
        (e.hearEntries m.isSome (e.hearClaim m d.incarnation status now) d.entries now).2
        (some ((e.hearEntries m.isSome (e.hearClaim m d.incarnation status now) d.entries
          now).1.observeVersion d.maxVersion))
  /-- An authored key is kept and out-versions its echo. -/
  | outversioned (m : Member) (f : Frame) (d : Wire.MemberDelta) (entry : Wire.EntryDelta)
      (en : StateEntry) (hc : c = .frame f) (hkind : f.kind = .delta) (hd : d ∈ f.members)
      (hx : x = e.localId) (hentry : entry ∈ d.entries)
      (hauthored : e.authored.contains entry.key = true) (hheld : m.entries[entry.key]? = some en) :
      Edit now c e x (some m) [entry.key] (some (({ m with
        entries := m.entries.insert entry.key { en with version := satAdd entry.version 1 }
        }.entriesChanged).observeVersion (satAdd entry.version 1)))
  /-- An echo of a key not authored is adopted. -/
  | echoed (m : Member) (f : Frame) (d : Wire.MemberDelta) (entry : Wire.EntryDelta)
      (hc : c = .frame f) (hkind : f.kind = .delta) (hd : d ∈ f.members) (hx : x = e.localId)
      (hentry : entry ∈ d.entries) (hauthored : e.authored.contains entry.key = false) :
      Edit now c e x (some m) [entry.key] (some ((m.observeVersion entry.version).putEntry entry.key
        (adoptEntry entry now) e.reapAfter))
  | refuted (m : Member) (f : Frame) (incarnation : Nat) (hc : c = .frame f)
      (hnamed : e.NamedAt f incarnation) (hle : e.incarnation ≤ incarnation) (hx : x = e.localId) :
      Edit now c e x (some m) [] (some ({ m with
        incarnation := wrapAdd incarnation 1 }.adoptStatus .alive e.nowHint))
  | suspected (m : Member) (hc : c = .clock) (hstatus : m.status = .alive) :
      Edit now c e x (some m) [] (some ((m.adoptStatus .suspect now).suspectHere now
        e.config.suspectTimeoutMs e.config.probeTimeoutMs))
  | confirmed (m : Member) (hc : c = .clock) (hstatus : m.status = .suspect) :
      Edit now c e x (some m) [] (some
        { m.suspectHere now e.config.suspectTimeoutMs e.config.probeTimeoutMs with
          suspectDue := min m.suspectDue (satAdd now e.config.suspectTimeoutMs) })
  | accused (m : Member) (hc : c = .clock) :
      Edit now c e x (some m) [] (some { m with
        accuseAt := satAdd now
          (if m.suspectedHere then e.config.probeTimeoutMs else e.config.gossipIntervalMs) })
  | buried (m : Member) (hc : c = .clock) (hx : x ≠ e.localId) :
      Edit now c e x (some m) [] (some { m.adoptStatus .dead now with deadSince := now })
  | forgotten (m : Member) (hc : c = .clock) (hx : x ≠ e.localId) : Edit now c e x (some m) [] none
  | reaped (m : Member) (hc : c = .clock) :
      Edit now c e x (some m) ((m.takeDueEntries now).2.filterMap fun p =>
        if p.2.tombstone then none else some p.1) (some (m.takeDueEntries now).1)
  | authored (m : Member) (cmd : Command) (w : EntryWrite) (hc : c = .command cmd)
      (hw : cmd.write = some w) (hx : x = e.localId) :
      Edit now c e x (some m) [w.key] (some ({ m with
        maxStateVersion := satAdd m.maxStateVersion 1 }.putEntry w.key (StateEntry.adopted
          (satAdd m.maxStateVersion 1) w.value w.ttlMs w.tombstone e.nowHint) e.reapAfter))
  | left (m : Member) (hc : c = .command .leave) (hx : x = e.localId) :
      Edit now c e x (some m) []
        (some { m.adoptStatus .dead e.nowHint with deadSince := e.nowHint })

namespace GroupEngine

variable {p : Powers} {now : Time} {c : Cause} {e e' : GroupEngine} {x n : NodeId}

theorem mergeRemoteLiveness_eq (e : GroupEngine) (node : NodeId) (incarnation : Nat)
    (status : Status) (now : Time) (x : NodeId) :
    (e.mergeRemoteLiveness node incarnation status now).1.bare x =
      if x = node then some (e.hearClaim e.members[node]? incarnation status now).bare
      else e.bare x := by
  unfold mergeRemoteLiveness hearClaim
  cases hm : e.members[node]? with
  | none => exact (bare_stamp ..).trans (bare_insert rfl x)
  | some cur =>
    dsimp only
    split
    · exact (bare_stamp ..).trans (bare_insert rfl x)
    split
    next hx => rw [hx, bare_of_some hm]
    · rfl

theorem bare_stampIf (b : Bool) (e : GroupEngine) (n x : NodeId) :
    (if b then e.stamp n else e).bare x = e.bare x := by
  cases b with
  | false => rfl
  | true => exact bare_stamp e n x

theorem mergePeerDelta_eq (e : GroupEngine) (d : Wire.MemberDelta) (status : Status) (now : Time)
    (x : NodeId) :
    (e.mergePeerDelta d status now).2.2 = (e.hearEntries e.members[d.node]?.isSome
      (e.hearClaim e.members[d.node]? d.incarnation status now) d.entries now).2 ∧
    (e.mergePeerDelta d status now).1.bare x =
      if x = d.node then some ((e.hearEntries e.members[d.node]?.isSome
        (e.hearClaim e.members[d.node]? d.incarnation status now) d.entries
          now).1.observeVersion d.maxVersion).bare
      else e.bare x := by
  unfold mergePeerDelta hearEntries hearClaim
  cases e.members[d.node]? with
  | none => exact ⟨rfl, (bare_stamp ..).trans (bare_insert rfl x)⟩
  | some cur => exact ⟨rfl, (bare_stampIf ..).trans (bare_insert rfl x)⟩

theorem bare_modify (e : GroupEngine) (n : NodeId) (f : Member → Member) (x : NodeId) :
    (e.modifyMember n f).bare x =
      if x = n then (e.members[n]?.map f).map Member.bare else e.bare x := by
  unfold modifyMember
  cases hm : e.members[n]? with
  | none =>
    dsimp only
    by_cases hx : x = n
    · rw [if_pos hx, hx]
      exact bare_of_none hm
    · rw [if_neg hx]
  | some m => exact bare_insert rfl x

theorem members_forget (e : GroupEngine) (n : NodeId) : (e.forget n).members = e.members.erase n ∨
    e.members[n]? = none ∧ e.forget n = e := by
  unfold forget
  split
  next hm => exact .inr ⟨hm, rfl⟩
  · left
    dsimp only
    split <;> split <;> split <;> split <;> first | rfl | (split <;> rfl)

theorem bare_forget (e : GroupEngine) (n x : NodeId) :
    (e.forget n).bare x = if x = n then none else e.bare x := by
  rcases members_forget e n with h | ⟨hm, h⟩
  · unfold bare
    rw [h, Std.TreeMap.getElem?_erase]
    by_cases hx : x = n
    · subst hx
      simp
    · rw [if_neg (by simpa using Ne.symm hx), if_neg hx]
  · rw [h]
    split
    next hx => rw [hx, bare_of_none hm]
    · rfl

theorem bare_reapMemberEntries (e : GroupEngine) (n x : NodeId) (now : Time) :
    (reapMemberEntries now e n).1.bare x =
      if x = n then (e.members[n]?.map fun m => (m.takeDueEntries now).1).map Member.bare
      else e.bare x := by
  unfold reapMemberEntries
  cases hm : e.members[n]? with
  | none =>
    dsimp only
    by_cases hx : x = n
    · rw [if_pos hx, hx]
      exact bare_of_none hm
    · rw [if_neg hx]
  | some m =>
    dsimp only
    split
    · exact bare_insert rfl x
    · exact (bare_reindex ..).trans (bare_insert rfl x)

theorem bare_probeRing (e : GroupEngine) (x : NodeId) : e.probeRing.1.bare x = e.bare x := by
  unfold probeRing
  split <;> rfl

theorem bare_setBootstrapContacts (e : GroupEngine) (contacts : List NodeId) (x : NodeId) :
    (e.setBootstrapContacts contacts).bare x = e.bare x := by
  unfold setBootstrapContacts
  split
  · rfl
  · dsimp only
    split <;> rfl

theorem bare_mergeMeta (e : GroupEngine) (d : Wire.MetaDelta) (x : NodeId) :
    (e.mergeMeta d).1.bare x = e.bare x := by
  unfold mergeMeta
  dsimp only
  split <;> split <;> rfl

end GroupEngine

/-- What a touch leaves of the record of `x`. -/
def Edits (now : Time) (c : Cause) (e : GroupEngine) (owed : List (NodeId × String))
    (e' : GroupEngine) (x : NodeId) : Prop :=
  ∃ keys m', Edit now c e x e.members[x]? keys m' ∧ e'.bare x = m'.map Member.bare ∧
    ∀ k ∈ keys, (x, k) ∈ owed

namespace Edits

variable {p : Powers} {now : Time} {c : Cause} {e e' : GroupEngine} {x n : NodeId}
  {owed : List (NodeId × String)}

theorem kept (h : e'.bare x = e.bare x) : Edits now c e owed e' x :=
  ⟨[], _, .kept _, h, fun _ hk => absurd hk List.not_mem_nil⟩

/-- An edit of the record of `n` alone. -/
theorem only {keys : List String} {m' : Option Member}
    (hbare : ∀ x, e'.bare x = if x = n then m'.map Member.bare else e.bare x)
    (hedit : Edit now c e n e.members[n]? keys m') (howed : ∀ k ∈ keys, (n, k) ∈ owed) :
    Edits now c e owed e' x := by
  by_cases hx : x = n
  · subst hx
    refine ⟨keys, m', hedit, ?_, howed⟩
    rw [hbare, if_pos rfl]
  · refine .kept ?_
    rw [hbare, if_neg hx]

/-- A record put in place and filed. -/
theorem put {keys : List String} {e₁ : GroupEngine} {m : Member} (hfile : e'.bare x = e₁.bare x)
    (hput : e₁.members = e.members.insert n m) (hedit : Edit now c e n e.members[n]? keys (some m))
    (howed : ∀ k ∈ keys, (n, k) ∈ owed) : Edits now c e owed e' x := by
  by_cases hx : x = n
  · subst hx
    refine ⟨keys, some m, hedit, ?_, howed⟩
    rw [hfile, bare_insert hput, if_pos rfl]
    rfl
  · refine .kept ?_
    rw [hfile, bare_insert hput, if_neg hx]

end Edits

open GroupEngine in
theorem Touch.edits {p : Powers} {now : Time} {c : Cause} {e e' : GroupEngine}
    {owed : List (NodeId × String)} {said : List Effect} (h : Touch p now c e owed said e')
    (x : NodeId) :
    Edits now c e owed e' x := by
  have hnone : ∀ {n : NodeId}, ∀ k ∈ ([] : List String), (n, k) ∈ owed :=
    fun k hk => absurd hk List.not_mem_nil
  cases h with
  | aside h => exact .kept (bare_congr (congrArg Bearing.members h) x)
  | said | observed | coordinated | targeted | digested | wrote => exact .kept rfl
  | hashed node =>
    unfold refreshContentHash
    cases hm : e.members[node]? with
    | none => exact .kept rfl
    | some m =>
      dsimp only
      split
      · exact .kept rfl
      · rw [modifyMember, hm]
        exact .put rfl rfl (hm ▸ .hashed m) hnone
  | ringed => exact .kept (bare_probeRing ..)
  | contacted => exact .kept (bare_setBootstrapContacts ..)
  | registered => exact .kept (bare_mergeMeta ..)
  | heard f d status hc hkind hd hstatus hnode =>
    exact .only (fun x => mergeRemoteLiveness_eq e d.node d.incarnation status now x)
      (.heard _ f d.incarnation status hc hnode) hnone
  | merged f d status hc hkind hd hstatus hnode =>
    refine .only (fun x => (mergePeerDelta_eq e d status now x).2)
      (.merged _ f d status hc hkind hd rfl hnode) ?_
    intro k hk
    rw [(mergePeerDelta_eq e d status now x).1]
    exact List.mem_map.mpr ⟨k, hk, rfl⟩
  | echoed f d entry hc hkind hd hnode hentry =>
    unfold mergeOwnEcho
    cases hm : e.members[e.localId]? with
    | none => exact .kept rfl
    | some m =>
      dsimp only
      split
      · exact .kept rfl
      split
      next hauthored =>
        cases hheld : m.entries[entry.key]? with
        | none => exact .kept rfl
        | some en =>
          have hedit : Edit now c e e.localId e.members[e.localId]? [entry.key] _ :=
            hm ▸ Edit.outversioned m f d entry en hc hkind hd rfl hentry hauthored hheld
          exact .put (bare_stamp ..) rfl hedit fun k hk => List.mem_map.mpr ⟨k, hk, rfl⟩
      next hauthored =>
        have hedit : Edit now c e e.localId e.members[e.localId]? [entry.key] _ :=
          hm ▸ Edit.echoed m f d entry hc hkind hd rfl hentry (Bool.eq_false_iff.mpr hauthored)
        exact .put (bare_stamp ..) rfl hedit fun k hk => List.mem_map.mpr ⟨k, hk, rfl⟩
  | refuted f incarnation hc hnamed hle hstay =>
    refine .only (n := e.localId) (fun x => (bare_stamp ..).trans (bare_modify _ _ _ x)) ?_ hnone
    cases e.members[e.localId]? with
    | none => exact .kept _
    | some m => exact .refuted m f incarnation hc hnamed hle rfl
  | suspected node m hc hm hstatus =>
    exact .put (bare_stamp ..) rfl (hm ▸ .suspected m hc hstatus) hnone
  | confirmed node m hc hm hstatus =>
    exact .put (bare_reindex ..) rfl (hm ▸ .confirmed m hc hstatus) hnone
  | accused node hc =>
    refine .only (fun x => (bare_reindex ..).trans (bare_modify e node _ x)) ?_ hnone
    cases e.members[node]? with
    | none => exact .kept _
    | some m => exact .accused m hc
  | buried node hc hnode =>
    refine .only (fun x => (bare_stamp ..).trans (bare_modify e node _ x)) ?_ hnone
    cases e.members[node]? with
    | none => exact .kept _
    | some m => exact .buried m hc hnode
  | forgotten node hc hnode =>
    have hedit : Edit now c e node e.members[node]? [] none := by
      cases e.members[node]? with
      | none => exact .kept _
      | some m => exact .forgotten m hc hnode
    exact .only (fun x => bare_forget e node x) hedit hnone
  | reaped node hc =>
    cases hm : e.members[node]? with
    | none =>
      refine .kept ?_
      rw [bare_reapMemberEntries]
      split
      next hx => rw [hm, hx, bare_of_none hm]; rfl
      · rfl
    | some m =>
      have hedit : Edit now c e node e.members[node]? _ (some (m.takeDueEntries now).1) :=
        hm ▸ Edit.reaped m hc
      refine .only (fun x => (bare_reapMemberEntries e node x now).trans (by rw [hm]; rfl)) hedit ?_
      intro k hk
      obtain ⟨p, hp, hpk⟩ := List.mem_filterMap.mp hk
      refine List.mem_filterMap.mpr ⟨p, by simpa using hp, ?_⟩
      split at hpk
      · cases hpk
      next htomb =>
        cases hpk
        rw [if_neg htomb]
  | authored cmd w m hc hw hm =>
    have hedit : Edit now c e e.localId e.members[e.localId]? [w.key] _ :=
      hm ▸ Edit.authored m cmd w hc hw rfl
    refine .put (bare_stamp ..) rfl hedit ?_
    simp
  | left hc =>
    refine .only (n := e.localId) (fun x => (bare_stamp ..).trans (bare_modify _ _ _ x)) ?_ hnone
    cases e.members[e.localId]? with
    | none => exact .kept _
    | some m => exact .left m hc rfl
  | met node since hc hnode hnew =>
    exact .put (bare_stamp ..) rfl (hnew ▸ .met since hc hnode) hnone

end Groupnet
