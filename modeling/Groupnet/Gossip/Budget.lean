import Groupnet.Gossip.Author

/-!
# Frames and the budget

Every digest, request and delta an engine sends fits the frame budget, as long as the
budget holds any one item of it, but for a delta of a single entry.  The one thing no
builder cuts is the metadata: all of it rides the first frame of each digest.  So the
bound holds where the metadata leaves room for a line, and fails where it does not.
-/

namespace Groupnet

open Wire (Frame)

/-! ## Frames of one item -/

namespace Wire

/-- A frame with other items and no metadata. -/
def Frame.holding (f : Frame) (digest : List NodeDigest) (wants : List NodeWant)
    (members : List MemberDelta) : Frame :=
  { f with digest := digest, wants := wants, members := members, metadata := [] }

/-- The items of a section, each as a section with an empty value. -/
def MemberDelta.singles (s : MemberDelta) : List MemberDelta :=
  if s.entries.isEmpty then [s] else s.entries.map fun en =>
    { s with entries := [{ en with value := [] }] }

/-- The frame without items, and with each single item, its value empty. -/
def Frame.singles (f : Frame) : List Frame :=
  f.holding [] [] [] :: (f.digest.map (f.holding [·] [] []) ++ f.wants.map (f.holding [] [·] []) ++
    (f.members.flatMap MemberDelta.singles).map (f.holding [] [] [·]))

def Affords (budget : Nat) (f : Frame) : Prop := ∀ g ∈ f.singles, (encode g).length ≤ budget

instance (budget : Nat) (f : Frame) : Decidable (Affords budget f) :=
  inferInstanceAs (Decidable (∀ g ∈ f.singles, _))

def Frame.OneEntry (f : Frame) : Prop :=
  f.kind = .delta ∧ ∃ s en, f.members = [s] ∧ s.entries = [en]

variable {budget : Nat} {f : Frame}

theorem Affords.bare (h : Affords budget f) : frameLen (f.holding [] [] []) ≤ budget :=
  length_encode (f.holding [] [] []) ▸ h _ List.mem_cons_self

theorem Affords.line (h : Affords budget f) {d : NodeDigest} (hd : d ∈ f.digest) :
    frameLen (f.holding [d] [] []) ≤ budget := by
  rw [← length_encode]
  refine h _ (List.mem_cons_of_mem _ ?_)
  exact List.mem_append_left _ (List.mem_append_left _ (List.mem_map.mpr ⟨d, hd, rfl⟩))

theorem Affords.want (h : Affords budget f) {w : NodeWant} (hw : w ∈ f.wants) :
    frameLen (f.holding [] [w] []) ≤ budget := by
  rw [← length_encode]
  refine h _ (List.mem_cons_of_mem _ ?_)
  exact List.mem_append_left _ (List.mem_append_right _ (List.mem_map.mpr ⟨w, hw, rfl⟩))

theorem Affords.header (h : Affords budget f) {s : MemberDelta} (hs : s ∈ f.members)
    (hnil : s.entries = []) :
    frameLen (f.holding [] [] [s]) ≤ budget := by
  rw [← length_encode]
  refine h _ (List.mem_cons_of_mem _ (List.mem_append_right _ (List.mem_map.mpr ⟨s, ?_, rfl⟩)))
  refine List.mem_flatMap.mpr ⟨s, hs, ?_⟩
  unfold MemberDelta.singles
  rw [if_pos (List.isEmpty_iff.mpr hnil)]
  exact List.mem_cons_self

theorem eq_nil_or_singleton {α : Type} {l : List α} (h : l.length ≤ 1) : l = [] ∨ ∃ x, l = [x] := by
  cases l with
  | nil => exact Or.inl rfl
  | cons x l =>
    cases l with
    | nil => exact Or.inr ⟨x, rfl⟩
    | cons => simp at h

/-- A frame of one line and one want at most, and no metadata, is within a budget that
affords it. -/
theorem Affords.of_one (h : Affords budget f) (hmetadata : f.metadata = [])
    (hmembers : f.members = []) (hdigest : f.digest.length ≤ 1) (hwants : f.wants.length ≤ 1)
    (hkind : f.kind = .digest ∨ f.kind = .deltaRequest ∨ f.kind = .delta) :
    frameLen f ≤ budget := by
  obtain ⟨kind, group, target, digest, wants, members, metadata, lead⟩ := f
  dsimp only at hmetadata hmembers hdigest hwants hkind
  subst hmetadata hmembers
  rcases hkind with rfl | rfl | rfl
  · rcases eq_nil_or_singleton hdigest with rfl | ⟨d, rfl⟩
    · exact h.bare
    · exact h.line List.mem_cons_self
  · rcases eq_nil_or_singleton hwants with rfl | ⟨w, rfl⟩
    · exact h.bare
    · exact h.want List.mem_cons_self
  · exact h.bare

end Wire

open Wire (Affords)

/-! ## What a tick leaves alone -/

/-- A tick makes no member. -/
theorem Edit.absent {now : Time} {e : GroupEngine} {x : NodeId} {keys : List String}
    {new : Option Member} (h : Edit now .clock e x none keys new) : new = none := by
  cases h with
  | kept => rfl
  | met _ hc => rcases hc with ⟨_, hc⟩ | hc <;> cases hc
  | heard _ _ _ _ hc | merged _ _ _ _ hc => cases hc

namespace GroupEngine

variable {e t : GroupEngine}

/-- The metadata and any one member's line fit a frame, or there is no metadata. -/
def Roomy (e : GroupEngine) : Prop :=
  e.metadataDeltas = [] ∨ ∀ (x : NodeId) m now, e.members[x]? = some m →
    Wire.deltaFrameOverhead e.group + Wire.digestLen (e.summary x m now) +
      (4 + Wire.metadataLen e.metadataDeltas) ≤ e.config.maxDeltaFrameBytes.val

/-- What a tick keeps for the frames it sends. -/
structure Steady (e t : GroupEngine) : Prop where
  identity : t.identity = e.identity
  metadata : t.metadata = e.metadata
  members : ∀ x : NodeId, e.members[x]? = none → t.members[x]? = none

theorem Steady.touch {now : Time} {t' : GroupEngine} {owed : List (NodeId × String)}
    {said : List Effect} (ht : Steady e t) (h : Touch p now .clock t owed said t') :
    Steady e t' where
  identity := h.identity_eq.trans ht.identity
  metadata := by
    refine Eq.trans ?_ ht.metadata
    cases hdoings : t'.doings with
    | mk incarnation leaving metadata authored =>
    have hmeta : t'.metadata = metadata := congrArg Doings.metadata hdoings
    have hdoing := h.doing
    rw [hdoings] at hdoing
    rw [hmeta]
    cases hdoing with
    | none | authored | left => rfl
    | refuted _ _ hc | registered _ _ hc | wrote _ _ hc => cases hc
  members x hx := by
    obtain ⟨keys, new, hedit, hbare, _⟩ := h.edits x
    rw [ht.members x hx] at hedit
    rw [hedit.absent] at hbare
    exact Option.map_eq_none_iff.mp hbare

theorem Steady.metadataDeltas_eq (h : Steady e t) : t.metadataDeltas = e.metadataDeltas := by
  unfold metadataDeltas
  rw [h.metadata]

/-- In a roomy state the whole metadata fits with one line, or with none. -/
theorem Roomy.fits {f : Frame} {now : Time} (h : e.Roomy) (he : e.Present) (ht : Steady e t)
    (hafford : Affords e.config.maxDeltaFrameBytes.val f) (hkind : f.kind = .digest)
    (hgroup : f.group = e.group) (htarget : f.target = none) (hmembers : f.members = [])
    (hmetadata : f.metadata = e.metadataDeltas) (hdone : f.digest.length ≤ 1)
    (hwone : f.wants.length ≤ 1)
    (hdigest : ∀ d ∈ f.digest, ∃ m, t.members[d.node]? = some m ∧ d = t.summary d.node m now) :
    Wire.frameLen f ≤ e.config.maxDeltaFrameBytes.val := by
  rcases h with hnone | hroom
  · exact hafford.of_one (hmetadata.trans hnone) hmembers hdone hwone (Or.inl hkind)
  have hlen : Wire.frameLen f = Wire.deltaFrameOverhead e.group + 0 +
    (f.digest.map Wire.digestLen).sum +
      (4 + Wire.metadataLen e.metadataDeltas) := by
    rw [← hgroup, ← hmetadata]
    unfold Wire.frameLen
    rw [hkind, htarget]
    rfl
  rcases Wire.eq_nil_or_singleton hdone with hnil | ⟨d, hd⟩
  · obtain ⟨m, hm⟩ := he
    have hown := hroom e.localId m now hm
    rw [hlen, hnil]
    simp only [List.map_nil, List.sum_nil]
    omega
  · obtain ⟨m, hm, _⟩ := hdigest d (hd ▸ List.mem_cons_self)
    obtain ⟨m₀, hm₀⟩ : ∃ m₀, e.members[d.node]? = some m₀ := by
      cases hm₀ : e.members[d.node]? with
      | none => cases (ht.members _ hm₀).symm.trans hm
      | some m₀ => exact ⟨m₀, rfl⟩
    have hline : Wire.digestLen (e.summary d.node m₀ now) = Wire.digestLen d := rfl
    have hone := hroom d.node m₀ now hm₀
    rw [hlen, hd]
    simp only [List.map_cons, List.map_nil, List.sum_cons, List.sum_nil]
    omega

/-- What an engine says is within the budget, when a tick starts from a roomy state. -/
theorem Utters.fits {c : Cause} {dest : NodeId} {f : Frame} (h : t.Utters p c (.send dest f))
    (he : e.Present) (hid : t.identity = e.identity) (hclock : c = .clock → Steady e t ∧ e.Roomy)
    (hkind : f.kind = .digest ∨ f.kind = .deltaRequest ∨ f.kind = .delta)
    (hafford : Affords e.config.maxDeltaFrameBytes.val f) :
    (Wire.encode f).length ≤ e.config.maxDeltaFrameBytes.val ∨ f.OneEntry := by
  have hbudget : t.config.maxDeltaFrameBytes.val = e.config.maxDeltaFrameBytes.val :=
    congrArg (fun i : Identity => i.config.maxDeltaFrameBytes.val) hid
  cases h with
  | delta _ _ wants now hbuilt =>
    obtain ⟨hdelta, hcut⟩ := of_buildDeltaFrame hbuilt
    rcases hcut with hfits | ⟨s, hs, hone⟩
    · exact Or.inl (hbudget ▸ hfits)
    rcases Wire.eq_nil_or_singleton hone with hnil | ⟨en, hen⟩
    · have hsame : Wire.frameLen f = Wire.frameLen (f.holding [] [] [s]) := by
        unfold Wire.frameLen Wire.Frame.holding
        rw [hdelta, hs]
      rw [Wire.length_encode, hsame]
      exact Or.inl (hafford.header (hs ▸ List.mem_cons_self) hnil)
    · exact Or.inr ⟨hdelta, s, en, hs, hen⟩
  | lines _ _ now hmembers _ hmetadata hcut hdigest =>
    refine Or.inl ?_
    rcases hcut with hfits | ⟨hdone, hwone⟩
    · exact hbudget ▸ hfits
    rw [Wire.length_encode]
    rcases hmetadata with hnone | ⟨hc, hall, hdk, hgroup, htarget⟩
    · exact hafford.of_one hnone hmembers hdone hwone hkind
    obtain ⟨hsteady, hroomy⟩ := hclock hc
    have hsame : t.group = e.group := congrArg Identity.group hid
    exact hroomy.fits he hsteady hafford hdk (hgroup.trans hsame) htarget hmembers
      (hall.trans hsteady.metadataDeltas_eq) hdone hwone hdigest

/-- A step is roomy unless it is a tick, or the start, with more metadata than fits. -/
def RoomyAt (e : GroupEngine) : Event → Prop
  | .start _ | .tick _ => e.Roomy
  | .message _ _ _ | .command _ => True

theorem RoomyAt.roomy {ev : Event} (h : e.RoomyAt ev) (hc : ev.cause e.group = some .clock) :
    e.Roomy := by
  cases ev with
  | start | tick => exact h
  | message source bytes now =>
    obtain ⟨_, _, hframe⟩ := Option.map_eq_some_iff.mp hc
    cases hframe
  | command => cases hc

/-- Every digest, request and delta that an engine sends in a roomy step is within the
budget, when the budget holds any one item of it, but for a delta of one entry. -/
theorem frames_within_budget {group : GroupId} {n : NodeId} {config : Config} {e₀ : GroupEngine}
    (h : Made group n config e₀) (evs : List Event) (ev : Event) (hroomy : (e₀.run evs).RoomyAt ev)
    {dest : NodeId} {f : Frame} (hsent : Effect.send dest f ∈ ((e₀.run evs).handle ev).2)
    (hkind : f.kind = .digest ∨ f.kind = .deltaRequest ∨ f.kind = .delta)
    (hafford : Affords config.maxDeltaFrameBytes.val f) :
    (Wire.encode f).length ≤ config.maxDeltaFrameBytes.val ∨ f.OneEntry := by
  generalize hrun : e₀.run evs = e at hroomy hsent
  have hpresent : e.Present := hrun ▸ run_keeps (fun h => h.present) h.present
  have hid : e.identity = ⟨group, n, config⟩ := hrun ▸ run_keeps
    (P := fun e => e.identity = ⟨group, n, config⟩)
    (fun h hid => h.identity_eq.trans hid) h.identity_eq
  have hbudget : e.config.maxDeltaFrameBytes.val = config.maxDeltaFrameBytes.val :=
    congrArg (fun i : Identity => i.config.maxDeltaFrameBytes.val) hid
  rw [← hbudget] at hafford ⊢
  rcases e.touched_handle ev with ⟨c, hc, owed, htouches, _⟩ | hquiet
  · -- What the call says it says from a state with the same identity, steady in a tick.
    have hstep : ∀ {t owed said t'}, Touch .all ev.instant c t owed said t' →
        t.identity = e.identity ∧ (c = .clock → Steady e t) →
        t'.identity = e.identity ∧ (c = .clock → Steady e t') := by
      rintro t owed said t' htouch ⟨hid, hsteady⟩
      refine ⟨htouch.identity_eq.trans hid, ?_⟩
      rintro rfl
      exact (hsteady rfl).touch htouch
    obtain ⟨t, _, _, _, ⟨hsame, hsteady⟩, htouch, hin⟩ := htouches.step_of_said
      (P := fun t => t.identity = e.identity ∧ (c = .clock → Steady e t)) hstep
        ⟨rfl, fun _ => ⟨rfl, rfl, fun _ h => h⟩⟩ hsent
    cases htouch with
    | said hutters =>
      rw [← List.mem_singleton.mp hin] at hutters
      exact hutters.fits hpresent hsame (fun hclock => ⟨hsteady hclock, hroomy.roomy (hclock ▸ hc)⟩)
        hkind hafford
    | _ => cases hin
  · rw [hquiet] at hsent
    cases hsent

/-! ## Metadata over the budget -/

/-- A budget that holds one digest line of the example. -/
def boxed : Config := { Config.default with maxDeltaFrameBytes := ⟨64, Nat.succ_pos 63⟩ }

def sentFrame : Effect → Option Frame
  | .send _ f => some f
  | _ => none

/-- What a lone engine sends in its first round, and the metadata it has then. -/
def firstRound (evs : List Event) : Option (List Frame × List Wire.MetaDelta) :=
  sole boxed fun e => (((e.run evs).handle (.tick 0)).2.filterMap sentFrame,
    (e.run evs).metadataDeltas)

theorem made_of_firstRound {evs : List Event} {frames : List Frame} {metadata : List Wire.MetaDelta}
    (h : firstRound evs = some (frames, metadata)) :
    ∃ e, Made soleGroup soleSelf boxed e ∧ (e.run evs).metadataDeltas = metadata ∧
      ∀ f ∈ frames, ∃ dest, Effect.send dest f ∈ ((e.run evs).handle (.tick 0)).2 := by
  obtain ⟨e, hnew, hpair⟩ := new_of_sole h
  obtain ⟨hframes, hmetadata⟩ := Prod.mk.inj hpair
  refine ⟨e, .new hnew, hmetadata, fun f hf => ?_⟩
  rw [← hframes] at hf
  obtain ⟨x, hx, hsent⟩ := List.mem_filterMap.mp hf
  cases x with
  | send dest g =>
    cases hsent
    exact ⟨dest, hx⟩
  | _ => cases hsent

/-- A register longer than the budget rides the first digest frame all the same. -/
theorem frames_over_budget :
    ∃ e, Made soleGroup soleSelf boxed e ∧
      ∃ dest f, Effect.send dest f ∈ ((e.run [.command (.updateMetadata "k" "vvvvvvvvvvvvvvvvvvvv"),
          .command (.addPeer (.ofChar 'a'))]).handle (.tick 0)).2 ∧
        f.kind = .digest ∧ Affords 64 f ∧ 64 < (Wire.encode f).length := by
  have hround : (firstRound [.command (.updateMetadata "k" "vvvvvvvvvvvvvvvvvvvv"),
      .command (.addPeer (.ofChar 'a'))]).any
        (fun r => r.1.any fun f => decide (f.kind = .digest) &&
        (decide (Affords 64 f) && decide (64 < (Wire.encode f).length))) = true := by decide +kernel
  obtain ⟨⟨frames, metadata⟩, hfirst, hany⟩ := (Option.any_eq_true _ _).mp hround
  obtain ⟨f, hf, hover⟩ := List.any_eq_true.mp hany
  simp only [Bool.and_eq_true, decide_eq_true_eq] at hover
  obtain ⟨e, hmade, _, hsent⟩ := made_of_firstRound hfirst
  obtain ⟨dest, hdest⟩ := hsent f hf
  exact ⟨e, hmade, dest, f, hdest, hover⟩

/-- Without metadata the same round fits. -/
theorem frames_within_budget_bare :
    ∃ e, Made soleGroup soleSelf boxed e ∧
      ∃ dest f, Effect.send dest f ∈
        ((e.run [.command (.addPeer (.ofChar 'a'))]).handle (.tick 0)).2 ∧
        f.kind = .digest ∧ ((Wire.encode f).length ≤ 64 ∨ f.OneEntry) := by
  have hround : (firstRound [.command (.addPeer (.ofChar 'a'))]).any (fun r => r.2.isEmpty &&
      r.1.any fun f => decide (f.kind = .digest) && decide (Affords 64 f)) = true := by
        decide +kernel
  obtain ⟨⟨frames, metadata⟩, hfirst, hany⟩ := (Option.any_eq_true _ _).mp hround
  obtain ⟨hnone, hany⟩ := Bool.and_eq_true_iff.mp hany
  obtain ⟨f, hf, hdigest⟩ := List.any_eq_true.mp hany
  simp only [Bool.and_eq_true, decide_eq_true_eq] at hdigest
  obtain ⟨e, hmade, hmetadata, hsent⟩ := made_of_firstRound hfirst
  obtain ⟨dest, hdest⟩ := hsent f hf
  have hroomy : (e.run [.command (.addPeer (.ofChar 'a'))]).RoomyAt (.tick 0) :=
    Or.inl (hmetadata.trans (List.isEmpty_iff.mp hnone))
  refine ⟨e, hmade, dest, f, hdest, hdigest.1, ?_⟩
  exact frames_within_budget hmade _ (.tick 0) hroomy hdest (Or.inl hdigest.1) hdigest.2

end GroupEngine

end Groupnet
