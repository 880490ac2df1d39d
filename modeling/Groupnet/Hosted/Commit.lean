import Groupnet.Config
import Groupnet.Hosted.Ledger
import Groupnet.Lib.Majority

/-!
# Commit and recovery

Two rules read the ledgers of a roster.  A write is committed when a majority publishes
its epoch as the adopted one and has applied it.  A host may serve when a majority
publishes its epoch or a later one, and the host has applied everything they have.

A committed write is therefore known to every host of a later epoch that serves: some
voter is in both majorities, and its fresh reading is the later of the two.
-/

namespace Groupnet

/-! ## The commit rule -/

/-- How widely a write must be applied. -/
inductive Commit where
  | onHost
  | quorumApplied
  | allApplied
deriving DecidableEq

inductive CommitVerdict where
  | committed
  | pending (waitingOn : List NodeId)
deriving DecidableEq

namespace CommitCore

def counts (member : LedgerView) (host : NodeId) (token : WriteToken) : Bool :=
  member.reading.any fun reading => decide (reading.leadEpoch = token.epoch) &&
    reading.applied[host]?.any fun wm => decide (token ≤ wm)

/-- What a pass over the view has met. -/
structure Tally where
  counted : Nat
  waitingOn : List NodeId
  required : Nat

def considered (level : Commit) (member : LedgerView) : Bool :=
  match level with
  | .quorumApplied => true
  | .allApplied => member.alive
  | .onHost => false

def tally (host : NodeId) (token : WriteToken) (level : Commit) (t : Tally) (member : LedgerView) :
    Tally :=
  if !considered level member then t
  else if counts member host token then
    { t with required := t.required + 1, counted := t.counted + 1 }
  else { t with required := t.required + 1, waitingOn := t.waitingOn ++ [member.member] }

def evaluate (view : List LedgerView) (host : NodeId) (token : WriteToken) (level : Commit) :
    CommitVerdict :=
  if level = .onHost then .committed
  else
    let t := view.foldl (tally host token level) ⟨0, [], 0⟩
    let threshold := match level with
      | .quorumApplied => t.required / 2 + 1
      | .allApplied | .onHost => t.required
    if threshold ≤ t.counted then .committed
    else .pending (t.waitingOn.insertionSort (· ≤ ·))

theorem foldl_tally_counted (view : List LedgerView) (host : NodeId) (token : WriteToken)
    (t : Tally) :
    (view.foldl (tally host token .quorumApplied) t).counted =
        t.counted + view.countP (counts · host token) ∧
      (view.foldl (tally host token .quorumApplied) t).required = t.required + view.length := by
  induction view generalizing t with
  | nil => simp
  | cons member view ih =>
    rw [List.foldl_cons, List.countP_cons, List.length_cons, (ih _).1, (ih _).2]
    unfold tally
    by_cases hcounts : counts member host token = true
    · simp [considered, hcounts]
      omega
    · simp [considered, hcounts]
      omega

theorem countP_of_committed {view : List LedgerView} {host : NodeId} {token : WriteToken}
    (h : evaluate view host token .quorumApplied = .committed) :
    view.length / 2 + 1 ≤ view.countP (counts · host token) := by
  unfold evaluate at h
  rw [if_neg (by simp)] at h
  dsimp only at h
  split at h
  next hle =>
    have htally := foldl_tally_counted view host token ⟨0, [], 0⟩
    rw [htally.1, htally.2] at hle
    simpa using hle
  next => cases h

end CommitCore

/-! ## The recovery rule -/

/-- Whether a host that was just activated may serve. -/
inductive Completeness where
  | recovering (needed : List (NodeId × WriteToken))
  | complete
deriving DecidableEq

namespace CompletenessCore

variable (targets : Watermarks)

def fresh (servingEpoch : Nat) (member : LedgerView) : Bool :=
  member.reading.any fun reading => decide (servingEpoch ≤ reading.leadEpoch)

def raise (targets : Watermarks) (p : NodeId × WriteToken) : Watermarks :=
  let entry := targets.getD p.1 .zero
  targets.insert p.1 (if entry < p.2 then p.2 else entry)

def raiseAll (targets : Watermarks) (member : LedgerView) : Watermarks :=
  match member.reading with
  | none => targets
  | some reading => reading.applied.toList.foldl raise targets

/-- Evaluates the rule for a host against a view and its own applied watermarks. -/
def step (servingEpoch : Nat) (view : List LedgerView) (ownApplied : Watermarks) : Completeness :=
  let freshest := view.filter (fresh servingEpoch)
  if freshest.length < view.length / 2 + 1 then .recovering []
  else
    let targets := freshest.foldl raiseAll ∅
    let needed := targets.toList.filter fun p =>
      match ownApplied[p.1]? with
      | none => true
      | some own => decide (own < p.2)
    if needed.isEmpty then .complete else .recovering needed

theorem covers_raise (p : NodeId × WriteToken) : Watermarks.Covers (raise targets p) targets := by
  intro writer token h
  unfold raise
  rw [Std.TreeMap.getElem?_insert]
  split
  next heq =>
    obtain rfl := Std.LawfulEqOrd.eq_of_compare heq
    refine ⟨_, rfl, ?_⟩
    rw [Std.TreeMap.getD_eq_getD_getElem?, h, Option.getD_some]
    split
    next hlt => exact hlt.le
    next => exact le_rfl
  next => exact ⟨token, h, le_rfl⟩

theorem le_raise (p : NodeId × WriteToken) :
    ∃ token, (raise targets p)[p.1]? = some token ∧ p.2 ≤ token := by
  refine ⟨_, Std.TreeMap.getElem?_insert_self, ?_⟩
  split
  next => exact le_rfl
  next hle => exact not_lt.mp hle

theorem covers_foldl_raise (pairs : List (NodeId × WriteToken)) (targets : Watermarks) :
    Watermarks.Covers (pairs.foldl raise targets) targets := by
  induction pairs generalizing targets with
  | nil => exact .refl targets
  | cons p pairs ih => exact (covers_raise targets p).trans (ih (raise targets p))

theorem le_foldl_raise {pairs : List (NodeId × WriteToken)} {p : NodeId × WriteToken}
    (hp : p ∈ pairs) (targets : Watermarks) :
    ∃ token, (pairs.foldl raise targets)[p.1]? = some token ∧ p.2 ≤ token := by
  induction pairs generalizing targets with
  | nil => cases hp
  | cons q pairs ih =>
    rcases List.mem_cons.mp hp with rfl | hp
    · obtain ⟨token, htoken, hle⟩ := le_raise targets p
      obtain ⟨token', htoken', hle'⟩ := covers_foldl_raise pairs _ p.1 token htoken
      exact ⟨token', htoken', hle.trans hle'⟩
    · exact ih hp (raise targets q)

theorem covers_raiseAll (member : LedgerView) :
    Watermarks.Covers (raiseAll targets member) targets := by
  unfold raiseAll
  split
  · exact .refl targets
  · exact covers_foldl_raise _ _

theorem covers_foldl_raiseAll (members : List LedgerView) (targets : Watermarks) :
    Watermarks.Covers (members.foldl raiseAll targets) targets := by
  induction members generalizing targets with
  | nil => exact .refl targets
  | cons member members ih => exact (covers_raiseAll targets member).trans (ih _)

theorem covers_targets {members : List LedgerView} {member : LedgerView} {reading : Reading}
    (hmember : member ∈ members) (hreading : member.reading = some reading) (targets : Watermarks) :
    Watermarks.Covers (members.foldl raiseAll targets) reading.applied := by
  induction members generalizing targets with
  | nil => cases hmember
  | cons other members ih =>
    rcases List.mem_cons.mp hmember with rfl | hmember
    · refine Watermarks.Covers.trans ?_ (covers_foldl_raiseAll members (raiseAll targets member))
      intro writer token htoken
      rw [raiseAll, hreading]
      exact le_foldl_raise (Std.TreeMap.mem_toList_iff_getElem?_eq_some.mpr htoken) targets
    · exact ih hmember (raiseAll targets other)

/-- A host that may serve has met a majority of fresh readings and covers them all. -/
theorem covers_of_complete {servingEpoch : Nat} {view : List LedgerView} {ownApplied : Watermarks}
    (h : step servingEpoch view ownApplied = .complete) :
    view.length / 2 + 1 ≤ view.countP (fresh servingEpoch) ∧
      ∀ member ∈ view, fresh servingEpoch member = true → ∀ reading, member.reading = some reading →
        Watermarks.Covers ownApplied reading.applied := by
  unfold step at h
  dsimp only at h
  split at h
  next => cases h
  next hmajority =>
    rw [← List.countP_eq_length_filter, Nat.not_lt] at hmajority
    refine ⟨hmajority, fun member hmember hfresh reading hreading => ?_⟩
    split at h
    next hneeded =>
      have hcovers := covers_targets (List.mem_filter.mpr ⟨hmember, hfresh⟩) hreading ∅
      refine hcovers.trans fun writer target htarget => ?_
      have hout := List.isEmpty_iff.mp hneeded
      have hown := List.filter_eq_nil_iff.mp hout (writer, target)
        (Std.TreeMap.mem_toList_iff_getElem?_eq_some.mpr htarget)
      dsimp only at hown
      split at hown
      next => exact absurd rfl hown
      next own hmine => exact ⟨own, hmine, by simpa using hown⟩
    next => cases h

end CompletenessCore

/-! ## No committed write is lost -/

/-- A view of the whole roster that takes for each voter any one of the readings it ever
published, or none. -/
structure DrawnFrom (roster : VoterRoster) (history : NodeId → List Reading)
    (view : List LedgerView) :
    Prop where
  roster : view.map LedgerView.member = roster.voters
  reading : ∀ member ∈ view, ∀ reading, member.reading = some reading →
    reading ∈ history member.member

/-- Of two readings of one life the one with the higher stamp is the later. -/
theorem covers_of_stamp_lt {readings : List Reading} (hmono : readings.Pairwise Reading.Precedes)
    {r r' : Reading} (hr : r ∈ readings) (hr' : r' ∈ readings) (hlt : r.leadEpoch < r'.leadEpoch) :
    Watermarks.Covers r'.applied r.applied := by
  induction hmono with
  | nil => cases hr
  | @cons first rest hfirst _ ih =>
    rcases List.mem_cons.mp hr with rfl | hrest
    · rcases List.mem_cons.mp hr' with rfl | hrest'
      · exact absurd hlt (Nat.lt_irrefl _)
      · exact (hfirst r' hrest').applied
    rcases List.mem_cons.mp hr' with rfl | hrest'
    · exact absurd (hfirst r hrest).stamp (Nat.not_le_of_lt hlt)
    · exact ih hrest hrest'

/-- A write that was committed on any view is covered by every host of a later epoch that
may serve on any view. -/
theorem committed_write_survives {roster : VoterRoster} {history : NodeId → List Reading}
    (hmono : ∀ voter ∈ roster.voters, (history voter).Pairwise Reading.Precedes)
    {view view' : List LedgerView} (hview : DrawnFrom roster history view)
    (hview' : DrawnFrom roster history view') {host : NodeId} {token : WriteToken}
    (hcommitted : CommitCore.evaluate view host token .quorumApplied = .committed)
    {servingEpoch : Nat} (hlater : token.epoch < servingEpoch) {ownApplied : Watermarks}
    (hcomplete : CompletenessCore.step servingEpoch view' ownApplied = .complete) :
    ∃ own, ownApplied[host]? = some own ∧ token ≤ own := by
  obtain ⟨hfresh, hcovers⟩ := CompletenessCore.covers_of_complete hcomplete
  have hacked : Majority roster.voters fun voter => ∃ r ∈ history voter,
      r.leadEpoch = token.epoch ∧ ∃ wm, r.applied[host]? = some wm ∧ token ≤ wm := by
    rw [← hview.roster]
    refine .of_countP (hview.roster ▸ roster.nodup) (CommitCore.countP_of_committed hcommitted) ?_
    intro member hmember hcounts
    obtain ⟨r, hr, hcounts⟩ := (Option.any_eq_true _ _).mp hcounts
    obtain ⟨hepoch, hwm⟩ := Bool.and_eq_true_iff.mp hcounts
    obtain ⟨wm, hwm, hle⟩ := (Option.any_eq_true _ _).mp hwm
    exact ⟨r, hview.reading member hmember r hr, of_decide_eq_true hepoch, wm, hwm,
      of_decide_eq_true hle⟩
  have hread : Majority roster.voters fun voter => ∃ r ∈ history voter,
      servingEpoch ≤ r.leadEpoch ∧ Watermarks.Covers ownApplied r.applied := by
    rw [← hview'.roster]
    refine .of_countP (hview'.roster ▸ roster.nodup) hfresh ?_
    intro member hmember hfresh
    obtain ⟨r, hr, hstamp⟩ := (Option.any_eq_true _ _).mp hfresh
    exact ⟨r, hview'.reading member hmember r hr, of_decide_eq_true hstamp,
      hcovers member hmember hfresh r hr⟩
  obtain ⟨voter, hvoter, ⟨r, hr, hepoch, wm, hwm, hle⟩, r', hr', hstamp, hown⟩ :=
    hacked.meet roster.nodup hread
  have hlt : r.leadEpoch < r'.leadEpoch := by omega
  obtain ⟨wm', hwm', hle'⟩ := covers_of_stamp_lt (hmono voter hvoter) hr hr' hlt host wm hwm
  obtain ⟨own, hmine, hle''⟩ := hown host wm' hwm'
  exact ⟨own, hmine, hle.trans (hle'.trans hle'')⟩

/-! Three voters, of which two count the first write of `a` and two greet its successor. -/

def panel : VoterRoster := VoterRoster.new [.ofChar 'a', .ofChar 'b', .ofChar 'c']

def panelMarks : Watermarks := (∅ : Watermarks).insert (.ofChar 'a') ⟨1, 1⟩

def panelReadings : List Reading := [⟨1, panelMarks⟩, ⟨2, panelMarks⟩]

def panelView (a b c : Option Reading) : List LedgerView :=
  [⟨.ofChar 'a', true, a⟩, ⟨.ofChar 'b', true, b⟩, ⟨.ofChar 'c', true, c⟩]

theorem panelView_drawn {a b c : Option Reading} (ha : ∀ r ∈ a, r ∈ panelReadings)
    (hb : ∀ r ∈ b, r ∈ panelReadings) (hc : ∀ r ∈ c, r ∈ panelReadings) :
    DrawnFrom panel (fun _ => panelReadings) (panelView a b c) where
  roster := by
    show [NodeId.ofChar 'a', .ofChar 'b', .ofChar 'c'] = panel.voters
    decide +kernel
  reading := by
    intro member hmember reading hreading
    simp only [panelView, List.mem_cons, List.not_mem_nil, or_false] at hmember
    rcases hmember with rfl | rfl | rfl
    · exact ha reading hreading
    · exact hb reading hreading
    · exact hc reading hreading

theorem committed_write_survives_panel :
    ∃ own, panelMarks[NodeId.ofChar 'a']? = some own ∧ (⟨1, 1⟩ : WriteToken) ≤ own := by
  have hmono : panelReadings.Pairwise Reading.Precedes :=
    List.pairwise_pair.mpr ⟨by decide, .refl _⟩
  have hold : DrawnFrom panel (fun _ => panelReadings)
      (panelView (some ⟨1, panelMarks⟩) (some ⟨1, panelMarks⟩) none) :=
    panelView_drawn (by simp [panelReadings]) (by simp [panelReadings]) (by simp)
  have hnew : DrawnFrom panel (fun _ => panelReadings)
      (panelView (some ⟨2, panelMarks⟩) none (some ⟨2, panelMarks⟩)) :=
    panelView_drawn (by simp [panelReadings]) (by simp) (by simp [panelReadings])
  have hlater : (⟨1, 1⟩ : WriteToken).epoch < 2 := by decide
  exact committed_write_survives (fun _ _ => hmono) hold hnew (by decide +kernel) hlater
    (by decide +kernel)

end Groupnet
