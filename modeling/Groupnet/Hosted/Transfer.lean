import Groupnet.Hosted.Handoff
import Groupnet.Lib.Word

/-!
# The transfer of a snapshot

A requester pulls a snapshot off a donor's stream into a sink.  It judges the donor's offer,
stages the chunks, and judges the terminator against the leadership it knows by then.  Only
then it finishes the sink, and a sink that is dropped unfinished discards.

A stream is what its reads bring, each a payload or a failure, and it ends where the list
does.
-/

namespace Groupnet.Handoff

variable {σ : Type}

/-! ## Verdicts -/

/-- An adopted epoch and host, or a donor's stamp of them. -/
abbrev Fence := Nat × Option NodeId

/-- Whether a donor's stamp is provably superseded. -/
def staleness (donor adopted : Fence) : Bool :=
  if donor.1 < adopted.1 then true
  else if adopted.1 < donor.1 then false
  else
    match donor.2, adopted.2 with
    | some theirs, some ours => theirs ≠ ours
    | _, _ => false

/-- A stamp that nothing known supersedes: of a later epoch, or of the same one and of no other
host. -/
def Current (donor adopted : Fence) : Prop :=
  adopted.1 ≤ donor.1 ∧ (adopted.1 = donor.1 →
    ∀ theirs ours, donor.2 = some theirs → adopted.2 = some ours → theirs = ours)

theorem staleness_eq_false_iff {donor adopted : Fence} :
    staleness donor adopted = false ↔ Current donor adopted := by
  obtain ⟨epoch, host⟩ := donor
  obtain ⟨epoch', host'⟩ := adopted
  unfold staleness Current
  rcases Nat.lt_trichotomy epoch epoch' with hlt | rfl | hgt
  · simp [hlt]
  · cases host <;> cases host' <;> simp
  · simp [hgt.le, hgt.ne, Nat.not_lt_of_lt hgt, hgt]

/-- Per writer, the needed token a donor does not reach. -/
def missing (need covers : Watermarks) : List (NodeId × WriteToken) :=
  need.toList.filter fun p => covers[p.1]?.all (· < p.2)

theorem covers_of_missing {need covers : Watermarks} (h : missing need covers = []) :
    Watermarks.Covers covers need := by
  intro writer token htoken
  have hnot := List.filter_eq_nil_iff.mp h (writer, token)
    (Std.TreeMap.mem_toList_iff_getElem?_eq_some.mpr htoken)
  cases hheld : covers[writer]? with
  | none => simp [hheld] at hnot
  | some held => exact ⟨held, rfl, by simpa [hheld] using hnot⟩

structure DoneCounts where
  chunks : Nat
  bytes : Nat
deriving DecidableEq

def DoneCounts.add (counts : DoneCounts) (chunk : List UInt8) : DoneCounts :=
  ⟨satAdd counts.chunks 1, satAdd counts.bytes chunk.length⟩

theorem DoneCounts.foldl_add (chunks : List (List UInt8)) (n b : Nat) :
    chunks.foldl DoneCounts.add ⟨min n u64Max, min b u64Max⟩ =
      ⟨min (n + chunks.length) u64Max, min (b + (chunks.map List.length).sum) u64Max⟩ := by
  induction chunks generalizing n b with
  | nil => rfl
  | cons chunk chunks ih =>
    have hadd : ∀ a k : Nat, satAdd (min a u64Max) k = min (a + k) u64Max := by
      intro a k
      unfold satAdd
      omega
    rw [List.foldl_cons, DoneCounts.add, hadd, hadd, ih]
    simp [Nat.add_assoc, Nat.add_comm 1]

inductive TransferError where
  | staleDonor (donor adopted : Fence)
  | notCovered (held : Watermarks)
  | refused (code : RefusalCode)
  | truncated
  | protocol (reason : String)
  | io

def refused (code : RefusalCode) (held : Watermarks) : TransferError :=
  if code = .notCovered then .notCovered held else .refused code

/-! ## The requester -/

abbrev Incoming := List (Option (List UInt8))

def frameOf : Option (List UInt8) → Except TransferError Frame
  | none => .error .io
  | some payload =>
    match decode payload with
    | .error (.protocol reason) => .error (.protocol reason)
    | .ok none => .error .truncated
    | .ok (some frame) => .ok frame

/-- What a consumer installs with.  Either call may fail. -/
structure SnapshotSink (σ : Type) where
  apply : σ → List UInt8 → Option σ
  finish : σ → Bool

/-- What the staging loop leaves: the sink, what was staged, and what the terminator claims. -/
structure Staged (σ : Type) where
  sink : σ
  staged : DoneCounts
  claimed : DoneCounts
  final : Fence

def stage (sink : SnapshotSink σ) (s : σ) (staged : DoneCounts) :
    Incoming → Except TransferError (Staged σ)
  | [] => .error .truncated
  | read :: rest => do
    match ← frameOf read with
    | .chunk data =>
      let s ← (sink.apply s data).elim (.error .io) .ok
      stage sink s (staged.add data) rest
    | .done chunks bytes finalEpoch finalHost =>
      .ok ⟨s, staged, ⟨chunks, bytes⟩, (finalEpoch, finalHost)⟩
    | _ => .error (.protocol "a stage ends at a done frame")

structure HandoffReceipt where
  fence : Fence
  covers : Watermarks

/-- A handoff up to the finish of its sink.  The leadership is read at the offer and again at
the terminator. -/
def verified (sink : SnapshotSink σ) (s : σ) (need : Watermarks) (atOffer atDone : Fence) :
    Incoming → Except TransferError (σ × HandoffReceipt)
  | [] => .error .truncated
  | read :: rest => do
    match ← frameOf read with
    | .offer fenceEpoch host covers =>
      if staleness (fenceEpoch, host) atOffer then .error (.staleDonor (fenceEpoch, host) atOffer)
      else if missing need covers ≠ [] then .error (.notCovered covers)
      else do
        let out ← stage sink s ⟨0, 0⟩ rest
        if out.staged ≠ out.claimed then .error .truncated
        else if staleness out.final atDone then .error (.staleDonor out.final atDone)
        else .ok (out.sink, ⟨(fenceEpoch, host), covers⟩)
    | .refuse code held => .error (refused code held)
    | _ => .error (.protocol "a request is answered by an offer")

/-- The whole handoff, with the sink it finished, if it finished one. -/
def fetchOn (sink : SnapshotSink σ) (s : σ) (need : Watermarks) (atOffer atDone : Fence)
    (incoming : Incoming) : Except TransferError HandoffReceipt × Option σ :=
  match verified sink s need atOffer atDone incoming with
  | .error error => (.error error, none)
  | .ok (s, receipt) => (if sink.finish s then .ok receipt else .error .io, some s)

/-! ## What is installed -/

/-- The frames a stream begins with. -/
def Reads : Incoming → List Frame → Prop
  | _, [] => True
  | some payload :: rest, frame :: frames => decode payload = .ok (some frame) ∧ Reads rest frames
  | _, _ => False

theorem exists_of_bind {α β : Type} {x : Except TransferError α} {f : α → Except TransferError β}
    {b : β} (h : (x >>= f) = .ok b) : ∃ a, x = .ok a ∧ f a = .ok b := by
  cases x with
  | error e => cases h
  | ok a => exact ⟨a, rfl, h⟩

theorem reads_cons {read : Option (List UInt8)} {rest : Incoming} {frame : Frame}
    {frames : List Frame} (hframe : frameOf read = .ok frame) (hrest : Reads rest frames) :
    Reads (read :: rest) (frame :: frames) := by
  cases read with
  | none => cases hframe
  | some payload =>
    refine ⟨?_, hrest⟩
    unfold frameOf at hframe
    dsimp only at hframe
    split at hframe
    · cases hframe
    · cases hframe
    next hdecode => cases hframe; exact hdecode

theorem reads_of_stage {sink : SnapshotSink σ} {s : σ} {staged : DoneCounts} {incoming : Incoming}
    {out : Staged σ} (h : stage sink s staged incoming = .ok out) :
    ∃ chunks : List (List UInt8), Reads incoming (chunks.map Frame.chunk ++
        [.done out.claimed.chunks out.claimed.bytes out.final.1 out.final.2]) ∧
      chunks.foldlM sink.apply s = some out.sink ∧
        out.staged = chunks.foldl DoneCounts.add staged := by
  induction incoming generalizing s staged with
  | nil => cases h
  | cons read rest ih =>
    obtain ⟨frame, hframe, h⟩ := exists_of_bind h
    cases frame with
    | chunk data =>
      obtain ⟨s₁, hs₁, h⟩ := exists_of_bind h
      obtain ⟨chunks, hreads, hfold, hcounts⟩ := ih h
      refine ⟨data :: chunks, reads_cons hframe hreads, ?_, hcounts⟩
      cases hs : sink.apply s data with
      | none => rw [hs] at hs₁; cases hs₁
      | some s₂ =>
        rw [hs] at hs₁
        cases hs₁
        rw [List.foldlM_cons, hs]
        exact hfold
    | done => cases h; exact ⟨[], reads_cons hframe (by cases rest <;> trivial), rfl, rfl⟩
    | request | offer | refuse => cases h

/-- Whatever a peer sends and wherever its stream is cut, a sink is finished only behind a
whole image: an offer that covers the need, its chunks applied in order, and a terminator that
counts them, neither stamp superseded when it was judged. -/
theorem finished_whole (sink : SnapshotSink σ) (s : σ) (need : Watermarks) (atOffer atDone : Fence)
    (incoming : Incoming) {s' : σ} (h : (fetchOn sink s need atOffer atDone incoming).2 = some s') :
    ∃ (fence final : Fence) (covers : Watermarks) (chunks : List (List UInt8)),
      Reads incoming (.offer fence.1 fence.2 covers :: (chunks.map Frame.chunk ++
        [.done (min chunks.length u64Max) (min (chunks.map List.length).sum u64Max) final.1
          final.2])) ∧
      chunks.foldlM sink.apply s = some s' ∧ Watermarks.Covers covers need ∧
      Current fence atOffer ∧ Current final atDone ∧
      (fetchOn sink s need atOffer atDone incoming).1 =
        if sink.finish s' then .ok ⟨fence, covers⟩ else .error .io := by
  unfold fetchOn at h ⊢
  cases hverified : verified sink s need atOffer atDone incoming with
  | error error => rw [hverified] at h; cases h
  | ok r =>
    obtain ⟨s₁, receipt⟩ := r
    rw [hverified] at h
    cases h
    cases incoming with
    | nil => cases hverified
    | cons read rest =>
      obtain ⟨frame, hframe, hverified⟩ := exists_of_bind hverified
      cases frame with
      | offer fenceEpoch host covers =>
        dsimp only at hverified
        split at hverified
        · cases hverified
        rename_i hfence
        split at hverified
        · cases hverified
        rename_i hmissing
        obtain ⟨out, hstage, hverified⟩ := exists_of_bind hverified
        split at hverified
        · cases hverified
        rename_i hcounts
        split at hverified
        · cases hverified
        rename_i hfinal
        cases hverified
        obtain ⟨chunks, hreads, hfold, htally⟩ := reads_of_stage hstage
        have hzero := DoneCounts.foldl_add chunks 0 0
        simp only [Nat.zero_min, Nat.zero_add] at hzero
        -- The terminator claims what was staged, so it counts the chunks themselves.
        rw [hzero, not_not.mp hcounts] at htally
        rw [htally] at hreads
        exact ⟨(fenceEpoch, host), out.final, covers, chunks, reads_cons hframe hreads, hfold,
          covers_of_missing (not_not.mp hmissing),
          staleness_eq_false_iff.mp (Bool.eq_false_of_not_eq_true hfence),
          staleness_eq_false_iff.mp (Bool.eq_false_of_not_eq_true hfinal), rfl⟩
      | request | refuse | chunk | done => cases hverified

def soleSink : SnapshotSink (List (List UInt8)) :=
  ⟨fun s chunk => some (s ++ [chunk]), fun _ => true⟩

def soleWriter : NodeId := .ofChar 'a'

/-- What a requester needs of one writer, and the donor's tokens that cover it. -/
def soleNeed : Watermarks := (∅ : Watermarks).insert soleWriter ⟨1, 2⟩

def soleCovers : Watermarks := (∅ : Watermarks).insert soleWriter ⟨1, 3⟩

def soleStream : Incoming :=
  [Frame.offer 2 (some soleWriter) soleCovers, .chunk [7], .chunk [8, 9],
    .done 2 3 2 (some soleWriter)].map fun frame => some (encode frame)

theorem finished_whole_sole :
    (fetchOn soleSink [] soleNeed (1, none) (2, some soleWriter) soleStream).2 =
      some [[7], [8, 9]] ∧
      ∃ receipt, (fetchOn soleSink [] soleNeed (1, none) (2, some soleWriter) soleStream).1 =
        .ok receipt ∧ Watermarks.Covers receipt.covers soleNeed := by
  have hfinished : (fetchOn soleSink [] soleNeed (1, none) (2, some soleWriter) soleStream).2 =
      some [[7], [8, 9]] := by
    decide +kernel
  obtain ⟨_, _, _, _, _, _, hcovers, _, _, hresult⟩ := finished_whole _ _ _ _ _ _ hfinished
  exact ⟨hfinished, _, hresult, hcovers⟩

end Groupnet.Handoff
