import Groupnet.Replication.Superseded

/-!
# A waiting stage has its operation

A session that waits for a completion has asked for one, and a session that does not wait has
nothing under way.  This is what `Sound` says when nothing slipped.
-/

namespace Groupnet.Replication

/-! Names and positions to run a session on. -/

namespace Sample

def scope : Scope := ⟨⟨"g", "t", "k"⟩, "p"⟩

/-- A position of the one history of a source. -/
def cursor (n : UInt8) : Cursor := ⟨scope, ⟨"s", 1⟩, [n]⟩

/-- A statement of the source with its head at a position, and everything retained from `low`. -/
def proof (low head : UInt8) : SourceProof := ⟨⟨[head]⟩, cursor head, cursor low, true⟩

/-- A comparison of two positions, made against the statement with its head at `head`. -/
def compare (head left right : UInt8) : BoundComparison :=
  ⟨cursor left, cursor right, ⟨[head]⟩,
    if left < right then .before else if left = right then .equal else .after⟩

def one : ℕ+ := One.one

/-- A session that has taken a checkpoint at a position and checks its tail. -/
def restored (n : UInt8) : List Event :=
  [.startBootstrap, .checkpointLoaded ⟨1, 1, 1⟩ (some (cursor n)) (some 1),
    .checkpointInstalled ⟨1, 1, 2⟩ ⟨cursor n, true⟩]

/-- Room for a snapshot. -/
def recovering : Config :=
  let bytes := Config.default.maxCursorBytes
  { Config.default with snapshot := some ⟨bytes, bytes, bytes, bytes, bytes, 60000⟩ }

/-- A session that took the image of the source at `3`, attached to it there, followed it to
`5` and checks its tail again. -/
def attached : List Event :=
  [.startSnapshot, .snapshotHeld ⟨1, 1, 1⟩ ⟨⟨1, 1, 1⟩, ⟨"s", 1⟩, 60000, [1]⟩,
    .snapshotOffered ⟨1, 1, 2⟩
      ⟨scope, [1], cursor 3, proof 2 3, compare 3 3 3, compare 3 2 3, one, one, [1], [1]⟩,
    .snapshotOpened ⟨1, 1, 3⟩ 1, .snapshotRead ⟨1, 1, 4⟩ ⟨0, 0, one, 4⟩,
    .snapshotWritten ⟨1, 1, 5⟩ 0 1 1, .snapshotVerified ⟨1, 1, 6⟩ 1,
    .snapshotBarrier ⟨1, 1, 7⟩ (proof 2 3) [compare 3 3 3, compare 3 2 3],
    .snapshotSealed ⟨1, 1, 8⟩ (cursor 3) 8 1, .snapshotInstalled ⟨1, 1, 9⟩ ⟨cursor 3, true⟩,
    .snapshotAttached ⟨1, 1, 10⟩ (proof 2 3) [compare 3 3 3, compare 3 2 3],
    .tail ⟨1, 1, 11⟩ (proof 2 5) [compare 5 3 5, compare 5 3 2, compare 5 2 5],
    .scanned ⟨1, 1, 12⟩
      ⟨⟨cursor 3, cursor 5, ⟨[5]⟩, [1]⟩, 12, one, one, compare 5 3 5, compare 5 5 5⟩,
    .applied ⟨1, 1, 13⟩ ⟨cursor 5, true⟩]

end Sample

namespace SessionEngine

variable {slack : Prop} {e : SessionEngine} {op : Operation}

theorem Sound.waiting (h : Sound False e) (hwaits : e.stage.waits = true) :
    ∃ op due, e.outstanding = some (op, e.stage) ∧ e.operationDue = some due ∧
      op.session = e.sessionId ∧ op.generation = e.generation := by
  cases h.1 with
  | waiting op hout _ htimed _ _ hsession hgeneration =>
    obtain ⟨due, hdue⟩ := Option.isSome_iff_exists.mp htimed
    exact ⟨op, due, hout, hdue, hsession, hgeneration⟩
  | delayed _ hstage =>
    rw [show e.stage = .retryWait from hstage] at hwaits
    cases hwaits
  | resting _ hwaits' => cases hwaits.symm.trans hwaits'
  | leftover hslack | stranded hslack => exact hslack.elim

theorem Sound.apart {stage : Stage} (h : Sound False e) (hout : e.outstanding = some (op, stage)) :
    e.snapshotCleanup.map CleanupState.op ≠ some op := by
  rcases (h.answered hout).here with ⟨-, -, -, hapart⟩ | ⟨hslack, -⟩
  · exact hapart
  · exact hslack.elim

/-! ## Failures -/

/-- Where a failed exchange ends: it is retried, nothing can be done any more, or history is
missing.  Without the time for a retry the session starts over. -/
def FailureEnd (r : SessionEngine × Step) : Prop :=
  r.1.stage = .retryWait ∨ r.1.stage = .readingSubscriberTerminal ∨ atRest r.1.stage = true ∨
    r.1.stage = .unready ∧ r.2.rejection = some .exhausted

/-- The call returns, and with such an end. -/
def Ends (o : Outcome) : Prop := ∃ r, o = some r ∧ FailureEnd r

theorem Ends.some {r : SessionEngine × Step} (h : FailureEnd r) : Ends (some r) := ⟨r, rfl, h⟩

end SessionEngine

end Groupnet.Replication
