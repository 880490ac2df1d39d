import Groupnet.Hosted.LedgerCodec
import Groupnet.Lib.Publish

/-!
# Concurrent ledger calls

The acknowledgement ledger and the commit ledger are shared by any number of callers.  A call
folds and encodes under the lock, and enqueues the encoding later.  Two calls can enqueue in
the opposite order of their folds.  Then the ledger's entry ends with the older of the two
states, and the advance of the other is in memory only until the next publication.
-/

namespace Groupnet

open Publish Ledger

/-! ## The acknowledgement ledger -/

namespace AckLedger

inductive Call where
  | record (writer : NodeId) (token : WriteToken)
  | republish

def record (applied : Watermarks) (writer : NodeId) (token : WriteToken) :
    Watermarks × Option Watermarks :=
  let entry := applied.getD writer .zero
  -- the writer is in the map from here on, whatever its token
  if token ≤ entry then (applied.insertIfNew writer .zero, none)
  else (applied.insert writer token, some (applied.insert writer token))

/-- The records that are encoded.  The order of a hash map's records says nothing. -/
def encode (applied : Watermarks) : List (NodeId × WriteToken) := applied.toList

/-- The locked part of a call, with what it encodes. -/
def run (applied : Watermarks) : Call → Watermarks × Option (List (NodeId × WriteToken))
  | .record writer token =>
    ((record applied writer token).1, (record applied writer token).2.map encode)
  | .republish => (applied, some (encode applied))

/-- No call records the token that a writer's watermark starts from. -/
def Call.fair : Call → Bool
  | .record _ token => token ≠ .zero
  | .republish => true

end AckLedger

/-! ## The commit ledger -/

namespace CommitLedger

inductive Call where
  | record (writer : NodeId) (token : WriteToken) (leadEpoch : Nat)
  | refresh (leadEpoch : Nat)

def encode (l : CommitLedger) : List UInt8 := encodeLedger l.stamp l.applied

/-- The locked part of a call, with what it encodes. -/
def run (l : CommitLedger) : Call → CommitLedger × Option (List UInt8)
  | .record writer token leadEpoch =>
    ((l.record writer token leadEpoch).1,
      (l.record writer token leadEpoch).2.map fun r => encodeLedger r.leadEpoch r.applied)
  | .refresh leadEpoch =>
    ((l.refresh leadEpoch).1, (l.refresh leadEpoch).2.map fun r =>
      encodeLedger r.leadEpoch r.applied)

def Call.fair : Call → Bool
  | .record _ token _ => token ≠ .zero
  | .refresh _ => true

end CommitLedger

/-! ## A covered call changes nothing -/

variable {applied : Watermarks}

/-- A writer above the first token has a record. -/
theorem Watermarks.getElem?_of_zero_lt {writer : NodeId} (h : applied.getD writer .zero ≠ .zero) :
    applied[writer]? = some (applied.getD writer .zero) := by
  rw [Std.TreeMap.getD_eq_getD_getElem?] at h ⊢
  cases hw : applied[writer]? with
  | none =>
    rw [hw] at h
    exact absurd rfl h
  | some token => rfl

theorem WriteToken.zero_le (t : WriteToken) : WriteToken.zero ≤ t := by
  rw [WriteToken.le_iff]
  show 0 < t.epoch ∨ 0 = t.epoch ∧ 0 ≤ t.seq
  omega

/-- A token that is covered and not the first one has something that covers it. -/
theorem Watermarks.covered {writer : NodeId} {token : WriteToken}
    (hle : token ≤ applied.getD writer .zero) (hne : token ≠ .zero) :
    applied[writer]? = some (applied.getD writer .zero) := by
  refine getElem?_of_zero_lt fun heq => hne ?_
  rw [heq] at hle
  exact le_antisymm hle (WriteToken.zero_le token)

theorem AckLedger.encode_covered {call : Call} (hfair : call.fair = true)
    (h : (run applied call).2 = none) : encode (run applied call).1 = encode applied := by
  cases call with
  | republish => cases h
  | record writer token =>
    have hne : token ≠ .zero := by simpa [Call.fair] using hfair
    by_cases hle : token ≤ applied.getD writer .zero
    · have hmem : writer ∈ applied :=
        Std.TreeMap.mem_iff_isSome_getElem?.mpr (by rw [Watermarks.covered hle hne]; rfl)
      show (record applied writer token).1.toList = applied.toList
      unfold record
      rw [if_pos hle]
      refine Std.TreeMap.equiv_iff_toList_eq.mp (.of_forall_constGet?_eq fun w => ?_)
      rw [Std.TreeMap.getElem?_insertIfNew, if_neg]
      rintro ⟨heq, hnot⟩
      exact hnot hmem
    · have hsome : (record applied writer token).2 = some (applied.insert writer token) := by
        unfold record
        rw [if_neg hle]
      have h' : (record applied writer token).2.map encode = none := h
      rw [hsome] at h'
      cases h'

theorem AckLedger.encode_run {call : Call} {encoded : List (NodeId × WriteToken)}
    (h : (run applied call).2 = some encoded) : encoded = encode (run applied call).1 := by
  cases call with
  | republish => exact (Option.some.inj h).symm
  | record writer token =>
    obtain ⟨published, hpublished, rfl⟩ := Option.map_eq_some_iff.mp h
    unfold record at hpublished
    show encode published = encode (record applied writer token).1
    unfold record
    dsimp only at hpublished ⊢
    split at hpublished
    · cases hpublished
    rename_i hle
    cases hpublished
    rw [if_neg hle]

theorem CommitLedger.encode_run {l : CommitLedger} {call : Call} {encoded : List UInt8}
    (h : (run l call).2 = some encoded) : encoded = encode (run l call).1 := by
  cases call with
  | refresh leadEpoch => exact (Option.some.inj h).symm
  | record writer token leadEpoch =>
    obtain ⟨published, hpublished, rfl⟩ := Option.map_eq_some_iff.mp h
    unfold record at hpublished
    dsimp only at hpublished
    split at hpublished
    · cases hpublished
      rfl
    · cases hpublished

theorem CommitLedger.encode_covered {l : CommitLedger} {call : Call} (hfair : call.fair = true)
    (h : (run l call).2 = none) : encode (run l call).1 = encode l := by
  cases call with
  | refresh leadEpoch => cases h
  | record writer token leadEpoch =>
    have hne : token ≠ .zero := by simpa [Call.fair] using hfair
    have hnone : (l.record writer token leadEpoch).2 = none := Option.map_eq_none_iff.mp h
    have hmoved : (l.fold writer token leadEpoch).2 = false := by
      unfold record at hnone
      dsimp only at hnone
      split at hnone
      · cases hnone
      · exact Bool.eq_false_of_not_eq_true ‹_›
    have hstay : ¬ l.stamp < leadEpoch ∧ ¬ l.applied.getD writer .zero < token := by
      simpa [fold] using hmoved
    show encodeLedger (l.fold writer token leadEpoch).1.stamp
      (l.fold writer token leadEpoch).1.applied = _
    rw [fold_stamp, fold_applied, Nat.max_eq_left (Nat.le_of_not_lt hstay.1),
      max_eq_left (not_lt.mp hstay.2)]
    -- the record is put back as it is
    have hsame : (l.applied.insert writer (l.applied.getD writer .zero)).toList =
        l.applied.toList := by
      refine Std.TreeMap.equiv_iff_toList_eq.mp (.of_forall_constGet?_eq fun w => ?_)
      rw [Std.TreeMap.getElem?_insert]
      split
      · rename_i heq
        obtain rfl := Std.LawfulEqOrd.eq_of_compare heq
        exact (Watermarks.covered (not_lt.mp hstay.2) hne).symm
      · rfl
    have hsize : (l.applied.insert writer (l.applied.getD writer .zero)).size = l.applied.size := by
      rw [← Std.TreeMap.length_toList, hsame, Std.TreeMap.length_toList]
    unfold encode encodeLedger encodeRecords
    rw [hsame, hsize]

/-! ## The last publication -/

/-- However calls on a ledger interleave, as long as they enqueue in the order of their folds:
once all have enqueued, the last value of the ledger's entry is the encoding of the ledger.
Where nothing was enqueued, the ledger is as it was. -/
theorem no_advance_stranded (applied : Watermarks) (l : CommitLedger) :
    (∀ acts s answers,
      meets (step AckLedger.run) (inOrder AckLedger.Call.fair) ⟨applied, [], none⟩ acts = true →
      drive (step AckLedger.run) ⟨applied, [], none⟩ acts = some (s, answers) → s.pending = [] →
      s.last.getD (AckLedger.encode applied) = AckLedger.encode s.mem) ∧
    ∀ acts s answers,
      meets (step CommitLedger.run) (inOrder CommitLedger.Call.fair) ⟨l, [], none⟩ acts = true →
      drive (step CommitLedger.run) ⟨l, [], none⟩ acts = some (s, answers) → s.pending = [] →
      s.last.getD (CommitLedger.encode l) = CommitLedger.encode s.mem := by
  constructor
  · intro acts s answers hmeets hrun hdone
    refine last_of_inOrder (fun _ _ _ h => ?_) (fun _ _ hfair h => ?_) hmeets hrun hdone
    · exact AckLedger.encode_run h
    · exact AckLedger.encode_covered hfair h
  · intro acts s answers hmeets hrun hdone
    refine last_of_inOrder (fun _ _ _ h => ?_) (fun _ _ hfair h => ?_) hmeets hrun hdone
    · exact CommitLedger.encode_run h
    · exact CommitLedger.encode_covered hfair h

/-- The same two calls, one after the other. -/
theorem no_advance_stranded_sequential :
    ∃ s answers, drive (step AckLedger.run) ⟨∅, [], none⟩
        [.fold (.record (.ofChar 'w') ⟨1, 1⟩), .enqueue 0, .fold (.record (.ofChar 'w') ⟨1, 2⟩),
          .enqueue 0] =
        some (s, answers) ∧
      s.last.getD (AckLedger.encode ∅) = AckLedger.encode s.mem := by
  refine ⟨_, _, rfl, ?_⟩
  exact (no_advance_stranded ∅ ⟨0, ∅⟩).1
    [.fold (.record (.ofChar 'w') ⟨1, 1⟩), .enqueue 0, .fold (.record (.ofChar 'w') ⟨1, 2⟩),
      .enqueue 0]
    _ _ rfl rfl rfl

/-- Two calls record one writer's tokens 1 and 2 and enqueue the other way around. -/
theorem opposite_enqueues_strand :
    ∃ s answers, drive (step AckLedger.run) ⟨∅, [], none⟩
        [.fold (.record (.ofChar 'w') ⟨1, 1⟩), .fold (.record (.ofChar 'w') ⟨1, 2⟩), .enqueue 1,
          .enqueue 0] =
        some (s, answers) ∧
      s.pending = [] ∧ s.last = some [(.ofChar 'w', ⟨1, 1⟩)] ∧
        AckLedger.encode s.mem = [(.ofChar 'w', ⟨1, 2⟩)] := by
  refine ⟨_, _, rfl, rfl, rfl, rfl⟩

end Groupnet
