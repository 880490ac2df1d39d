import Groupnet.Hosted.Ledger
import Groupnet.Lib.Codec

/-!
# The ledger on the wire

A reading is a stamp followed by a counted record map, and nothing after it.  The record map
is shared with the handoff frames, where it stands in the middle of a body.

A reader of the source takes a byte string and an offset, which it moves on only when it
succeeds.  `getRecords` is the same reader over the bytes from the offset on, and the rules
of the codec library are about readers of that kind.  Offsets are natural numbers here, since
no slice reaches the end of the address space.
-/

namespace Groupnet.Ledger

open Std (TreeMap)
open Codec

/-! ## The codec -/

variable {applied : Watermarks} (bytes : List UInt8)

def putRecord (record : NodeId × WriteToken) : List UInt8 :=
  putStr record.1.str ++ (putU64 record.2.epoch ++ putU64 record.2.seq)

/-- The counted record map alone.  A count that does not fit saturates. -/
def encodeRecords (applied : Watermarks) : List UInt8 :=
  putU32 (min applied.size 4294967295) ++ applied.toList.flatMap putRecord

def encodeLedger (leadEpoch : Nat) (applied : Watermarks) : List UInt8 :=
  putU64 leadEpoch ++ encodeRecords applied

def nodeAt (s : String) : GetAt NodeId := liftM (NodeId.ofString? s)

/-- A length-prefixed string at the position. -/
def strAt (bytes : List UInt8) : GetAt String := do
  let len ← leAt bytes 4
  let raw ← sliceAt bytes len
  liftM (String.fromUTF8? ⟨raw.toArray⟩)

/-- Reads records into a map, each after the other. -/
def insertRecords (bytes : List UInt8) : Nat → Watermarks → GetAt Watermarks
  | 0, applied => pure applied
  | n + 1, applied => do
    let writer ← strAt bytes
    let writer ← nodeAt writer
    let epoch ← leAt bytes 8
    let seq ← leAt bytes 8
    insertRecords bytes n (applied.insert writer ⟨epoch, seq⟩)

/-- The record map at the position: as many writers as it says, and all different. -/
def recordsAt (bytes : List UInt8) : GetAt Watermarks := do
  let records ← leAt bytes 4
  let applied ← insertRecords bytes records ∅
  if applied.size = records then pure applied else failure

/-- The record map at an offset, and the offset after it.  A failure leaves the offset. -/
def decodeRecords (bytes : List UInt8) (offset : Nat) : Option Watermarks × Nat :=
  match recordsAt bytes offset with
  | none => (none, offset)
  | some (applied, next) => (some applied, next)

def decodeLedger (bytes : List UInt8) : Option Reading := do
  let (leadEpoch, offset) ← leAt bytes 8 0
  match decodeRecords bytes offset with
  | (none, _) => none
  | (some applied, offset) => if offset = bytes.length then some ⟨leadEpoch, applied⟩ else none

/-! ## The readers from the front -/

def getRecord : Get (NodeId × WriteToken) := do
  let writer ← getStr
  let writer ← (liftM (NodeId.ofString? writer) : Get NodeId)
  let epoch ← getU64
  let seq ← getU64
  pure (writer, ⟨epoch, seq⟩)

def getRecords : Get Watermarks := do
  let records ← getU32
  let list ← getN getRecord records
  if (TreeMap.insertMany (∅ : Watermarks) list).size = records then
    pure (TreeMap.insertMany (∅ : Watermarks) list)
  else failure

theorem local_getRecord : Local getRecord :=
  local_getStr.bind fun _ => .bind (.lift _) fun _ => (local_getLE 8).bind fun _ =>
    (local_getLE 8).bind fun _ => .pure _

theorem local_getRecords : Local getRecords :=
  (local_getLE 4).bind fun n => (local_getN local_getRecord n).bind fun _ =>
    .ite (.pure _) local_failure

theorem mirrors_str : Mirrors bytes (strAt bytes) getStr := by
  have hflat : getStr = getU32 >>= fun len => takeBytes len >>= fun raw =>
      (liftM (String.fromUTF8? ⟨raw.toArray⟩) : Get String) := bind_assoc ..
  rw [hflat]
  exact (Mirrors.le 4).bind (local_getLE 4) fun len =>
    (Mirrors.slice len).bind (local_takeBytes len) fun _ => .lift _

theorem mirrors_insertRecords (n : Nat) (applied : Watermarks) :
    Mirrors bytes (insertRecords bytes n applied)
      (getN getRecord n >>= fun list => pure (applied.insertMany list)) := by
  induction n generalizing applied with
  | zero => exact .pure applied
  | succ n ih =>
    -- one record, then the others into the map that has it
    have hflat : (getN getRecord (n + 1) >>= fun list => pure (applied.insertMany list)) =
        getStr >>= fun writer => (liftM (NodeId.ofString? writer) : Get NodeId) >>= fun writer =>
          getU64 >>= fun epoch => getU64 >>= fun seq => getN getRecord n >>= fun list =>
            pure ((applied.insert writer ⟨epoch, seq⟩).insertMany list) := by
      simp only [getN, getRecord, bind_assoc, pure_bind, TreeMap.insertMany_cons]
    rw [hflat]
    exact (mirrors_str bytes).bind local_getStr fun _ => .bind (.lift _) (.lift _) fun _ =>
      (Mirrors.le 8).bind (local_getLE 8) fun _ => (Mirrors.le 8).bind (local_getLE 8) fun _ => ih _

theorem mirrors_records : Mirrors bytes (recordsAt bytes) getRecords := by
  have hflat : getRecords = getU32 >>= fun records =>
      (getN getRecord records >>= fun list =>
        pure (TreeMap.insertMany (∅ : Watermarks) list)) >>=
        fun applied => if applied.size = records then pure applied else failure := by
    simp only [getRecords, bind_assoc, pure_bind]
  rw [hflat]
  refine (Mirrors.le 4).bind (local_getLE 4) fun n =>
    (mirrors_insertRecords bytes n ∅).bind ?_ fun _ =>
    .ite (.pure _) .failure
  exact (local_getN local_getRecord n).bind fun _ => .pure _

/-! ## What is written is read -/

def TokenFits (token : WriteToken) : Prop := token.epoch ≤ u64Max ∧ token.seq ≤ u64Max

/-- The count and the tokens of a map fit their encoding. -/
structure Fits (applied : Watermarks) : Prop where
  count : applied.size < 4294967296
  tokens : ∀ (writer : NodeId) (token : WriteToken), applied[writer]? = some token → TokenFits token

theorem reads_getRecord {record : NodeId × WriteToken} (h : TokenFits record.2) :
    Reads getRecord (putRecord record) record := by
  have hwriter : Reads (liftM (NodeId.ofString? record.1.str) : Get NodeId) [] record.1 := by
    intro rest
    rw [NodeId.ofString?_str]
    rfl
  have h' := Reads.bind (f := fun writer => getU64 >>= fun epoch => getU64 >>= fun seq =>
    pure (writer, WriteToken.mk epoch seq)) hwriter
    (Reads.bind (reads_getU64 (Nat.lt_succ_of_le h.1))
      (Reads.map (reads_getU64 (Nat.lt_succ_of_le h.2))))
  exact Reads.bind (reads_getStr record.1.short) h'

/-- A map is what its list makes. -/
theorem insertMany_toList (applied : Watermarks) :
    (TreeMap.insertMany (∅ : Watermarks) applied.toList).Equiv applied := by
  refine .of_forall_constGet?_eq fun writer => ?_
  cases h : applied[writer]? with
  | some token =>
    refine TreeMap.getElem?_insertMany_list_of_mem
      (compare_eq_iff_eq.mpr rfl) TreeMap.distinct_keys_toList ?_
    exact TreeMap.mem_toList_iff_getElem?_eq_some.mpr h
  | none =>
    have hmissing : (applied.toList.map Prod.fst).contains writer = false := by
      rw [List.contains_eq_mem, decide_eq_false_iff_not, List.mem_map]
      rintro ⟨⟨_, token⟩, hmem, rfl⟩
      cases h.symm.trans (TreeMap.mem_toList_iff_getElem?_eq_some.mp hmem)
    rw [TreeMap.getElem?_insertMany_list_of_contains_eq_false hmissing]
    rfl

theorem reads_getRecords (h : Fits applied) :
    ∃ read : Watermarks, Reads getRecords (encodeRecords applied) read ∧ read.Equiv applied := by
  refine ⟨_, ?_, insertMany_toList applied⟩
  have hcount : min applied.size 4294967295 = applied.toList.length := by
    rw [TreeMap.length_toList]
    exact Nat.min_eq_left (Nat.le_of_lt_succ h.count)
  unfold encodeRecords getRecords
  rw [hcount]
  have hlen : applied.toList.length < 4294967296 := TreeMap.length_toList ▸ h.count
  refine Reads.bind (reads_getU32 hlen) ?_
  have hlist : Reads (getN getRecord applied.toList.length)
      (applied.toList.flatMap putRecord) applied.toList :=
    reads_getN fun record hmem => reads_getRecord
      (h.tokens _ _ (TreeMap.mem_toList_iff_getElem?_eq_some.mp hmem))
  have hsize : (TreeMap.insertMany (∅ : Watermarks) applied.toList).size =
      applied.toList.length :=
    (insertMany_toList applied).size_eq.trans TreeMap.length_toList.symm
  rw [← List.append_nil (applied.toList.flatMap putRecord)]
  refine hlist.bind ?_
  rw [if_pos hsize]
  exact .pure _

/-! ## What can be read -/

theorem yields_getRecord : Yields getRecord fun record => TokenFits record.2 :=
  (Yields.any getStr).bind fun _ _ => (Yields.any _).bind fun _ _ =>
    (yields_getLE 8).bind fun _ hepoch =>
    (yields_getLE 8).bind fun _ hseq => .pure ⟨Nat.le_of_lt_succ hepoch, Nat.le_of_lt_succ hseq⟩

theorem mem_of_getElem?_insertMany {list : List (NodeId × WriteToken)} {writer : NodeId}
    {token : WriteToken} (h : (TreeMap.insertMany (∅ : Watermarks) list)[writer]? = some token) :
    (writer, token) ∈ list := by
  have hempty : (∅ : Watermarks)[writer]? = none := rfl
  rw [TreeMap.getElem?_insertMany_list, List.findSomeRev?_eq_findSome?_reverse, hempty,
    Option.or_none] at h
  obtain ⟨⟨writer', token'⟩, hmem, heq⟩ := List.exists_of_findSome?_eq_some h
  dsimp only at heq
  split at heq
  · rename_i hsame
    cases heq
    obtain rfl := compare_eq_iff_eq.mp hsame
    exact List.mem_reverse.mp hmem
  · cases heq

theorem yields_getRecords : Yields getRecords Fits := by
  refine (yields_getLE 4).bind fun n hn =>
    (yields_getN yields_getRecord n).bind fun list hlist => ?_
  split
  · rename_i hsize
    refine .pure ⟨hsize ▸ hn, fun writer token h => ?_⟩
    exact hlist.2 (writer, token) (mem_of_getElem?_insertMany h)
  · exact yields_failure _

/-- What a map read at an offset is: so much of the input as it takes, whatever follows. -/
theorem decodeRecords_eq_some {bytes : List UInt8} {offset next : Nat}
    (h : decodeRecords bytes offset = (some applied, next)) :
    ∃ used rest, bytes.drop offset = used ++ rest ∧ Reads getRecords used applied ∧
      next = offset + used.length ∧ next ≤ bytes.length := by
  unfold decodeRecords at h
  split at h
  · cases h
  rename_i hrun
  cases h
  by_cases hoffset : offset ≤ bytes.length
  · rw [mirrors_records bytes offset hoffset] at hrun
    obtain ⟨⟨read, rest⟩, hget, heq⟩ := Option.map_eq_some_iff.mp hrun
    cases heq
    obtain ⟨used, hused, hread⟩ := local_getRecords _ _ _ hget
    have hlen := congrArg List.length hused
    rw [List.length_drop, List.length_append] at hlen
    refine ⟨used, rest, hused, hread, ?_, Nat.sub_le ..⟩
    show bytes.length - rest.length = offset + used.length
    omega
  · -- nothing is left to take the count from
    have hnone : leAt bytes 4 offset = none := by
      have hslice : sliceAt bytes 4 offset = none := if_neg (by omega)
      show (sliceAt bytes 4 offset).bind _ = none
      rw [hslice]
      rfl
    have hnone' : recordsAt bytes offset = none := by
      show (leAt bytes 4 offset).bind _ = none
      rw [hnone]
      rfl
    cases hnone'.symm.trans hrun

theorem decodeRecords_of_reads {bytes used rest : List UInt8} {offset : Nat} {applied : Watermarks}
    (hoffset : offset ≤ bytes.length) (hdrop : bytes.drop offset = used ++ rest)
    (hread : Reads getRecords used applied) :
    decodeRecords bytes offset = (some applied, offset + used.length) := by
  have hlen := congrArg List.length hdrop
  rw [List.length_drop, List.length_append] at hlen
  have hrun : recordsAt bytes offset = some (applied, offset + used.length) := by
    rw [mirrors_records bytes offset hoffset, hdrop, hread rest, Option.map_some]
    congr 2
    show bytes.length - rest.length = offset + used.length
    omega
  unfold decodeRecords
  rw [hrun]

def getLedger : Get Reading := do
  let leadEpoch ← getU64
  let applied ← getRecords
  pure ⟨leadEpoch, applied⟩

theorem local_getLedger : Local getLedger :=
  (local_getLE 8).bind fun _ => local_getRecords.bind fun _ => .pure _

/-- A reading takes the whole input. -/
theorem decodeLedger_eq_some_iff {bytes : List UInt8} {reading : Reading} :
    decodeLedger bytes = some reading ↔ getLedger bytes = some (reading, []) := by
  have hat := (@Mirrors.le bytes 8).bind (local_getLE 8) (fun leadEpoch =>
    (mirrors_records bytes).bind local_getRecords fun applied =>
      Mirrors.pure (Reading.mk leadEpoch applied))
  have hrun := hat 0 (Nat.zero_le _)
  rw [List.drop_zero] at hrun
  have hdecode : decodeLedger bytes =
      ((leAt bytes 8 >>= fun leadEpoch => recordsAt bytes >>= fun applied =>
        pure (Reading.mk leadEpoch applied)) 0).bind fun next =>
          if next.2 = bytes.length then some next.1 else none := by
    unfold decodeLedger
    show (leAt bytes 8 0).bind _ =
      ((leAt bytes 8 0).bind fun next => (recordsAt bytes next.2).bind _).bind _
    cases leAt bytes 8 0 with
    | none => rfl
    | some next =>
      dsimp only [Option.bind_some]
      unfold decodeRecords
      cases recordsAt bytes next.2 <;> rfl
  rw [hdecode, hrun]
  constructor
  · intro h
    obtain ⟨next, hnext, h⟩ := Option.bind_eq_some_iff.mp h
    obtain ⟨⟨read, rest⟩, hget, rfl⟩ := Option.map_eq_some_iff.mp hnext
    obtain ⟨used, hused, -⟩ := local_getLedger _ _ _ hget
    have hlen := congrArg List.length hused
    rw [List.length_append] at hlen
    dsimp only at h
    split at h
    · cases h
      have hrest : rest = [] := List.eq_nil_of_length_eq_zero (by omega)
      rw [hrest] at hget
      exact hget
    · cases h
  · intro h
    show (Option.map _ (getLedger bytes)).bind _ = some reading
    rw [h]
    exact if_pos rfl

theorem reads_getLedger {stamp : Nat} (hstamp : stamp ≤ u64Max) (h : Fits applied) :
    ∃ read : Watermarks, Reads getLedger (encodeLedger stamp applied) ⟨stamp, read⟩ ∧
      read.Equiv applied := by
  obtain ⟨read, hread, hsame⟩ := reads_getRecords h
  exact ⟨read, Reads.bind (reads_getU64 (Nat.lt_succ_of_le hstamp)) (Reads.map hread), hsame⟩

/-- The count a map begins with is the number of its writers. -/
theorem size_of_getRecords {cur rest : List UInt8} (h : getRecords cur = some (applied, rest)) :
    applied.size = fromLE (cur.take 4) ∧ 4 + rest.length ≤ cur.length := by
  obtain ⟨n, mid, hn, h⟩ := bind_eq_some h
  obtain ⟨list, mid', hlist, hchecked⟩ := bind_eq_some h
  replace hn : getLE 4 cur = some (n, mid) := hn
  rw [← takeBytes_fromLE] at hn
  obtain ⟨raw, mid'', hraw, hn⟩ := bind_eq_some hn
  cases hn
  unfold takeBytes at hraw
  split at hraw
  · cases hraw
  cases hraw
  obtain ⟨used, hused, -⟩ := local_getN local_getRecord _ _ _ _ hlist
  have hlen := congrArg List.length hused
  rw [List.length_drop, List.length_append] at hlen
  split at hchecked
  · cases hchecked
    exact ⟨‹_›, by omega⟩
  · cases hchecked

/-- A reading survives the wire.  Nothing shorter and nothing longer than the bytes of a
reading is one.  And a record map is read at an offset up to another one within the bytes,
with as many writers as it says and without a look at what follows, or else the offset
stays. -/
theorem ledger_codec {stamp : Nat} {applied : Watermarks} (hstamp : stamp ≤ u64Max)
    (h : Fits applied) (bytes : List UInt8) (offset : Nat) :
    (∃ read : Watermarks, decodeLedger (encodeLedger stamp applied) = some ⟨stamp, read⟩ ∧
      read.Equiv applied) ∧
    (∀ front tail, tail ≠ [] →
      (encodeLedger stamp applied = front ++ tail → decodeLedger front = none) ∧
      decodeLedger (encodeLedger stamp applied ++ tail) = none) ∧
    (decodeRecords bytes offset = (none, offset) ∨
      ∃ read next, decodeRecords bytes offset = (some read, next) ∧
        read.size = fromLE ((bytes.drop offset).take 4) ∧ offset + 4 ≤ next ∧ next ≤ bytes.length ∧
        ∀ tail, decodeRecords (bytes.take next ++ tail) offset = (some read, next)) := by
  obtain ⟨read, hread, hsame⟩ := reads_getLedger hstamp h
  refine ⟨⟨read, decodeLedger_eq_some_iff.mpr hread.run_eq, hsame⟩,
    fun front tail htail => ⟨?_, ?_⟩, ?_⟩
  · intro hfront
    refine Option.eq_none_iff_forall_ne_some.mpr fun reading hdecode => htail ?_
    exact (local_getLedger.eq_of_front hread hfront (decodeLedger_eq_some_iff.mp hdecode)).1
  · refine Option.eq_none_iff_forall_ne_some.mpr fun reading hdecode => htail ?_
    have hrun := (hread tail).symm.trans (decodeLedger_eq_some_iff.mp hdecode)
    cases hrun
    rfl
  · cases hdecode : decodeRecords bytes offset with
    | mk result next =>
      cases result with
      | none =>
        left
        unfold decodeRecords at hdecode
        split at hdecode
        · cases hdecode
          rfl
        · cases hdecode
      | some read =>
        right
        obtain ⟨used, rest, hused, hread, rfl, hnext⟩ := decodeRecords_eq_some hdecode
        have hget : getRecords (bytes.drop offset) = some (read, rest) := hused ▸ hread rest
        obtain ⟨hsize, hlen⟩ := size_of_getRecords hget
        have hlength := congrArg List.length hused
        rw [List.length_drop, List.length_append] at hlength
        rw [List.length_drop] at hlen
        refine ⟨read, _, rfl, hsize, by omega, hnext, fun tail => ?_⟩
        refine @decodeRecords_of_reads _ _ tail _ _ ?_ ?_ hread
        · rw [List.length_append, List.length_take]
          omega
        have htake : (bytes.take (offset + used.length)).drop offset = used := by
          rw [List.drop_take, Nat.add_sub_cancel_left, hused, List.take_left]
        rw [List.drop_append_of_le_length (by rw [List.length_take]; omega), htake]

/-- The tokens of two writers. -/
def duoMarks : Watermarks :=
  ((∅ : Watermarks).insert (.ofChar 'a') ⟨1, 2⟩).insert (.ofChar 'b') ⟨3, 1⟩

/-- The reading of a voter that has adopted epoch 3.  Cut after the first of the two records
it is none, and the records are read behind the stamp. -/
theorem ledger_codec_duo :
    (∃ read : Watermarks, decodeLedger (encodeLedger 3 duoMarks) = some ⟨3, read⟩ ∧
      read.Equiv duoMarks) ∧
    decodeLedger ((encodeLedger 3 duoMarks).take 33) = none ∧
    ∃ read next, decodeRecords (encodeLedger 3 duoMarks) 8 = (some read, next) ∧ read.size = 2 ∧
      ∀ tail, decodeRecords ((encodeLedger 3 duoMarks).take next ++ tail) 8 =
        (some read, next) := by
  have hfits : Fits duoMarks := by
    refine ⟨by decide, fun writer token htoken => ?_⟩
    simp only [duoMarks, TreeMap.getElem?_insert] at htoken
    split at htoken
    · cases htoken
      exact ⟨by decide, by decide⟩
    split at htoken
    · cases htoken
      exact ⟨by decide, by decide⟩
    · simp at htoken
  obtain ⟨hread, hcut, hrecords⟩ :=
    @ledger_codec 3 duoMarks (by decide) hfits (encodeLedger 3 duoMarks) 8
  refine ⟨hread, (hcut _ ((encodeLedger 3 duoMarks).drop 33) (by decide +kernel)).1
    (List.take_append_drop ..).symm, ?_⟩
  rcases hrecords with hnone | ⟨read, next, hsome, hsize, _, _, htail⟩
  · have hsome : (decodeRecords (encodeLedger 3 duoMarks) 8).1.isSome = true := by decide +kernel
    rw [hnone] at hsome
    cases hsome
  · exact ⟨read, next, hsome, hsize.trans (by decide +kernel), htail⟩

end Groupnet.Ledger
