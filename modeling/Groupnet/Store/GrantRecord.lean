import Mathlib.Data.String.Basic
import Groupnet.Engine.Quorum
import Groupnet.Lib.Codec
import Groupnet.Lib.Crc

/-!
# The grant record

A voter keeps the last pair it granted in a file with one record: a magic, a version, the epoch,
the claimant behind its length, and a checksum of all that.  A record that is not exactly what
the writer writes is refused, since a voter that cannot read its ledger cannot say that it never
granted.

The length of a record follows from the length field of its claimant, so no record is part of a
longer one.  The checksum tells records apart that differ in four bytes in a row.
-/

namespace Groupnet.GrantStore

open Codec

variable {claimant : NodeId} {epoch : Nat} {record bytes : List UInt8}

def magic : List UInt8 := [71, 78, 71, 83]

def version : UInt8 := 1

/-- The bytes before the claimant. -/
def headerLen : Nat := 4 + 1 + 8 + 2

def checksumLen : Nat := 4

/-- The longest claimant the length field carries. -/
def maxClaimantBytes : Nat := 65535

def maxRecordLen : Nat := headerLen + maxClaimantBytes + checksumLen

inductive NodeIdError where
  | empty
  | tooLong (len max : Nat)
deriving DecidableEq

inductive StoreError where
  /-- An invalid input. -/
  | claimant (error : NodeIdError)
  /-- Invalid data, with the text of the error. -/
  | invalidData (text : String)
deriving DecidableEq

def polynomial : BitVec 32 := 0xEDB88320#32

def crc32 (bytes : List UInt8) : BitVec 32 :=
  ~~~bytes.foldl (Crc.update polynomial) (BitVec.allOnes 32)

/-- What the checksum is taken of. -/
def body (epoch : Nat) (id : List UInt8) : List UInt8 :=
  magic ++ ([version] ++ (putBE 8 epoch ++ (putBE 2 id.length ++ id)))

/-- A record with its checksum. -/
def summed (record : List UInt8) : List UInt8 := record ++ putBE 4 (crc32 record).toNat

def encode (epoch : Nat) (claimant : NodeId) : Except StoreError (List UInt8) :=
  let id := claimant.str.toUTF8.data.toList
  if id.length = 0 then .error (.claimant .empty)
  else if maxClaimantBytes < id.length then
    .error (.claimant (.tooLong id.length maxClaimantBytes))
  else .ok (summed (body epoch id))

def corrupt (what : String) : StoreError := .invalidData ("grant store record " ++ what)

def decode (bytes : List UInt8) : Except StoreError (Nat × NodeId) :=
  if bytes.length < headerLen + 1 + checksumLen ∨ maxRecordLen < bytes.length then
    .error (corrupt "has an impossible length")
  else
    let body := bytes.take (bytes.length - checksumLen)
    -- the slices below have the lengths of their integers, so none of them is truncated
    let stored := fromBE (bytes.drop (bytes.length - checksumLen))
    if (crc32 body).toNat ≠ stored then .error (corrupt "fails its checksum")
    else if body.take 4 ≠ magic then .error (corrupt "has a foreign magic")
    else if (body.drop 4).take 1 ≠ [version] then .error (corrupt "has an unknown version")
    else
      let epoch := fromBE ((body.drop 5).take 8)
      let len := fromBE ((body.drop 13).take 2)
      let id := body.drop headerLen
      if len = 0 ∨ id.length ≠ len then
        .error (corrupt "has a claimant length that disagrees with its size")
      else
        match (String.fromUTF8? ⟨id.toArray⟩).bind NodeId.ofString? with
        | none => .error (corrupt "names a non-UTF-8 claimant")
        | some claimant => .ok (epoch, claimant)

/-! ## Round trips -/

theorem encode_eq_ok :
    encode epoch claimant = .ok record ↔ ∃ id, id = claimant.str.toUTF8.data.toList ∧
      0 < id.length ∧ id.length ≤ maxClaimantBytes ∧ summed (body epoch id) = record := by
  unfold encode
  dsimp only
  split
  · simp_all
  split
  · simp_all
  · simp_all [Nat.pos_iff_ne_zero]

/-- The body of a record, cut into its fields. -/
theorem body_of_fields (hmagic : bytes.take 4 = magic)
    (hversion : (bytes.drop 4).take 1 = [version]) (hlen : headerLen ≤ bytes.length)
    (hid : (bytes.drop headerLen).length = fromBE ((bytes.drop 13).take 2)) :
    body (fromBE ((bytes.drop 5).take 8)) (bytes.drop headerLen) = bytes := by
  have hcut (n m : Nat) : (bytes.drop n).take m ++ bytes.drop (n + m) = bytes.drop n := by
    rw [← List.drop_drop, List.take_append_drop]
  unfold body
  unfold headerLen at hlen
  rw [hid, putBE_fromBE (by simp; omega), putBE_fromBE (by simp; omega)]
  calc magic ++ ([version] ++ ((bytes.drop 5).take 8 ++ ((bytes.drop 13).take 2 ++ bytes.drop 15)))
      = bytes.take 4 ++ ((bytes.drop 4).take 1 ++ bytes.drop 5) := by
        rw [hcut 13 2, hcut 5 8, hmagic, hversion]
    _ = bytes := by rw [hcut 4 1, List.take_append_drop]

theorem length_body (epoch : Nat) (id : List UInt8) :
    (body epoch id).length = headerLen + id.length := by
  simp [body, magic, headerLen]
  omega

theorem length_summed (record : List UInt8) :
    (summed record).length = record.length + checksumLen := by
  simp [summed, checksumLen]

/-- The fields of a body. -/
theorem fields_body (epoch : Nat) (id : List UInt8) :
    (body epoch id).take 4 = magic ∧ ((body epoch id).drop 4).take 1 = [version] ∧
      ((body epoch id).drop 5).take 8 = putBE 8 epoch ∧
      ((body epoch id).drop 13).take 2 = putBE 2 id.length ∧
        (body epoch id).drop headerLen = id := by
  have hrest : (body epoch id).drop 13 = putBE 2 id.length ++ id :=
    (List.drop_drop (i := 8) (j := 5)).symm.trans (List.drop_left' (length_putBE ..))
  refine ⟨rfl, rfl, List.take_left' (length_putBE ..), ?_, ?_⟩
  · rw [hrest, List.take_left' (length_putBE ..)]
  · rw [headerLen, ← List.drop_drop (i := 2) (j := 13), hrest, List.drop_left' (length_putBE ..)]

theorem claimant_eq_some {id : List UInt8} :
    (String.fromUTF8? ⟨id.toArray⟩).bind NodeId.ofString? = some claimant ↔
      id = claimant.str.toUTF8.data.toList := by
  constructor
  · intro h
    obtain ⟨str, hstr, hname⟩ := Option.bind_eq_some_iff.mp h
    unfold NodeId.ofString? at hname
    split at hname
    · cases hname
      exact (fromUTF8?_eq_some.mp hstr).symm
    · cases hname
  · rintro rfl
    rw [fromUTF8?_eq_some.mpr rfl, Option.bind_some, NodeId.ofString?_str]

theorem decode_encode (hepoch : epoch ≤ u64Max) (h : encode epoch claimant = .ok record) :
    decode record = .ok (epoch, claimant) := by
  obtain ⟨id, hid, hpos, hle, rfl⟩ := encode_eq_ok.mp h
  have hlen := (length_summed (body epoch id)).trans (congrArg (· + _) (length_body epoch id))
  obtain ⟨hmagic, hversion, hnumber, hlength, hrest⟩ := fields_body epoch id
  unfold decode
  rw [if_neg (by simp only [hlen, maxRecordLen]; omega), length_summed, Nat.add_sub_cancel]
  dsimp only
  rw [summed, List.take_left' rfl, List.drop_left' rfl, fromBE_putBE (crc32 (body epoch id)).isLt,
    if_neg (not_not.mpr rfl), if_neg (not_not.mpr hmagic), if_neg (not_not.mpr hversion), hnumber,
    hlength, hrest, fromBE_putBE (by unfold maxClaimantBytes at hle; omega),
    fromBE_putBE (by unfold u64Max at hepoch; omega), if_neg (by omega), claimant_eq_some.mpr hid]

theorem encode_decode (h : decode bytes = .ok (epoch, claimant)) :
    encode epoch claimant = .ok bytes := by
  unfold decode at h
  split at h
  · cases h
  rename_i hbounds
  dsimp only at h
  split at h
  · cases h
  rename_i hchecksum
  split at h
  · cases h
  rename_i hmagic
  split at h
  · cases h
  rename_i hversion
  split at h
  · cases h
  rename_i hlen
  split at h
  · cases h
  rename_i name hname
  cases h
  simp only [not_or, not_lt, not_not] at hbounds hchecksum hmagic hversion hlen
  have htake : headerLen ≤ (bytes.take (bytes.length - checksumLen)).length := by
    rw [List.length_take]
    omega
  have hdrop : (bytes.drop (bytes.length - checksumLen)).length = 4 := by
    rw [List.length_drop]
    unfold checksumLen at hbounds ⊢
    omega
  have hfields := body_of_fields hmagic hversion htake hlen.2
  refine encode_eq_ok.mpr ⟨_, claimant_eq_some.mp hname, ?_, ?_, ?_⟩
  · omega
  · rw [List.length_drop, List.length_take]
    unfold maxRecordLen at hbounds
    omega
  · rw [hfields, summed, hchecksum, putBE_fromBE hdrop, List.take_append_drop]

/-! ## Damage -/

def Refused (bytes : List UInt8) : Prop := ∃ error, decode bytes = .error error

/-- What is not refused was written as it is. -/
theorem refused_of_not_written
    (h : ∀ epoch claimant, decode bytes = .ok (epoch, claimant) →
      encode epoch claimant ≠ .ok bytes) :
    Refused bytes := by
  cases hd : decode bytes with
  | error error => exact ⟨error, hd⟩
  | ok pair => exact absurd (encode_decode hd) (h _ _ hd)

/-- The length field of a record gives its length. -/
theorem length_of_encode (h : encode epoch claimant = .ok record) : headerLen ≤ record.length ∧
      record.length = headerLen + fromBE ((record.drop 13).take 2) + checksumLen := by
  obtain ⟨id, -, -, hle, rfl⟩ := encode_eq_ok.mp h
  have hlen : (summed (body epoch id)).length = headerLen + id.length + checksumLen := by
    rw [length_summed, length_body]
  have hfield : ((summed (body epoch id)).drop 13).take 2 = putBE 2 id.length := by
    rw [summed, List.drop_append_of_le_length, List.take_append_of_le_length,
      (fields_body epoch id).2.2.2.1]
    · rw [List.length_drop, length_body, headerLen]
      omega
    · rw [length_body, headerLen]
      omega
  rw [hfield, fromBE_putBE (by unfold maxClaimantBytes at hle; omega)]
  exact ⟨by omega, hlen⟩

/-- No record begins another. -/
theorem eq_of_isPrefix {epoch' : Nat} {claimant' : NodeId} {record' : List UInt8}
    (h : encode epoch claimant = .ok record) (h' : encode epoch' claimant' = .ok record')
    (hfront : record <+: record') : record = record' := by
  obtain ⟨hle, hlen⟩ := length_of_encode h
  obtain ⟨hle', hlen'⟩ := length_of_encode h'
  obtain ⟨rest, rfl⟩ := hfront
  have hfield : ((record ++ rest).drop 13).take 2 = (record.drop 13).take 2 := by
    unfold headerLen at hle
    rw [List.drop_append_of_le_length (by omega), List.take_append_of_le_length]
    rw [List.length_drop]
    omega
  rw [hfield, ← hlen, List.length_append] at hlen'
  rw [List.length_eq_zero_iff.mp (show rest.length = 0 by omega), List.append_nil]

theorem checksum_of_encode {front checksum : List UInt8}
    (h : encode epoch claimant = .ok (front ++ checksum)) (hlen : checksum.length = checksumLen) :
    checksum = putBE 4 (crc32 front).toNat := by
  obtain ⟨id, -, -, -, hrecord⟩ := encode_eq_ok.mp h
  obtain ⟨rfl, rfl⟩ := List.append_inj' hrecord (by rw [length_putBE, hlen]; rfl)
  rfl

theorem crc32_inj {front a b rest : List UInt8} (hlen : a.length = b.length) (hfit : a.length ≤ 4)
    (h : crc32 (front ++ (a ++ rest)) = crc32 (front ++ (b ++ rest))) : a = b := by
  unfold crc32 at h
  have hregister := BitVec.not_inj.mp h
  rw [List.foldl_append, List.foldl_append (l := front)] at hregister
  exact Crc.window_inj (by decide) hlen (by omega) hregister

/-- A record is read back as it was written, and nothing else is read: not a part of a record, nor
a longer file, nor a record that was changed in four bytes in a row or in its checksum. -/
theorem grant_record_fails_closed {epoch : Nat} {claimant : NodeId} (hepoch : epoch ≤ u64Max)
    (hpos : 1 ≤ claimant.str.utf8ByteSize) (hle : claimant.str.utf8ByteSize ≤ maxClaimantBytes) :
    (∃ record, encode epoch claimant = .ok record ∧ decode record = .ok (epoch, claimant) ∧
      (∀ part, part <+: record → part ≠ record → Refused part) ∧
      (∀ more, more ≠ [] → Refused (record ++ more)) ∧
      (∀ front old new rest checksum, record = front ++ (old ++ rest) ++ checksum →
        checksum.length = checksumLen → new.length = old.length → old.length ≤ 4 → new ≠ old →
        Refused (front ++ (new ++ rest) ++ checksum)) ∧
      ∀ front checksum checksum', record = front ++ checksum → checksum.length = checksumLen →
        checksum'.length = checksumLen → checksum' ≠ checksum → Refused (front ++ checksum')) ∧
    ∀ bytes epoch claimant, decode bytes = .ok (epoch, claimant) →
      encode epoch claimant = .ok bytes := by
  refine ⟨?_, fun _ _ _ h => encode_decode h⟩
  have hencode : encode epoch claimant =
      .ok (summed (body epoch claimant.str.toUTF8.data.toList)) :=
    encode_eq_ok.mpr ⟨_, rfl, by simpa using Nat.lt_of_succ_le hpos, by simpa using hle, rfl⟩
  generalize summed (body epoch claimant.str.toUTF8.data.toList) = record at hencode
  refine ⟨record, hencode, decode_encode hepoch hencode, fun part hpart hne => ?_,
    fun more hmore => ?_, ?_, ?_⟩
  · exact refused_of_not_written fun _ _ _ h => hne (eq_of_isPrefix h hencode hpart)
  · refine refused_of_not_written fun _ _ _ h => hmore ?_
    exact List.append_right_eq_self.mp (eq_of_isPrefix hencode h (List.prefix_append ..)).symm
  · rintro front old new rest checksum rfl hchecksum hlen hfit hne
    refine refused_of_not_written fun _ _ _ h => hne ?_
    have hsum := (checksum_of_encode h hchecksum).symm.trans (checksum_of_encode hencode hchecksum)
    have hcrc : crc32 (front ++ (new ++ rest)) = crc32 (front ++ (old ++ rest)) := by
      have hread (bytes : List UInt8) := @fromBE_putBE 4 _ (crc32 bytes).isLt
      apply BitVec.eq_of_toNat_eq
      rw [← hread, hsum, hread]
    exact crc32_inj hlen (hlen.trans_le hfit) hcrc
  · rintro front checksum checksum' rfl hlen hlen' hne
    refine refused_of_not_written fun _ _ _ h => hne ?_
    rw [checksum_of_encode h hlen', checksum_of_encode hencode hlen]

theorem grant_record_fails_closed_first :
    ∃ record, encode 7 (.ofChar 'a') = .ok record ∧ Refused (record ++ [0]) := by
  obtain ⟨record, hencode, -, -, hlonger, -⟩ :=
    (@grant_record_fails_closed 7 (.ofChar 'a') (by decide) (by decide) (by decide)).1
  exact ⟨record, hencode, hlonger [0] (by decide)⟩

end Groupnet.GrantStore
