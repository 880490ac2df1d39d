import Groupnet.Wire

/-!
# What the codec accepts

The decoder yields well-formed frames only, so that whatever is accepted survives being
sent on.  It reads the target of any kind, where only a `pingReq` and an `indirectAck`
have a use for one, and a frame with a target is longer than the builders account for.
-/

namespace Groupnet.Wire

open Codec

/-! ## Decoded frames are well formed -/

theorem yields_u64 : Yields getU64 (· ≤ u64Max) := fun _ _ _ hrun =>
  Nat.le_of_lt_succ (yields_getLE 8 _ _ _ hrun)

theorem yields_getDigest : Yields getDigest NodeDigest.Fits :=
  (Yields.any getNodeId).bind fun _ _ => yields_u64.bind fun _ hinc =>
    (Yields.any takeU8).bind fun _ _ => yields_u64.bind fun _ hmax =>
      yields_u64.bind fun _ hhash => Yields.pure ⟨hinc, hmax, hhash⟩

theorem yields_getWant : Yields getWant fun w => w.haveVersion ≤ u64Max :=
  (Yields.any getNodeId).bind fun _ _ => yields_u64.bind fun _ hversion => Yields.pure hversion

theorem yields_getMeta : Yields getMeta MetaDelta.Fits :=
  yields_getStr.bind fun _ hkey => yields_u64.bind fun _ hversion =>
    (Yields.any getNodeId).bind fun _ _ => yields_getStr.bind fun _ hvalue =>
      Yields.pure ⟨hkey, hversion, hvalue⟩

theorem yields_getEntry : Yields getEntry EntryDelta.Fits :=
  yields_getStr.bind fun _ hkey => yields_u64.bind fun _ hversion => yields_u64.bind fun _ httl =>
    (Yields.any getBool).bind fun _ _ => yields_getBytes.bind fun _ hvalue =>
      Yields.pure ⟨hkey, hversion, httl, hvalue⟩

theorem yields_getMember : Yields getMember MemberDelta.Fits :=
  (Yields.any getNodeId).bind fun _ _ => yields_u64.bind fun _ hinc =>
    (Yields.any takeU8).bind fun _ _ => yields_u64.bind fun _ hmax =>
      (yields_getList yields_getEntry).bind fun _ hentries =>
        Yields.pure ⟨hinc, hmax, hentries.1, hentries.2⟩

/-- The body read for an election kind is of that kind. -/
theorem yields_getLead (kind : Kind) :
    Yields (getLead kind) fun body => leadKind body = kind ∧ body.epoch ≤ u64Max := by
  refine yields_u64.bind fun epoch hepoch => ?_
  cases kind with
  | leadClaim | leadResign => exact (Yields.any getNodeId).bind fun _ _ => Yields.pure ⟨rfl, hepoch⟩
  | leadGrant =>
    exact (Yields.any getNodeId).bind fun _ _ => (Yields.any getNodeId).bind fun _ _ =>
      Yields.pure ⟨rfl, hepoch⟩
  | leadState => exact (Yields.any getOptId).bind fun _ _ => Yields.pure ⟨rfl, hepoch⟩
  | _ => exact yields_failure _

/-- The body read into a bare frame completes it. -/
theorem yields_getBody (kind : Kind) (group : GroupId) (target : Option NodeId) :
    Yields (getBody (Frame.bare kind group target)) fun f => f.WellFormed ∧ f.group = group := by
  cases kind with
  | digest =>
    exact (yields_getList yields_getDigest).bind fun _ hd => (yields_getList yields_getMeta).bind
      fun _ hm => Yields.pure ⟨⟨rfl, hd.1, hd.2, hm.1, hm.2⟩, rfl⟩
  | deltaRequest =>
    exact (yields_getList yields_getWant).bind fun _ hw => Yields.pure ⟨⟨rfl, hw.1, hw.2⟩, rfl⟩
  | delta =>
    exact (yields_getList yields_getMember).bind fun _ hm => Yields.pure ⟨⟨rfl, hm.1, hm.2⟩, rfl⟩
  | leadClaim | leadGrant | leadState | leadResign =>
    refine (yields_getLead _).bind fun body hbody => Yields.pure ⟨⟨body, ?_, hbody.2⟩, rfl⟩
    rw [hbody.1]
    rfl
  | ping | ack | pingReq | indirectAck => exact Yields.pure ⟨rfl, rfl⟩

/-- What is decoded is well formed, and `peekGroup` reads its group. -/
theorem wellFormed_of_decode {bytes : List UInt8} {f : Frame} (h : decode bytes = some f) :
    f.WellFormed ∧ peekGroup bytes = some f.group := by
  obtain ⟨⟨f, rest⟩, hframe, rfl⟩ := Option.map_eq_some_iff.mp h
  obtain ⟨_, afterVersion, hversion, hframe⟩ := bind_eq_some hframe
  obtain ⟨kind, afterKind, hkind, hframe⟩ := bind_eq_some hframe
  obtain ⟨group, afterGroup, hgroup, hframe⟩ := bind_eq_some hframe
  obtain ⟨target, afterTarget, _, hbody⟩ := bind_eq_some hframe
  obtain ⟨hwf, hfg⟩ := yields_getBody kind group target _ _ _ hbody
  refine ⟨hwf, ?_⟩
  obtain ⟨b, afterByte, hbyte, hlift⟩ := bind_eq_some hkind
  obtain ⟨_, rfl⟩ := lift_eq_some hlift
  have hpeek : (do getVersion; let _ ← takeU8; getGroupId : Get GroupId) bytes =
      some (group, afterGroup) := by
    change (getVersion bytes).bind (fun r => (takeU8 r.2).bind fun r => getGroupId r.2) = _
    rw [hversion, Option.bind_some, hbyte]
    exact hgroup
  rw [hfg]
  exact congrArg (Option.map Prod.fst) hpeek

/-! ## Lengths -/

/-- What a target adds to its presence byte. -/
def targetLen : Option NodeId → Nat
  | some n => strLen n.str
  | none => 0

def leadLen : LeadBody → Nat
  | .claim _ claimant => 8 + strLen claimant.str
  | .grant _ claimant granter => 8 + strLen claimant.str + strLen granter.str
  | .state _ host => 8 + 1 + targetLen host
  | .resign _ host => 8 + strLen host.str

def memberLen (m : MemberDelta) : Nat := memberHeaderLen m.node + (m.entries.map entryLen).sum

/-- The length of a frame by the engine's accounting, with the target it leaves out. -/
def frameLen (f : Frame) : Nat :=
  match f.kind with
  | .digest =>
    deltaFrameOverhead f.group + targetLen f.target + (f.digest.map digestLen).sum +
      (4 + metadataLen f.metadata)
  | .deltaRequest => deltaFrameOverhead f.group + targetLen f.target + (f.wants.map wantLen).sum
  | .delta => deltaFrameOverhead f.group + targetLen f.target + (f.members.map memberLen).sum
  -- The other kinds have no item count.
  | .leadClaim | .leadGrant | .leadState | .leadResign =>
    1 + 1 + strLen f.group.str + 1 + targetLen f.target + (f.lead.map leadLen).getD 0
  | .ping | .ack | .pingReq | .indirectAck => 1 + 1 + strLen f.group.str + 1 + targetLen f.target

theorem length_putOptId (n : Option NodeId) : (putOptId n).length = 1 + targetLen n := by
  cases n with
  | none => rfl
  | some n => simp [putOptId, targetLen, strLen, Nat.add_comm]

theorem length_putLead (body : LeadBody) : (putLead body).length = leadLen body := by
  cases body with
  | claim epoch claimant | resign epoch host => simp [putLead, leadLen, strLen]
  | grant epoch claimant granter =>
    simp only [putLead, leadLen, strLen, List.length_append, length_putLE, length_putStr]
    omega
  | state epoch host =>
    simp only [putLead, leadLen, List.length_append, length_putLE, length_putOptId, Nat.add_assoc]

theorem length_putDigest (d : NodeDigest) : (putDigest d).length = digestLen d := by
  simp only [putDigest, digestLen, strLen, List.length_append, length_putLE, length_putStr,
    List.length_singleton]

theorem length_putWant (w : NodeWant) : (putWant w).length = wantLen w := by
  simp [putWant, wantLen, strLen]

theorem length_putMeta (d : MetaDelta) : (putMeta d).length = metaLen d := by
  simp only [putMeta, metaLen, strLen, List.length_append, length_putLE, length_putStr]
  omega

theorem length_putEntry (e : EntryDelta) : (putEntry e).length = entryLen e := by
  simp only [putEntry, putBool, entryLen, strLen, List.length_append, length_putLE, length_putStr,
    length_putBytes, List.length_singleton]
  omega

theorem length_putMember (m : MemberDelta) : (putMember m).length = memberLen m := by
  simp only [putMember, memberLen, memberHeaderLen, strLen, List.length_append, length_putLE,
    length_putStr, length_putList length_putEntry, List.length_singleton]
  omega

theorem metadataLen_eq (ds : List MetaDelta) : metadataLen ds = (ds.map metaLen).sum := by
  rw [metadataLen, List.sum_eq_foldl, List.foldl_map]

/-- A frame is as long as its parts add up to. -/
theorem length_encode (f : Frame) : (encode f).length = frameLen f := by
  have hhead : (encode f).length =
      1 + 1 + strLen f.group.str + 1 + targetLen f.target + (putBody f).length := by
    simp only [encode, strLen, List.length_append, List.length_singleton, length_putStr,
      length_putOptId]
    omega
  rw [hhead]
  obtain ⟨kind, group, target, digest, wants, members, metadata, lead⟩ := f
  cases kind with
  | digest =>
    simp only [putBody, frameLen, deltaFrameOverhead, List.length_append,
      length_putList length_putDigest, length_putList length_putMeta, metadataLen_eq]
    omega
  | deltaRequest =>
    simp only [putBody, frameLen, deltaFrameOverhead, length_putList length_putWant]
    omega
  | delta =>
    simp only [putBody, frameLen, deltaFrameOverhead, length_putList length_putMember]
    omega
  | leadClaim | leadGrant | leadState | leadResign =>
    cases lead with
    | none => rfl
    | some body => simp only [putBody, frameLen, Option.map_some, Option.getD_some, length_putLead]
  | ping | ack | pingReq | indirectAck => rfl

/-! ## The codec as a whole -/

/-- A well-formed frame survives the wire, what is decoded is well formed, and the lengths
are those of the accounting. -/
theorem codec_exact :
    (∀ f : Frame, f.WellFormed → decode (encode f) = some f ∧ peekGroup (encode f) = some f.group) ∧
      (∀ bytes f, decode bytes = some f →
        f.WellFormed ∧ peekGroup bytes = some f.group ∧ decode (encode f) = some f) ∧
      ∀ f : Frame, (encode f).length = frameLen f := by
  refine ⟨fun f hf => ?_, fun bytes f h => ?_, length_encode⟩
  · exact ⟨decode_encode hf, (wellFormed_of_decode (decode_encode hf)).2⟩
  · obtain ⟨hwf, hpeek⟩ := wellFormed_of_decode h
    exact ⟨hwf, hpeek, decode_encode hwf⟩

/-- A delta with a target is accepted, and longer than the accounting of its members. -/
theorem codec_reads_target :
    ∃ bytes f, decode bytes = some f ∧ f.kind = .delta ∧ f.target ≠ none ∧
      (encode f).length ≠ deltaFrameOverhead f.group + (f.members.map memberLen).sum := by
  refine ⟨encode (Frame.bare .delta (.ofChar 'g') (some (.ofChar 'x'))), _, decode_encode ?_, rfl,
    by simp [Frame.bare], ?_⟩
  · exact ⟨rfl, by decide, fun _ h => nomatch h⟩
  · rw [length_encode]
    decide

end Groupnet.Wire
