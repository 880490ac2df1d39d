import Groupnet.Hosted.LedgerCodec

/-!
# The frames of a handoff

A node that recovers a write path asks a donor for a snapshot over a stream.  Five frames
make up the exchange.  Each begins with a magic, a version and a kind.  A chunk is raw bytes
to the end of its frame, and every other body has to end where its frame ends.

A host is written as a string, with the empty one for no host.  A refusal carries a map only
when it says that the donor does not cover the request.  So a frame with a host of no name,
or with a map behind another refusal, cannot be told from one without.  `Frame.Spelled` rules
these two out.
-/

namespace Groupnet.Handoff

open Codec Ledger

/-! ## Frames -/

variable (bytes : List UInt8) {frame : Frame}

/-- Why a donor refuses. -/
inductive RefusalCode where
  | notCovered
  | unavailable
  | badRequest
deriving DecidableEq

def RefusalCode.code : RefusalCode → UInt8
  | .notCovered => 1
  | .unavailable => 2
  | .badRequest => 3

def RefusalCode.fromCode (byte : UInt8) : Option RefusalCode :=
  if byte = 1 then some .notCovered
  else if byte = 2 then some .unavailable
  else if byte = 3 then some .badRequest
  else none

inductive Frame where
  /-- Which write path, and how far a donor has to have got. -/
  | request (group : GroupId) (name : String) (need : Watermarks)
  /-- The donor's fence stamp, and what its snapshot covers. -/
  | offer (fenceEpoch : Nat) (host : Option NodeId) (covers : Watermarks)
  /-- Why not, and what the donor does cover. -/
  | refuse (code : RefusalCode) (held : Watermarks)
  /-- One piece of the snapshot. -/
  | chunk (data : List UInt8)
  /-- The end, with the counts of all that was sent. -/
  | done (chunks bytes finalEpoch : Nat) (finalHost : Option NodeId)

/-- The peer speaks something else. -/
inductive HandoffError where
  | protocol (reason : String)
deriving DecidableEq

/-! ## The codec -/

/-- `GNHO`. -/
def magic : List UInt8 := [71, 78, 72, 79]

def version : UInt8 := 1

def kindRequest : UInt8 := 1
def kindOffer : UInt8 := 2
def kindRefuse : UInt8 := 3
def kindChunk : UInt8 := 4
def kindDone : UInt8 := 5

/-- The bytes before a body. -/
def prefixLen : Nat := magic.length + 2

def putPrefix (kind : UInt8) : List UInt8 := magic ++ [version, kind]

def putHost (host : Option NodeId) : List UInt8 := putStr (host.elim "" NodeId.str)

def encode : Frame → List UInt8
  | .request group name need =>
    putPrefix kindRequest ++ (putStr group.str ++ (putStr name ++ encodeRecords need))
  | .offer fenceEpoch host covers =>
    putPrefix kindOffer ++ (putU64 fenceEpoch ++ (putHost host ++ encodeRecords covers))
  | .refuse code held =>
    putPrefix kindRefuse ++ ([code.code] ++ if code = .notCovered then encodeRecords held else [])
  | .chunk data => putPrefix kindChunk ++ data
  | .done chunks bytes finalEpoch finalHost =>
    putPrefix kindDone ++
      (putU64 chunks ++ (putU64 bytes ++ (putU64 finalEpoch ++ putHost finalHost)))

def hostId (name : String) : Option (Option NodeId) :=
  if name.isEmpty then some none else (NodeId.ofString? name).map some

def requestAt (bytes : List UInt8) : GetAt Frame := do
  let group ← strAt bytes
  let group ← liftM (GroupId.ofString? group)
  let name ← strAt bytes
  let need ← recordsAt bytes
  pure (.request group name need)

def offerAt (bytes : List UInt8) : GetAt Frame := do
  let fenceEpoch ← leAt bytes 8
  let host ← strAt bytes
  let host ← liftM (hostId host)
  let covers ← recordsAt bytes
  pure (.offer fenceEpoch host covers)

/-- The map of a refusal, which only one of them carries. -/
def heldAt (bytes : List UInt8) (code : RefusalCode) : GetAt Watermarks :=
  if code = .notCovered then recordsAt bytes else pure ∅

def refuseAt (bytes : List UInt8) (code : RefusalCode) : GetAt Frame := do
  let held ← heldAt bytes code
  pure (.refuse code held)

def doneAt (bytes : List UInt8) : GetAt Frame := do
  let chunks ← leAt bytes 8
  let count ← leAt bytes 8
  let finalEpoch ← leAt bytes 8
  let finalHost ← strAt bytes
  let finalHost ← liftM (hostId finalHost)
  pure (.done chunks count finalEpoch finalHost)

def whole (bytes : List UInt8) (body : GetAt Frame) (pos : Nat) :
    Except HandoffError (Option Frame) :=
  match body pos with
  | none => .ok none
  | some (frame, pos) => if pos = bytes.length then .ok (some frame) else .ok none

/-- The frame in a payload, nothing when it is not a whole one, or an error when it is not of
this protocol. -/
def decode (payload : List UInt8) : Except HandoffError (Option Frame) :=
  match payload with
  | m₀ :: m₁ :: m₂ :: m₃ :: v :: kind :: body =>
    if [m₀, m₁, m₂, m₃] ≠ magic then .error (.protocol "not a handoff frame")
    else if v ≠ version then .error (.protocol "unknown handoff protocol version")
    else if kind = kindChunk then .ok (some (.chunk body))
    else if kind = kindRequest then whole payload (requestAt payload) prefixLen
    else if kind = kindOffer then whole payload (offerAt payload) prefixLen
    else if kind = kindRefuse then
      match body with
      | [] => .ok none
      | byte :: _ =>
        match RefusalCode.fromCode byte with
        | none => .error (.protocol "unknown handoff refusal code")
        | some code => whole payload (refuseAt payload code) (prefixLen + 1)
    else if kind = kindDone then whole payload (doneAt payload) prefixLen
    else .error (.protocol "unknown handoff frame kind")
  | _ => .ok none

/-! ## The readers from the front -/

def getRequest : Get Frame := do
  let group ← getStr
  let group ← (liftM (GroupId.ofString? group) : Get GroupId)
  let name ← getStr
  let need ← getRecords
  pure (.request group name need)

def getHost : Get (Option NodeId) := do
  let name ← getStr
  (liftM (hostId name) : Get (Option NodeId))

def getOffer : Get Frame := do
  let fenceEpoch ← getU64
  let host ← getHost
  let covers ← getRecords
  pure (.offer fenceEpoch host covers)

def getHeld (code : RefusalCode) : Get Watermarks :=
  if code = .notCovered then getRecords else pure ∅

def getRefuse : Get Frame := do
  let byte ← takeU8
  let code ← (liftM (RefusalCode.fromCode byte) : Get RefusalCode)
  let held ← getHeld code
  pure (.refuse code held)

def getDone : Get Frame := do
  let chunks ← getU64
  let count ← getU64
  let finalEpoch ← getU64
  let finalHost ← getHost
  pure (.done chunks count finalEpoch finalHost)

def getBody (kind : UInt8) : Get Frame :=
  if kind = kindRequest then getRequest
  else if kind = kindOffer then getOffer
  else if kind = kindRefuse then getRefuse
  else if kind = kindDone then getDone
  else failure

theorem local_getRequest : Local getRequest :=
  local_getStr.bind fun _ => (Local.lift _).bind fun _ => local_getStr.bind fun _ =>
    local_getRecords.bind fun _ => .pure _

theorem local_getHost : Local getHost := local_getStr.bind fun _ => .lift _

theorem local_getOffer : Local getOffer :=
  (local_getLE 8).bind fun _ => local_getHost.bind fun _ => local_getRecords.bind fun _ => .pure _

theorem local_getHeld (code : RefusalCode) : Local (getHeld code) := .ite local_getRecords (.pure _)

theorem local_getRefuse : Local getRefuse :=
  local_takeU8.bind fun _ => (Local.lift _).bind fun code => (local_getHeld code).bind fun _ =>
    .pure _

theorem local_getDone : Local getDone :=
  (local_getLE 8).bind fun _ => (local_getLE 8).bind fun _ => (local_getLE 8).bind fun _ =>
    local_getHost.bind fun _ => .pure _

theorem local_getBody (kind : UInt8) : Local (getBody kind) :=
  .ite local_getRequest
    (.ite local_getOffer (.ite local_getRefuse (.ite local_getDone local_failure)))

/-! ## The whole payload -/

theorem mirrors_request : Mirrors bytes (requestAt bytes) getRequest :=
  (mirrors_str bytes).bind local_getStr fun _ => (Mirrors.lift _).bind (.lift _) fun _ =>
    (mirrors_str bytes).bind local_getStr fun _ =>
      (mirrors_records bytes).bind local_getRecords fun _ => .pure _

/-- A host at the position, read in two steps. -/
theorem getHost_bind {α : Type} (f : Option NodeId → Get α) :
    (getHost >>= f) = getStr >>= fun name => (liftM (hostId name) : Get (Option NodeId)) >>= f :=
  bind_assoc ..

theorem mirrors_offer : Mirrors bytes (offerAt bytes) getOffer := by
  unfold getOffer
  simp only [getHost_bind]
  exact (Mirrors.le 8).bind (local_getLE 8) fun _ => (mirrors_str bytes).bind local_getStr fun _ =>
    (Mirrors.lift _).bind (.lift _) fun _ => (mirrors_records bytes).bind local_getRecords fun _ =>
      .pure _

theorem mirrors_held (code : RefusalCode) : Mirrors bytes (heldAt bytes code) (getHeld code) :=
  .ite (mirrors_records bytes) (.pure _)

theorem mirrors_refuse (code : RefusalCode) :
    Mirrors bytes (refuseAt bytes code) (getHeld code >>= fun held => pure (.refuse code held)) :=
  (mirrors_held bytes code).bind (local_getHeld code) fun _ => .pure _

theorem mirrors_done : Mirrors bytes (doneAt bytes) getDone := by
  unfold getDone
  simp only [getHost_bind]
  exact (Mirrors.le 8).bind (local_getLE 8) fun _ => (Mirrors.le 8).bind (local_getLE 8) fun _ =>
    (Mirrors.le 8).bind (local_getLE 8) fun _ => (mirrors_str bytes).bind local_getStr fun _ =>
      (Mirrors.lift _).bind (.lift _) fun _ => .pure _

/-- A body that takes everything from its position on. -/
theorem whole_eq_some_iff {bytes : List UInt8} {r : GetAt Frame} {p : Get Frame} {pos : Nat}
    (h : Mirrors bytes r p) (hp : Local p) (hpos : pos ≤ bytes.length) :
    whole bytes r pos = .ok (some frame) ↔ p (bytes.drop pos) = some (frame, []) := by
  unfold whole
  rw [h pos hpos]
  cases hrun : p (bytes.drop pos) with
  | none => exact ⟨nofun, nofun⟩
  | some next =>
    obtain ⟨read, rest⟩ := next
    obtain ⟨used, hused, -⟩ := hp _ _ _ hrun
    have hlen := congrArg List.length hused
    rw [List.length_drop, List.length_append] at hlen
    dsimp only [Option.map_some]
    split
    · have hrest : rest = [] := List.eq_nil_of_length_eq_zero (by omega)
      rw [hrest]
      exact ⟨fun heq => by cases heq; rfl, fun heq => by cases heq; rfl⟩
    rename_i hne
    refine ⟨nofun, fun heq => ?_⟩
    cases heq
    exact absurd rfl hne

theorem decode_putPrefix_iff {kind : UInt8} {body : List UInt8} :
    decode (putPrefix kind ++ body) = .ok (some frame) ↔
      kind = kindChunk ∧ frame = .chunk body ∨ kind ≠ kindChunk ∧
        getBody kind body = some (frame, []) := by
  have hpos : prefixLen ≤ (putPrefix kind ++ body).length := Nat.le_add_left ..
  have hdrop : (putPrefix kind ++ body).drop prefixLen = body := rfl
  have hfront {r : GetAt Frame} {p : Get Frame} (h : Mirrors (putPrefix kind ++ body) r p)
    (hp : Local p) :
      whole (putPrefix kind ++ body) r prefixLen = .ok (some frame) ↔ p body = some (frame, []) :=
    whole_eq_some_iff h hp hpos
  unfold decode getBody
  show (if [71, 78, 72, 79] ≠ magic then _ else _) = _ ↔ _
  have hmagic : ¬ ([71, 78, 72, 79] : List UInt8) ≠ magic := not_not.mpr rfl
  rw [if_neg hmagic]
  by_cases hchunk : kind = kindChunk
  · rw [if_pos hchunk]
    constructor
    · intro h
      cases h
      exact .inl ⟨hchunk, rfl⟩
    rintro (⟨-, rfl⟩ | ⟨hne, -⟩)
    · rfl
    · exact absurd hchunk hne
  · rw [if_neg hchunk]
    have hside {P : Prop} : (kind = kindChunk ∧ frame = .chunk body ∨ kind ≠ kindChunk ∧ P) ↔ P :=
      ⟨fun h => h.elim (fun h => absurd h.1 hchunk) And.right, fun h => .inr ⟨hchunk, h⟩⟩
    rw [hside]
    by_cases hrequest : kind = kindRequest
    · rw [if_pos hrequest, if_pos hrequest]
      exact hfront (mirrors_request _) local_getRequest
    rw [if_neg hrequest, if_neg hrequest]
    by_cases hoffer : kind = kindOffer
    · rw [if_pos hoffer, if_pos hoffer]
      exact hfront (mirrors_offer _) local_getOffer
    rw [if_neg hoffer, if_neg hoffer]
    by_cases hrefuse : kind = kindRefuse
    · rw [if_pos hrefuse, if_pos hrefuse]
      cases body with
      | nil => exact ⟨nofun, nofun⟩
      | cons byte rest =>
        have hrun : getRefuse (byte :: rest) =
          ((liftM (RefusalCode.fromCode byte) : Get RefusalCode) >>=
            fun code => getHeld code >>= fun held => pure (.refuse code held)) rest := rfl
        rw [hrun]
        dsimp only [List.append, putPrefix, magic, List.cons_append, List.nil_append]
        cases hcode : RefusalCode.fromCode byte with
        | none => exact ⟨nofun, nofun⟩
        | some code =>
          refine whole_eq_some_iff (mirrors_refuse _ code) ?_ (Nat.le_add_left ..)
          exact (local_getHeld code).bind fun _ => .pure _
    · rw [if_neg hrefuse, if_neg hrefuse]
      by_cases hdone : kind = kindDone
      · rw [if_pos hdone, if_pos hdone]
        exact hfront (mirrors_done _) local_getDone
      · rw [if_neg hdone, if_neg hdone]
        exact ⟨nofun, nofun⟩

theorem decode_eq_some_iff {payload : List UInt8} :
    decode payload = .ok (some frame) ↔ ∃ kind body, payload = putPrefix kind ++ body ∧
      (kind = kindChunk ∧ frame = .chunk body ∨
        kind ≠ kindChunk ∧ getBody kind body = some (frame, [])) := by
  constructor
  · intro h
    have h' := h
    unfold decode at h'
    split at h'
    · rename_i m₀ m₁ m₂ m₃ v kind body
      split at h'
      · cases h'
      rename_i hmagic
      split at h'
      · cases h'
      rename_i hversion
      have hmagic := not_not.mp hmagic
      obtain rfl := not_not.mp hversion
      cases hmagic
      exact ⟨kind, body, rfl, decode_putPrefix_iff.mp h⟩
    · cases h'
  · rintro ⟨kind, body, rfl, h⟩
    exact decode_putPrefix_iff.mpr h

/-! ## What is written is read -/

namespace Frame

/-- The numbers and lengths of a frame fit their encoding. -/
def Fits : Frame → Prop
  | .request _ name need => name.utf8ByteSize < 4294967296 ∧ Ledger.Fits need
  | .offer fenceEpoch _ covers => fenceEpoch ≤ u64Max ∧ Ledger.Fits covers
  | .refuse _ held => Ledger.Fits held
  | .chunk data => data.length < 4294967296
  | .done chunks bytes finalEpoch _ => chunks ≤ u64Max ∧ bytes ≤ u64Max ∧ finalEpoch ≤ u64Max

/-- The wire can spell the frame: no host has an empty name, and only a refusal for lack of
coverage has a map. -/
def Spelled : Frame → Prop
  | .offer _ host _ | .done _ _ _ host => ∀ node, host = some node → node.str.isEmpty = false
  | .refuse code held => code ≠ .notCovered → held.isEmpty = true
  | _ => True

def Same : Frame → Frame → Prop
  | .request group name need, .request group' name' need' =>
    group = group' ∧ name = name' ∧ need.Equiv need'
  | .offer epoch host covers, .offer epoch' host' covers' =>
    epoch = epoch' ∧ host = host' ∧ covers.Equiv covers'
  | .refuse code held, .refuse code' held' => code = code' ∧ held.Equiv held'
  | .chunk data, .chunk data' => data = data'
  | .done chunks bytes epoch host, .done chunks' bytes' epoch' host' =>
    chunks = chunks' ∧ bytes = bytes' ∧ epoch = epoch' ∧ host = host'
  | _, _ => False

def kind : Frame → UInt8
  | .request .. => kindRequest
  | .offer .. => kindOffer
  | .refuse .. => kindRefuse
  | .chunk .. => kindChunk
  | .done .. => kindDone

def putBody : Frame → List UInt8
  | .request group name need => putStr group.str ++ (putStr name ++ encodeRecords need)
  | .offer fenceEpoch host covers => putU64 fenceEpoch ++ (putHost host ++ encodeRecords covers)
  | .refuse code held => [code.code] ++ if code = .notCovered then encodeRecords held else []
  | .chunk data => data
  | .done chunks bytes finalEpoch finalHost =>
    putU64 chunks ++ (putU64 bytes ++ (putU64 finalEpoch ++ putHost finalHost))

def spell : Frame → Frame
  | .offer fenceEpoch host covers =>
    .offer fenceEpoch (host.filter fun node => !node.str.isEmpty) covers
  | .refuse code held => .refuse code (if code = .notCovered then held else ∅)
  | .done chunks bytes finalEpoch host =>
    .done chunks bytes finalEpoch (host.filter fun node => !node.str.isEmpty)
  | frame => frame

end Frame

theorem encode_eq (f : Frame) : encode f = putPrefix f.kind ++ f.putBody := by
  cases f <;> rfl

theorem same_spell {f f' : Frame} (h : f'.Same f.spell) (hs : f.Spelled) : f'.Same f := by
  have hfilter {host : Option NodeId} (hs : ∀ node, host = some node → node.str.isEmpty = false) :
      (host.filter fun node => !node.str.isEmpty) = host := by
    cases host with
    | none => rfl
    | some node => rw [Option.filter_some, if_pos (by rw [hs node rfl]; rfl)]
  cases f with
  | request => exact h
  | chunk => exact h
  | offer epoch host covers =>
    have hspell : (Frame.offer epoch host covers).spell = .offer epoch host covers :=
      congrArg (Frame.offer epoch · covers) (hfilter hs)
    rwa [hspell] at h
  | done chunks bytes epoch host =>
    have hspell : (Frame.done chunks bytes epoch host).spell = .done chunks bytes epoch host :=
      congrArg (Frame.done chunks bytes epoch) (hfilter hs)
    rwa [hspell] at h
  | refuse code held =>
    cases f' with
    | refuse code' held' =>
      refine ⟨h.1, h.2.trans ?_⟩
      split
      · exact .rfl
      · rename_i hcode
        exact (Std.TreeMap.equiv_empty_iff_isEmpty.mpr (hs hcode)).symm
    | _ => exact h.elim

theorem reads_getHost (host : Option NodeId) :
    Reads getHost (putHost host) (host.filter fun node => !node.str.isEmpty) := by
  cases host with
  | none => exact Reads.lift (reads_getStr (by decide)) rfl
  | some node =>
    refine Reads.lift (reads_getStr node.short) ?_
    unfold hostId
    rw [Option.filter_some]
    cases h : node.str.isEmpty with
    | true => simp [h]
    | false => simp [h]

theorem reads_putBody {f : Frame} (h : f.Fits) (hkind : f.kind ≠ kindChunk) :
    ∃ f' : Frame, Reads (getBody f.kind) f.putBody f' ∧ f'.Same f.spell := by
  cases f with
  | request group name need =>
    obtain ⟨read, hread, hsame⟩ := reads_getRecords h.2
    refine ⟨.request group name read, ?_, rfl, rfl, hsame⟩
    have hgroup : Reads (liftM (GroupId.ofString? group.str) : Get GroupId) [] group := by
      intro rest
      rw [GroupId.ofString?_str]
      rfl
    exact Reads.bind (reads_getStr group.short)
      (hgroup.bind (Reads.bind (reads_getStr h.1) hread.map))
  | offer fenceEpoch host covers =>
    obtain ⟨read, hread, hsame⟩ := reads_getRecords h.2
    refine ⟨.offer fenceEpoch _ read, ?_, rfl, rfl, hsame⟩
    exact Reads.bind (reads_getU64 (Nat.lt_succ_of_le h.1))
      (Reads.bind (reads_getHost host) hread.map)
  | refuse code held =>
    have hbyte : Reads (liftM (RefusalCode.fromCode code.code) : Get RefusalCode) [] code := by
      cases code <;> exact fun _ => rfl
    by_cases hcode : code = .notCovered
    · subst hcode
      obtain ⟨read, hread, hsame⟩ := reads_getRecords h
      exact ⟨.refuse .notCovered read, Reads.bind (reads_takeU8 _) (hbyte.bind hread.map), rfl,
        hsame⟩
    have hheld : Reads (getHeld code) [] ∅ := by
      unfold getHeld
      rw [if_neg hcode]
      exact .pure ∅
    refine ⟨.refuse code ∅, ?_, rfl, ?_⟩
    · show Reads getRefuse ([code.code] ++ if code = .notCovered then encodeRecords held else []) _
      rw [if_neg hcode]
      exact Reads.bind (reads_takeU8 _) (hbyte.bind hheld.map)
    · rw [if_neg hcode]
  | chunk data => exact absurd rfl hkind
  | done chunks bytes finalEpoch finalHost =>
    refine ⟨(Frame.done chunks bytes finalEpoch finalHost).spell, ?_, rfl, rfl, rfl, rfl⟩
    exact Reads.bind (reads_getU64 (Nat.lt_succ_of_le h.1))
      (Reads.bind (reads_getU64 (Nat.lt_succ_of_le h.2.1))
      (Reads.bind (reads_getU64 (Nat.lt_succ_of_le h.2.2)) (reads_getHost finalHost).map))

/-! ## What can be read -/

theorem yields_getHost : Yields getHost fun host => ∀ node, host = some node →
    node.str.isEmpty = false := by
  refine (Yields.any getStr).lift fun name host _ h node hnode => ?_
  subst hnode
  unfold hostId at h
  split at h
  · cases h
  rename_i hname
  obtain ⟨node', hid, heq⟩ := Option.map_eq_some_iff.mp h
  cases heq
  unfold NodeId.ofString? at hid
  split at hid
  · cases hid
    exact Bool.eq_false_of_not_eq_true hname
  · cases hid

theorem yields_getRequest : Yields getRequest fun f => f.Fits ∧ f.Spelled :=
  (Yields.any getStr).bind fun _ _ => (Yields.any _).bind fun _ _ =>
    yields_getStr.bind fun _ hname =>
    yields_getRecords.bind fun _ hneed => .pure ⟨⟨hname, hneed⟩, trivial⟩

theorem yields_getOffer : Yields getOffer fun f => f.Fits ∧ f.Spelled :=
  (yields_getLE 8).bind fun _ hepoch => yields_getHost.bind fun _ hhost =>
    yields_getRecords.bind fun _ hcovers => .pure ⟨⟨Nat.le_of_lt_succ hepoch, hcovers⟩, hhost⟩

theorem yields_getHeld (code : RefusalCode) :
    Yields (getHeld code) fun held => Ledger.Fits held ∧
      (code ≠ .notCovered → held.isEmpty = true) := by
  unfold getHeld
  split
  · rename_i hcode
    exact fun cur held rest hrun =>
      ⟨yields_getRecords cur held rest hrun, fun hne => absurd hcode hne⟩
  · exact .pure ⟨⟨by decide, fun _ _ h => nomatch h⟩, fun _ => rfl⟩

theorem yields_getRefuse : Yields getRefuse fun f => f.Fits ∧ f.Spelled :=
  (Yields.any takeU8).bind fun _ _ => (Yields.any _).bind fun code _ => (yields_getHeld code).bind
    fun _ hheld => .pure ⟨hheld.1, hheld.2⟩

theorem yields_getDone : Yields getDone fun f => f.Fits ∧ f.Spelled :=
  (yields_getLE 8).bind fun _ hchunks => (yields_getLE 8).bind fun _ hbytes => (yields_getLE 8).bind
    fun _ hepoch => yields_getHost.bind fun _ hhost =>
      .pure ⟨⟨Nat.le_of_lt_succ hchunks, Nat.le_of_lt_succ hbytes, Nat.le_of_lt_succ hepoch⟩, hhost⟩

theorem yields_getBody (kind : UInt8) : Yields (getBody kind) fun f => f.Fits ∧ f.Spelled := by
  unfold getBody
  split
  · exact yields_getRequest
  split
  · exact yields_getOffer
  split
  · exact yields_getRefuse
  split
  · exact yields_getDone
  · exact yields_failure _

/-- The round trip. -/
theorem decode_encode {f : Frame} (h : f.Fits) (hs : f.Spelled) :
    ∃ f' : Frame, decode (encode f) = .ok (some f') ∧ f'.Same f := by
  rw [encode_eq]
  by_cases hkind : f.kind = kindChunk
  · cases f with
    | chunk data => exact ⟨.chunk data, decode_putPrefix_iff.mpr (.inl ⟨rfl, rfl⟩), rfl⟩
    | request | offer | refuse | done => cases hkind
  · obtain ⟨f', hread, hsame⟩ := reads_putBody h hkind
    exact ⟨f', decode_putPrefix_iff.mpr (.inr ⟨hkind, hread.run_eq⟩), same_spell hsame hs⟩

theorem putPrefix_inj {kind kind' : UInt8} {body body' : List UInt8}
    (h : putPrefix kind ++ body = putPrefix kind' ++ body') : kind = kind' ∧ body = body' := by
  have h' : magic ++ ([version, kind] ++ body) = magic ++ ([version, kind'] ++ body') := h
  have h'' := List.append_cancel_left h'
  injection h'' with _ h''
  injection h'' with hkind hbody
  exact ⟨hkind, hbody⟩

/-- A frame the wire can spell survives it.  For every frame but a chunk, nothing shorter and
nothing longer than its bytes is a frame.  And whatever is a frame survives being sent on. -/
theorem handoff_codec :
    (∀ f : Frame, f.Fits → f.Spelled → ∃ f' : Frame,
      decode (encode f) = .ok (some f') ∧ f'.Same f) ∧
    (∀ f : Frame, f.Fits → f.kind ≠ kindChunk → ∀ front tail, tail ≠ [] → ∀ f',
      (encode f = front ++ tail → decode front ≠ .ok (some f')) ∧
      decode (encode f ++ tail) ≠ .ok (some f')) ∧
    ∀ payload (f : Frame), decode payload = .ok (some f) →
      ∃ f' : Frame, decode (encode f) = .ok (some f') ∧ f'.Same f := by
  refine ⟨fun f h hs => decode_encode h hs, fun f h hkind front tail htail f' => ⟨?_, ?_⟩, ?_⟩
  · intro hfront hdecode
    obtain ⟨kind, body, rfl, hbody⟩ := decode_eq_some_iff.mp hdecode
    rw [encode_eq, List.append_assoc] at hfront
    obtain ⟨rfl, hcut⟩ := putPrefix_inj hfront
    obtain ⟨read, hread, -⟩ := reads_putBody h hkind
    rcases hbody with ⟨hchunk, -⟩ | ⟨-, hbody⟩
    · exact hkind hchunk
    · exact htail ((local_getBody _).eq_of_front hread hcut hbody).1
  · intro hdecode
    rw [encode_eq, List.append_assoc] at hdecode
    obtain ⟨read, hread, -⟩ := reads_putBody h hkind
    rcases decode_putPrefix_iff.mp hdecode with ⟨hchunk, -⟩ | ⟨-, hbody⟩
    · exact hkind hchunk
    · cases (hread tail).symm.trans hbody
      exact htail rfl
  · intro payload f hdecode
    obtain ⟨kind, body, -, ⟨rfl, rfl⟩ | ⟨-, hbody⟩⟩ := decode_eq_some_iff.mp hdecode
    · rw [encode_eq]
      exact ⟨.chunk body, decode_putPrefix_iff.mpr (.inl ⟨rfl, rfl⟩), rfl⟩
    · obtain ⟨h, hs⟩ := yields_getBody kind _ _ _ hbody
      exact decode_encode h hs

theorem nameless_host_lost :
    ∃ f : Frame, f.Fits ∧ ¬ ∃ f' : Frame, decode (encode f) = .ok (some f') ∧ f'.Same f := by
  refine ⟨.done 0 0 0 (some ⟨"", by decide⟩), ⟨Nat.zero_le _, Nat.zero_le _, Nat.zero_le _⟩, ?_⟩
  rintro ⟨f', hdecode, hsame⟩
  obtain ⟨kind, body, hpayload, hbody⟩ := decode_eq_some_iff.mp hdecode
  rw [encode_eq] at hpayload
  obtain ⟨rfl, rfl⟩ := putPrefix_inj hpayload
  rcases hbody with ⟨hchunk, -⟩ | ⟨-, hbody⟩
  · cases hchunk
  obtain ⟨-, hs⟩ := yields_getBody _ _ _ _ hbody
  cases f' with
  | done chunks bytes epoch host => cases hs _ hsame.2.2.2
  | _ => exact hsame.elim

end Groupnet.Handoff
