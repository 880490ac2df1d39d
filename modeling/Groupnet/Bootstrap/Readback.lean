import Groupnet.Bootstrap.Accounting

/-!
# Reading back

A reply can be lost.  A follower that asks again for its batch, or acknowledges it again, gets
the answer it got before, for as long as nothing else has changed the follower.  What the rest of
the group does meanwhile makes no difference: deltas are only added at the end of the journal, or
the capture ends and its followers with it.
-/

namespace Groupnet.Bootstrap

open Call

namespace DonorJournal

variable {j j' j'' : DonorJournal} {reservation : ReservationId} {barrier : BarrierReceipt}
  {now : Time}

def follower (j : DonorJournal) (reservation : ReservationId) : Option Follower :=
  (j.followerIndex reservation).map Prod.snd

/-! ## Later journals -/

/-- While the capture lives, its deltas stay and new ones follow. -/
structure Later (j j' : DonorJournal) : Prop where
  config : j'.config = j.config
  id : j'.id = j.id
  kept : j'.state ≠ .invalidated → j.state ≠ .invalidated ∧ j.lastPosition ≤ j'.lastPosition ∧
    ∃ more, j'.deltas = j.deltas ++ more ∧ ∀ delta ∈ more, j.lastPosition < delta.position

namespace Later

theorem refl (j : DonorJournal) : Later j j :=
  ⟨rfl, rfl, fun h => ⟨h, le_rfl, [], (List.append_nil _).symm, by simp⟩⟩

theorem trans (h : Later j j') (h' : Later j' j'') : Later j j'' where
  config := h'.config.trans h.config
  id := h'.id.trans h.id
  kept hstate := by
    obtain ⟨hstate', hle', more', hdeltas', hmore'⟩ := h'.kept hstate
    obtain ⟨hstate, hle, more, hdeltas, hmore⟩ := h.kept hstate'
    refine ⟨hstate, hle.trans hle', more ++ more', by rw [hdeltas', hdeltas, List.append_assoc], ?_⟩
    intro delta hdelta
    rcases List.mem_append.mp hdelta with hdelta | hdelta
    · exact hmore delta hdelta
    · exact hle.trans_lt (hmore' delta hdelta)

/-- Whatever leaves the deltas alone keeps them. -/
theorem of_eq (hconfig : j'.config = j.config) (hid : j'.id = j.id) (hstate : j'.state = j.state)
    (hdeltas : j'.deltas = j.deltas) (hlast : j'.lastPosition = j.lastPosition) : Later j j' where
  config := hconfig
  id := hid
  kept h := ⟨hstate ▸ h, hlast.ge, [], by rw [hdeltas, List.append_nil], by simp⟩

theorem of_move (h : Move j j') : Later j j' := by
  cases h with
  | aside h =>
    refine ⟨h.config, h.id, fun hstate => ⟨fun hj => hstate (h.invalidated.mpr hj),
      h.lastPosition.ge, [], ?_, ?_⟩⟩
    · rw [h.deltas, List.append_nil]
    · simp
  | expire now | reserve next follower _ _ _ | replace follower' _ _ _ | release _ | notify
  | retire _ => exact .of_eq rfl rfl rfl rfl rfl
  | invalidate reason =>
    unfold invalidateInner
    split
    · exact .refl j
    · exact ⟨rfl, rfl, fun h => absurd rfl h⟩
  | record cuts identity effect _ _ =>
    refine ⟨rfl, rfl, fun hstate => ⟨hstate, Nat.le_succ _, _, rfl, fun delta hdelta => ?_⟩⟩
    rw [List.mem_singleton.mp hdelta]
    exact Nat.lt_succ_self _

theorem of_moves (h : Relation.ReflTransGen Move j j') : Later j j' := by
  induction h with
  | refl => exact .refl j
  | tail _ hmove ih => exact ih.trans (.of_move hmove)

/-- What lies between two positions of a journal stays what it is. -/
theorem between_eq (h : Later j j') (hstate : j'.state ≠ .invalidated) {from' through : Nat}
    (hthrough : through ≤ j.lastPosition) :
    j'.between from' through = j.between from' through := by
  obtain ⟨-, -, more, hdeltas, hmore⟩ := h.kept hstate
  have hnone : (more.filter fun delta =>
      decide (from' < delta.position ∧ delta.position ≤ through)) = [] := by
    rw [List.filter_eq_nil_iff]
    intro delta hdelta
    have hlt := hmore delta hdelta
    simp only [decide_eq_true_eq, not_and, not_le]
    omega
  unfold between
  rw [hdeltas, List.filter_append, hnone, List.append_nil]

end Later

/-! ## The deltas of a batch -/

variable {follower f : Follower} {answer : Option JournalBatch} {operation last index : Nat}
  {through : JournalCursor}

/-- The deltas are in the order of their positions. -/
theorem Accounted.ordered (h : Accounted j) (hstate : j.state ≠ .invalidated) :
    j.deltas.Pairwise fun delta delta' => delta.position < delta'.position := by
  have hrange := List.pairwise_lt_range' (s := 1) (n := j.lastPosition)
  rw [← h.positions hstate, List.pairwise_map] at hrange
  exact hrange

theorem filter_upTo_eq_nil {deltas : List JournalDelta}
    (h : ∀ delta ∈ deltas, last < delta.position) :
    (deltas.filter fun delta => decide (delta.position ≤ last)) = [] := by
  rw [List.filter_eq_nil_iff]
  intro delta hdelta
  simpa using h delta hdelta

/-- A batch is filled with the first deltas, and these are the ones up to its last position. -/
theorem fill_take {config : JournalConfig} {deltas : List JournalDelta}
    (hordered : deltas.Pairwise fun delta delta' => delta.position < delta'.position)
    {count bytes count' bytes' last' : Nat} (hlast : ∀ delta ∈ deltas, last < delta.position)
    (h : fill config deltas count bytes last = some (count', bytes', last')) :
    last ≤ last' ∧ ∃ n, count' = count + n ∧
      (deltas.filter fun delta => decide (delta.position ≤ last')) = deltas.take n := by
  induction deltas generalizing count bytes last with
  | nil =>
    cases h
    exact ⟨le_rfl, 0, rfl, rfl⟩
  | cons delta deltas ih =>
    obtain ⟨hdelta, hordered⟩ := List.pairwise_cons.mp hordered
    unfold fill at h
    split at h
    · cases h
    split at h
    · cases h
    split at h
    · cases h
      exact ⟨le_rfl, 0, rfl, filter_upTo_eq_nil hlast⟩
    obtain ⟨hle, n, hcount, htake⟩ := ih hordered hdelta h
    refine ⟨(hlast delta List.mem_cons_self).le.trans hle, n + 1, by omega, ?_⟩
    rw [List.filter_cons_of_pos (by simpa using hle), List.take_succ_cons, htake]

/-- The deltas a new batch is given are all between its two ends. -/
theorem take_between (h : Accounted j) (hstate : j.state ≠ .invalidated)
    {from' through count bytes : Nat} (hthrough : from' ≤ through)
    (hfill : fill j.config (j.between from' through) 0 0 from' = some (count, bytes, last)) :
    (j.between from' last).take count = j.between from' last := by
  have hlast : last ≤ through :=
    fill_last (fun delta hdelta => (mem_between.mp hdelta).2.2) hthrough hfill
  have hordered : (j.between from' through).Pairwise fun delta delta' =>
      delta.position < delta'.position := (h.ordered hstate).filter _
  obtain ⟨-, n, hcount, htake⟩ := fill_take hordered
    (fun delta hdelta => (mem_between.mp hdelta).2.1) hfill
  have hbetween : j.between from' last =
      (j.between from' through).filter fun delta => decide (delta.position ≤ last) := by
    unfold between
    rw [List.filter_filter]
    refine List.filter_congr fun delta _ => ?_
    rw [← Bool.decide_and, decide_eq_decide]
    omega
  rw [hbetween, htake, List.take_take, hcount, Nat.zero_add, min_self]

/-! ## Batches -/

structure Answers (j : DonorJournal) (follower : Follower) (reservation : ReservationId)
    (barrier : BarrierReceipt) (answer : Option JournalBatch) : Prop where
  stage : follower.stage = .attached
  sampled : follower.barrier = some barrier
  reserved : barrier.reservation = reservation
  capture : barrier.cursor.capture = j.id
  position : barrier.cursor.position ≤ j.lastPosition
  acked : follower.acked ≤ barrier.cursor.position
  answer : (∃ outstanding, follower.outstanding = some outstanding ∧
      outstanding.through ≤ j.lastPosition ∧
      answer = some (j.batch reservation follower.acked outstanding
        (j.between follower.acked outstanding.through))) ∨
    follower.outstanding = none ∧ follower.acked = barrier.cursor.position ∧ answer = none

theorem Answers.later (h : Answers j follower reservation barrier answer) (hlater : Later j j')
    (hstate : j'.state ≠ .invalidated) : Answers j' follower reservation barrier answer where
  __ := h
  capture := h.capture.trans hlater.id.symm
  position := h.position.trans (hlater.kept hstate).2.1
  answer := by
    refine h.answer.imp_left ?_
    rintro ⟨outstanding, houtstanding, hthrough, rfl⟩
    refine ⟨outstanding, houtstanding, hthrough.trans (hlater.kept hstate).2.1, ?_⟩
    rw [hlater.between_eq hstate hthrough]
    simp only [batch, cursor, hlater.id]

theorem follower_eq_some (h : j.follower reservation = some f) :
    ∃ index, j.followerIndex reservation = some (index, f) := by
  obtain ⟨⟨index, f'⟩, hindex, rfl⟩ := Option.map_eq_some_iff.mp h
  exact ⟨index, hindex⟩

theorem follower_of_followerIndex (h : j.followerIndex reservation = some (index, f)) :
    j.follower reservation = some f := by
  rw [follower, h]
  rfl

/-- A journal with a follower has an available capture. -/
theorem Accounted.state_of_follower (h : Accounted j) (hf : j.follower reservation = some f) :
    j.state ≠ .invalidated := by
  obtain ⟨index, hindex⟩ := follower_eq_some hf
  have hmem := List.mem_of_getElem? (followerIndex_eq_some hindex).2
  simp [h.active (List.ne_nil_of_mem hmem)]

/-- A follower that is replaced is found in its place. -/
theorem follower_set (h : j.followerIndex reservation = some (index, f)) (f' : Follower)
    (hid : f'.id = f.id) (hfollowers : j'.followers = j.followers.set index f') :
    j'.follower reservation = some f' := by
  obtain ⟨hfind, hf⟩ := followerIndex_eq_some h
  obtain ⟨hindex, -⟩ := List.getElem?_eq_some_iff.mp hf
  have hids : j'.followers.map Follower.id = j.followers.map Follower.id := by
    have hself : (j.followers.map Follower.id)[index]? = some f'.id := by
      rw [List.getElem?_map, hf, Option.map_some, hid]
    obtain ⟨_, hself⟩ := List.getElem?_eq_some_iff.mp hself
    rw [hfollowers, List.map_set, ← hself]
    exact List.set_getElem_self _
  have hfind' : j'.followers.findIdx? (fun f => decide (f.id = reservation)) = some index := by
    have hmap := congrArg (List.findIdx? fun id => decide (id = reservation)) hids
    rw [List.findIdx?_map, List.findIdx?_map] at hmap
    exact hmap.trans hfind
  have hget' : j'.followers[index]? = some f' := by
    rw [hfollowers]
    exact List.getElem?_set_self hindex
  simp [follower, followerIndex, hfind', hget']

theorem readBatch_of_answers (hadvance : (j.advance now).2 = .ok ())
    (hfollower : (j.advance now).1.follower reservation = some follower)
    (h : Answers (j.advance now).1 follower reservation barrier answer) :
    (j.readBatch now reservation barrier).2 = .ok answer := by
  obtain ⟨index, hindex⟩ := follower_eq_some hfollower
  unfold readBatch
  rw [andThen_of_ok _ hadvance]
  generalize (j.advance now).1 = j at *
  unfold onFollower
  rw [hindex]
  have hvalid : ¬ (follower.barrier ≠ some barrier ∨ barrier.reservation ≠ reservation ∨
      barrier.cursor.capture ≠ j.id ∨ j.lastPosition < barrier.cursor.position ∨
      barrier.cursor.position < follower.acked) := by
    have hposition := h.position
    have hacked := h.acked
    simp only [h.sampled, h.reserved, h.capture, ne_eq, not_true_eq_false, false_or]
    omega
  simp only [h.stage, ne_eq, not_true_eq_false, if_false]
  rw [if_neg hvalid]
  rcases h.answer with ⟨outstanding, houtstanding, -, rfl⟩ | ⟨hnone, hacked, rfl⟩
  · rw [houtstanding]
  · rw [hnone]
    simp only [hacked, if_true]

theorem answers_of_takeBatch (hj : Accounted j)
    (hindex : j.followerIndex reservation = some (index, follower))
    (hstage : follower.stage = .attached) (hsampled : follower.barrier = some barrier)
    (hreserved : barrier.reservation = reservation) (hcapture : barrier.cursor.capture = j.id)
    (hposition : barrier.cursor.position ≤ j.lastPosition)
    (hacked : follower.acked ≤ barrier.cursor.position)
    (h : (j.takeBatch index follower reservation barrier).2 = .ok answer) :
    ∃ f, (j.takeBatch index follower reservation barrier).1.follower reservation = some f ∧
      Answers (j.takeBatch index follower reservation barrier).1 f reservation barrier answer := by
  have hstate : j.state ≠ .invalidated :=
    hj.state_of_follower (follower_of_followerIndex hindex)
  unfold takeBatch at h ⊢
  cases hfill : fill j.config (j.between follower.acked barrier.cursor.position) 0 0
      follower.acked with
  | none => simp [hfill] at h
  | some filled =>
    obtain ⟨count, bytes, last⟩ := filled
    have hlast : last ≤ j.lastPosition :=
      fill_last (fun d hd => (mem_between.mp hd).2.2.trans hposition) (hacked.trans hposition) hfill
    have htake := take_between hj hstate hacked hfill
    simp only [hfill] at h ⊢
    cases hadd : checkedAdd usizeMax j.inflightBytes bytes with
    | none => simp [hadd] at h
    | some newInflight =>
      simp only [hadd] at h ⊢
      by_cases hroom : count = 0 ∨ j.config.maxInflightBytes < newInflight
      · simp [hroom] at h
      by_cases hcharged : 0 < bytes
      · rw [if_neg hroom, dif_pos hcharged] at h ⊢
        obtain ⟨operation, -, hrest⟩ := of_andThen_eq_ok h
        rw [hrest] at h ⊢
        have haside := operationToken_aside j
        have hbetween : j.operationToken.1.between follower.acked last =
            j.between follower.acked last := by
          unfold between
          rw [haside.deltas]
        rw [hbetween, htake, ← hbetween] at h
        cases h
        have hfollowers : (j.operationToken.1.setFollower index
            { follower with outstanding := some ⟨operation, last, ⟨bytes, hcharged⟩⟩ }).followers =
            j.followers.set index
              { follower with outstanding := some ⟨operation, last, ⟨bytes, hcharged⟩⟩ } := by
          rw [← haside.followers]
          rfl
        have hfollower := follower_set hindex
          { follower with outstanding := some ⟨operation, last, ⟨bytes, hcharged⟩⟩ } rfl hfollowers
        exact ⟨_, hfollower, hstage, hsampled, hreserved,
          hcapture.trans haside.id.symm, hposition.trans haside.lastPosition.ge, hacked,
          .inl ⟨_, rfl, hlast.trans haside.lastPosition.ge, rfl⟩⟩
      · rw [if_neg hroom, dif_neg hcharged] at h
        cases h

/-- A read that succeeds leaves the follower in a state that gives the same answer. -/
theorem answers_of_readBatch (hj : Accounted j)
    (h : (j.readBatch now reservation barrier).2 = .ok answer) :
    ∃ follower, (j.readBatch now reservation barrier).1.follower reservation = some follower ∧
      Answers (j.readBatch now reservation barrier).1 follower reservation barrier answer := by
  have hj' : Accounted (j.advance now).1 := hj.moves (advance_moves j now)
  unfold readBatch at h ⊢
  obtain ⟨-, -, hrest⟩ := of_andThen_eq_ok h
  rw [hrest] at h ⊢
  generalize (j.advance now).1 = j at *
  unfold onFollower at h ⊢
  cases hindex : j.followerIndex reservation with
  | none => simp [hindex] at h
  | some found =>
    obtain ⟨index, follower⟩ := found
    have hmem := List.mem_of_getElem? (followerIndex_eq_some hindex).2
    have hfollower := follower_of_followerIndex hindex
    simp only [hindex] at h ⊢
    by_cases hstage : follower.stage = .attached
    · rw [if_neg (not_not.mpr hstage)] at h ⊢
      split at h
      · cases h
      rename_i hvalid
      rw [if_neg hvalid]
      push Not at hvalid
      obtain ⟨hsampled, hreserved, hcapture, hposition, hacked⟩ := hvalid
      cases houtstanding : follower.outstanding with
      | some outstanding =>
        simp only [houtstanding, Except.ok.injEq] at h ⊢
        exact ⟨follower, hfollower, hstage, hsampled, hreserved, hcapture, hposition, hacked,
          .inl ⟨outstanding, houtstanding, hj'.through follower hmem outstanding houtstanding,
            h.symm⟩⟩
      | none =>
        simp only [houtstanding] at h ⊢
        by_cases hsame : follower.acked = barrier.cursor.position
        · rw [if_pos hsame] at h ⊢
          cases h
          exact ⟨follower, hfollower, hstage, hsampled, hreserved, hcapture, hposition, hacked,
            .inr ⟨houtstanding, hsame, rfl⟩⟩
        · rw [if_neg hsame] at h ⊢
          exact answers_of_takeBatch hj' hindex hstage hsampled hreserved hcapture hposition
            hacked h
    · rw [if_pos hstage] at h
      cases h

/-! ## Acknowledgments -/

/-- The follower has acknowledged this batch and holds no other. -/
structure Acknowledges (j : DonorJournal) (follower : Follower) (operation : Nat)
    (through answer : JournalCursor) : Prop where
  capture : through.capture = j.id
  settled : follower.outstanding = none
  lastAcked : follower.lastAcked = some (operation, through.position)
  answer : answer = j.cursor through.position

theorem Acknowledges.later {answer : JournalCursor}
    (h : Acknowledges j follower operation through answer) (hlater : Later j j') :
    Acknowledges j' follower operation through answer where
  __ := h
  capture := h.capture.trans hlater.id.symm
  answer := by rw [h.answer, cursor, cursor, hlater.id]

theorem ackBatch_of_acknowledges {answer : JournalCursor} (hadvance : (j.advance now).2 = .ok ())
    (hfollower : (j.advance now).1.follower reservation = some follower)
    (h : Acknowledges (j.advance now).1 follower operation through answer) :
    (j.ackBatch now reservation operation through).2 = .ok answer := by
  obtain ⟨index, hindex⟩ := follower_eq_some hfollower
  unfold ackBatch
  rw [andThen_of_ok _ hadvance]
  generalize (j.advance now).1 = j at *
  simp only [onFollower, hindex, h.settled, h.lastAcked, h.capture, h.answer, and_self, if_true]

/-- An acknowledgment that succeeds leaves the follower settled. -/
theorem acknowledges_of_ackBatch {answer : JournalCursor}
    (h : (j.ackBatch now reservation operation through).2 = .ok answer) : ∃ follower,
      (j.ackBatch now reservation operation through).1.follower reservation = some follower ∧
      Acknowledges (j.ackBatch now reservation operation through).1 follower operation through
        answer := by
  unfold ackBatch at h ⊢
  obtain ⟨-, -, hrest⟩ := of_andThen_eq_ok h
  rw [hrest] at h ⊢
  generalize (j.advance now).1 = j at *
  unfold onFollower at h ⊢
  cases hindex : j.followerIndex reservation with
  | none => simp [hindex] at h
  | some found =>
    obtain ⟨index, follower⟩ := found
    have hfollower := follower_of_followerIndex hindex
    simp only [hindex] at h ⊢
    cases houtstanding : follower.outstanding with
    | none =>
      simp only [houtstanding] at h ⊢
      split at h
      · rename_i hsettled
        rw [if_pos hsettled]
        cases h
        exact ⟨follower, hfollower, hsettled.1, houtstanding, hsettled.2, rfl⟩
      · cases h
    | some outstanding =>
      simp only [houtstanding] at h ⊢
      split at h
      · cases h
      rename_i hvalid
      rw [if_neg hvalid]
      push Not at hvalid
      cases h
      exact ⟨_, follower_set hindex
        { follower with
          acked := outstanding.through
          lastAcked := some (operation, through.position)
          outstanding := none } rfl rfl, hvalid.1, rfl, rfl, rfl⟩

/-! ## Every run -/

/-- A call whose clock does not go back fails only with its follower gone. -/
theorem advance_of_follower (hj : Accounted j) (hnow : j.now ≤ now)
    (h : (j.advance now).1.follower reservation = some follower) : (j.advance now).2 = .ok () := by
  obtain ⟨index, hindex⟩ := follower_eq_some h
  have hmem := List.mem_of_getElem? (followerIndex_eq_some hindex).2
  unfold advance at hmem ⊢
  rw [if_neg (Nat.not_lt.mpr hnow)] at hmem ⊢
  split
  · rename_i hexpired
    rw [if_pos hexpired] at hmem
    unfold withdraw invalidateInner at hmem
    split at hmem
    · rename_i hstate
      have hactive := hj.active (List.ne_nil_of_mem hmem)
      rw [show j.state = .invalidated from hstate] at hactive
      cases hactive
    · exact absurd hmem List.not_mem_nil
  · rfl

theorem readBatch_of_lt (h : now < j.now) :
    (j.readBatch now reservation barrier).2 = .error .backwardTime := by
  simp [readBatch, andThen, advance, h]

theorem ackBatch_of_lt (h : now < j.now) :
    (j.ackBatch now reservation operation through).2 = .error .backwardTime := by
  simp [ackBatch, andThen, advance, h]

/-- In every state a journal reaches, the bytes in flight are those of the batches that live and
aborted followers hold, and are within the limit.  No follower holds more than is in flight, so
that releasing its charge does not underflow.  While the capture lives its deltas are at the
positions from one on, and their bytes are what the journal counts.  Live and aborted followers
are within the limit together.  A read or an acknowledgment that succeeded has the same answer
again as long as nothing else has changed its follower, unless the clock goes back. -/
theorem journal_accounting {layout : Layout} {alloc : Allocator} {config : JournalConfig}
    {id : CaptureId} {domainSlots partitionSlots : Nat} {j₀ : DonorJournal}
    (hnew : new layout alloc config id domainSlots partitionSlots = .ok j₀)
    (calls : List JournalCall) :
    let j := j₀.run calls
    j.inflightBytes = j.charged ∧ j.inflightBytes ≤ config.maxInflightBytes ∧
    (∀ follower ∈ j.followers, batchBytes follower.outstanding ≤ j.inflightBytes) ∧
    (∀ aborted ∈ j.aborted, batchBytes aborted.outstanding ≤ j.inflightBytes) ∧
    (j.state ≠ .invalidated →
      j.deltas.map JournalDelta.position = List.range' 1 j.lastPosition ∧
      j.suffixBytes = tally JournalDelta.bytes j.deltas ∧
      j.suffixBytes ≤ config.maxSuffixBytes) ∧
    j.followers.length + j.aborted.length ≤ config.maxFollowers ∧
    (∀ now reservation barrier answer, (j.readBatch now reservation barrier).2 = .ok answer →
      ∀ later now', let j₁ := (j.readBatch now reservation barrier).1
        let j₂ := j₁.run later
        (j₂.advance now').1.follower reservation = j₁.follower reservation →
        (j₂.readBatch now' reservation barrier).2 =
          if now' < j₂.now then .error .backwardTime else .ok answer) ∧
    ∀ now reservation operation through answer,
      (j.ackBatch now reservation operation through).2 = .ok answer →
      ∀ later now', let j₁ := (j.ackBatch now reservation operation through).1
        let j₂ := j₁.run later
        (j₂.advance now').1.follower reservation = j₁.follower reservation →
        (j₂.ackBatch now' reservation operation through).2 =
          if now' < j₂.now then .error .backwardTime else .ok answer := by
  intro j
  have hmoves : Relation.ReflTransGen Move j₀ j := run_moves j₀ calls
  have hj : Accounted j := (accounted_new hnew).moves hmoves
  have hconfig : j.config = config := by
    rw [(Later.of_moves hmoves).config]
    exact config_new hnew
  rw [← hconfig]
  refine ⟨hj.inflight, hj.inflight_le, fun _ => hj.follower_le, fun _ => hj.aborted_le,
    fun hstate => ⟨hj.positions hstate, hj.suffix, hj.suffix_le⟩, hj.followers_le, ?_, ?_⟩
  · intro now reservation barrier answer hread later now' j₁ j₂ hsame
    obtain ⟨follower, hfollower, hanswers⟩ := answers_of_readBatch hj hread
    have hmoves₂ : Relation.ReflTransGen Move j₁ j₂ := run_moves j₁ later
    have hj₂ : Accounted j₂ := (hj.moves (readBatch_moves j now reservation barrier)).moves hmoves₂
    split_ifs with hnow
    · exact readBatch_of_lt hnow
    have hlive := hsame.trans hfollower
    have hadvance := advance_of_follower hj₂ (Nat.not_lt.mp hnow) hlive
    refine readBatch_of_answers hadvance hlive (hanswers.later ?_ ?_)
    · exact .of_moves (hmoves₂.trans (advance_moves j₂ now'))
    · exact (hj₂.moves (advance_moves j₂ now')).state_of_follower hlive
  · intro now reservation operation through answer hack later now' j₁ j₂ hsame
    obtain ⟨follower, hfollower, hacknowledges⟩ := acknowledges_of_ackBatch hack
    have hmoves₂ : Relation.ReflTransGen Move j₁ j₂ := run_moves j₁ later
    have hj₂ : Accounted j₂ :=
      (hj.moves (ackBatch_moves j now reservation operation through)).moves hmoves₂
    split_ifs with hnow
    · exact ackBatch_of_lt hnow
    have hlive := hsame.trans hfollower
    have hadvance := advance_of_follower hj₂ (Nat.not_lt.mp hnow) hlive
    exact ackBatch_of_acknowledges hadvance hlive
      (hacknowledges.later (.of_moves (hmoves₂.trans (advance_moves j₂ now'))))

/-- Limits for a few small deltas. -/
def smallConfig : JournalConfig :=
  ⟨8, 8, 4, 16, 8, 4, 2, 8, 2, 8, 2, 16, 8, 4, 8, 16, 100, 50⟩

def wideLayout : Layout := ⟨64, 64, 64, 64, 64, 64, 64⟩

/-- An allocator that gives what it is asked for. -/
def exact : Allocator := fun _ slots => some slots

def donorClaim : ClaimIdentity := ⟨.ofChar 'd', 1, 1, 1⟩

def donorCapture : CaptureId := ⟨⟨"s", "p"⟩, donorClaim, 1, 1⟩

def followerClaim : ClaimIdentity := ⟨.ofChar 'f', 1, 1, 1⟩

def firstReservation : ReservationId := ⟨donorCapture, followerClaim, 1⟩

def donorMembers : List BootstrapMemberIdentity :=
  [⟨.ofChar 'd', some ⟨.ofChar 'd', 1, 1⟩, 0, .alive⟩]

def firstBarrier : BarrierReceipt :=
  ⟨firstReservation, 1, 2, ⟨donorCapture, 1⟩, [], donorMembers⟩

/-- One delta is captured and read by one follower. -/
def oneBatch : List JournalCall :=
  [.beginCapture exact 0 ⟨⟨1, 1⟩, donorMembers, [], 1, 0, []⟩, .finishCapture 0 ⟨1, 1⟩,
    .append 0 1 (.local [1]) [7] 1 1, .reserve 1 followerClaim ⟨donorCapture, 0⟩,
    .beginAttach 2 firstReservation, .confirmAttach 3 ⟨firstReservation, 1⟩,
    .barrier exact 4 firstReservation, .readBatch 5 firstReservation firstBarrier]

theorem journal_accounting_oneBatch :
    ∃ j₀, new wideLayout exact smallConfig donorCapture 1 1 = .ok j₀ ∧
      (j₀.run oneBatch).inflightBytes = 2 ∧
      (j₀.run oneBatch).inflightBytes = (j₀.run oneBatch).charged := by
  obtain ⟨j₀, hnew⟩ : ∃ j₀, new wideLayout exact smallConfig donorCapture 1 1 = .ok j₀ := ⟨_, rfl⟩
  refine ⟨j₀, hnew, ?_, (journal_accounting hnew oneBatch).1⟩
  cases hnew
  decide +kernel

end DonorJournal

end Groupnet.Bootstrap
