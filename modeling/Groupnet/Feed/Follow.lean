import Groupnet.Feed.Ring

/-!
# Following a writer

A writer lives several lives, each with an epoch above the last.  A subscriber attaches to
one of its frames and is handed frames of any of the lives, in any order and as often as
gossip likes.  Everything written between the attach point and the end of a frame it was
handed is told once, or lies below a gap.

A renewal is the one place where nothing is said about a stretch of tokens: the cursor is
past a seal and the new life's first write is visible.  It says that nothing was written in
between, and it is wrong when a life in between wrote and was never seen.
-/

namespace Groupnet

variable {K : Type}

def PeerWrite.write? : PeerWrite K → Option (WriteToken × K)
  | .wrote _ token key => some (token, key)
  | .gap .. | .sealed .. | .renewed .. => none

def Cursor.token (cursor : Cursor) : WriteToken := ⟨cursor.epoch, cursor.next⟩

/-- The cursor after a row of frames, and everything queued. -/
def follow (node : NodeId) (decode : List UInt8 → Option K) (cursor : Cursor)
    (frames : List FeedFrame) :
    Cursor × List (PeerWrite K) :=
  frames.foldl (fun s frame =>
    let (cursor, out) := reconcile node decode s.1 frame
    (cursor, s.2 ++ out)) (cursor, [])

section

variable {node : NodeId} {decode : List UInt8 → Option K} {cursor : Cursor}
  {frames : List FeedFrame}

theorem follow_snoc (frame : FeedFrame) : follow node decode cursor (frames ++ [frame]) =
    ((reconcile node decode (follow node decode cursor frames).1 frame).1,
      (follow node decode cursor frames).2 ++
        (reconcile node decode (follow node decode cursor frames).1 frame).2) := by
  unfold follow
  rw [List.foldl_append, List.foldl_cons, List.foldl_nil]

/-- What was queued stays queued. -/
theorem follow_append {rest : List FeedFrame} :
    ∃ out, (follow node decode cursor (frames ++ rest)).2 = (follow node decode cursor frames).2 ++
      out := by
  induction rest using List.reverseRecOn with
  | nil => exact ⟨[], by rw [List.append_nil, List.append_nil]⟩
  | append_singleton rest frame ih =>
    obtain ⟨out, hout⟩ := ih
    rw [← List.append_assoc, follow_snoc, hout, List.append_assoc]
    exact ⟨_, rfl⟩

end

/-! ## One frame -/

/-- The keys of numbered writes are delivered as those writes. -/
theorem deliverKeys_eq {node : NodeId} {decode : List UInt8 → Option K} {encode : K → List UInt8}
    {epoch next : Nat} {ws : List (WriteToken × K)} (hws : Numbered epoch next ws)
    (hdecode : ∀ w ∈ ws, decode (encode w.2) = some w.2) :
    deliverKeys node decode epoch next (ws.map fun w => encode w.2) =
      ws.map fun w => .wrote node w.1 w.2 := by
  induction ws generalizing next with
  | nil => rfl
  | cons w ws ih =>
    rw [List.map_cons, List.map_cons, deliverKeys, hdecode w (List.mem_cons_self ..),
      ih hws.2 fun w hw => hdecode w (List.mem_cons_of_mem _ hw), hws.1]
    rfl

theorem filterMap_write_map {node : NodeId} (ws : List (WriteToken × K)) :
    (ws.map fun w => PeerWrite.wrote node w.1 w.2).filterMap PeerWrite.write? = ws := by
  induction ws with
  | nil => rfl
  | cons w ws ih => simp only [List.map_cons, List.filterMap_cons, PeerWrite.write?, ih]

section Lives

variable (encode : K → List UInt8) (lives : List (Life K))

/-- What a subscriber knows after a row of frames: the cursor stands in a life, or past its
seal, and the events tell everything between the attach point and the cursor. -/
structure Abreast (attach : WriteToken) (cursor : Cursor) (events : List (PeerWrite K)) : Prop where
  stands : ∃ life ∈ lives, cursor.epoch = life.epoch ∧ 1 ≤ cursor.next ∧
    cursor.next ≤ (life.writes encode).length + 2 ∧
      (cursor.isSealed = true ↔ cursor.next = (life.writes encode).length + 2)
  told : ∀ life ∈ lives, ∀ w ∈ life.writes encode, attach ≤ w.1 → w.1 < cursor.token →
    w ∈ events.filterMap PeerWrite.write? ∨ ∃ peer m, .gap peer m ∈ events ∧ w.1 ≤ m
  sorted : (events.filterMap PeerWrite.write?).Pairwise (·.1 < ·.1)
  below : ∀ w ∈ events.filterMap PeerWrite.write?, w.1 < cursor.token
  /-- A renewal skips no write. -/
  renewed : ∀ peer sealed epoch, .renewed peer sealed epoch ∈ events →
    ∀ life ∈ lives, ∀ w ∈ life.writes encode, ¬ (sealed < w.1 ∧ w.1 < ⟨epoch, 1⟩)

/-- Where a subscriber starts: at the end of a frame, or at its front with the frame to
follow. -/
inductive Attaches : WriteToken → Cursor → Prop
  | attached {life : Life K} {frame : FeedFrame} (hlife : life ∈ lives)
      (hframe : life.Advertises encode frame) : Attaches ⟨frame.epoch, frame.stop⟩ (.attached frame)
  | entered {life : Life K} {frame : FeedFrame} (hlife : life ∈ lives)
      (hframe : life.Advertises encode frame) : Attaches ⟨frame.epoch, frame.firstSeq⟩
      (.entered frame)

/-- No life was skipped that wrote, where a frame would be taken for a renewal. -/
def Unskipped (cursor : Cursor) (frame : FeedFrame) : Prop :=
  cursor.isSealed = true → cursor.epoch < frame.epoch → frame.firstSeq = 1 →
    ∀ life ∈ lives, cursor.epoch < life.epoch → life.epoch < frame.epoch → life.writes encode = []

end Lives

section

variable {encode : K → List UInt8} {decode : List UInt8 → Option K} {node : NodeId}
  {lives : List (Life K)} {attach : WriteToken} {cursor : Cursor} {events : List (PeerWrite K)}
  {life : Life K} {frame : FeedFrame}

theorem life_unique (hlives : lives.Pairwise (·.epoch < ·.epoch)) {life' : Life K}
    (h : life ∈ lives) (h' : life' ∈ lives) (he : life.epoch = life'.epoch) : life = life' := by
  have hone := filter_eq_singleton hlives h
  have hmem : life' ∈ lives.filter fun l => l.epoch = life.epoch :=
    List.mem_filter.mpr ⟨h', decide_eq_true he.symm⟩
  rw [hone] at hmem
  exact (List.mem_singleton.mp hmem).symm

section

variable (h : Abreast encode lives attach cursor events)

include h

/-- The cursor moves on over tokens that a gap covers or that nobody wrote. -/
theorem Abreast.move {cursor' : Cursor}
    {news : PeerWrite K} (hnews : news.write? = none) (hle : cursor.token ≤ cursor'.token)
    (hstands : ∃ life ∈ lives, cursor'.epoch = life.epoch ∧ 1 ≤ cursor'.next ∧
      cursor'.next ≤ (life.writes encode).length + 2 ∧
        (cursor'.isSealed = true ↔ cursor'.next = (life.writes encode).length + 2))
    (hskip : ∀ life ∈ lives, ∀ w ∈ life.writes encode, cursor.token ≤ w.1 → w.1 < cursor'.token →
      ∃ peer m, news = .gap peer m ∧ w.1 ≤ m)
    (hrenewed : ∀ peer sealed epoch, news = .renewed peer sealed epoch →
      ∀ life ∈ lives, ∀ w ∈ life.writes encode, ¬ (sealed < w.1 ∧ w.1 < ⟨epoch, 1⟩)) :
    Abreast encode lives attach cursor' (events ++ [news]) := by
  have hsame : (events ++ [news]).filterMap PeerWrite.write? =
      events.filterMap PeerWrite.write? := by
    rw [List.filterMap_append, List.filterMap_cons_none hnews, List.filterMap_nil, List.append_nil]
  refine ⟨hstands, ?_, ?_, ?_, ?_⟩
  · intro life hlife w hw hattach hlt
    rcases lt_or_ge w.1 cursor.token with hold | hnew
    · rcases h.told life hlife w hw hattach hold with hin | ⟨peer, m, hin, hm⟩
      · exact .inl (hsame ▸ hin)
      · exact .inr ⟨peer, m, List.mem_append_left _ hin, hm⟩
    · obtain ⟨peer, m, rfl, hm⟩ := hskip life hlife w hw hnew hlt
      exact .inr ⟨peer, m, List.mem_append_right _ (List.mem_singleton_self _), hm⟩
  · exact hsame ▸ h.sorted
  · exact hsame ▸ fun w hw => (h.below w hw).trans_le hle
  · intro peer sealed epoch hin
    rcases List.mem_append.mp hin with hin | hin
    · exact h.renewed peer sealed epoch hin
    · exact hrenewed peer sealed epoch (List.mem_singleton.mp hin).symm

section

variable (hlives : lives.Pairwise (·.epoch < ·.epoch))
  (hroom : ∀ life ∈ lives, (life.writes encode).length + 1 < u64Max)

include hlives hroom

theorem Abreast.enterFrame (hlife : life ∈ lives) (hframe : life.Shown encode frame)
    (hskip : Unskipped encode lives cursor frame) {cursor' : Cursor} {news : List (PeerWrite K)}
    (henter : enterFrame node cursor frame = some (cursor', news)) :
    Abreast encode lives attach cursor' (events ++ news) ∧ cursor'.epoch = frame.epoch ∧
      cursor'.isSealed = false ∧ frame.firstSeq ≤ cursor'.next ∧ cursor.token ≤ cursor'.token := by
  have hfront := hframe.front
  have hstop := hframe.stop_le
  unfold FeedFrame.stop at hstop
  obtain ⟨mine, hmine, hmyepoch, hpos, hle, hsealed⟩ := h.stands
  have hgap : ∀ w : WriteToken × K, w.1 < ⟨frame.epoch, frame.firstSeq⟩ →
      w.1 ≤ ⟨frame.epoch, frame.firstSeq - 1⟩ := by
    intro w hlt
    rcases WriteToken.lt_iff.mp hlt with hlt | ⟨heq, hlt⟩
    · exact WriteToken.le_iff.mpr (.inl hlt)
    · exact WriteToken.le_iff.mpr (.inr ⟨heq, Nat.le_sub_one_of_lt hlt⟩)
  have hentered : ∃ life ∈ lives, (Cursor.entered frame).epoch = life.epoch ∧
      1 ≤ (Cursor.entered frame).next ∧
        (Cursor.entered frame).next ≤ (life.writes encode).length + 2 ∧
        ((Cursor.entered frame).isSealed = true ↔
          (Cursor.entered frame).next = (life.writes encode).length + 2) := by
    refine ⟨life, hlife, hframe.epoch, hfront, ?_, ?_⟩
    · show frame.firstSeq ≤ _
      omega
    show false = true ↔ frame.firstSeq = _
    simp only [Bool.false_eq_true, false_iff]
    omega
  unfold Groupnet.enterFrame at henter
  split at henter
  · cases henter
  next hnew =>
    split at henter
    next hnewer =>
      have hmove : cursor.token ≤ (Cursor.entered frame).token :=
        WriteToken.le_iff.mpr (.inl hnewer)
      cases henter
      refine ⟨?_, rfl, rfl, Nat.le_refl _, hmove⟩
      split
      next hrenew =>
        obtain ⟨hseal, hfirst⟩ := hrenew
        have hend := hsealed.mp hseal
        -- Nothing was written between the seal and the new life.
        have hnone : ∀ life ∈ lives, ∀ w ∈ life.writes encode,
            ⟨cursor.epoch, cursor.next - 1⟩ ≤ w.1 → w.1 < ⟨frame.epoch, 1⟩ → False := by
          intro life' hlife' w hw hge hlt
          obtain ⟨hwe, hwpos, hwlt⟩ := (Life.numbered (hroom life' hlife')).bounds hw
          rcases WriteToken.lt_iff.mp hlt with hlt | ⟨_, hlt⟩
          · rcases WriteToken.le_iff.mp hge with hge | ⟨heq, hge⟩
            · have hnil := hskip hseal hnewer hfirst life' hlife' (hwe ▸ hge) (hwe ▸ hlt)
              rw [hnil] at hw
              cases hw
            cases life_unique hlives hmine hlife' (hmyepoch.symm.trans (heq.trans hwe))
            dsimp only at hge
            omega
          · exact absurd (Nat.le_of_lt_succ hlt) (by omega)
        refine h.move rfl hmove hentered ?_ ?_
        · intro life' hlife' w hw hge hlt
          refine (hnone life' hlife' w hw (le_trans ?_ hge) (hfirst ▸ hlt)).elim
          exact WriteToken.le_iff.mpr (.inr ⟨rfl, Nat.sub_le _ _⟩)
        · rintro _ _ _ ⟨⟩ life' hlife' w hw ⟨hge, hlt⟩
          exact hnone life' hlife' w hw hge.le hlt
      next =>
        refine h.move rfl hmove hentered ?_ (fun _ _ _ h => nomatch h)
        exact fun _ _ w _ _ hlt => ⟨node, _, rfl, hgap w hlt⟩
    next hold =>
      have hepoch : cursor.epoch = frame.epoch := by omega
      split at henter
      · cases henter
      next hunsealed =>
        split at henter
        next hlt =>
          cases henter
          have hentered' : ({ cursor with next := frame.firstSeq } : Cursor) = .entered frame := by
            obtain ⟨epoch, next, isSealed⟩ := cursor
            cases hepoch
            cases Bool.eq_false_of_not_eq_true hunsealed
            rfl
          have hmove : cursor.token ≤ (Cursor.entered frame).token :=
            WriteToken.le_iff.mpr (.inr ⟨hepoch, hlt.le⟩)
          rw [hentered']
          refine ⟨?_, rfl, rfl, Nat.le_refl _, hmove⟩
          refine h.move rfl hmove hentered ?_ (fun _ _ _ h => nomatch h)
          exact fun _ _ w _ _ hlt => ⟨node, _, rfl, hgap w hlt⟩
        next hge =>
          cases henter
          rw [List.append_nil]
          exact ⟨h, hepoch, Bool.eq_false_of_not_eq_true hunsealed, Nat.not_lt.mp hge, le_refl _⟩

theorem Abreast.read
    (hdecode : ∀ life ∈ lives, ∀ w ∈ life.writes encode, decode (encode w.2) = some w.2)
    (hlife : life ∈ lives) (hframe : life.Shown encode frame) (hepoch : cursor.epoch = frame.epoch)
    (hopen : cursor.isSealed = false) (hfront : frame.firstSeq ≤ cursor.next) :
    Abreast encode lives attach { cursor with next := max cursor.next frame.stop }
      (events ++ deliverKeys node decode frame.epoch cursor.next
        (frame.keys.drop (cursor.next - frame.firstSeq))) := by
  have hnumbered := Life.numbered (hroom life hlife)
  have hstop := hframe.stop_le
  have hfirst := hframe.front
  obtain ⟨mine, hmine, hmyepoch, hpos, hle, hsealed⟩ := h.stands
  cases life_unique hlives hlife hmine (hframe.epoch.symm.trans (hepoch.symm.trans hmyepoch))
  have hnext : cursor.next ≤ (life.writes encode).length + 1 := by
    have hne := mt hsealed.mpr (by rw [hopen]; exact Bool.false_ne_true)
    omega
  -- The writes read are those between the cursor and the frame's end.
  let window := ((life.writes encode).take (frame.stop - 1)).drop (cursor.next - 1)
  have hsub : ∀ w ∈ window, w ∈ life.writes encode := fun w hw =>
    List.mem_of_mem_take (List.mem_of_mem_drop hw)
  have hwindow : Numbered frame.epoch cursor.next window := by
    have hdrop := (hnumbered.take (frame.stop - 1)).drop (cursor.next - 1)
    rwa [Nat.add_sub_cancel' hpos, ← hframe.epoch] at hdrop
  have hkeys : frame.keys.drop (cursor.next - frame.firstSeq) = window.map fun w => encode w.2 := by
    rw [hframe.keys, ← List.map_drop, List.drop_drop,
      show frame.firstSeq - 1 + (cursor.next - frame.firstSeq) = cursor.next - 1 by omega]
  have hlength : cursor.next + window.length = max cursor.next frame.stop := by
    simp only [window, List.length_drop, List.length_take]
    omega
  have hbounds : ∀ w ∈ window, cursor.token ≤ w.1 ∧
      w.1 < ({ cursor with next := max cursor.next frame.stop } : Cursor).token := by
    intro w hw
    obtain ⟨hwe, hwge, hwlt⟩ := hwindow.bounds hw
    rw [hlength] at hwlt
    exact ⟨WriteToken.le_iff.mpr (.inr ⟨hepoch.trans hwe.symm, hwge⟩),
      WriteToken.lt_iff.mpr (.inr ⟨hwe.trans hepoch.symm, hwlt⟩)⟩
  rw [hkeys, deliverKeys_eq hwindow fun w hw => hdecode life hlife w (hsub w hw)]
  refine ⟨?_, ?_, ?_, ?_, ?_⟩
  · refine ⟨life, hmine, hmyepoch, hpos.trans (Nat.le_max_left _ _), ?_, ?_⟩
    · show max cursor.next frame.stop ≤ _
      omega
    show cursor.isSealed = true ↔ max cursor.next frame.stop = _
    rw [hopen]
    simp only [Bool.false_eq_true, false_iff]
    omega
  all_goals try rw [List.filterMap_append, filterMap_write_map]
  · intro life' hlife' w hw hattach hlt
    rcases lt_or_ge w.1 cursor.token with hold | hnew
    · rcases h.told life' hlife' w hw hattach hold with hin | ⟨peer, m, hin, hm⟩
      · exact .inl (List.mem_append_left _ hin)
      · exact .inr ⟨peer, m, List.mem_append_left _ hin, hm⟩
    left
    obtain ⟨hwe, _, _⟩ := (Life.numbered (hroom life' hlife')).bounds hw
    obtain ⟨heq, hge, hseq⟩ := WriteToken.between hnew hlt
    cases life_unique hlives hmine hlife' (hmyepoch.symm.trans (heq.symm.trans hwe))
    change w.1.seq < max cursor.next frame.stop at hseq
    exact List.mem_append_right _ (hnumbered.mem_window hw hge (by omega))
  · refine List.pairwise_append.mpr ⟨h.sorted, hwindow.sorted, fun w hw w' hw' => ?_⟩
    exact (h.below w hw).trans_le (hbounds w' hw').1
  · intro w hw
    rcases List.mem_append.mp hw with hw | hw
    · exact (h.below w hw).trans_le (WriteToken.le_iff.mpr (.inr ⟨rfl, Nat.le_max_left _ _⟩))
    · exact (hbounds w hw).2
  · intro peer sealed epoch hin
    rcases List.mem_append.mp hin with hin | hin
    · exact h.renewed peer sealed epoch hin
    · obtain ⟨w, _, hw⟩ := List.mem_map.mp hin
      cases hw

/-- A frame leaves the subscriber abreast, at the frame's end or past it. -/
theorem Abreast.reconcile
    (hdecode : ∀ life ∈ lives, ∀ w ∈ life.writes encode, decode (encode w.2) = some w.2)
    (hlife : life ∈ lives) (hframe : life.Shown encode frame)
    (hskip : Unskipped encode lives cursor frame) :
    Abreast encode lives attach (reconcile node decode cursor frame).1
        (events ++ (reconcile node decode cursor frame).2) ∧
      ⟨frame.epoch, frame.stop⟩ ≤ (reconcile node decode cursor frame).1.token ∧
        cursor.token ≤ (reconcile node decode cursor frame).1.token := by
  unfold Groupnet.reconcile
  cases henter : Groupnet.enterFrame (K := K) node cursor frame with
  | none =>
    refine ⟨by rwa [List.append_nil], ?_, le_refl _⟩
    unfold Groupnet.enterFrame at henter
    split at henter
    next hold => exact WriteToken.le_iff.mpr (.inl hold)
    next hnot =>
      split at henter
      · cases henter
      next hnot' =>
        have hepoch : frame.epoch = cursor.epoch := by omega
        obtain ⟨mine, hmine, hmyepoch, _, _, hsealed⟩ := h.stands
        cases life_unique hlives hlife hmine (hframe.epoch.symm.trans (hepoch.trans hmyepoch))
        have hstop := hframe.stop_le
        split at henter
        next hseal =>
          refine WriteToken.le_iff.mpr (.inr ⟨hepoch, ?_⟩)
          show frame.stop ≤ cursor.next
          have hend := hsealed.mp hseal
          omega
        next => split at henter <;> cases henter
  | some p =>
    obtain ⟨cursor', news⟩ := p
    obtain ⟨hentered, hepoch, hopen, hfront, hmove⟩ :=
      h.enterFrame hlives hroom hlife hframe hskip henter
    have hread :=
      @Abreast.read K encode decode node _ _ _ _ _ _ hentered hlives hroom hdecode hlife hframe
      hepoch hopen hfront
    have hstep : cursor'.token ≤
        ({ cursor' with next := max cursor'.next frame.stop } : Cursor).token :=
      WriteToken.le_iff.mpr (.inr ⟨rfl, Nat.le_max_left _ _⟩)
    rw [List.append_assoc] at hread
    dsimp only
    split
    next hseal =>
      obtain ⟨hsealed, hend⟩ := hseal
      have hlast := hframe.stop_eq hsealed
      rw [← List.append_assoc events]
      refine ⟨hread.move rfl ?_ ?_ ?_ (fun _ _ _ h => nomatch h), ?_, ?_⟩
      · exact WriteToken.le_iff.mpr (.inr ⟨rfl, Nat.le_succ _⟩)
      · refine ⟨life, hlife, hepoch.trans hframe.epoch, Nat.le_add_left _ _, ?_, ?_⟩
        · show max cursor'.next frame.stop + 1 ≤ _
          omega
        show true = true ↔ max cursor'.next frame.stop + 1 = _
        simp only [true_iff]
        omega
      · intro life' hlife' w hw hge hlt
        obtain ⟨hwe, _, hwlt⟩ := (Life.numbered (hroom life' hlife')).bounds hw
        obtain ⟨heq, hge', _⟩ := WriteToken.between hge hlt
        cases life_unique hlives hlife hlife'
          (hframe.epoch.symm.trans (hepoch.symm.trans (heq.symm.trans hwe)))
        change max cursor'.next frame.stop ≤ w.1.seq at hge'
        omega
      · exact WriteToken.le_iff.mpr
          (.inr ⟨hepoch.symm, (Nat.le_max_right _ _).trans (Nat.le_succ _)⟩)
      · exact hmove.trans (hstep.trans (WriteToken.le_iff.mpr (.inr ⟨rfl, Nat.le_succ _⟩)))
    next =>
      exact ⟨hread, WriteToken.le_iff.mpr (.inr ⟨hepoch.symm, Nat.le_max_right _ _⟩),
        hmove.trans hstep⟩

end

end

theorem Attaches.abreast (h : Attaches encode lives attach cursor)
    (hlives : lives.Pairwise (·.epoch < ·.epoch))
    (hroom : ∀ life ∈ lives, (life.writes encode).length + 1 < u64Max) :
    Abreast encode lives attach cursor [] := by
  cases h with
  | @attached life frame hlife hframe =>
    have hshown := Life.shown_of_advertises (hroom life hlife) hframe
    have hfront : 1 ≤ frame.stop := hshown.front.trans (Nat.le_add_right _ _)
    have hstop := hshown.stop_le
    refine ⟨⟨life, hlife, hshown.epoch, hfront.trans (Nat.le_add_right _ _), ?_, ?_⟩, ?_, .nil,
      fun _ hw => (nomatch hw), fun _ _ _ hin => (nomatch hin)⟩
    · show frame.stop + (if frame.isSealed then 1 else 0) ≤ _
      split <;> omega
    · show frame.isSealed = true ↔ frame.stop + (if frame.isSealed then 1 else 0) = _
      cases hsealed : frame.isSealed with
      | true => simpa using hshown.stop_eq hsealed
      | false =>
        simp only [Bool.false_eq_true, false_iff, if_false]
        omega
    · intro life' hlife' w hw hge hlt
      exfalso
      obtain ⟨hwe, _, hwlt⟩ := (Life.numbered (hroom life' hlife')).bounds hw
      obtain ⟨heq, hge', hlt'⟩ := WriteToken.between hge hlt
      cases life_unique hlives hlife hlife' (hshown.epoch.symm.trans (heq.symm.trans hwe))
      change w.1.seq < frame.stop + (if frame.isSealed then 1 else 0) at hlt'
      split at hlt'
      next hsealed =>
        have hend := hshown.stop_eq hsealed
        omega
      next => omega
  | @entered life frame hlife hframe =>
    have hshown := Life.shown_of_advertises (hroom life hlife) hframe
    have hfront := hshown.front
    have hstop := hshown.stop_le
    unfold FeedFrame.stop at hstop
    refine ⟨⟨life, hlife, hshown.epoch, hfront, ?_, ?_⟩, ?_, .nil,
      fun _ hw => (nomatch hw), fun _ _ _ hin => (nomatch hin)⟩
    · show frame.firstSeq ≤ _
      omega
    · show false = true ↔ frame.firstSeq = _
      simp only [Bool.false_eq_true, false_iff]
      omega
    · exact fun _ _ _ _ hge hlt => absurd hlt (not_lt.mpr hge)

/-! ## A row of frames -/

/-- A subscriber stays abreast, and past the end of every frame it was handed. -/
theorem Abreast.follow {frames : List FeedFrame} (h : Abreast encode lives attach cursor [])
    (hlives : lives.Pairwise (·.epoch < ·.epoch))
    (hroom : ∀ life ∈ lives, (life.writes encode).length + 1 < u64Max)
    (hdecode : ∀ life ∈ lives, ∀ w ∈ life.writes encode, decode (encode w.2) = some w.2)
    (hframes : ∀ frame ∈ frames, ∃ life ∈ lives, life.Advertises encode frame)
    (hskip : ∀ before frame after, frames = before ++ frame :: after →
      Unskipped encode lives (follow node decode cursor before).1 frame) :
    Abreast encode lives attach (follow node decode cursor frames).1
      (follow node decode cursor frames).2 ∧
      ∀ frame ∈ frames, ⟨frame.epoch, frame.stop⟩ ≤ (follow node decode cursor frames).1.token := by
  induction frames using List.reverseRecOn with
  | nil => exact ⟨h, fun _ hin => nomatch hin⟩
  | append_singleton frames frame ih =>
    obtain ⟨habreast, hseen⟩ := ih (fun frame hin => hframes frame (List.mem_append_left _ hin))
      (fun before f after heq => hskip before f (after ++ [frame]) (by rw [heq]; simp))
    obtain ⟨life, hlife, hframe⟩ := hframes frame (by simp)
    obtain ⟨hnext, hend, hmove⟩ :=
      @Abreast.reconcile K encode decode node _ _ _ _ _ _ habreast hlives hroom
      hdecode hlife (Life.shown_of_advertises (hroom life hlife) hframe) (hskip frames frame [] rfl)
    rw [follow_snoc]
    refine ⟨hnext, fun frame' hin => ?_⟩
    rcases List.mem_append.mp hin with hin | hin
    · exact (hseen frame' hin).trans hmove
    · cases List.mem_singleton.mp hin
      exact hend

theorem reconcile_renewed (hseal : cursor.isSealed = true) (hnewer : cursor.epoch < frame.epoch)
    (hfirst : frame.firstSeq = 1) :
    .renewed node ⟨cursor.epoch, cursor.next - 1⟩ frame.epoch ∈
      (reconcile node decode cursor frame).2 := by
  unfold Groupnet.reconcile Groupnet.enterFrame
  simp only [Nat.not_lt.mpr hnewer.le, hnewer, hseal, hfirst, if_true, if_false, and_self]
  split <;> simp

/-- Everything written between the attach point and the end of a frame handed over is told
once, or lies below a gap; writes are told in order; and renewals skip no write.  All this
holds exactly when no life that wrote was skipped at a renewal. -/
theorem no_write_skipped_iff {frames : List FeedFrame} (hlives : lives.Pairwise (·.epoch < ·.epoch))
    (hroom : ∀ life ∈ lives, (life.writes encode).length + 1 < u64Max)
    (hdecode : ∀ life ∈ lives, ∀ w ∈ life.writes encode, decode (encode w.2) = some w.2)
    (hstart : Attaches encode lives attach cursor)
    (hframes : ∀ frame ∈ frames, ∃ life ∈ lives, life.Advertises encode frame)
    (hevents : (follow node decode cursor frames).2 = events) :
    ((∀ frame ∈ frames, ∀ life ∈ lives, ∀ w ∈ life.writes encode,
        attach ≤ w.1 → w.1 < ⟨frame.epoch, frame.stop⟩ →
          (events.filterMap PeerWrite.write?).filter (·.1 = w.1) = [w] ∨
            ∃ peer m, .gap peer m ∈ events ∧ w.1 ≤ m) ∧
      (events.filterMap PeerWrite.write?).Pairwise (·.1 < ·.1) ∧
      ∀ peer sealed epoch, .renewed peer sealed epoch ∈ events →
        ∀ life ∈ lives, ∀ w ∈ life.writes encode, ¬ (sealed < w.1 ∧ w.1 < ⟨epoch, 1⟩)) ↔
    ∀ before frame after, frames = before ++ frame :: after →
      Unskipped encode lives (follow node decode cursor before).1 frame := by
  constructor
  · rintro ⟨_, _, hrenewed⟩ before frame after rfl hseal hnewer hfirst life hlife hlow hhigh
    have hin := @reconcile_renewed K decode node _ _ hseal hnewer hfirst
    obtain ⟨out, hout⟩ := @follow_append K node decode cursor (before ++ [frame]) after
    rw [List.append_assoc, List.singleton_append, hevents, follow_snoc] at hout
    have hmem :=
      hrenewed _ _ _ (by rw [hout]; exact List.mem_append_left _ (List.mem_append_right _ hin))
      life hlife
    refine List.eq_nil_iff_forall_not_mem.mpr fun w hw => hmem w hw ?_
    obtain ⟨hwe, _, _⟩ := (Life.numbered (hroom life hlife)).bounds hw
    exact ⟨WriteToken.lt_iff.mpr (.inl (hwe.symm ▸ hlow)),
      WriteToken.lt_iff.mpr (.inl (hwe.symm ▸ hhigh))⟩
  · intro hskip
    obtain ⟨habreast, hseen⟩ :=
      (hstart.abreast hlives hroom).follow hlives hroom hdecode hframes hskip
    rw [hevents] at habreast
    refine ⟨fun frame hframe life hlife w hw hge hlt => ?_, habreast.sorted, habreast.renewed⟩
    rcases habreast.told life hlife w hw hge (hlt.trans_le (hseen frame hframe)) with hin | hgap
    · exact .inl (filter_eq_singleton habreast.sorted hin)
    · exact .inr hgap

end

def oneByte (key : UInt8) : List UInt8 := [key]

def sealedLife : Life UInt8 := ⟨1, 4, 1000, [.publish 7, .sealFeed]⟩

def unseenLife : Life UInt8 := ⟨2, 4, 1000, [.publish 8]⟩

def lastLife : Life UInt8 := ⟨3, 4, 1000, [.publish 9]⟩

/-- The second life is never seen, and the third is taken for a renewal. -/
theorem unseen_life_lost :
    [sealedLife, unseenLife, lastLife].Pairwise (·.epoch < ·.epoch) ∧
      (∀ life ∈ [sealedLife, unseenLife, lastLife], (life.writes oneByte).length + 1 < u64Max ∧
        ∀ w ∈ life.writes oneByte, (oneByte w.2).head? = some w.2) ∧
      Attaches oneByte [sealedLife, unseenLife, lastLife] ⟨1, 2⟩ (.attached ⟨1, 1, [[7]], true⟩) ∧
      lastLife.Advertises oneByte ⟨3, 1, [[9]], false⟩ ∧ (⟨2, 1⟩, 8) ∈ unseenLife.writes oneByte ∧
      ((⟨1, 2⟩ : WriteToken) ≤ ⟨2, 1⟩ ∧ (⟨2, 1⟩ : WriteToken) < ⟨3, 2⟩) ∧
      (follow (.ofChar 'w') List.head? (.attached ⟨1, 1, [[7]], true⟩) [⟨3, 1, [[9]], false⟩]).2 =
        [.renewed (.ofChar 'w') ⟨1, 2⟩ 3, .wrote (.ofChar 'w') ⟨3, 1⟩ 9] := by
  refine ⟨by decide, by decide, ?_, ⟨_, List.prefix_refl _, rfl⟩, by decide, by decide, by decide⟩
  exact .attached (List.mem_cons_self ..) ⟨_, List.prefix_refl _, rfl⟩

/-- Without the third life the renewal is right. -/
theorem no_write_skipped_two_lives :
    let events :=
      (follow (.ofChar 'w') List.head? (.attached ⟨1, 1, [[7]], true⟩) [⟨2, 1, [[8]], false⟩]).2
    events = [.renewed (.ofChar 'w') ⟨1, 2⟩ 2, .wrote (.ofChar 'w') ⟨2, 1⟩ 8] ∧
      (events.filterMap PeerWrite.write?).filter (·.1 = ⟨2, 1⟩) = [(⟨2, 1⟩, 8)] := by
  have hevents :
    (follow (.ofChar 'w') List.head? (.attached ⟨1, 1, [[7]], true⟩) [⟨2, 1, [[8]], false⟩]).2 =
      [.renewed (.ofChar 'w') ⟨1, 2⟩ 2, .wrote (.ofChar 'w') ⟨2, 1⟩ (8 : UInt8)] := by decide
  refine ⟨hevents, ?_⟩
  rw [hevents]
  have hiff := @no_write_skipped_iff UInt8 oneByte List.head? (.ofChar 'w') [sealedLife, unseenLife]
    ⟨1, 2⟩
    (.attached ⟨1, 1, [[7]], true⟩) _ [⟨2, 1, [[8]], false⟩] (by decide) (by decide) (by decide)
    (.attached (List.mem_cons_self ..) ⟨_, List.prefix_refl _, rfl⟩)
    (fun frame hin => by
      cases List.mem_singleton.mp hin
      exact ⟨unseenLife, by simp, _, List.prefix_refl _, rfl⟩) hevents
  have hskip : ∀ before frame after, [⟨2, 1, [[8]], false⟩] = before ++ frame :: after →
      Unskipped oneByte [sealedLife, unseenLife]
        (follow (.ofChar 'w') List.head? (.attached ⟨1, 1, [[7]], true⟩) before).1 frame := by
    intro before frame after heq
    obtain ⟨rfl, rfl, rfl⟩ : before = [] ∧ frame = ⟨2, 1, [[8]], false⟩ ∧ after = [] := by
      cases before <;> simp_all
    intro _ _ _
    decide
  rcases (hiff.mpr hskip).1 _ (List.mem_singleton_self _) unseenLife (by simp) (⟨2, 1⟩, 8)
    (by decide) (by decide) (by decide) with honce | ⟨peer, m, hgap, _⟩
  · exact honce
  · simp at hgap

end Groupnet
