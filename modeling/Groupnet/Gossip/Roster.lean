import Groupnet.Gossip.Author
import Groupnet.Gossip.Shelf

/-!
# The incremental mirror of the roster

A reader keeps a copy of the roster and the change clock it was taken at.  To catch up it
asks who was forgotten since, drops those, asks who changed since, and reads those again.
The log of the forgotten is bounded, and a reader it no longer reaches copies the whole
roster.

A tick that drops an expired entry does not advance the clock.  The copy keeps such an
entry until the reader hears of it from the notice the tick gives.
-/

namespace Groupnet

namespace GroupEngine

variable {e e' : GroupEngine} {x : NodeId} {m : Member}

/-! ## The reader -/

variable {since : Nat} {copy : NodeId → Option MemberView} {told : NodeId → String → Prop}
  {owed : List (NodeId × String)}

/-- The roster as a reader sees it. -/
def roster (e : GroupEngine) (x : NodeId) : Option MemberView := (e.record x).map Member.view

/-- Drops from a copy the members forgotten after `since`, or takes a full copy when the
log does not reach back to it. -/
def dropForgotten (e : GroupEngine) (since : Nat) (copy : NodeId → Option MemberView) (x : NodeId) :
    Option MemberView :=
  match e.membersForgottenSince since with
  | some gone => if x ∈ gone then none else copy x
  | none => e.roster x

def readChanged (e : GroupEngine) (since : Nat) (copy : NodeId → Option MemberView) (x : NodeId) :
    Option MemberView :=
  if x ∈ e.membersChangedSince since then e.roster x else copy x

/-- Brings a copy taken at `since` up to date. -/
def sync (e : GroupEngine) (since : Nat) (copy : NodeId → Option MemberView) :
    NodeId → Option MemberView :=
  e.readChanged since (e.dropForgotten since copy)

theorem Exact.mem_membersChangedSince (he : e.Exact) :
    x ∈ e.membersChangedSince since ↔ ∃ m, e.record x = some m ∧ since < m.changedAt := by
  unfold membersChangedSince
  simp only [List.mem_map, List.mem_filter, decide_eq_true_eq, Prod.exists, exists_eq_right,
    Std.TreeMap.mem_toList_iff_getElem?_eq_some]
  constructor
  · rintro ⟨stamp, hfiled, hlt⟩
    obtain ⟨m, hm, rfl⟩ := he.changed_iff.mp hfiled
    exact ⟨m, hm, hlt⟩
  · rintro ⟨m, hm, hlt⟩
    exact ⟨m.changedAt, he.changed_iff.mpr ⟨m, hm, rfl⟩, hlt⟩

theorem mem_membersForgottenSince {gone : List NodeId}
    (h : e.membersForgottenSince since = some gone) :
    e.index.forgottenFloor ≤ since ∧
      (x ∈ gone ↔ ∃ stamp, since < stamp ∧ e.index.forgotten[stamp]? = some x) := by
  unfold membersForgottenSince at h
  split at h
  next hfloor =>
    cases h
    refine ⟨hfloor, ?_⟩
    simp only [List.mem_map, List.mem_filter, decide_eq_true_eq, Prod.exists, exists_eq_right,
      Std.TreeMap.mem_toList_iff_getElem?_eq_some]
    exact exists_congr fun stamp => and_comm
  next => cases h

/-! ## The log -/

/-- The log holds the stamps above its floor, and a member that was learned again was
stamped since. -/
structure Logged (e : GroupEngine) : Prop where
  floor : e.index.forgottenFloor ≤ e.changeClock
  log : ∀ stamp y, e.index.forgotten[stamp]? = some y → e.index.forgottenFloor < stamp ∧
    stamp ≤ e.changeClock ∧ ∀ m, e.record y = some m → stamp < m.changedAt

theorem head_least {log : Std.TreeMap Nat NodeId} {first : Nat × NodeId}
    (h : log.toList.head? = some first) :
    log[first.1]? = some first.2 ∧ ∀ stamp y, log[stamp]? = some y → first.1 ≤ stamp := by
  obtain ⟨rest, hlist⟩ : ∃ rest, log.toList = first :: rest := by
    cases hl : log.toList with
    | nil =>
      rw [hl] at h
      cases h
    | cons p rest =>
      rw [hl] at h
      cases h
      exact ⟨rest, rfl⟩
  constructor
  · refine Std.TreeMap.mem_toList_iff_getElem?_eq_some.mp ?_
    rw [hlist]
    exact List.mem_cons_self ..
  intro stamp y hy
  have hin := Std.TreeMap.mem_toList_iff_getElem?_eq_some.mpr hy
  have hsorted := log.ordered_keys_toList
  rw [hlist] at hin hsorted
  rcases List.mem_cons.mp hin with rfl | hin
  · exact Nat.le_refl _
  · exact (Nat.compare_eq_lt.mp ((List.pairwise_cons.mp hsorted).1 _ hin)).le

theorem log_cases (he : e.Logged)
    (h : (e'.index.forgotten = e.index.forgotten.insert (e.changeClock + 1) x ∧
        e'.index.forgottenFloor = e.index.forgottenFloor) ∨
      ∃ first, (e.index.forgotten.insert (e.changeClock + 1) x).toList.head? = some first ∧
        e'.index.forgotten = (e.index.forgotten.insert (e.changeClock + 1) x).erase first.1 ∧
        e'.index.forgottenFloor = first.1) :
    e.index.forgottenFloor ≤ e'.index.forgottenFloor ∧ e'.index.forgottenFloor ≤ e.changeClock + 1 ∧
    ∀ stamp y, (e'.index.forgotten[stamp]? = some y ↔ e'.index.forgottenFloor < stamp ∧
      (stamp = e.changeClock + 1 ∧ y = x ∨ e.index.forgotten[stamp]? = some y)) := by
  have hins : ∀ stamp y, (e.index.forgotten.insert (e.changeClock + 1) x)[stamp]? = some y ↔
      stamp = e.changeClock + 1 ∧ y = x ∨ e.index.forgotten[stamp]? = some y := by
    intro stamp y
    rw [Std.TreeMap.getElem?_insert]
    split
    next heq =>
      have heq : e.changeClock + 1 = stamp := compare_eq_iff_eq.mp heq
      constructor
      · intro hy
        exact Or.inl ⟨heq.symm, (Option.some.inj hy).symm⟩
      rintro (⟨_, rfl⟩ | hold)
      · rfl
      · have hle := (he.log stamp y hold).2.1
        omega
    next hne =>
      refine (or_iff_right ?_).symm
      rintro ⟨rfl, _⟩
      exact hne (compare_eq_iff_eq.mpr rfl)
  have habove : ∀ stamp y, (e.index.forgotten.insert (e.changeClock + 1) x)[stamp]? = some y →
      e.index.forgottenFloor < stamp ∧ stamp ≤ e.changeClock + 1 := by
    intro stamp y hy
    rcases (hins stamp y).mp hy with ⟨rfl, _⟩ | hold
    · exact ⟨Nat.lt_succ_of_le he.floor, Nat.le_refl _⟩
    · have hlog := he.log stamp y hold
      exact ⟨hlog.1, Nat.le_succ_of_le hlog.2.1⟩
  rcases h with ⟨hlog, hfloor⟩ | ⟨first, hfirst, hlog, hfloor⟩
  · rw [hfloor]
    refine ⟨Nat.le_refl _, Nat.le_succ_of_le he.floor, fun stamp y => ?_⟩
    rw [hlog, ← hins]
    exact (and_iff_right_of_imp fun hy => (habove stamp y hy).1).symm
  · obtain ⟨hin, hleast⟩ := head_least hfirst
    have hbounds := habove _ _ hin
    rw [hfloor]
    refine ⟨hbounds.1.le, hbounds.2, fun stamp y => ?_⟩
    rw [hlog, ← hins, Std.TreeMap.getElem?_erase]
    split
    next heq =>
      have heq : first.1 = stamp := compare_eq_iff_eq.mp heq
      refine iff_of_false (by simp) fun h => ?_
      omega
    next hne =>
      have hne : first.1 ≠ stamp := fun h => hne (compare_eq_iff_eq.mpr h)
      refine (and_iff_right_of_imp fun hy => ?_).symm
      exact lt_of_le_of_ne (hleast stamp y hy) hne

theorem Moves.logged (h : Moves owed e e') (he : e.Logged) : e'.Logged := by
  cases h with
  | faded hrecord hclock hlog hfloor =>
    refine ⟨by rw [hfloor]; exact he.floor.trans hclock, fun stamp y hy => ?_⟩
    rw [hlog] at hy
    rw [hfloor]
    obtain ⟨habove, hle, hagain⟩ := he.log stamp y hy
    refine ⟨habove, hle.trans hclock, fun m' hm' => ?_⟩
    rcases hrecord y with heq | ⟨m, m'', hm, hm'', hat, _⟩
    · exact hagain m' (heq.symm.trans hm')
    cases hm''.symm.trans hm'
    rw [hat]
    exact hagain m hm
  | stamped x m' hrecord hat _ hother hclock hlog hfloor =>
    refine ⟨by rw [hfloor, hclock]; exact Nat.le_succ_of_le he.floor, fun stamp y hy => ?_⟩
    rw [hlog] at hy
    rw [hfloor, hclock]
    obtain ⟨habove, hle, hagain⟩ := he.log stamp y hy
    refine ⟨habove, Nat.le_succ_of_le hle, fun m hm => ?_⟩
    by_cases hne : y = x
    · subst hne
      cases hrecord.symm.trans hm
      rw [hat]
      exact Nat.lt_succ_of_le hle
    · exact hagain m ((hother y hne).symm.trans hm)
  | forgot x hgone hother hclock hlog =>
    obtain ⟨_, hfloor, hiff⟩ := log_cases he hlog
    refine ⟨hclock ▸ hfloor, fun stamp y hy => ?_⟩
    rw [hclock]
    obtain ⟨habove, hnew | hold⟩ := (hiff stamp y).mp hy
    · obtain ⟨rfl, rfl⟩ := hnew
      exact ⟨habove, Nat.le_refl _, fun m hm => nomatch hgone.symm.trans hm⟩
    obtain ⟨_, hle, hagain⟩ := he.log stamp y hold
    refine ⟨habove, Nat.le_succ_of_le hle, fun m hm => ?_⟩
    have hne : y ≠ x := by
      rintro rfl
      cases hgone.symm.trans hm
    exact hagain m ((hother y hne).symm.trans hm)

/-! ## A copy and what happened since -/

/-- What a copy taken at `since` still tells of the engine: a record that was not stamped
since is in it, but for what was told, and a member of it that is gone is in the log. -/
structure Tracks (since : Nat) (copy : NodeId → Option MemberView) (told : NodeId → String → Prop)
    (e : GroupEngine) : Prop where
  clock : since ≤ e.changeClock
  kept : ∀ x m, e.record x = some m → m.changedAt ≤ since →
    ∃ v, copy x = some v ∧ Fades (told x) v m.view
  gone : ∀ x, e.record x = none → copy x ≠ none → since < e.index.forgottenFloor ∨
    ∃ stamp, since < stamp ∧ e.index.forgotten[stamp]? = some x

theorem tracks_roster (e : GroupEngine) (told : NodeId → String → Prop) :
    e.Tracks e.changeClock e.roster told where
  clock := Nat.le_refl _
  kept x m hm _ := ⟨m.view, by rw [roster, hm]; rfl, .refl _⟩
  gone x hnone hcopy := absurd (by rw [roster, hnone]; rfl) hcopy

theorem Moves.tracks (h : Moves owed e e') (howed : ∀ p ∈ owed, told p.1 p.2) (hlogged : e.Logged)
    (he : e.Tracks since copy told) : e'.Tracks since copy told := by
  cases h with
  | faded hrecord hclock hlog hfloor =>
    refine ⟨he.clock.trans hclock, fun y m' hm' hle => ?_, fun y hnone hcopy => ?_⟩
    · rcases hrecord y with heq | ⟨m, m'', hm, hm'', hat, _, hfades⟩
      · exact he.kept y m' (heq.symm.trans hm') hle
      cases hm''.symm.trans hm'
      obtain ⟨v, hv, hfaded⟩ := he.kept y m hm (hat ▸ hle)
      exact ⟨v, hv, hfaded.trans (hfades.mono fun key hkey => howed _ hkey)⟩
    · rw [hlog, hfloor]
      rcases hrecord y with heq | ⟨m, m', _, hm', _⟩
      · exact he.gone y (heq.symm.trans hnone) hcopy
      · cases hm'.symm.trans hnone
  | stamped x m' hrecord hat _ hother hclock hlog hfloor =>
    refine ⟨hclock ▸ Nat.le_succ_of_le he.clock, fun y m hm hle => ?_, fun y hnone hcopy => ?_⟩
    · have hne : y ≠ x := by
        rintro rfl
        cases hrecord.symm.trans hm
        have hclock := he.clock
        omega
      exact he.kept y m ((hother y hne).symm.trans hm) hle
    · rw [hlog, hfloor]
      have hne : y ≠ x := by
        rintro rfl
        cases hrecord.symm.trans hnone
      exact he.gone y ((hother y hne).symm.trans hnone) hcopy
  | forgot x hgone hother hclock hlog =>
    obtain ⟨hrise, _, hiff⟩ := log_cases hlogged hlog
    refine ⟨hclock ▸ Nat.le_succ_of_le he.clock, fun y m hm hle => ?_, fun y hnone hcopy => ?_⟩
    · have hne : y ≠ x := by
        rintro rfl
        cases hgone.symm.trans hm
      exact he.kept y m ((hother y hne).symm.trans hm) hle
    · -- A record the log no longer holds is at or below the new floor.
      have hlogged : ∀ stamp, since < stamp →
          (stamp = e.changeClock + 1 ∧ y = x ∨ e.index.forgotten[stamp]? = some y) →
          since < e'.index.forgottenFloor ∨ ∃ stamp, since < stamp ∧
            e'.index.forgotten[stamp]? = some y := by
        intro stamp hlt hin
        by_cases habove : e'.index.forgottenFloor < stamp
        · exact Or.inr ⟨stamp, hlt, (hiff stamp y).mpr ⟨habove, hin⟩⟩
        · exact Or.inl (hlt.trans_le (not_lt.mp habove))
      by_cases hne : y = x
      · exact hlogged _ (Nat.lt_succ_of_le he.clock) (Or.inl ⟨rfl, hne⟩)
      rcases he.gone y ((hother y hne).symm.trans hnone) hcopy with hfloor | ⟨stamp, hlt, hin⟩
      · exact Or.inl (hfloor.trans_le hrise)
      · exact hlogged stamp hlt (Or.inr hin)

/-- Two rosters agree, but for entries that are gone and were told. -/
structure Agrees (told : NodeId → String → Prop) (copy now : NodeId → Option MemberView) :
    Prop where
  absent : ∀ x, now x = none → copy x = none
  present : ∀ x v, now x = some v → ∃ w, copy x = some w ∧ Fades (told x) w v

/-- Catching up brings a copy to the roster. -/
theorem Tracks.sync (h : e.Tracks since copy told) (he : e.Exact) (hlogged : e.Logged) :
    Agrees told (e.sync since copy) e.roster := by
  have hsync : ∀ x, x ∉ e.membersChangedSince since →
      e.sync since copy x = e.dropForgotten since copy x := fun x hx => if_neg hx
  refine ⟨fun x hnone => ?_, fun x v hv => ?_⟩
  · have hrecord : e.record x = none := Option.map_eq_none_iff.mp hnone
    rw [hsync x fun hin => by
      obtain ⟨m, hm, _⟩ := he.mem_membersChangedSince.mp hin
      cases hrecord.symm.trans hm]
    unfold dropForgotten
    split
    next gone hgone =>
      obtain ⟨hfloor, hin⟩ := mem_membersForgottenSince hgone
      split
      · rfl
      next hstays =>
        by_contra hcopy
        rcases h.gone x hrecord hcopy with hlt | hlog
        · exact absurd hfloor (not_le.mpr hlt)
        · exact hstays (hin.mpr hlog)
    next => exact hnone
  · obtain ⟨m, hm, rfl⟩ := Option.map_eq_some_iff.mp hv
    by_cases hchanged : x ∈ e.membersChangedSince since
    · exact ⟨m.view, (if_pos hchanged).trans hv, .refl _⟩
    have hle : m.changedAt ≤ since := not_lt.mp fun hlt =>
      hchanged (he.mem_membersChangedSince.mpr ⟨m, hm, hlt⟩)
    rw [hsync x hchanged]
    unfold dropForgotten
    split
    next gone hgone =>
      have hstays : x ∉ gone := by
        intro hin
        obtain ⟨stamp, hlt, hlog⟩ := (mem_membersForgottenSince hgone).2.mp hin
        have hagain := (hlogged.log stamp x hlog).2.2 m hm
        omega
      rw [if_neg hstays]
      exact h.kept x m hm hle
    next => exact ⟨m.view, hv, .refl _⟩

/-! ## Runs -/

/-- What an engine says over a row of events. -/
def said (e : GroupEngine) : List Event → List Effect
  | [] => []
  | ev :: evs => (e.handle ev).2 ++ (e.handle ev).1.said evs

/-- What holds of an engine's filing all along a run. -/
structure Kept (e : GroupEngine) : Prop where
  exact : e.Exact
  logged : e.Logged

theorem Kept.touch {p : Powers} {now : Time} {c : Cause} {said : List Effect} (he : e.Kept)
    (h : Touch p now c e owed said e') : e'.Kept where
  exact := h.shelved.exact he.exact
  logged := h.shelved.moves.logged he.logged

theorem Made.kept {group : GroupId} {n : NodeId} {config : Config} (h : Made group n config e) :
    e.Kept where
  exact := h.exact
  logged := by
    obtain ⟨seeds, e₀, hnew, hbearing⟩ := h.bearing_eq
    rw [eq_filed_of_new hnew] at hbearing
    have hindex := congrArg Bearing.index hbearing
    have hlog : e.index.forgotten = ∅ := (congrArg Index.forgotten hindex).trans
      (congrArg (fun s => s.1) (stamps_filed group n seeds config))
    have hfloor : e.index.forgottenFloor = 0 := (congrArg Index.forgottenFloor hindex).trans
      (congrArg (fun s => s.2.1) (stamps_filed group n seeds config))
    refine ⟨hfloor ▸ Nat.zero_le _, fun stamp y hy => ?_⟩
    rw [hlog] at hy
    simp at hy

theorem Tracks.touches {p : Powers} {now : Time} {c : Cause} {said : List Effect}
    (h : Touches p now c e owed said e') (howed : ∀ p ∈ owed, told p.1 p.2) (he : e.Kept)
    (ht : e.Tracks since copy told) :
    e'.Kept ∧ e'.Tracks since copy told := by
  induction h with
  | nil => exact ⟨he, ht⟩
  | cons htouch _ ih =>
    refine ih (fun p hp => howed p (List.mem_append_right _ hp)) (he.touch htouch) ?_
    exact (htouch.shelved).moves.tracks (fun p hp => howed p (List.mem_append_left _ hp))
      he.logged ht

theorem Tracks.run {evs : List Event}
    (htold : ∀ x key, Effect.nodeStateChanged x key ∈ e.said evs → told x key) (he : e.Kept)
    (ht : e.Tracks since copy told) :
    (e.run evs).Kept ∧ (e.run evs).Tracks since copy told := by
  induction evs generalizing e with
  | nil => exact ⟨he, ht⟩
  | cons ev evs ih =>
    have hfirst : (e.handle ev).1.Kept ∧ (e.handle ev).1.Tracks since copy told := by
      rcases e.touched_handle ev with ⟨c, _, owed, htouches, hnotices⟩ | hquiet
      · exact Tracks.touches htouches
          (fun p hp => htold p.1 p.2 (List.mem_append_left _ (hnotices p hp))) he ht
      rw [hquiet]
      have hstill : Touches .all ev.instant .clock e [] [] _ := .single .observed
      exact Tracks.touches hstill (fun p hp => nomatch hp) he ht
    exact ih (fun x key hin => htold x key (List.mem_append_right _ hin)) hfirst.1 hfirst.2

theorem Agrees.eq_of_untold {now : NodeId → Option MemberView} (h : Agrees told copy now)
    (huntold : ∀ key, ¬ told x key) : copy x = now x := by
  cases hnow : now x with
  | none => exact h.absent x hnow
  | some v =>
    obtain ⟨w, hw, hfades⟩ := h.present x v hnow
    rw [hw, hfades.eq_of_untold huntold]

/-- A reader that copied the roster at some point of a run and catches up at a later one
has the roster, but for live entries dropped in between.  Each of those was told. -/
theorem roster_mirrored {group : GroupId} {n : NodeId} {config : Config} {e : GroupEngine}
    (h : Made group n config e) (before after : List Event) :
    let was := e.run before
    let now := was.run after
    let copy := now.sync was.changeClock was.roster
    Agrees (fun x key => Effect.nodeStateChanged x key ∈ was.said after) copy now.roster ∧
      ∀ x, (∀ key, Effect.nodeStateChanged x key ∉ was.said after) → copy x = now.roster x := by
  intro was now copy
  have hwas : was.Kept := run_keeps (fun htouch hkept => hkept.touch htouch) h.kept
  obtain ⟨hnow, htracks⟩ := Tracks.run (fun _ _ hin => hin) hwas (tracks_roster _ _)
  have hagrees := htracks.sync hnow.exact hnow.logged
  exact ⟨hagrees, fun x huntold => hagrees.eq_of_untold huntold⟩

/-! ## An expiry between two readings -/

def shown (roster : NodeId → Option MemberView) (key : String) : Option (List UInt8) :=
  (roster soleSelf).bind fun v => v.entries key

/-- What a reader of a lone engine has of `key` after catching up, and what the engine has. -/
def soleMirror (before after : List Event) (key : String) :
    Option (Option (List UInt8) × Option (List UInt8)) :=
  sole .default fun e =>
    let was := e.run before
    let now := was.run after
    (shown (now.sync was.changeClock was.roster) key, shown now.roster key)

/-- Writes `key`, for ten milliseconds or for good. -/
def soleWrite (key : String) (brief : Bool) : Event :=
  .command (.setLocalEntry key [1] (if brief then some 10 else none))

/-- A tick drops an entry whose time is up, the clock stands, and the copy keeps it. -/
theorem roster_mirrored_expiry :
    ∃ e, Made soleGroup soleSelf .default e ∧
      let was := e.run [soleWrite "k" true]
      let now := was.run [.tick 20]
      now.sync was.changeClock was.roster soleSelf ≠ now.roster soleSelf := by
  have hmirror : soleMirror [soleWrite "k" true] [.tick 20] "k" = some (some [1], none) := by
    decide +kernel
  obtain ⟨e, hnew, hpair⟩ := new_of_sole hmirror
  obtain ⟨hcopied, hheld⟩ := Prod.mk.inj hpair
  refine ⟨e, .new hnew, fun heq => ?_⟩
  have hsame := congrArg (fun v : Option MemberView => v.bind fun v => v.entries "k") heq
  cases hcopied.symm.trans (hsame.trans hheld)

/-- A reader that copied `k` and catches up with `j` has both. -/
theorem roster_mirrored_write :
    ∃ e, Made soleGroup soleSelf .default e ∧
      let was := e.run [soleWrite "k" true]
      let now := was.run [soleWrite "j" false]
      ∃ v w, now.roster soleSelf = some v ∧ v.entries "j" = some [1] ∧
        now.sync was.changeClock was.roster soleSelf = some w ∧ v.status = w.status := by
  have hmirror : soleMirror [soleWrite "k" true] [soleWrite "j" false] "j" =
      some (some [1], some [1]) := by
    decide +kernel
  obtain ⟨e, hnew, hpair⟩ := new_of_sole hmirror
  obtain ⟨v, hv, hj⟩ := Option.bind_eq_some_iff.mp (Prod.mk.inj hpair).2
  obtain ⟨hagrees, _⟩ := roster_mirrored (.new hnew) [soleWrite "k" true] [soleWrite "j" false]
  obtain ⟨w, hw, hfades⟩ := hagrees.present soleSelf v hv
  exact ⟨e, .new hnew, v, w, hv, hj, hw, hfades.status⟩

/-! ## The index -/

/-- After any run the index is what a pass over the records would build: the stamps and the
liveness news of the members, the members forgotten and not learned again since, and the
deadlines of their entries. -/
theorem index_exact {group : GroupId} {n : NodeId} {config : Config} {e : GroupEngine}
    (h : Made group n config e) (evs : List Event) :
    let now := e.run evs
    (∀ stamp x, now.index.changed[stamp]? = some x ↔ ∃ m,
      now.record x = some m ∧ m.changedAt = stamp) ∧
    (∀ k, k ∈ now.index.news ↔
      ∃ x m, now.record x = some m ∧ k = newsKey m.livenessSince m.changedAt x) ∧
    (∀ stamp x m, now.index.forgotten[stamp]? = some x → now.record x = some m →
      stamp < m.changedAt) ∧
    ∀ x m, now.record x = some m → 0 < m.changedAt ∧ m.changedAt ≤ now.changeClock ∧
      ∀ due key, Agenda.Lists m.entryDues due key ↔
        due ≠ Time.max ∧ ∃ en, m.entries[key]? = some en ∧ en.reapDue now.reapAfter = due := by
  have hkept : (e.run evs).Kept := run_keeps (fun h he => he.touch h) h.kept
  have hdued : (e.run evs).Dued := run_keeps (fun h => h.dued) h.dued
  refine ⟨fun _ _ => hkept.exact.changed_iff, ?_, ?_, ?_⟩
  · intro k
    refine (hkept.exact.indexed.news k).trans ⟨?_, ?_⟩
    · rintro ⟨x, m, hm, hkey⟩
      rw [newsOf_eq_some, (hkept.exact.stamped x m hm).news] at hkey
      exact ⟨x, m, hm, hkey.2⟩
    · rintro ⟨x, m, hm, rfl⟩
      obtain ⟨hpos, _, hnews⟩ := hkept.exact.stamped x m hm
      exact ⟨x, m, hm, newsOf_eq_some.mpr ⟨hpos, by rw [hnews]⟩⟩
  · exact fun stamp x m hlog hm => (hkept.logged.log stamp x hlog).2.2 m hm
  · intro x m hm
    obtain ⟨hpos, hle, _⟩ := hkept.exact.stamped x m hm
    exact ⟨hpos, hle, (hdued x m hm).lists⟩

theorem index_exact_write :
    ∃ e m, Made soleGroup soleSelf .default e ∧
      (e.run [soleWrite "k" true]).record soleSelf = some m ∧
      (e.run [soleWrite "k" true]).index.changed[m.changedAt]? = some soleSelf ∧
      newsKey m.livenessSince m.changedAt soleSelf ∈ (e.run [soleWrite "k" true]).index.news := by
  have hmirror : soleMirror [soleWrite "k" true] [] "k" = some (some [1], some [1]) := by
    decide +kernel
  obtain ⟨e, hnew, hpair⟩ := new_of_sole hmirror
  obtain ⟨v, hv, _⟩ := Option.bind_eq_some_iff.mp (Prod.mk.inj hpair).2
  obtain ⟨m, hm, _⟩ := Option.map_eq_some_iff.mp hv
  obtain ⟨hchanged, hnews, _⟩ := index_exact (.new hnew) [soleWrite "k" true]
  exact ⟨e, m, .new hnew, hm, (hchanged _ _).mpr ⟨m, hm, rfl⟩, (hnews _).mpr ⟨_, m, hm, rfl⟩⟩

end GroupEngine

end Groupnet
