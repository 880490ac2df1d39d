import Groupnet.Gossip.Entries
import Groupnet.Gossip.Filing

/-!
# What a touch does to the roster

A reader sees a member's status, since when it holds, and its live entries.  Every touch
either leaves all of that alone, or drops entries that are due and owes a notice of each
live one, or stamps the member it changed, or forgets it.  `Shelved` lists these, and the
index stays exact along each.
-/

namespace Groupnet

open GroupEngine (reapMemberEntries armStatus adoptEntries mergeEntries bury)

/-! ## What a reader sees -/

/-- What a reader of the roster sees of a member. -/
structure MemberView where
  status : Status
  since : Time
  entries : String → Option (List UInt8)

def Member.view (m : Member) : MemberView where
  status := m.status
  since := m.statusSince
  entries key := (m.entries[key]?.filter fun en => !en.tombstone).map StateEntry.value

structure Fades (told : String → Prop) (was is : MemberView) : Prop where
  status : is.status = was.status
  since : is.since = was.since
  entries : ∀ key, is.entries key = was.entries key ∨ is.entries key = none ∧ told key

namespace Fades

variable {told told' : String → Prop} {a b c : MemberView}

theorem refl (a : MemberView) : Fades told a a := ⟨rfl, rfl, fun _ => Or.inl rfl⟩

theorem trans (hab : Fades told a b) (hbc : Fades told b c) : Fades told a c where
  status := hbc.status.trans hab.status
  since := hbc.since.trans hab.since
  entries key := by
    rcases hbc.entries key with heq | hgone
    · rw [heq]
      exact hab.entries key
    · exact Or.inr hgone

theorem mono (h : Fades told a b) (hmono : ∀ key, told key → told' key) : Fades told' a b :=
  ⟨h.status, h.since, fun key => (h.entries key).imp_right fun ⟨hnone, ht⟩ => ⟨hnone, hmono key ht⟩⟩

/-- A view that lost nothing is the view. -/
theorem eq_of_untold (h : Fades told a b) (huntold : ∀ key, ¬ told key) : a = b := by
  obtain ⟨hstatus, hsince, hentries⟩ := h
  cases a
  cases b
  cases hstatus
  cases hsince
  congr
  funext key
  exact ((hentries key).resolve_right fun hgone => huntold key hgone.2).symm

end Fades

/-! ## Edits keep the marks -/

namespace Member

/-- The liveness instant the member is filed under is its own. -/
def Newsworthy (m : Member) : Prop := m.filed.liveness = m.livenessSince

theorem marks_adoptStatus (m : Member) (status : Status) (now : Time) :
    (m.adoptStatus status now).marks = m.marks := by
  unfold adoptStatus
  dsimp only
  split <;> split <;> rfl

theorem marks_putEntry (m : Member) (key : String) (en : StateEntry) (reapAfter : Nat) :
    (m.putEntry key en reapAfter).marks = m.marks := by
  obtain ⟨dues, hput⟩ := m.exists_putEntry key en reapAfter
  rw [hput]
  rfl

theorem marks_takeDueEntries (m : Member) (now : Time) :
    (m.takeDueEntries now).1.marks = m.marks := by
  unfold takeDueEntries
  dsimp only
  split <;> rfl

end Member

namespace GroupEngine

theorem marks_armStatus (m : Member) (status : Status) (now : Time) (heard own : Nat) :
    (armStatus m status now heard own).marks = m.marks := by
  cases status with
  | alive | dead => rfl
  | suspect =>
    unfold armStatus Member.hearSuspicion
    dsimp only
    split <;> rfl

theorem marks_adoptEntries (reapAfter : Nat) (now : Time) (entries : List Wire.EntryDelta)
    (m : Member) :
    (adoptEntries m reapAfter now entries).marks = m.marks := by
  unfold adoptEntries
  induction entries generalizing m with
  | nil => rfl
  | cons entry entries ih => exact (ih _).trans (Member.marks_putEntry ..)

theorem marks_mergeEntries (reapAfter : Nat) (now : Time) (entries : List Wire.EntryDelta)
    (m : Member) :
    (mergeEntries reapAfter now m entries).1.marks = m.marks := by
  induction entries generalizing m with
  | nil => rfl
  | cons entry entries ih =>
    unfold mergeEntries
    dsimp only
    split
    · exact (ih _).trans (Member.marks_putEntry ..)
    · exact ih _

/-- A section of which no entry is adopted moves the high-water mark at most. -/
theorem mergeEntries_of_none {reapAfter : Nat} {now : Time} {entries : List Wire.EntryDelta}
    {m : Member} (h : (mergeEntries reapAfter now m entries).2 = []) :
    ∃ v, (mergeEntries reapAfter now m entries).1 = { m with maxStateVersion := v } := by
  induction entries generalizing m with
  | nil => exact ⟨_, rfl⟩
  | cons entry entries ih =>
    unfold mergeEntries at h ⊢
    dsimp only at h ⊢
    split at h
    · cases h
    next hloses =>
      rw [if_neg hloses]
      obtain ⟨v, hv⟩ := ih h
      exact ⟨v, hv⟩

/-! ## Shelves -/

/-- What filing reads and writes. -/
structure Shelf where
  localId : NodeId
  config : Config
  members : Std.TreeMap NodeId Member
  index : Index
  changeClock : Nat

def shelf (e : GroupEngine) : Shelf := ⟨e.localId, e.config, e.members, e.index, e.changeClock⟩

/-- Puts a record in its place, filed as before. -/
def put (e : GroupEngine) (x : NodeId) (m : Member) : GroupEngine :=
  { e with members := e.members.insert x m }

/-- An edit that is not stamped: the marks stay, and what is no longer seen is owed. -/
structure Faded (owed : List (NodeId × String)) (x : NodeId) (m m' : Member) : Prop where
  marks : m'.marks = m.marks
  since : m'.livenessSince = m.livenessSince
  view : Fades (fun key => (x, key) ∈ owed) m.view m'.view

theorem Faded.newsworthy {owed : List (NodeId × String)} {x : NodeId} {m m' : Member}
    (h : Faded owed x m m') (hm : m.Newsworthy) : m'.Newsworthy := by
  have hfiled : m'.filed = m.filed := congrArg Prod.snd h.marks
  rw [Member.Newsworthy, hfiled, h.since]
  exact hm

inductive Shelved (owed : List (NodeId × String)) (e e' : GroupEngine) : Prop
  /-- Nothing is filed. -/
  | still (hmembers : e'.members = e.members) (hindex : e'.index = e.index)
      (hclock : e.changeClock ≤ e'.changeClock)
  | edited (x : NodeId) (m m' : Member) (hm : e.record x = some m) (hedit : Faded owed x m m')
      (h : e'.shelf = (e.put x m').shelf)
  /-- A record is edited and filed again. -/
  | refiled (x : NodeId) (m m' : Member) (hm : e.record x = some m) (hedit : Faded owed x m m')
      (h : e'.shelf = ((e.put x m').reindex x).shelf)
  /-- A record is changed, or made, and stamped. -/
  | stamped (e₁ : GroupEngine) (x : NodeId) (m' : Member) (hmarks : m'.marks = e.marksOf x)
      (h₁ : e₁.shelf = (e.put x m').shelf) (h : e'.shelf = (e₁.stamp x).shelf)
  | forgot (x : NodeId) (m : Member) (hm : e.record x = some m) (h : e'.shelf = (e.forget x).shelf)

theorem modifyMember_of_some {e : GroupEngine} {x : NodeId} {m : Member} {f : Member → Member}
    (hm : e.members[x]? = some m) : e.modifyMember x f = e.put x (f m) := by
  unfold modifyMember
  rw [hm]
  rfl

namespace Shelved

variable {owed : List (NodeId × String)} {e e' e₁ : GroupEngine} {x : NodeId} {m m' : Member}

variable {f : Member → Member}

theorem of_shelf (h : e'.shelf = e.shelf) : Shelved owed e e' :=
  .still (congrArg Shelf.members h) (congrArg Shelf.index h) (congrArg Shelf.changeClock h).ge

theorem of_bearing (h : e'.bearing = e.bearing) : Shelved owed e e' :=
  .still (congrArg Bearing.members h) (congrArg Bearing.index h) (congrArg Bearing.changeClock h).ge

/-- The record of a node is changed and stamped, and nothing happens when there is none. -/
theorem modify_stamp (hf : ∀ m, (f m).marks = m.marks) (h₁ : e₁.shelf = e.shelf) :
    Shelved owed e ((e₁.modifyMember x f).stamp x) := by
  have hmembers : e₁.members = e.members := congrArg Shelf.members h₁
  have hindex : e₁.index = e.index := congrArg Shelf.index h₁
  have hclock : e₁.changeClock = e.changeClock := congrArg Shelf.changeClock h₁
  unfold modifyMember
  rw [hmembers]
  cases hm : e.members[x]? with
  | none =>
    have hrestamp : e₁.ticked.restamp x (e₁.changeClock + 1) = e₁.ticked := by
      unfold restamp
      rw [show e₁.ticked.members[x]? = none from (congrArg (·[x]?) hmembers).trans hm]
    have hstamp : e₁.stamp x = e₁.ticked := by
      rw [stamp_eq, hrestamp]
      unfold reindex
      rw [show e₁.ticked.members[x]? = none from (congrArg (·[x]?) hmembers).trans hm]
    rw [hstamp]
    exact .still hmembers hindex (hclock ▸ Nat.le_succ _)
  | some m =>
    refine .stamped _ x (f m) ?_ ?_ rfl
    · rw [hf, marksOf, record, hm]
      rfl
    show (⟨e₁.localId, e₁.config, e.members.insert x (f m), e₁.index, e₁.changeClock⟩ : Shelf) = _
    rw [hindex, hclock, show e₁.localId = e.localId from congrArg Shelf.localId h₁,
      show e₁.config = e.config from congrArg Shelf.config h₁]
    rfl

theorem modify_stampSelf (hf : ∀ m, (f m).marks = m.marks) (h₁ : e₁.shelf = e.shelf) :
    Shelved owed e (e₁.modifyMember e₁.localId f).stampSelf := by
  have hlocal : (e₁.modifyMember e₁.localId f).localId = e₁.localId := by
    unfold modifyMember
    split <;> rfl
  unfold stampSelf
  rw [hlocal]
  exact modify_stamp hf h₁

theorem refuted (e : GroupEngine) (t : Nat) : Shelved owed e (e.applyRefutation (some t)).1 := by
  have hsame : ({ e with incarnation := t } : GroupEngine).shelf = e.shelf := rfl
  have hstamped : Shelved owed e _ :=
    modify_stampSelf
      (fun m => Member.marks_adoptStatus { m with incarnation := t } .alive e.nowHint) hsame
  exact hstamped

theorem hashed (e : GroupEngine) (x : NodeId) (now : Time) :
    Shelved owed e (e.refreshContentHash x now) := by
  unfold refreshContentHash
  split
  · exact of_shelf rfl
  next m hm =>
    split
    · exact of_shelf rfl
    rw [modifyMember_of_some hm]
    refine .edited x m { m with hashCache := some (e.computeContentHash m now) } hm
      ⟨rfl, rfl, ?_⟩ rfl
    exact .refl m.view

theorem heard (e : GroupEngine) (x : NodeId) (incarnation : Nat) (status : Status) (now : Time) :
    Shelved owed e (e.mergeRemoteLiveness x incarnation status now).1 := by
  unfold mergeRemoteLiveness
  split
  next hnone =>
    refine .stamped _ x _ ?_ rfl rfl
    rw [marks_armStatus, marksOf, record, hnone]
    rfl
  next cur hcur =>
    split
    · refine .stamped _ x _ ?_ rfl rfl
      rw [marks_armStatus, Member.marks_adoptStatus, marksOf, record, hcur]
      rfl
    · exact of_shelf rfl

theorem merged (e : GroupEngine) (d : Wire.MemberDelta) (status : Status) (now : Time) :
    Shelved owed e (e.mergePeerDelta d status now).1 := by
  unfold mergePeerDelta
  split
  next hnone =>
    refine .stamped _ d.node _ ?_ rfl rfl
    refine (marks_adoptEntries ..).trans ((marks_armStatus ..).trans ?_)
    rw [marksOf, record, hnone]
    rfl
  next cur hcur =>
    have hcurMarks : cur.marks = e.marksOf d.node := by
      rw [marksOf, record, hcur]
      rfl
    cases hwins : cur.supersededBy d.incarnation status with
    | true =>
      simp only [if_true, Bool.true_or]
      refine .stamped _ d.node _ ?_ rfl rfl
      refine (marks_mergeEntries ..).trans ((marks_armStatus ..).trans ?_)
      exact (Member.marks_adoptStatus ..).trans hcurMarks
    | false =>
      simp only [Bool.false_eq_true, if_false, Bool.false_or]
      split
      · refine .stamped _ d.node _ ?_ rfl rfl
        exact (marks_mergeEntries ..).trans hcurMarks
      next hstays =>
        simp only [Bool.or_eq_true, not_or, Bool.not_eq_true, Bool.not_eq_false', List.isEmpty_iff]
          at hstays
        obtain ⟨v, hv⟩ := mergeEntries_of_none hstays.1
        rw [hv]
        exact .edited d.node cur { cur with maxStateVersion := max v d.maxVersion } hcur
          ⟨rfl, rfl, .refl cur.view⟩ rfl

theorem echoed (e : GroupEngine) (entry : Wire.EntryDelta) (now : Time) :
    Shelved owed e (e.mergeOwnEcho entry now).1 := by
  have hstamped : ∀ (m m' : Member), e.members[e.localId]? = some m → m'.marks = m.marks →
      Shelved owed e (stampSelf { e with members := e.members.insert e.localId m' }) := by
    intro m m' hm hmarks
    refine .stamped _ e.localId m' ?_ rfl rfl
    rw [hmarks, marksOf, record, hm]
    rfl
  unfold mergeOwnEcho
  split
  · exact of_shelf rfl
  next m hm =>
    split
    · exact of_shelf rfl
    split
    · split
      · exact of_shelf rfl
      · exact hstamped m _ hm rfl
    · exact hstamped m _ hm (Member.marks_putEntry ..)

theorem shelf_nudgeNow (e : GroupEngine) : e.nudgeAntiEntropyNow.shelf = e.shelf := rfl

theorem authored (hm : e.members[e.localId]? = some m) (key : String) (entry : StateEntry) :
    Shelved owed e (e.author m key entry) := by
  refine .stamped { e.put e.localId _ with authored := e.authored.insert key } e.localId _ ?_ rfl
    (shelf_nudgeNow (stampSelf _))
  rw [Member.marks_putEntry, marksOf, record, hm]
  rfl

theorem accused (e : GroupEngine) (x : NodeId)
    (hf : ∀ m, (f m).marks = m.marks ∧ (f m).livenessSince = m.livenessSince ∧
      (f m).view = m.view) :
    Shelved owed e ((e.modifyMember x f).reindex x) := by
  cases hm : e.members[x]? with
  | none =>
    have hskip : (e.modifyMember x f).reindex x = e := by
      unfold modifyMember
      rw [hm]
      unfold reindex
      rw [hm]
    rw [hskip]
    exact of_shelf rfl
  | some m =>
    obtain ⟨hmarks, hsince, hview⟩ := hf m
    rw [modifyMember_of_some hm]
    exact .refiled x m (f m) hm ⟨hmarks, hsince, hview ▸ .refl _⟩ rfl

theorem faded_takeDueEntries (x : NodeId) (m : Member) (now : Time) :
    Faded ((m.takeDueEntries now).2.filterMap
      fun p => if p.2.tombstone then none else some (x, p.1)) x m (m.takeDueEntries now).1 where
  marks := m.marks_takeDueEntries now
  since := by
    unfold Member.takeDueEntries
    dsimp only
    split <;> rfl
  view := by
    have hsame : (m.takeDueEntries now).1.status = m.status ∧
        (m.takeDueEntries now).1.statusSince = m.statusSince := by
      unfold Member.takeDueEntries
      dsimp only
      split <;> exact ⟨rfl, rfl⟩
    refine ⟨hsame.1, hsame.2, fun key => ?_⟩
    simp only [Member.view, Member.entries_takeDueEntries]
    split
    next hdue =>
      cases hen : m.entries[key]? with
      | none => exact Or.inl rfl
      | some en =>
        cases htomb : en.tombstone with
        | true => exact Or.inl (by simp [htomb])
        | false =>
          refine Or.inr ⟨rfl, List.mem_filterMap.mpr ⟨(key, en), ?_, by simp [htomb]⟩⟩
          exact Member.mem_takeDueEntries.mpr ⟨hdue, hen⟩
    next => exact Or.inl rfl

theorem reaped {now : Time} (x : NodeId) :
    Shelved ((e.members[x]?.toList.flatMap fun m => (m.takeDueEntries now).2).filterMap
      fun p => if p.2.tombstone then none else some (x, p.1)) e (reapMemberEntries now e x).1 := by
  unfold reapMemberEntries
  cases hm : e.members[x]? with
  | none => exact of_shelf rfl
  | some m =>
    have hfaded := faded_takeDueEntries x m now
    simp only [Option.toList_some, List.flatMap_cons, List.flatMap_nil, List.append_nil]
    split
    next => exact .edited x m _ hm hfaded rfl
    next => exact .refiled x m _ hm hfaded rfl

end Shelved

end GroupEngine

open GroupEngine in
theorem Touch.shelved {p : Powers} {now : Time} {c : Cause} {e e' : GroupEngine}
    {owed : List (NodeId × String)} {said : List Effect} (h : Touch p now c e owed said e') :
    Shelved owed e e' := by
  cases h with
  | aside h => exact .of_bearing h
  | said | observed | coordinated | targeted | digested | wrote => exact .of_shelf rfl
  | hashed node => exact .hashed e node now
  | ringed =>
    refine .of_shelf ?_
    unfold probeRing
    split <;> rfl
  | contacted contacts =>
    refine .of_shelf ?_
    unfold setBootstrapContacts
    split
    · rfl
    · dsimp only
      split <;> rfl
  | heard f d status => exact .heard e d.node d.incarnation status now
  | merged f d status => exact .merged e d status now
  | echoed f d entry => exact .echoed e entry now
  | refuted f incarnation =>
    exact .refuted e _
  | registered f d =>
    refine .of_shelf ?_
    unfold mergeMeta
    dsimp only
    split <;> split <;> rfl
  | suspected node m hc hm =>
    refine .stamped _ node _ ?_ rfl rfl
    rw [show Member.marks (Member.suspectHere _ _ _ _) =
      _ from Member.marks_adoptStatus m .suspect now, marksOf, record, hm]
    rfl
  | confirmed node m hc hm hstatus =>
    refine .refiled node m
      { m.suspectHere now e.config.suspectTimeoutMs e.config.probeTimeoutMs with
        suspectDue := min m.suspectDue (satAdd now e.config.suspectTimeoutMs) } hm
          ⟨rfl, rfl, ?_⟩ rfl
    exact .refl m.view
  | accused node => exact .accused e node fun m => ⟨rfl, rfl, rfl⟩
  | buried node hc hnode =>
    exact .modify_stamp (fun m => Member.marks_adoptStatus m .dead now) rfl
  | forgotten node =>
    cases hm : e.members[node]? with
    | none =>
      have hskip : e.forget node = e := by
        unfold forget
        rw [hm]
      rw [hskip]
      exact .of_shelf rfl
    | some m => exact .forgot node m hm rfl
  | reaped node => exact .reaped node
  | authored cmd w m hc hw hm =>
    exact .authored hm w.key _
  | left =>
    have hsame : ({ e with leaving := true } : GroupEngine).shelf = e.shelf := rfl
    have hstamped : Shelved [] e _ := .modify_stampSelf
      (f := fun m => { m.adoptStatus .dead e.nowHint with deadSince := e.nowHint })
      (fun m => Member.marks_adoptStatus m .dead e.nowHint) hsame
    exact hstamped
  | met node since hc hnode hnew =>
    refine .stamped _ node _ ?_ rfl rfl
    rw [marksOf, record, hnew]
    rfl

namespace GroupEngine

/-! ## Records and the log -/

variable {e e' : GroupEngine} {owed : List (NodeId × String)}

theorem Indexed.of_shelf (h : e.Indexed) (hshelf : e'.shelf = e.shelf) : e'.Indexed := by
  have hmembers : e'.members = e.members := congrArg Shelf.members hshelf
  have hindex : e'.index = e.index := congrArg Shelf.index hshelf
  have hrecord : e'.record = e.record := by
    funext x
    exact congrArg (·[x]?) hmembers
  exact ⟨hrecord ▸ hindex ▸ h.changed, hrecord ▸ hindex ▸ h.news⟩

theorem record_of_shelf (h : e'.shelf = e.shelf) (x : NodeId) :
    e'.record x = e.record x := congrArg (·[x]?) (congrArg Shelf.members h)

theorem put_record (e : GroupEngine) (x : NodeId) (m : Member) : (e.put x m).record x = some m :=
  record_insert rfl

theorem put_record_of_ne (e : GroupEngine) (x : NodeId) (m : Member) {y : NodeId} (hne : y ≠ x) :
    (e.put x m).record y = e.record y :=
  record_insert_of_ne (e := e) rfl hne

/-- What a touch does to the records and the log of the forgotten. -/
inductive Moves (owed : List (NodeId × String)) (e e' : GroupEngine) : Prop
  /-- Every record keeps its stamp and, but for what is owed, its view. -/
  | faded (hrecord : ∀ y, e'.record y = e.record y ∨ ∃ m m', e.record y = some m ∧
        e'.record y = some m' ∧ m'.changedAt = m.changedAt ∧ (m.Newsworthy → m'.Newsworthy) ∧
        Fades (fun key => (y, key) ∈ owed) m.view m'.view)
      (hclock : e.changeClock ≤ e'.changeClock) (hlog : e'.index.forgotten = e.index.forgotten)
      (hfloor : e'.index.forgottenFloor = e.index.forgottenFloor)
  /-- One record is new or changed, and has a fresh stamp. -/
  | stamped (x : NodeId) (m' : Member) (hrecord : e'.record x = some m')
      (hat : m'.changedAt = e.changeClock + 1) (hnews : m'.Newsworthy)
      (hother : ∀ y, y ≠ x → e'.record y = e.record y)
      (hclock : e'.changeClock = e.changeClock + 1) (hlog : e'.index.forgotten = e.index.forgotten)
      (hfloor : e'.index.forgottenFloor = e.index.forgottenFloor)
  /-- One record is gone, and logged under a fresh stamp. -/
  | forgot (x : NodeId) (hgone : e'.record x = none)
      (hother : ∀ y, y ≠ x → e'.record y = e.record y) (hclock : e'.changeClock = e.changeClock + 1)
      (hlog : (e'.index.forgotten = e.index.forgotten.insert (e.changeClock + 1) x ∧
          e'.index.forgottenFloor = e.index.forgottenFloor) ∨
        ∃ first, (e.index.forgotten.insert (e.changeClock + 1) x).toList.head? = some first ∧
          e'.index.forgotten = (e.index.forgotten.insert (e.changeClock + 1) x).erase first.1 ∧
          e'.index.forgottenFloor = first.1)

theorem Shelved.moves (h : Shelved owed e e') : Moves owed e e' := by
  cases h with
  | still hmembers hindex hclock =>
    refine .faded (fun y => Or.inl (congrArg (·[y]?) hmembers)) hclock ?_ ?_
    · rw [hindex]
    · rw [hindex]
  | edited x m m' hm hedit h =>
    have hindex : e'.index = e.index := congrArg Shelf.index h
    refine .faded (fun y => ?_) (congrArg Shelf.changeClock h).ge (by rw [hindex]) (by rw [hindex])
    rw [record_of_shelf h]
    by_cases hy : y = x
    · subst hy
      exact Or.inr ⟨m, m', hm, put_record .., congrArg Prod.fst hedit.marks, hedit.newsworthy,
        hedit.view⟩
    · exact Or.inl (put_record_of_ne e x m' hy)
  | refiled x m m' hm hedit h =>
    obtain ⟨⟨due, score, hmembers⟩, hstamps⟩ := reindex_spec (put_record e x m')
    refine .faded (fun y => ?_) ?_ ?_ ?_
    · rw [record_of_shelf h]
      by_cases hy : y = x
      · subst hy
        exact Or.inr ⟨m, _, hm, record_insert hmembers, congrArg Prod.fst hedit.marks,
          hedit.newsworthy, hedit.view⟩
      · exact Or.inl ((record_insert_of_ne hmembers hy).trans (put_record_of_ne e x m' hy))
    · exact ((congrArg Shelf.changeClock h).trans (congrArg (fun s => s.2.2.2.2) hstamps)).ge
    · exact (congrArg (fun s => s.index.forgotten) h).trans (congrArg (fun s => s.2.2.1) hstamps)
    · exact (congrArg (fun s => s.index.forgottenFloor) h).trans
        (congrArg (fun s => s.2.2.2.1) hstamps)
  | stamped e₁ x m' hmarks h₁ h =>
    have hm : e₁.record x = some m' := (record_of_shelf h₁ x).trans (put_record e x m')
    obtain ⟨⟨filed, hnews, hrecord⟩, hother, hclock, hlog, hfloor⟩ := stamp_spec hm
    have hclock₁ : e₁.changeClock = e.changeClock := congrArg Shelf.changeClock h₁
    have hindex₁ : e₁.index = e.index := congrArg Shelf.index h₁
    refine .stamped x _ ((record_of_shelf h x).trans hrecord) ?_ hnews (fun y hne => ?_) ?_ ?_ ?_
    · exact congrArg (· + 1) hclock₁
    · exact (record_of_shelf h y).trans ((hother y hne).trans
        ((record_of_shelf h₁ y).trans (put_record_of_ne e x m' hne)))
    · exact (congrArg Shelf.changeClock h).trans (hclock.trans (congrArg (· + 1) hclock₁))
    · exact (congrArg (fun s => s.index.forgotten) h).trans
        (hlog.trans (congrArg Index.forgotten hindex₁))
    · exact (congrArg (fun s => s.index.forgottenFloor) h).trans
        (hfloor.trans (congrArg Index.forgottenFloor hindex₁))
  | forgot x m hm h =>
    obtain ⟨_, _, _, wlog, wfloor, wclock⟩ := withdrawn_spec e x m
    obtain ⟨_, _, _, lclock, llog⟩ := logForgotten_spec (e.withdrawn x m) x
    rw [← forget_eq hm] at lclock llog
    rw [wlog, wfloor, wclock] at llog
    have hindex : e'.index = (e.forget x).index := congrArg Shelf.index h
    refine .forgot x ((record_of_shelf h x).trans (record_forget hm)) (fun y hne => ?_) ?_ ?_
    · exact (record_of_shelf h y).trans (record_forget_of_ne hm hne)
    · exact (congrArg Shelf.changeClock h).trans (lclock.trans wclock)
    · rw [hindex]
      exact llog

/-! ## The index along a run -/

/-- A record with a stamp no later than the clock. -/
structure Stamped (clock : Nat) (m : Member) : Prop where
  pos : 0 < m.changedAt
  le : m.changedAt ≤ clock
  news : m.Newsworthy

theorem Stamped.mono {clock clock' : Nat} {m : Member} (h : Stamped clock m)
    (hle : clock ≤ clock') :
    Stamped clock' m := { h with le := h.le.trans hle }

/-- The index is exact, and every record has a stamp. -/
structure Exact (e : GroupEngine) : Prop where
  indexed : e.Indexed
  stamped : ∀ x m, e.record x = some m → Stamped e.changeClock m

/-- The stamps filed are those of the members. -/
theorem Exact.changed_iff (he : e.Exact) {stamp : Nat} {x : NodeId} :
    e.index.changed[stamp]? = some x ↔ ∃ m, e.record x = some m ∧ m.changedAt = stamp := by
  refine (he.indexed.changed (stamp, x)).trans ⟨?_, ?_⟩
  · rintro ⟨y, m, hm, hkey⟩
    obtain ⟨_, hkey⟩ := stampKey_eq_some.mp hkey
    obtain ⟨rfl, rfl⟩ := Prod.mk.inj hkey
    exact ⟨m, hm, rfl⟩
  · rintro ⟨m, hm, rfl⟩
    exact ⟨x, m, hm, stampKey_eq_some.mpr ⟨(he.stamped x m hm).1, rfl⟩⟩

theorem Exact.marksOf_le (he : e.Exact) (x : NodeId) : (e.marksOf x).1 ≤ e.changeClock := by
  unfold marksOf
  cases hm : e.record x with
  | none => exact Nat.zero_le _
  | some m => exact (he.stamped x m hm).2

theorem Shelved.indexed (h : Shelved owed e e') (he : e.Exact) : e'.Indexed := by
  have hmarks : ∀ {x m m'}, e.record x = some m → Member.marks m' = m.marks →
      m'.marks = e.marksOf x := by
    intro x m m' hm hsame
    rw [hsame, marksOf, hm]
    rfl
  cases h with
  | still hmembers hindex =>
    have hrecord : e'.record = e.record := funext fun y => congrArg (·[y]?) hmembers
    have hold := he.indexed
    exact ⟨hrecord ▸ hindex ▸ hold.changed, hrecord ▸ hindex ▸ hold.news⟩
  | edited x m m' hm hedit h =>
    have hput : (e.put x m').Indexed := he.indexed.put rfl rfl (hmarks hm hedit.marks)
    exact hput.of_shelf h
  | refiled x m m' hm hedit h =>
    have hput : (e.put x m').Indexed := he.indexed.put rfl rfl (hmarks hm hedit.marks)
    exact (hput.reindex (put_record e x m')).of_shelf h
  | stamped e₁ x m' hmarks h₁ h =>
    have hput : (e.put x m').Indexed := he.indexed.put rfl rfl hmarks
    have hclock₁ : e₁.changeClock = e.changeClock := congrArg Shelf.changeClock h₁
    refine ((hput.of_shelf h₁).stamp ((record_of_shelf h₁ x).trans (put_record e x m'))
      ?_).of_shelf h
    intro y my hy
    rw [hclock₁]
    rw [record_of_shelf h₁] at hy
    by_cases hne : y = x
    · subst hne
      cases (put_record e y m').symm.trans hy
      rw [show m'.changedAt = (e.marksOf y).1 from congrArg Prod.fst hmarks]
      exact he.marksOf_le y
    · rw [put_record_of_ne e x m' hne] at hy
      exact (he.stamped y my hy).2
  | forgot x m hm h => exact (he.indexed.forget hm).of_shelf h

theorem Moves.stamped_keep (h : Moves owed e e')
    (he : ∀ x m, e.record x = some m → Stamped e.changeClock m) (y : NodeId) (my : Member)
    (hy : e'.record y = some my) : Stamped e'.changeClock my := by
  cases h with
  | faded hrecord hclock =>
    rcases hrecord y with heq | ⟨m, m', hm, hm', hat, hnews, _⟩
    · exact (he y my (heq ▸ hy)).mono hclock
    cases hm'.symm.trans hy
    obtain ⟨hpos, hle, hold⟩ := (he y m hm).mono hclock
    exact ⟨hat ▸ hpos, hat ▸ hle, hnews hold⟩
  | stamped x m' hrecord hat hnews hother hclock =>
    by_cases hne : y = x
    · subst hne
      cases hrecord.symm.trans hy
      exact ⟨hat ▸ Nat.succ_pos _, (hat.trans hclock.symm).le, hnews⟩
    · exact (he y my ((hother y hne).symm.trans hy)).mono (hclock ▸ Nat.le_succ _)
  | forgot x hgone hother hclock =>
    have hne : y ≠ x := by
      rintro rfl
      cases hgone.symm.trans hy
    exact (he y my ((hother y hne).symm.trans hy)).mono (hclock ▸ Nat.le_succ _)

theorem Shelved.exact (h : Shelved owed e e') (he : e.Exact) : e'.Exact :=
  ⟨h.indexed he, h.moves.stamped_keep he.stamped⟩

theorem Exact.of_shelf (he : e.Exact) (h : e'.shelf = e.shelf) : e'.Exact := by
  refine ⟨he.indexed.of_shelf h, fun x m hm => ?_⟩
  rw [show e'.changeClock = e.changeClock from congrArg Shelf.changeClock h]
  exact he.stamped x m ((record_of_shelf h x).symm.trans hm)

section New

variable (group : GroupId) (n : NodeId) (seeds : List NodeId) (config : Config)

theorem record_blank (x : NodeId) :
    (blank group n seeds config).record x = if x = n then some (Member.new 0 .alive 0)
      else none := by
  show ((∅ : Std.TreeMap NodeId Member).insert n (Member.new 0 .alive 0))[x]? = _
  rw [Std.TreeMap.getElem?_insert]
  by_cases hx : x = n
  · subst hx
    simp
  · rw [if_neg (by simpa using Ne.symm hx), if_neg hx]
    simp

theorem indexed_blank : (blank group n seeds config).Indexed := by
  have hnone : ∀ {κ : Type} {key : NodeId → Member → Option κ}, ByMarks key → ∀ k,
      ¬ ∃ x, Named key x ((blank group n seeds config).record x) k := by
    rintro κ key hkey k ⟨x, m, hm, hk⟩
    rw [record_blank] at hm
    split at hm
    · cases hm
      rw [hkey.blank x _ rfl] at hk
      cases hk
    · cases hm
  refine ⟨fun k => iff_of_false ?_ (hnone stampKey_byMarks k),
    fun k => iff_of_false ?_ (hnone newsOf_byMarks k)⟩
  · show (∅ : Std.TreeMap Nat NodeId)[k.1]? ≠ some k.2
    simp
  · exact Std.TreeSet.not_mem_emptyc

/-- Filing itself moves the first stamp only. -/
theorem stamps_filed : ((blank group n seeds config).filed.stamps).2.2 = (∅, 0, 1) := by
  have hn : (blank group n seeds config).record n = some (Member.new 0 .alive 0) := by
    rw [record_blank, if_pos rfl]
  have hstamps := (reindex_spec (record_insert (members_restamp hn 1))).2
  have hindex := index_restamp hn 1
  refine (congrArg (fun s => s.2.2) hstamps).trans ?_
  show (GroupEngine.index _ |>.forgotten, GroupEngine.index _ |>.forgottenFloor, _) = _
  rw [hindex, changeClock_restamp]
  rfl

theorem exact_filed : (blank group n seeds config).filed.Exact := by
  have hn : (blank group n seeds config).record n = some (Member.new 0 .alive 0) := by
    rw [record_blank, if_pos rfl]
  have hfresh : ∀ y my, (blank group n seeds config).record y = some my → my.changedAt ≠ 1 := by
    intro y my hy
    rw [record_blank] at hy
    split at hy
    · cases hy
      decide
    · cases hy
  have hmembers := members_restamp hn 1
  obtain ⟨⟨due, score, hfiled⟩, hstamps⟩ := reindex_spec (record_insert hmembers)
  have hclock := (congrArg (fun s => s.2.2.2.2) hstamps).trans (changeClock_restamp _ n 1)
  have hexact : (((blank group n seeds config).restamp n 1).reindex n).Exact := by
    refine ⟨((indexed_blank group n seeds config).restamp hn Nat.one_pos hfresh).reindex
      (record_insert hmembers), fun x m hm => ?_⟩
    rw [show GroupEngine.changeClock _ = _ from hclock]
    by_cases hx : x = n
    · subst hx
      cases (record_insert hfiled).symm.trans hm
      exact ⟨Nat.one_pos, Nat.le_refl 1, rfl⟩
    · rw [record_insert_of_ne hfiled hx, record_insert_of_ne hmembers hx, record_blank,
        if_neg hx] at hm
      cases hm
  exact hexact.of_shelf rfl

end New

/-- A new engine has filed itself. -/
theorem Made.exact {group : GroupId} {n : NodeId} {config : Config} {e : GroupEngine}
    (h : Made group n config e) : e.Exact := by
  obtain ⟨seeds, e₀, hnew, hbearing⟩ := h.bearing_eq
  have hshelf : e.shelf = e₀.shelf :=
    congrArg (fun b : Bearing => (⟨b.localId, b.config, b.members, b.index, b.changeClock⟩ : Shelf))
      hbearing
  rw [eq_filed_of_new hnew] at hshelf
  exact (exact_filed group n seeds config).of_shelf hshelf

end GroupEngine

end Groupnet
