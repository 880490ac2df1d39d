import Groupnet.Gossip.Touch
import Groupnet.Gossip.Members
import Groupnet.Lib.Catalogue

/-!
# The index is exact

The engine files every member under its change stamp and its liveness news, and marks on the
record where it is filed.  `Indexed` says that the two views list exactly the marks.  An edit
of a record keeps its marks, so that filing and stamping find the member where it was put.
-/

namespace Groupnet

open GroupEngine (reapMemberEntries)

/-! ## Marks -/

/-- What the index wrote on a record. -/
def Member.marks (m : Member) : Nat × Filed := (m.changedAt, m.filed)

def stampKey (x : NodeId) (m : Member) : Option (Nat × NodeId) :=
  if 0 < m.changedAt then some (m.changedAt, x) else none

def newsOf (x : NodeId) (m : Member) : Option (Time ×ₗ (Nat ×ₗ NodeId)) :=
  if 0 < m.changedAt then some (newsKey m.filed.liveness m.changedAt x) else none

theorem stampKey_eq_some {x : NodeId} {m : Member} {k : Nat × NodeId} :
    stampKey x m = some k ↔ 0 < m.changedAt ∧ k = (m.changedAt, x) := by
  unfold stampKey
  split <;> simp_all [eq_comm]

theorem newsOf_eq_some {x : NodeId} {m : Member} {k : Time ×ₗ (Nat ×ₗ NodeId)} :
    newsOf x m = some k ↔ 0 < m.changedAt ∧ k = newsKey m.filed.liveness m.changedAt x := by
  unfold newsOf
  split <;> simp_all [eq_comm]

theorem stampKey_owned : Owned stampKey := by
  intro x y b b' k hx hy
  have heq := (stampKey_eq_some.mp hx).2.symm.trans (stampKey_eq_some.mp hy).2
  exact (Prod.mk.inj heq).2

theorem newsOf_owned : Owned newsOf := by
  intro x y b b' k hx hy
  have heq := (newsOf_eq_some.mp hx).2.symm.trans (newsOf_eq_some.mp hy).2
  exact (Prod.mk.inj (toLex_inj.mp (Prod.mk.inj (toLex_inj.mp heq)).2)).2

namespace GroupEngine

variable {e e' : GroupEngine} {x : NodeId} {m m' : Member}

def record (e : GroupEngine) (x : NodeId) : Option Member := e.members[x]?

/-- The views of the index list exactly the marks of the records. -/
structure Indexed (e : GroupEngine) : Prop where
  changed : Catalogues (fun k : Nat × NodeId => e.index.changed[k.1]? = some k.2) e.record stampKey
  news : Catalogues (· ∈ e.index.news) e.record newsOf

/-- The stamps of the index and the log of the forgotten. -/
def stamps (e : GroupEngine) :
    Std.TreeMap Nat NodeId × Std.TreeSet (Time ×ₗ (Nat ×ₗ NodeId)) × Std.TreeMap Nat NodeId × Nat ×
      Nat :=
  (e.index.changed, e.index.news, e.index.forgotten, e.index.forgottenFloor, e.changeClock)

theorem record_insert (h : e'.members = e.members.insert x m) : e'.record x = some m := by
  unfold record
  rw [h, Std.TreeMap.getElem?_insert_self]

theorem record_insert_of_ne (h : e'.members = e.members.insert x m) {y : NodeId} (hne : y ≠ x) :
    e'.record y = e.record y := by
  unfold record
  rw [h, getElem?_insert_of_ne _ _ hne]

def marksOf (e : GroupEngine) (x : NodeId) : Nat × Filed :=
  ((e.record x).map Member.marks).getD (0, Filed.none)

/-- A key that is read off the marks, and is none where they are blank. -/
structure ByMarks {κ : Type} (key : NodeId → Member → Option κ) : Prop where
  congr : ∀ x m m', m.marks = m'.marks → key x m = key x m'
  blank : ∀ x m, m.marks = (0, Filed.none) → key x m = none

theorem stampKey_byMarks : ByMarks stampKey where
  congr := by
    rintro x ⟨⟩ ⟨⟩ ⟨⟩
    rfl
  blank := by
    rintro x ⟨⟩ ⟨⟩
    rfl

theorem newsOf_byMarks : ByMarks newsOf where
  congr := by
    rintro x ⟨⟩ ⟨⟩ ⟨⟩
    rfl
  blank := by
    rintro x ⟨⟩ ⟨⟩
    rfl

/-- Such a key does not see an edit. -/
theorem ByMarks.named_iff {κ : Type} {key : NodeId → Member → Option κ} (hkey : ByMarks key)
    (hmarks : m'.marks = e.marksOf x) (k : κ) :
    Named key x (some m') k ↔ Named key x (e.record x) k := by
  unfold marksOf at hmarks
  cases hr : e.record x with
  | none =>
    rw [hr] at hmarks
    simp [Named, hkey.blank x m' hmarks]
  | some m =>
    rw [hr] at hmarks
    simp [Named, hkey.congr x m' m hmarks]

theorem ByMarks.keep {κ : Type} {key : NodeId → Member → Option κ} {P : κ → Prop}
    (hkey : ByMarks key) (howned : Owned key) (h : Catalogues P e.record key)
    (hmembers : e'.members = e.members.insert x m') (hmarks : m'.marks = e.marksOf x) :
    Catalogues P e'.record key := by
  refine h.keep howned (fun y hne => record_insert_of_ne hmembers hne) fun k => ?_
  rw [record_insert hmembers]
  exact hkey.named_iff hmarks k

namespace Indexed

/-- An edit of a record keeps the views, as long as it keeps the marks. -/
theorem put (h : e.Indexed) (hindex : e'.index = e.index)
    (hmembers : e'.members = e.members.insert x m') (hmarks : m'.marks = e.marksOf x) :
    e'.Indexed where
  changed := hindex ▸ stampKey_byMarks.keep stampKey_owned h.changed hmembers hmarks
  news := hindex ▸ newsOf_byMarks.keep newsOf_owned h.news hmembers hmarks

theorem unfile_changed (h : e.Indexed) (hm : e.record x = some m) (k : Nat × NodeId) :
    (if 0 < m.changedAt then e.index.changed.erase m.changedAt else e.index.changed)[k.1]? =
      some k.2 ↔ e.index.changed[k.1]? = some k.2 ∧ ¬ Named stampKey x (e.record x) k := by
  have hnamed : Named stampKey x (e.record x) k ↔ 0 < m.changedAt ∧ k = (m.changedAt, x) := by
    simp [Named, hm, stampKey_eq_some]
  rw [hnamed]
  split
  next hpos =>
    rw [Std.TreeMap.getElem?_erase]
    split
    next heq =>
      have heq : m.changedAt = k.1 := compare_eq_iff_eq.mp heq
      refine iff_of_false (by simp) ?_
      rintro ⟨hk, hne⟩
      have hfiled := (h.changed (m.changedAt, x)).mpr ⟨x, m, hm, stampKey_eq_some.mpr ⟨hpos, rfl⟩⟩
      rw [← heq] at hk
      exact hne ⟨hpos, Prod.ext heq.symm (Option.some.inj (hk.symm.trans hfiled))⟩
    next hne =>
      refine (and_iff_left ?_).symm
      rintro ⟨_, rfl⟩
      exact hne (compare_eq_iff_eq.mpr rfl)
  next hzero => simp [hzero]

theorem unfile_news (hm : e.record x = some m) (k : Time ×ₗ (Nat ×ₗ NodeId)) :
    k ∈ (if 0 < m.changedAt then e.index.news.erase (newsKey m.filed.liveness m.changedAt x)
      else e.index.news) ↔ k ∈ e.index.news ∧ ¬ Named newsOf x (e.record x) k := by
  have hnamed : Named newsOf x (e.record x) k ↔
      0 < m.changedAt ∧ k = newsKey m.filed.liveness m.changedAt x := by
    simp [Named, hm, newsOf_eq_some]
  rw [hnamed]
  split
  next hpos =>
    rw [Std.TreeSet.mem_erase, ne_eq, Std.LawfulEqCmp.compare_eq_iff_eq, and_comm]
    simp [hpos, eq_comm]
  next hzero => simp [hzero]

end Indexed

/-! ## Stamping -/

def stampedAt (m : Member) (stamp : Nat) : Member :=
  { m with changedAt := stamp, filed := { m.filed with liveness := m.livenessSince } }

theorem members_restamp (hm : e.record x = some m) (stamp : Nat) :
    (e.restamp x stamp).members = e.members.insert x (stampedAt m stamp) := by
  unfold restamp
  rw [show e.members[x]? = some m from hm]
  rfl

theorem index_restamp (hm : e.record x = some m) (stamp : Nat) :
    (e.restamp x stamp).index = { e.index with
      changed := (if 0 < m.changedAt then e.index.changed.erase m.changedAt
        else e.index.changed).insert stamp x
      news := (if 0 < m.changedAt then e.index.news.erase (newsKey m.filed.liveness m.changedAt x)
        else e.index.news).insert (newsKey m.livenessSince stamp x) } := by
  unfold restamp
  rw [show e.members[x]? = some m from hm]
  dsimp only
  split <;> rfl

/-- A fresh stamp takes the place of the old one. -/
theorem Indexed.restamp (h : e.Indexed) (hm : e.record x = some m) {stamp : Nat} (hpos : 0 < stamp)
    (hfresh : ∀ y my, e.record y = some my → my.changedAt ≠ stamp) :
    (e.restamp x stamp).Indexed := by
  have hmembers := members_restamp hm stamp
  have hother : ∀ y, y ≠ x → (e.restamp x stamp).record y = e.record y :=
    fun y hne => record_insert_of_ne hmembers hne
  have hself := record_insert hmembers
  have hunused : e.index.changed[stamp]? = none := by
    refine Option.eq_none_iff_forall_ne_some.mpr fun y hy => ?_
    obtain ⟨z, mz, hz, hkey⟩ := (h.changed (stamp, y)).mp hy
    exact hfresh z mz hz (Prod.mk.inj (stampKey_eq_some.mp hkey).2).1.symm
  refine ⟨?_, ?_⟩
  · refine h.changed.move stampKey_owned hother fun k => ?_
    have hnew : Named stampKey x (some (stampedAt m stamp)) k ↔ k = (stamp, x) := by
      simp [Named, stampKey_eq_some, stampedAt, hpos]
    rw [hself, hnew, index_restamp hm, Std.TreeMap.getElem?_insert]
    split
    next heq =>
      have heq : stamp = k.1 := compare_eq_iff_eq.mp heq
      constructor
      · intro hx
        exact Or.inr (Prod.ext heq.symm (Option.some.inj hx).symm)
      rintro (⟨hk, _⟩ | rfl)
      · rw [← heq, hunused] at hk
        cases hk
      · rfl
    next hne =>
      rw [h.unfile_changed hm]
      refine (or_iff_left ?_).symm
      rintro rfl
      exact hne (compare_eq_iff_eq.mpr rfl)
  · refine h.news.move newsOf_owned hother fun k => ?_
    have hnew : Named newsOf x (some (stampedAt m stamp)) k ↔
        k = newsKey m.livenessSince stamp x := by
      simp [Named, newsOf_eq_some, stampedAt, hpos]
    rw [hself, hnew, index_restamp hm, Std.TreeSet.mem_insert, unfile_news hm,
      Std.LawfulEqCmp.compare_eq_iff_eq, or_comm, eq_comm]

/-! ## Filing -/

theorem stamps_modifyMember (e : GroupEngine) (x : NodeId) (f : Member → Member) :
    (e.modifyMember x f).stamps = e.stamps := by
  unfold modifyMember
  split <;> rfl

/-- What filing does: the record is marked with its deadline and its score. -/
theorem reindex_spec (hm : e.record x = some m) :
    (∃ due score, (e.reindex x).members =
      e.members.insert x { m with filed := { m.filed with due := due, score := score } }) ∧
    (e.reindex x).stamps = e.stamps := by
  have hlive (e : GroupEngine) was live : (e.refileLive x was live).1.stamps = e.stamps := by
    unfold refileLive
    split <;> rfl
  have hdue (was due : Time) : (e.refileDue x was due).stamps = e.stamps := by
    unfold refileDue
    split <;> rfl
  unfold reindex
  rw [show e.members[x]? = some m from hm]
  dsimp only
  refine ⟨?_, ?_⟩
  · unfold modifyMember
    rw [members_refileLive, members_refileDue, show e.members[x]? = some m from hm]
    exact ⟨_, _, rfl⟩
  · rw [stamps_modifyMember, hlive, hdue]

/-- Filing keeps the views. -/
theorem Indexed.reindex (h : e.Indexed) (hm : e.record x = some m) : (e.reindex x).Indexed := by
  obtain ⟨⟨due, score, hmembers⟩, hstamps⟩ := reindex_spec hm
  have hother : ∀ y, y ≠ x → (e.reindex x).record y = e.record y :=
    fun y hne => record_insert_of_ne hmembers hne
  have hself := record_insert hmembers
  have hchanged : (e.reindex x).index.changed = e.index.changed := congrArg Prod.fst hstamps
  have hnews : (e.reindex x).index.news = e.index.news := congrArg (fun s => s.2.1) hstamps
  refine ⟨?_, ?_⟩
  · rw [hchanged]
    refine h.changed.keep stampKey_owned hother fun k => ?_
    rw [hself, hm]
    simp [Named, stampKey_eq_some]
  · rw [hnews]
    refine h.news.keep newsOf_owned hother fun k => ?_
    rw [hself, hm]
    simp [Named, newsOf_eq_some]

/-! ## Stamps and filings together -/

def ticked (e : GroupEngine) : GroupEngine := { e with changeClock := e.changeClock + 1 }

theorem stamp_eq (e : GroupEngine) (x : NodeId) :
    e.stamp x = (e.ticked.restamp x (e.changeClock + 1)).reindex x := rfl

theorem changeClock_restamp (e : GroupEngine) (x : NodeId) (stamp : Nat) :
    (e.restamp x stamp).changeClock = e.changeClock := by
  unfold restamp
  split <;> rfl

/-- A fresh stamp, then the filing: what a change that shows ends with. -/
theorem stamp_spec (hm : e.record x = some m) :
    (∃ filed : Filed, filed.liveness = m.livenessSince ∧
      (e.stamp x).record x = some { m with changedAt := e.changeClock + 1, filed := filed }) ∧
    (∀ y, y ≠ x → (e.stamp x).record y = e.record y) ∧
    (e.stamp x).changeClock = e.changeClock + 1 ∧
    (e.stamp x).index.forgotten = e.index.forgotten ∧
    (e.stamp x).index.forgottenFloor = e.index.forgottenFloor := by
  have hticked : e.ticked.record x = some m := hm
  have hmembers := members_restamp hticked (e.changeClock + 1)
  have hindex := index_restamp hticked (e.changeClock + 1)
  obtain ⟨⟨due, score, hfiled⟩, hstamps⟩ := reindex_spec (record_insert hmembers)
  rw [stamp_eq]
  refine ⟨⟨_, rfl, record_insert hfiled⟩, fun y hne => ?_, ?_, ?_, ?_⟩
  · exact (record_insert_of_ne hfiled hne).trans (record_insert_of_ne hmembers hne)
  · exact (congrArg (fun s => s.2.2.2.2) hstamps).trans (changeClock_restamp _ _ _)
  · exact (congrArg (fun s => s.2.2.1) hstamps).trans (congrArg Index.forgotten hindex)
  · exact (congrArg (fun s => s.2.2.2.1) hstamps).trans (congrArg Index.forgottenFloor hindex)

theorem Indexed.stamp (h : e.Indexed) (hm : e.record x = some m)
    (hold : ∀ y my, e.record y = some my → my.changedAt ≤ e.changeClock) : (e.stamp x).Indexed := by
  have hticked : e.ticked.Indexed := ⟨h.changed, h.news⟩
  have hmoved : (e.ticked.restamp x (e.changeClock + 1)).Indexed := by
    refine hticked.restamp (show e.ticked.record x = some m from hm) (Nat.succ_pos _)
      fun y my hy => ?_
    have hle := hold y my hy
    omega
  exact hmoved.reindex (record_insert (members_restamp (show e.ticked.record x = some m from hm) _))

/-- The first half of forgetting: the record is taken out of the table and the views. -/
def withdrawn (e : GroupEngine) (x : NodeId) (m : Member) : GroupEngine :=
  let e := { e with members := e.members.erase x }
  let e :=
    if m.filed.due ≠ Time.max then
      { e with index := { e.index with due := e.index.due.erase (dueKey m.filed.due x) } }
    else e
  let e := match m.filed.score with
    | some score =>
      { e with index := { e.index with
          live := e.index.live.erase (Placement.rank score x) } }.liveSetChanged x false
    | none => e
  let e :=
    if 0 < m.changedAt then
      { e with index := { e.index with
          changed := e.index.changed.erase m.changedAt
          news := e.index.news.erase (newsKey m.filed.liveness m.changedAt x) } }
    else e
  { e with digestPeers := e.digestPeers.erase x, changeClock := e.changeClock + 1 }

/-- The second half: it is logged, and the oldest record makes room when the log is full. -/
def logForgotten (e : GroupEngine) (x : NodeId) : GroupEngine :=
  let forgotten := e.index.forgotten.insert e.changeClock x
  match forgotten.toList.head? with
  | some first =>
    if forgottenKept < forgotten.size then
      { e with index := { e.index with
          forgotten := forgotten.erase first.1, forgottenFloor := first.1 } }
    else { e with index := { e.index with forgotten := forgotten } }
  | none => { e with index := { e.index with forgotten := forgotten } }

theorem forget_eq (hm : e.record x = some m) : e.forget x = (e.withdrawn x m).logForgotten x := by
  unfold forget
  rw [show e.members[x]? = some m from hm]
  rfl

/-- What the first half does. -/
theorem withdrawn_spec (e : GroupEngine) (x : NodeId) (m : Member) :
    (e.withdrawn x m).members = e.members.erase x ∧
    (e.withdrawn x m).index.changed =
      (if 0 < m.changedAt then e.index.changed.erase m.changedAt else e.index.changed) ∧
    (e.withdrawn x m).index.news = (if 0 < m.changedAt then
      e.index.news.erase (newsKey m.filed.liveness m.changedAt x) else e.index.news) ∧
    (e.withdrawn x m).index.forgotten = e.index.forgotten ∧
    (e.withdrawn x m).index.forgottenFloor = e.index.forgottenFloor ∧
    (e.withdrawn x m).changeClock = e.changeClock + 1 := by
  unfold withdrawn
  dsimp only
  split <;> split <;> split <;> exact ⟨rfl, rfl, rfl, rfl, rfl, rfl⟩

/-- What the second half does. -/
theorem logForgotten_spec (e : GroupEngine) (x : NodeId) :
    (e.logForgotten x).members = e.members ∧ (e.logForgotten x).index.changed = e.index.changed ∧
    (e.logForgotten x).index.news = e.index.news ∧
    (e.logForgotten x).changeClock = e.changeClock ∧
    (((e.logForgotten x).index.forgotten = e.index.forgotten.insert e.changeClock x ∧
        (e.logForgotten x).index.forgottenFloor = e.index.forgottenFloor) ∨
      ∃ first, (e.index.forgotten.insert e.changeClock x).toList.head? = some first ∧
        (e.logForgotten x).index.forgotten =
          (e.index.forgotten.insert e.changeClock x).erase first.1 ∧
        (e.logForgotten x).index.forgottenFloor = first.1) := by
  unfold logForgotten
  dsimp only
  split
  next first hfirst =>
    split
    · exact ⟨rfl, rfl, rfl, rfl, Or.inr ⟨first, hfirst, rfl, rfl⟩⟩
    · exact ⟨rfl, rfl, rfl, rfl, Or.inl ⟨rfl, rfl⟩⟩
  next => exact ⟨rfl, rfl, rfl, rfl, Or.inl ⟨rfl, rfl⟩⟩

theorem members_forget_of_some (hm : e.record x = some m) :
    (e.forget x).members = e.members.erase x := by
  rw [forget_eq hm]
  exact (logForgotten_spec _ x).1.trans (withdrawn_spec e x m).1

theorem record_forget (hm : e.record x = some m) : (e.forget x).record x = none := by
  unfold record
  rw [members_forget_of_some hm, Std.TreeMap.getElem?_erase_self]

theorem record_forget_of_ne (hm : e.record x = some m) {y : NodeId} (hne : y ≠ x) :
    (e.forget x).record y = e.record y := by
  unfold record
  rw [members_forget_of_some hm, Std.TreeMap.getElem?_erase, if_neg (by simpa using hne.symm)]

theorem Indexed.forget (h : e.Indexed) (hm : e.record x = some m) : (e.forget x).Indexed := by
  have hgone := record_forget hm
  have hother : ∀ y, y ≠ x → (e.forget x).record y = e.record y :=
    fun y hne => record_forget_of_ne hm hne
  have hnone : ∀ {κ : Type} (key : NodeId → Member → Option κ) k, ¬ Named key x none k := by
    rintro κ key k ⟨_, h, _⟩
    cases h
  obtain ⟨_, wchanged, wnews, _⟩ := withdrawn_spec e x m
  obtain ⟨_, lchanged, lnews, _⟩ := logForgotten_spec (e.withdrawn x m) x
  rw [← forget_eq hm] at lchanged lnews
  refine ⟨?_, ?_⟩
  · refine h.changed.move stampKey_owned hother fun k => ?_
    rw [hgone, lchanged, wchanged, h.unfile_changed hm, or_iff_left (hnone _ _)]
  · refine h.news.move newsOf_owned hother fun k => ?_
    rw [hgone, lnews, wnews, unfile_news hm, or_iff_left (hnone _ _)]

end GroupEngine

end Groupnet
