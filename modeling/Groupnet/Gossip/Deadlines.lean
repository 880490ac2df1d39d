import Groupnet.Gossip.Members
import Groupnet.Lib.Agenda

/-!
# Entry deadlines

A member's record lists the keys of its entries by the instant each next needs a tick.
`Member.Dued` says that the list is right: a key is listed under the deadline its entry
has, when it has one, and nowhere else.  Storing, dropping and out-versioning entries keep
it so, and the entries dropped at an instant are exactly those whose deadline has come.
-/

namespace Groupnet

/-- The keys are listed under the deadlines of their entries. -/
structure Member.Dued (reapAfter : Nat) (m : Member) : Prop where
  lists : ∀ due key, Agenda.Lists m.entryDues due key ↔
    due ≠ Time.max ∧ ∃ en, m.entries[key]? = some en ∧ en.reapDue reapAfter = due
  tidy : Agenda.Tidy m.entryDues

namespace Member

variable {m m' : Member} {reapAfter : Nat} {now : Time} {key : String} {en : StateEntry}

theorem Dued.congr (h : m.Dued reapAfter) (hentries : m'.entries = m.entries)
    (hdues : m'.entryDues = m.entryDues) : m'.Dued reapAfter := by
  refine ⟨?_, ?_⟩
  · rw [hdues, hentries]
    exact h.lists
  · rw [hdues]
    exact h.tidy

theorem dued_new (incarnation : Nat) (status : Status) (now : Time) :
    (Member.new incarnation status now).Dued reapAfter where
  lists due key := by
    constructor
    · exact fun h => absurd h Agenda.not_lists_empty
    · rintro ⟨_, en, hen, _⟩
      simp [Member.new] at hen
  tidy := Agenda.tidy_empty

theorem unlistDue_eq (m : Member) (due : Time) (key : String) :
    m.unlistDue due key = { m with entryDues := Agenda.drop m.entryDues due key } := by
  unfold unlistDue Agenda.drop
  cases m.entryDues[due]? with
  | none => rfl
  | some keys =>
    dsimp only
    split <;> rfl

theorem entryDues_putEntry (m : Member) (key : String) (en : StateEntry) (reapAfter : Nat) :
    (m.putEntry key en reapAfter).entryDues =
      match m.entries[key]? with
      | none =>
        if en.reapDue reapAfter = Time.max then m.entryDues
        else Agenda.add m.entryDues (en.reapDue reapAfter) key
      | some was =>
        if was.reapDue reapAfter = en.reapDue reapAfter then m.entryDues
        else if en.reapDue reapAfter = Time.max then
          Agenda.drop m.entryDues (was.reapDue reapAfter) key
        else Agenda.add (Agenda.drop m.entryDues (was.reapDue reapAfter) key)
          (en.reapDue reapAfter) key := by
  unfold putEntry entriesChanged listDue
  cases hwas : m.entries[key]? with
  | none => by_cases hmax : en.reapDue reapAfter = Time.max <;> simp [hmax, Agenda.add]
  | some was =>
    by_cases hsame : was.reapDue reapAfter = en.reapDue reapAfter
    · simp [hsame]
    by_cases hmax : en.reapDue reapAfter = Time.max
    · simp [hmax, unlistDue_eq, hmax ▸ hsame]
    · simp [hsame, hmax, unlistDue_eq, Agenda.add]

/-- Where a stored key is listed. -/
theorem Dued.lists_putEntry (h : m.Dued reapAfter) (due : Time) (k : String) :
    Agenda.Lists (m.putEntry key en reapAfter).entryDues due k ↔
      if k = key then due = en.reapDue reapAfter ∧ due ≠ Time.max
      else Agenda.Lists m.entryDues due k := by
  rw [entryDues_putEntry]
  have hkey := h.lists due key
  cases hwas : m.entries[key]? with
  | none =>
    rw [hwas] at hkey
    by_cases hk : k = key
    · subst hk
      rw [if_pos rfl]
      dsimp only
      split
      next hmax =>
        simp_all
      next hmax =>
        rw [Agenda.lists_add]
        constructor
        · rintro (⟨rfl, _⟩ | hlist)
          · exact ⟨rfl, hmax⟩
          · simp [hkey] at hlist
        · rintro ⟨rfl, _⟩
          exact .inl ⟨rfl, rfl⟩
    · rw [if_neg hk]
      dsimp only
      split
      · exact Iff.rfl
      · rw [Agenda.lists_add]
        simp [Ne.symm hk]
  | some was =>
    have hold : Agenda.Lists m.entryDues due key ↔ due ≠ Time.max ∧
        was.reapDue reapAfter = due := by
      rw [hkey, hwas]
      simp
    by_cases hk : k = key
    · subst hk
      rw [if_pos rfl]
      dsimp only
      split
      next hsame =>
        rw [hold, hsame]
        exact ⟨fun h => ⟨h.2.symm, h.1⟩, fun h => ⟨h.2, h.1.symm⟩⟩
      next hsame =>
        split
        next hmax =>
          rw [Agenda.lists_drop, hold]
          constructor
          · rintro ⟨⟨_, hwas⟩, hnot⟩
            exact absurd ⟨hwas, rfl⟩ hnot
          · rintro ⟨rfl, hne⟩
            exact absurd hmax hne
        next hmax =>
          rw [Agenda.lists_add, Agenda.lists_drop, hold]
          constructor
          · rintro (⟨rfl, _⟩ | ⟨⟨_, hwas⟩, hnot⟩)
            · exact ⟨rfl, hmax⟩
            · exact absurd ⟨hwas, rfl⟩ hnot
          · rintro ⟨rfl, _⟩
            exact .inl ⟨rfl, rfl⟩
    · rw [if_neg hk]
      dsimp only
      split
      · exact Iff.rfl
      split
      · rw [Agenda.lists_drop]
        simp [Ne.symm hk]
      · rw [Agenda.lists_add, Agenda.lists_drop]
        simp [Ne.symm hk]

theorem entries_putEntry (m : Member) (key : String) (en : StateEntry) (reapAfter : Nat)
    (k : String) :
    (m.putEntry key en reapAfter).entries[k]? = if k = key then some en else m.entries[k]? := by
  obtain ⟨dues, hput⟩ := m.exists_putEntry key en reapAfter
  rw [hput]
  show (m.entries.insert key en)[k]? = _
  rw [Std.TreeMap.getElem?_insert]
  by_cases hk : k = key
  · subst hk
    simp
  · rw [if_neg (by simpa using Ne.symm hk), if_neg hk]

theorem Dued.putEntry (h : m.Dued reapAfter) : (m.putEntry key en reapAfter).Dued reapAfter where
  lists due k := by
    rw [h.lists_putEntry, entries_putEntry]
    by_cases hk : k = key
    · rw [if_pos hk, if_pos hk]
      constructor
      · rintro ⟨rfl, hne⟩
        exact ⟨hne, en, rfl, rfl⟩
      rintro ⟨hne, _, hen, rfl⟩
      cases hen
      exact ⟨rfl, hne⟩
    · rw [if_neg hk, if_neg hk]
      exact h.lists due k
  tidy := by
    rw [entryDues_putEntry]
    split
    · split
      · exact h.tidy
      · exact Agenda.tidy_add h.tidy
    split
    · exact h.tidy
    split
    · exact Agenda.tidy_drop h.tidy
    · exact Agenda.tidy_add (Agenda.tidy_drop h.tidy)

/-- A new version of an entry keeps its deadline. -/
theorem Dued.outversion (h : m.Dued reapAfter) (hen : m.entries[key]? = some en) (v : Nat)
    (hentries : m'.entries = m.entries.insert key { en with version := v })
    (hdues : m'.entryDues = m.entryDues) : m'.Dued reapAfter where
  lists due k := by
    rw [hdues, hentries, h.lists, Std.TreeMap.getElem?_insert]
    by_cases hk : key = k
    · subst hk
      rw [if_pos (by simp), hen]
      simp [StateEntry.reapDue]
    · rw [if_neg (by simpa using hk)]
  tidy := by
    rw [hdues]
    exact h.tidy

/-! ## Reaping -/

/-- The keys due by an instant are those listed under one no later. -/
theorem mem_dueKeys : key ∈ m.dueKeys now ↔ ∃ due ≤ now, Agenda.Lists m.entryDues due key := by
  have hwalk : (m.entryDues.toList.takeWhile fun p => decide (p.1 ≤ now)) =
      m.entryDues.toList.filter fun p => decide (p.1 ≤ now) := by
    refine takeWhile_eq_filter (m.entryDues.ordered_keys_toList.imp fun {p q} hlt => ?_)
    simp only [decide_eq_true_eq]
    exact fun hle => (Nat.compare_eq_lt.mp hlt).le.trans hle
  unfold dueKeys
  rw [List.mem_insertionSort, hwalk, List.mem_flatMap]
  constructor
  · rintro ⟨⟨due, keys⟩, hp, hkey⟩
    obtain ⟨hp, hle⟩ := List.mem_filter.mp hp
    exact ⟨due, of_decide_eq_true hle, keys, Std.TreeMap.mem_toList_iff_getElem?_eq_some.mp hp,
      Std.TreeSet.mem_toList.mp hkey⟩
  · rintro ⟨due, hle, keys, hkeys, hkey⟩
    exact ⟨(due, keys), List.mem_filter.mpr
      ⟨Std.TreeMap.mem_toList_iff_getElem?_eq_some.mpr hkeys, decide_eq_true hle⟩,
      Std.TreeSet.mem_toList.mpr hkey⟩

theorem entries_removeEntries (keys : List String) (entries : Std.TreeMap String StateEntry)
    (k : String) :
    (removeEntries keys entries).1[k]? = if k ∈ keys then none else entries[k]? := by
  induction keys generalizing entries with
  | nil => rfl
  | cons key keys ih =>
    unfold removeEntries
    split
    next en hen =>
      dsimp only
      rw [ih, Std.TreeMap.getElem?_erase]
      by_cases hk : key = k
      · subst hk
        simp
      · simp [hk, Ne.symm hk]
    next hnone =>
      rw [ih]
      by_cases hk : k = key
      · subst hk
        simp [hnone]
      · simp [hk]

theorem mem_removeEntries {keys : List String} {entries : Std.TreeMap String StateEntry}
    {k : String} :
    (k, en) ∈ (removeEntries keys entries).2 ↔ k ∈ keys ∧ entries[k]? = some en := by
  induction keys generalizing entries with
  | nil => simp [removeEntries]
  | cons key keys ih =>
    unfold removeEntries
    split
    next was hwas =>
      dsimp only
      rw [List.mem_cons, ih, List.mem_cons, Std.TreeMap.getElem?_erase]
      by_cases hk : key = k
      · subst hk
        simp [hwas, eq_comm]
      · rw [if_neg (by simpa using hk)]
        simp [Ne.symm hk]
    next hnone =>
      rw [ih, List.mem_cons]
      constructor
      · exact fun h => ⟨.inr h.1, h.2⟩
      rintro ⟨rfl | hk, hen⟩
      · cases hnone.symm.trans hen
      · exact ⟨hk, hen⟩

theorem Dued.mem_dueKeys_iff (h : m.Dued reapAfter) : key ∈ m.dueKeys now ↔
    ∃ en, m.entries[key]? = some en ∧ en.reapDue reapAfter ≠ Time.max ∧
      en.reapDue reapAfter ≤ now := by
  rw [mem_dueKeys]
  constructor
  · rintro ⟨due, hle, hlist⟩
    obtain ⟨hne, en, hen, rfl⟩ := (h.lists due key).mp hlist
    exact ⟨en, hen, hne, hle⟩
  · rintro ⟨en, hen, hne, hle⟩
    exact ⟨_, hle, (h.lists _ key).mpr ⟨hne, en, hen, rfl⟩⟩

theorem entries_takeDueEntries (m : Member) (now : Time) (k : String) :
    (m.takeDueEntries now).1.entries[k]? = if k ∈ m.dueKeys now then none else m.entries[k]? := by
  unfold takeDueEntries
  dsimp only
  split <;> exact entries_removeEntries ..

theorem mem_takeDueEntries {k : String} :
    (k, en) ∈ (m.takeDueEntries now).2 ↔ k ∈ m.dueKeys now ∧ m.entries[k]? = some en :=
  mem_removeEntries

theorem Dued.takeDueEntries (h : m.Dued reapAfter) : (m.takeDueEntries now).1.Dued reapAfter := by
  have hdues : (m.takeDueEntries now).1.entryDues = m.entryDues.filter fun due _ => now < due := by
    unfold Member.takeDueEntries
    dsimp only
    split <;> rfl
  have hfilter : ∀ due : Time, (m.entryDues.filter fun due _ => decide (now < due))[due]? =
      if now < due then m.entryDues[due]? else none := by
    intro due
    rw [Std.TreeMap.getElem?_filter']
    cases m.entryDues[due]? <;> simp [Option.filter]
  refine ⟨?_, ?_⟩
  · intro due k
    rw [hdues]
    unfold Agenda.Lists
    rw [hfilter, entries_takeDueEntries]
    have hlists := h.lists due k
    unfold Agenda.Lists at hlists
    by_cases hnow : now < due
    · rw [if_pos hnow, hlists]
      refine and_congr_right fun hne => exists_congr fun en => and_congr_left fun hdue => ?_
      constructor
      · intro hen
        rw [if_neg, hen]
        intro hk
        obtain ⟨en', hen', _, hle⟩ := h.mem_dueKeys_iff.mp hk
        cases hen.symm.trans hen'
        exact absurd (hdue ▸ hle) (not_le.mpr hnow)
      · intro hen
        split at hen
        · cases hen
        · exact hen
    · rw [if_neg hnow]
      constructor
      · rintro ⟨_, hks, _⟩
        cases hks
      rintro ⟨hne, en, hen, rfl⟩
      split at hen
      · cases hen
      next hk =>
        exact absurd (h.mem_dueKeys_iff.mpr ⟨en, hen, hne, not_lt.mp hnow⟩) hk
  · intro due keys hkeys
    rw [hdues, hfilter] at hkeys
    split at hkeys
    · exact h.tidy due keys hkeys
    · cases hkeys

end Member

end Groupnet
