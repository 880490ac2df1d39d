import Std.Data.TreeMap.Lemmas
import Groupnet.Engine.Merge

/-!
# The records behind the index

A member's record carries a few fields that only the index reads.  `Member.bare` is the
record without them.  Filing and stamping leave every bare record as it is, so what an event
does to a member is seen in `GroupEngine.bare`.
-/

namespace Groupnet

variable (m : Member)

/-- The record without the marks of the index. -/
def Member.bare (m : Member) : Member := { m with changedAt := 0, filed := Filed.none }

namespace Member

theorem exists_unlistDue (due : Time) (key : String) :
    ∃ dues, m.unlistDue due key = { m with entryDues := dues } := by
  unfold unlistDue
  split
  · exact ⟨m.entryDues, rfl⟩
  dsimp only
  split
  · exact ⟨_, rfl⟩
  · exact ⟨_, rfl⟩

/-- Storing an entry touches the entries, their deadlines and the cached hash only. -/
theorem exists_putEntry (key : String) (entry : StateEntry) (reapAfter : Nat) :
    ∃ dues, m.putEntry key entry reapAfter =
      { m with entries := m.entries.insert key entry, entryDues := dues, hashCache := none } := by
  unfold putEntry entriesChanged
  cases m.entries[key]? with
  | none =>
    dsimp only [Option.map_none]
    split
    · split
      · exact ⟨_, rfl⟩
      · exact ⟨_, rfl⟩
    · exact ⟨_, rfl⟩
  | some was =>
    obtain ⟨dues, hdues⟩ := m.exists_unlistDue (was.reapDue reapAfter) key
    dsimp only [Option.map_some]
    rw [hdues]
    split
    · split
      · exact ⟨_, rfl⟩
      · exact ⟨_, rfl⟩
    · exact ⟨_, rfl⟩

end Member

namespace GroupEngine

variable {e e' : GroupEngine} {n x : NodeId} {m : Member}

def bare (e : GroupEngine) (x : NodeId) : Option Member := e.members[x]?.map Member.bare

theorem bare_of_some (h : e.members[x]? = some m) : e.bare x = some m.bare := by
  simp [bare, h]

theorem bare_of_none (h : e.members[x]? = none) : e.bare x = none := by
  simp [bare, h]

theorem bare_congr (h : e'.members = e.members) (x : NodeId) : e'.bare x = e.bare x := by
  rw [bare, h, bare]

theorem getElem?_insert_self (ms : Std.TreeMap NodeId Member) (n : NodeId) (m : Member) :
    (ms.insert n m)[n]? = some m := by
  simp

theorem getElem?_insert_of_ne (ms : Std.TreeMap NodeId Member) (m : Member) (h : x ≠ n) :
    (ms.insert n m)[x]? = ms[x]? := by
  rw [Std.TreeMap.getElem?_insert, if_neg]
  rw [compare_eq_iff_eq]
  exact h.symm

/-- Putting a record in place. -/
theorem bare_insert (h : e'.members = e.members.insert n m) (x : NodeId) :
    e'.bare x = if x = n then some m.bare else e.bare x := by
  unfold bare
  rw [h]
  split
  next heq =>
    rw [heq, getElem?_insert_self, Option.map_some]
  next hne => rw [getElem?_insert_of_ne _ _ hne]

/-- Putting a record in place that is bare the same changes nothing. -/
theorem bare_replace {m' : Member} (hm : e.members[n]? = some m) (hsame : m'.bare = m.bare)
    (h : e'.members = e.members.insert n m') (x : NodeId) : e'.bare x = e.bare x := by
  rw [bare_insert h]
  split
  next heq => rw [heq, bare_of_some hm, hsame]
  next => rfl

theorem bare_modifyMember {f : Member → Member} (hf : ∀ m, (f m).bare = m.bare) (x : NodeId) :
    (e.modifyMember n f).bare x = e.bare x := by
  unfold modifyMember
  split
  next m hm => exact bare_replace hm (hf m) rfl x
  next => rfl

/-! ## Filing and stamping -/

theorem members_refileDue (e : GroupEngine) (n : NodeId) (was due : Time) :
    (e.refileDue n was due).members = e.members := by
  unfold refileDue
  split <;> rfl

theorem members_refileLive (e : GroupEngine) (n : NodeId) (was : Option Nat) (live : Bool) :
    (e.refileLive n was live).1.members = e.members := by
  unfold refileLive
  split <;> rfl

theorem bare_reindex (e : GroupEngine) (n x : NodeId) : (e.reindex n).bare x = e.bare x := by
  unfold reindex
  split
  next => rfl
  next m hm =>
    refine (bare_modifyMember ?_ x).trans (bare_congr ?_ x)
    · exact fun _ => rfl
    · rw [members_refileLive, members_refileDue]

theorem bare_restamp (e : GroupEngine) (n : NodeId) (stamp : Nat) (x : NodeId) :
    (e.restamp n stamp).bare x = e.bare x := by
  unfold restamp
  split
  next => rfl
  next m hm =>
    refine bare_replace hm ?_ rfl x
    rfl

theorem bare_stamp (e : GroupEngine) (n x : NodeId) : (e.stamp n).bare x = e.bare x := by
  unfold stamp
  rw [bare_reindex, bare_restamp]
  rfl

theorem bare_recomputeCoordinator (e : GroupEngine) (x : NodeId) :
    e.recomputeCoordinator.1.bare x = e.bare x := by
  unfold recomputeCoordinator
  dsimp only
  split <;> rfl

end GroupEngine

end Groupnet
