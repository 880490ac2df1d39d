import Groupnet.Gossip.Edit
import Groupnet.Gossip.Mesh

/-!
# The entries of a record

A change of liveness leaves a record's entries as they are.  A section of a frame is
merged entry by entry, each adopted when it wins against the one held, and a local write
replaces what was held.  Every record an engine holds lists its entries under their
deadlines.
-/

namespace Groupnet

open Wire (EntryDelta)

namespace Member

def holding (m : Member) : Std.TreeMap String StateEntry × Agenda Time String × Nat × Option
    (Nat × Time) :=
  (m.entries, m.entryDues, m.maxStateVersion, m.hashCache)

variable {m m' : Member} {reapAfter : Nat} {now : Time}

theorem entries_of_holding (h : m'.holding = m.holding) : m'.entries = m.entries := congrArg (·.1) h

theorem Dued.of_holding (h : m.Dued reapAfter) (heq : m'.holding = m.holding) : m'.Dued reapAfter :=
  h.congr (congrArg (·.1) heq) (congrArg (·.2.1) heq)

@[simp] theorem holding_adoptStatus (m : Member) (status : Status) (now : Time) :
    (m.adoptStatus status now).holding = m.holding := by
  unfold adoptStatus
  dsimp only
  split <;> split <;> rfl

@[simp] theorem holding_armStatus (m : Member) (status : Status) (now : Time) (heard own : Nat) :
    (GroupEngine.armStatus m status now heard own).holding = m.holding := by
  cases status with
  | alive | dead => rfl
  | suspect =>
    unfold GroupEngine.armStatus hearSuspicion
    dsimp only
    split <;> rfl

theorem dued_bare : m.bare.Dued reapAfter ↔ m.Dued reapAfter :=
  ⟨fun h => h.congr rfl rfl, fun h => h.congr rfl rfl⟩

end Member

namespace GroupEngine

variable {e : GroupEngine} {m : Member} {now : Time} {reapAfter : Nat}

/-- A claim about liveness leaves the entries of a known node alone. -/
theorem holding_hearClaim (e : GroupEngine) (cur : Member) (incarnation : Nat) (status : Status)
    (now : Time) : (e.hearClaim (some cur) incarnation status now).holding = cur.holding := by
  unfold hearClaim
  dsimp only
  split
  · rw [Member.holding_armStatus, Member.holding_adoptStatus]
    rfl
  · rfl

/-- And makes an unknown one known without any. -/
theorem holding_hearClaim_none (e : GroupEngine) (incarnation : Nat) (status : Status)
    (now : Time) :
    (e.hearClaim none incarnation status now).holding = (Member.new 0 .alive 0).holding := by
  unfold hearClaim
  rw [Member.holding_armStatus]
  rfl

theorem dued_hearClaim {old : Option Member} (h : ∀ m ∈ old, m.Dued reapAfter) (incarnation : Nat)
    (status : Status) (now : Time) : (e.hearClaim old incarnation status now).Dued reapAfter := by
  cases old with
  | none => exact (Member.dued_new 0 .alive 0).of_holding (holding_hearClaim_none ..)
  | some m => exact (h m rfl).of_holding (holding_hearClaim ..)

/-- Adopting or merging a section keeps every property of records that storing an entry and
raising the high-water mark keep. -/
theorem hearEntries_keeps {P : Member → Prop} (known : Bool) (entries : List EntryDelta)
    (now : Time) (hobserve : ∀ m v, P m → P (m.observeVersion v))
    (hput : ∀ m, ∀ entry ∈ entries, P m →
      P (m.putEntry entry.key (adoptEntry entry now) e.reapAfter))
    (hm : P m) : P (e.hearEntries known m entries now).1 := by
  unfold hearEntries
  cases known with
  | true =>
    rw [if_pos rfl]
    induction entries generalizing m with
    | nil => exact hm
    | cons entry rest ih =>
      have hrest : ∀ m, ∀ en ∈ rest, P m → P (m.putEntry en.key (adoptEntry en now) e.reapAfter) :=
        fun m en hen => hput m en (List.mem_cons_of_mem _ hen)
      unfold mergeEntries
      dsimp only
      split
      · exact ih hrest (hput _ entry (List.mem_cons_self ..) (hobserve _ _ hm))
      · exact ih hrest (hobserve _ _ hm)
  | false =>
    rw [if_neg Bool.false_ne_true]
    unfold adoptEntries
    induction entries generalizing m with
    | nil => exact hm
    | cons entry rest ih =>
      refine ih (fun m en hen => hput m en (List.mem_cons_of_mem _ hen)) ?_
      exact hput _ entry (List.mem_cons_self ..) (hobserve _ _ hm)

end GroupEngine

open GroupEngine

variable {p : Powers} {now : Time} {c : Cause} {e e' : GroupEngine} {x : NodeId}
  {owed : List (NodeId × String)} {said : List Effect}

/-- Every edit keeps the entries listed under their deadlines. -/
theorem Edit.dued {old new : Option Member} {keys : List String} (h : Edit now c e x old keys new)
    (hold : ∀ m ∈ old, m.Dued e.reapAfter) : ∀ m ∈ new, m.Dued e.reapAfter := by
  intro m' hm'
  cases h with
  | kept => exact hold m' hm'
  | met since =>
    cases hm'
    exact Member.dued_new ..
  | heard f incarnation status =>
    cases hm'
    exact dued_hearClaim hold ..
  | merged f d status =>
    cases hm'
    refine Member.Dued.congr (hearEntries_keeps _ _ _ ?_ ?_ (dued_hearClaim hold _ _ _)) rfl rfl
    · exact fun m v h => h.congr rfl rfl
    · exact fun m entry _ h => h.putEntry
  | outversioned m f d entry en hc hkind hd hx hentry hauthored hheld =>
    cases hm'
    exact (hold m rfl).outversion hheld _ rfl rfl
  | echoed m f d entry | authored m cmd w =>
    cases hm'
    exact Member.Dued.putEntry ((hold m rfl).congr rfl rfl)
  | refuted m | suspected m | buried m | left m =>
    cases hm'
    exact (hold m rfl).of_holding (Member.holding_adoptStatus _ _ _)
  | hashed m | confirmed m | accused m =>
    cases hm'
    exact (hold m rfl).congr rfl rfl
  | forgotten => cases hm'
  | reaped m =>
    cases hm'
    exact (hold m rfl).takeDueEntries

/-- Every record is listed under its deadlines. -/
def GroupEngine.Dued (e : GroupEngine) : Prop :=
  ∀ (x : NodeId) (m : Member), e.members[x]? = some m → m.Dued e.reapAfter

theorem Touch.dued (h : Touch p now c e owed said e') (he : e.Dued) : e'.Dued := by
  intro x m' hm'
  have hreap : e'.reapAfter = e.reapAfter :=
    congrArg (fun i : Identity => satMul i.config.deadTimeoutMs 2) h.identity_eq
  obtain ⟨keys, new, hedit, hbare, _⟩ := h.edits x
  rw [bare_of_some hm'] at hbare
  obtain ⟨m, hm, hmb⟩ := Option.map_eq_some_iff.mp hbare.symm
  have hdued := hedit.dued (fun m hm => he x m hm) m hm
  rw [hreap, ← Member.dued_bare, ← hmb, Member.dued_bare]
  exact hdued

theorem GroupEngine.Made.dued {group : GroupId} {n : NodeId} {config : Config}
    (h : Made group n config e) : e.Dued := by
  intro x m hm
  have hbare := h.bare_eq x
  rw [bare_of_some hm] at hbare
  split at hbare
  · rw [← Member.dued_bare, Option.some.inj hbare, Member.dued_bare]
    exact Member.dued_new ..
  · cases hbare

end Groupnet
