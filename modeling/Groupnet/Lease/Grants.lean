import Groupnet.Hosted.Ledger
import Groupnet.Lease.Core

/-!
# What a writer has granted

A writer grants every reader it sees the reader's newest renewal, and holds grants back
from a reader that is behind one of its writes: behind a write that ended it grants
nothing new, and behind a write in flight nothing it first saw after that write began.
The newest renewal granted says when a silent reader may be excused.

All instants are milliseconds on the writer's own clock.
-/

namespace Groupnet

/-- What a writer knows about one reader's lease. -/
structure GrantReader where
  seen : Option (RenewalId × Nat)
  /-- The newest renewal granted, and when it was first seen. -/
  granted : Option (RenewalId × Nat)
  /-- The reader's life whose map counts this writer. -/
  countsMe : Option Nat
  /-- A life of the reader that departed. -/
  departed : Option Nat

namespace GrantReader

def unknown : GrantReader := ⟨none, none, none, none⟩

def firstSeen (rd : GrantReader) (id : RenewalId) (now : Nat) : Nat :=
  match rd.seen with
  | some (seen, first) => if seen = id then first else now
  | none => now

/-- Takes note of a visible renewal, unless one as new was seen. -/
def saw (rd : GrantReader) (id : RenewalId) (now : Nat) : GrantReader :=
  match rd.seen with
  | some (seen, _) => if id ≤ seen then rd else { rd with seen := some (id, now) }
  | none => { rd with seen := some (id, now) }

/-- The grant of a visible renewal.  `current` says that the reader has applied every ended
write, and `cap` is when the first write in flight began that it has not applied. -/
def grant (rd : GrantReader) (id : RenewalId) (now : Nat) (current : Bool) (cap : Option Nat) :
    GrantReader × Option RenewalId :=
  let first := rd.firstSeen id now
  let rd := rd.saw id now
  if current && cap.all fun began => decide (first ≤ began) then
    (if rd.granted.all fun g => decide (g.1 < id) then { rd with granted := some (id, first) }
      else rd, some id)
  else
    (rd, (rd.granted.filter fun g => decide (g.1.epoch = id.epoch ∧ g.1 ≤ id)).map Prod.fst)

variable {rd : GrantReader} {id id' : RenewalId} {now : Nat} {current : Bool} {cap : Option Nat}

theorem saw_seen :
    (rd.saw id now).seen = rd.seen ∨ (rd.saw id now).seen = some (id, rd.firstSeen id now) := by
  unfold saw firstSeen
  split
  next seen first hseen =>
    split
    · exact Or.inl rfl
    next hlt =>
      have hne : seen ≠ id := fun h => hlt h.ge
      exact Or.inr (by simp [hne])
  next => exact Or.inr rfl

theorem saw_granted : (rd.saw id now).granted = rd.granted := by
  unfold saw
  split
  · split <;> rfl
  · rfl

theorem saw_departed : (rd.saw id now).departed = rd.departed := by
  unfold saw
  split
  · split <;> rfl
  · rfl

/-- What a grant makes of a record: the newest grant stands, or a newer renewal is granted
that neither an ended write nor one in flight holds back. -/
theorem grant_granted :
    (rd.grant id now current cap).1.granted = rd.granted ∨
      (rd.grant id now current cap).1.granted = some (id, rd.firstSeen id now) ∧ current = true ∧
        (∀ began, cap = some began → rd.firstSeen id now ≤ began) ∧
        ∀ g, rd.granted = some g → g.1 < id := by
  unfold grant
  dsimp only
  split
  next hfree =>
    obtain ⟨hcur, hcap⟩ := Bool.and_eq_true_iff.mp hfree
    split
    next hnew =>
      refine Or.inr ⟨rfl, hcur, fun began hb => ?_, fun g hg => ?_⟩
      · rw [hb] at hcap
        exact of_decide_eq_true hcap
      · rw [saw_granted, hg] at hnew
        exact of_decide_eq_true hnew
    next => exact Or.inl saw_granted
  next => exact Or.inl saw_granted

theorem grant_seen :
    (rd.grant id now current cap).1.seen = rd.seen ∨
      (rd.grant id now current cap).1.seen = some (id, rd.firstSeen id now) := by
  have hsaw := @saw_seen rd id now
  unfold grant
  dsimp only
  split
  · split <;> exact hsaw
  · exact hsaw

theorem grant_departed : (rd.grant id now current cap).1.departed = rd.departed := by
  have hsaw := @saw_departed rd id now
  unfold grant
  dsimp only
  split
  · split <;> exact hsaw
  · exact hsaw

/-- What the map says is the visible renewal or an older grant, and at most the newest grant. -/
theorem le_of_grant (h : (rd.grant id now current cap).2 = some id') :
    (id' = id ∨ ∃ g, rd.granted = some g ∧ id' = g.1) ∧
      ∃ g, (rd.grant id now current cap).1.granted = some g ∧ id' ≤ g.1 := by
  unfold grant at h ⊢
  dsimp only at h ⊢
  split at h
  next hfree =>
    obtain rfl := Option.some.inj h
    refine ⟨Or.inl rfl, ?_⟩
    rw [if_pos hfree]
    split
    next => exact ⟨_, rfl, le_rfl⟩
    next hold =>
      cases hg : (rd.saw id now).granted with
      | none => simp [hg] at hold
      | some g =>
        rw [hg] at hold
        exact ⟨g, rfl, not_lt.mp fun hlt => hold (decide_eq_true hlt)⟩
  next hheld =>
    rw [if_neg hheld]
    obtain ⟨g, hg, rfl⟩ := Option.map_eq_some_iff.mp h
    have hgranted := (Option.filter_eq_some_iff.mp hg).1
    exact ⟨Or.inr ⟨g, saw_granted.symm.trans hgranted, rfl⟩, g, hgranted, le_rfl⟩

end GrantReader

/-- A coherent write in flight. -/
structure OpenWrite where
  writer : NodeId
  token : WriteToken
  began : Nat
deriving DecidableEq

/-- A writer's grants and the writes that hold them back. -/
structure GrantLedger where
  me : NodeId
  durationMs : Nat
  /-- This writer's lease life. -/
  life : Nat
  born : Nat
  departed : Bool
  readers : Std.TreeMap NodeId GrantReader
  inflight : List OpenWrite
  ended : Std.TreeMap NodeId WriteToken

namespace GrantLedger

def new (me : NodeId) (durationMs life now : Nat) : GrantLedger :=
  ⟨me, durationMs, life, now, false, ∅, [], ∅⟩

/-- The life this writer's maps are stamped with. -/
def granterLife (l : GrantLedger) : GranterLife := ⟨l.life, l.departed⟩

def reader (l : GrantLedger) (r : NodeId) : GrantReader := l.readers.getD r .unknown

def begin (l : GrantLedger) (writer : NodeId) (token : WriteToken) (now : Nat) : GrantLedger :=
  if l.inflight.any fun w => decide (w.writer = writer ∧ w.token = token) then l
  else { l with inflight := ⟨writer, token, now⟩ :: l.inflight }

/-- Unregisters a write, however it ended. -/
def finish (l : GrantLedger) (writer : NodeId) (token : WriteToken) : GrantLedger :=
  { l with
    inflight := l.inflight.filter fun w => !decide (w.writer = writer ∧ w.token = token)
    ended := l.ended.insert writer (match l.ended[writer]? with
      | some newest => max newest token
      | none => token) }

/-- Whether a reader that advertises `applied` has not applied a token. -/
def behind (applied : NodeId → Option WriteToken) (writer : NodeId) (token : WriteToken) : Bool :=
  (applied writer).all fun done => decide (done < token)

def current (l : GrantLedger) (applied : NodeId → Option WriteToken) : Bool :=
  !l.ended.toList.any fun p => behind applied p.1 p.2

/-- When the first write in flight began that a reader has not applied. -/
def cap (l : GrantLedger) (applied : NodeId → Option WriteToken) : Option Nat :=
  ((l.inflight.filter fun w => behind applied w.writer w.token).map OpenWrite.began).min?

/-- Grants one visible renewal. -/
def grantOne (l : GrantLedger) (now : Nat) (applied : NodeId → NodeId → Option WriteToken)
    (out : Std.TreeMap NodeId GrantReader × GrantMap) (v : NodeId × RenewalId) :
    Std.TreeMap NodeId GrantReader × GrantMap :=
  let granted := (out.1.getD v.1 .unknown).grant v.2 now (l.current (applied v.1))
    (l.cap (applied v.1))
  (out.1.insert v.1 granted.1,
    match granted.2 with
    | some id => out.2.insert v.1 id
    | none => out.2)

/-- The map to publish at `now`, one grant per visible reader, and this writer's own row. -/
def fold (l : GrantLedger) (now : Nat) (visible : List (NodeId × RenewalId))
    (applied : NodeId → NodeId → Option WriteToken) : GrantLedger × GrantMap :=
  let out := (visible.filter fun v => v.1 ≠ l.me).foldl (l.grantOne now applied) (l.readers, ∅)
  ({ l with readers := out.1 }, l.granterLife.stamp l.me out.2)

def observeReaderMap (l : GrantLedger) (r : NodeId) (map : GrantMap) : GrantLedger :=
  match GranterLife.of r map with
  | none => l
  | some life =>
    let rd := l.reader r
    let rd := if life.departed then { rd with departed := some life.epoch } else rd
    let rd :=
      if map[l.me]?.any fun id => decide (id.epoch = l.life) then
        { rd with countsMe := some life.epoch }
      else if rd.countsMe.any fun counted => decide (counted < life.epoch) then
        { rd with countsMe := none }
      else rd
    { l with readers := l.readers.insert r rd }

/-- When a reader may be excused from a write it has not acknowledged. -/
def excusableAt (l : GrantLedger) (r : NodeId) : Option Nat :=
  if l.departed then none
  else match l.readers[r]? with
    | none => none
    | some rd =>
      match rd.seen with
      | none => none
      | some (seen, _) =>
        if rd.departed = some seen.epoch then some 0
        else if rd.countsMe ≠ some seen.epoch then none
        else
          let grantedAt := match rd.granted with
            | some (granted, first) =>
              if granted.epoch = seen.epoch then max first l.born else l.born
            | none => l.born
          some (satAdd grantedAt l.durationMs)

def openGrants (l : GrantLedger) (now : Nat) : List NodeId :=
  (l.readers.toList.filter fun p => p.2.granted.any fun g =>
    decide (now < satAdd g.2 l.durationMs)).map Prod.fst

/-! ## One reader -/

variable {l : GrantLedger} {r : NodeId} {now : Nat} {visible : List (NodeId × RenewalId)}
  {applied : NodeId → NodeId → Option WriteToken}

theorem foldl_grantOne_of_not_mem {out : Std.TreeMap NodeId GrantReader × GrantMap}
    (h : r ∉ visible.map Prod.fst) :
    (visible.foldl (l.grantOne now applied) out).1[r]? = out.1[r]? ∧
      (visible.foldl (l.grantOne now applied) out).2[r]? = out.2[r]? := by
  induction visible generalizing out with
  | nil => exact ⟨rfl, rfl⟩
  | cons v visible ih =>
    rw [List.map_cons, List.mem_cons, not_or] at h
    have hne : compare v.1 r ≠ .eq := by simpa using Ne.symm h.1
    obtain ⟨hreader, hgrant⟩ := @ih (l.grantOne now applied out v) h.2
    rw [List.foldl_cons]
    refine ⟨hreader.trans ?_, hgrant.trans ?_⟩
    · simp only [grantOne, Std.TreeMap.getElem?_insert, if_neg hne]
    unfold grantOne
    dsimp only
    split
    · simp only [Std.TreeMap.getElem?_insert, if_neg hne]
    · rfl

/-- A fold treats each reader by itself: one that is not visible keeps its record and is
granted nothing. -/
theorem fold_of_not_visible (hr : r ≠ l.me) (h : r ∉ visible.map Prod.fst) :
    (l.fold now visible applied).1.readers[r]? = l.readers[r]? ∧
      (l.fold now visible applied).2[r]? = none := by
  have hnot : r ∉ (visible.filter fun v => v.1 ≠ l.me).map Prod.fst := by
    intro hmem
    obtain ⟨v, hv, rfl⟩ := List.mem_map.mp hmem
    exact h (List.mem_map.mpr ⟨v, List.mem_of_mem_filter hv, rfl⟩)
  obtain ⟨hreader, hgrant⟩ := @foldl_grantOne_of_not_mem l r now _ applied (l.readers, ∅) hnot
  refine ⟨hreader, ?_⟩
  have hne : compare l.me r ≠ .eq := by simpa using Ne.symm hr
  simp only [fold, GranterLife.stamp, Std.TreeMap.getElem?_insert, if_neg hne]
  rw [hgrant]
  simp

/-- One that is visible gets the record and the grant of that renewal. -/
theorem fold_of_visible {id : RenewalId} (hr : r ≠ l.me) (hnodup : (visible.map Prod.fst).Nodup)
    (h : (r, id) ∈ visible) :
    (l.fold now visible applied).1.readers[r]? =
        some ((l.reader r).grant id now (l.current (applied r)) (l.cap (applied r))).1 ∧
      (l.fold now visible applied).2[r]? =
        ((l.reader r).grant id now (l.current (applied r)) (l.cap (applied r))).2 := by
  have hmem : (r, id) ∈ visible.filter fun v => v.1 ≠ l.me :=
    List.mem_filter.mpr ⟨h, decide_eq_true hr⟩
  have hnodup' : ((visible.filter fun v => v.1 ≠ l.me).map Prod.fst).Nodup :=
    hnodup.sublist (List.filter_sublist.map Prod.fst)
  obtain ⟨before, after, hsplit⟩ := List.append_of_mem hmem
  rw [hsplit, List.map_append, List.map_cons, List.nodup_append, List.nodup_cons] at hnodup'
  obtain ⟨_, ⟨hafter, _⟩, hdisj⟩ := hnodup'
  have hbefore : r ∉ before.map Prod.fst := fun hin =>
    hdisj r hin r (List.mem_cons_self ..) rfl
  obtain ⟨hreader, hgrant⟩ :=
    @foldl_grantOne_of_not_mem l r now before applied (l.readers, ∅) hbefore
  -- The reader's own turn, from the record the fold began with.
  generalize hout : before.foldl (l.grantOne now applied) (l.readers, ∅) = out at hreader hgrant
  have hrec : out.1.getD r .unknown = l.reader r := by
    rw [Std.TreeMap.getD_eq_getD_getElem?, hreader, reader, Std.TreeMap.getD_eq_getD_getElem?]
  have hnone : out.2[r]? = none := by rw [hgrant]; simp
  obtain ⟨hreader', hgrant'⟩ :=
    @foldl_grantOne_of_not_mem l r now after applied (l.grantOne now applied out (r, id)) hafter
  have hne : compare l.me r ≠ .eq := by simpa using Ne.symm hr
  have hfold : (visible.filter fun v => v.1 ≠ l.me).foldl (l.grantOne now applied) (l.readers, ∅) =
      after.foldl (l.grantOne now applied) (l.grantOne now applied out (r, id)) := by
    rw [hsplit, List.foldl_append, List.foldl_cons, hout]
  refine ⟨?_, ?_⟩
  · simp only [fold]
    rw [hfold, hreader']
    simp only [grantOne, hrec, Std.TreeMap.getElem?_insert_self]
  simp only [fold, GranterLife.stamp, Std.TreeMap.getElem?_insert, if_neg hne]
  rw [hfold, hgrant']
  simp only [grantOne, hrec]
  split
  next id' hid => rw [Std.TreeMap.getElem?_insert_self, hid]
  next hid => rw [hnone, hid]

end GrantLedger

end Groupnet
