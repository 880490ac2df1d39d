import Groupnet.Lease.Coherence
import Groupnet.Lease.Window
import Groupnet.Lib.Run

/-!
# What a coherent write guarantees

One writer and one reader, each in one lease life, on clocks that run at the same rate.
Renewals, watermarks and grant maps travel between them and arrive late, out of order,
several times or never.  A write is registered, polled on snapshots taken earlier, and
ended some time after its verdict.

A reader that has not applied a write whose wait is over holds no open window, provided
the writer's grants to it did not grow while it was behind the write.  They may: a renewal
first seen before the write began and held back for an older write is granted as soon as
the older one is applied, although an excuse may rest on the renewal granted before it.
-/

namespace Groupnet

open Progress (Bounded Pends)

/-! ## Closed windows -/

/-- No window the newest grant opens runs at an instant of the writer's clock. -/
def Shut (durationMs : Nat) (granted : Option (RenewalId × Nat)) (now : Nat) : Prop :=
  ∀ g, granted = some g → g.2 + durationMs ≤ now

/-- From an instant on it does not, short of the clock's end. -/
def ShutFrom (durationMs : Nat) (granted : Option (RenewalId × Nat)) (since : Nat) : Prop :=
  ∀ now, since ≤ now → now < u64Max → Shut durationMs granted now

theorem Shut.mono {durationMs now now' : Nat} {granted : Option (RenewalId × Nat)}
    (h : Shut durationMs granted now) (hle : now ≤ now') : Shut durationMs granted now' :=
  fun g hg => Nat.le_trans (h g hg) hle

namespace GrantLedger

variable {l : GrantLedger} {r : NodeId} {epoch now : Nat}

/-- A reader is excused when its newest grant has run out. -/
theorem shutFrom_excusableAt {x : Nat} (h : l.excusableAt r = some x)
    (hstays : (l.reader r).departed = none)
    (hseen : ∀ id first, (l.reader r).seen = some (id, first) → id.epoch = epoch)
    (hgranted : ∀ id first, (l.reader r).granted = some (id, first) → id.epoch = epoch) :
    ShutFrom l.durationMs (l.reader r).granted x := by
  unfold excusableAt at h
  split at h
  · cases h
  split at h
  · cases h
  next rd hrd =>
    have hreader : l.reader r = rd := by
      rw [reader, Std.TreeMap.getD_eq_getD_getElem?, hrd]
      rfl
    rw [hreader] at hstays hseen hgranted ⊢
    split at h
    · cases h
    next seen first hs =>
      rw [hstays, if_neg (by simp)] at h
      split at h
      · cases h
      cases hg : rd.granted with
      | none => exact fun _ _ _ g hg' => by cases hg'
      | some g =>
        obtain ⟨id, at_⟩ := g
        rw [hg] at h
        dsimp only at h
        rw [if_pos ((hgranted id at_ hg).trans (hseen seen first hs).symm)] at h
        obtain rfl := Option.some.inj h
        rintro now hle hlt _ ⟨rfl⟩
        unfold satAdd at hle
        omega

/-- A reader that is not in a snapshot has no grant running. -/
theorem shut_of_not_mem_waitSnapshot {holders : List NodeId} {view : NodeId → Option WriteToken}
    (hr : r ≠ l.me) (hlt : now < u64Max)
    (h : r ∉ (l.waitSnapshot holders view now).map WaitMember.member) :
    Shut l.durationMs (l.reader r).granted now := by
  intro g hg
  by_contra hopen
  refine h (List.mem_map.mpr ⟨⟨r, view r, l.excusableAt r⟩, ?_, rfl⟩)
  refine List.mem_map.mpr ⟨r, List.mem_filter.mpr ⟨?_, decide_eq_true hr⟩, rfl⟩
  rw [Std.TreeSet.mem_toList, Std.TreeSet.mem_ofList, List.contains_iff_mem]
  refine List.mem_append.mpr (Or.inr (List.mem_map.mpr ⟨(r, l.reader r), ?_, rfl⟩))
  have hrd : l.readers[r]? = some (l.reader r) := by
    rw [reader, Std.TreeMap.getD_eq_getD_getElem?] at hg ⊢
    cases hrd : l.readers[r]? with
    | none =>
      rw [hrd] at hg
      cases hg
    | some rd => rfl
  refine List.mem_filter.mpr ⟨Std.TreeMap.mem_toList_iff_getElem?_eq_some.mpr hrd, ?_⟩
  rw [hg]
  refine decide_eq_true ?_
  unfold satAdd
  omega

theorem pends_waitSnapshot {holders : List NodeId} {view : NodeId → Option WriteToken}
    {token : WriteToken} (hstays : (l.reader r).departed = none)
    (hseen : ∀ id first, (l.reader r).seen = some (id, first) → id.epoch = epoch)
    (hgranted : ∀ id first, (l.reader r).granted = some (id, first) → id.epoch = epoch)
    (hview : (view r).any (fun applied => decide (token ≤ applied)) = false) :
    ∀ holder ∈ l.waitSnapshot holders view now,
      Pends r token (ShutFrom l.durationMs (l.reader r).granted) holder := by
  intro holder hholder
  obtain ⟨m, _, rfl⟩ := List.mem_map.mp hholder
  refine ⟨?_, ?_⟩
  · rintro rfl
    exact hview
  · rintro rfl x hx
    exact shutFrom_excusableAt hx hstays hseen hgranted

end GrantLedger

/-! ## A writer and a reader -/

/-- Who they are, in which lives, and what their clocks show at instant 0. -/
structure LeasePair where
  writer : NodeId
  reader : NodeId
  distinct : reader ≠ writer
  durationMs : Nat
  marginMs : Nat
  writerLife : Nat
  readerLife : Nat
  writerClock : Nat
  readerClock : Nat

/-- Both, and everything between them. -/
structure Tandem where
  now : Nat
  ledger : GrantLedger
  cores : WriteToken → CoherenceCore
  /-- A snapshot taken for a write and not folded in yet. -/
  looks : WriteToken → Option (Nat × List WaitMember)
  begun : List WriteToken
  /-- The writes whose wait is over, all applied or lapsed. -/
  verdicts : List WriteToken
  /-- The writes that began with the writer in the reader's roster. -/
  counted : List WriteToken
  /-- Every map the writer published. -/
  maps : List GrantMap
  core : LeaseCore
  /-- When the reader published its renewals, on its own clock. -/
  renewed : List Nat
  applied : NodeId → Option WriteToken

/-- What happens next. -/
inductive TandemAct where
  | pass (now : Nat)
  | begin (token : WriteToken)
  | look (token : WriteToken) (holders : List NodeId) (view : NodeId → Option WriteToken)
  | poll (token : WriteToken)
  | finish (token : WriteToken)
  | fold (visible : List (NodeId × RenewalId)) (view : NodeId → NodeId → Option WriteToken)
  | readerMap (map : GrantMap)
  | renew
  | call (call : LeaseCall)
  | deliver (map : GrantMap)
  | apply (writer : NodeId) (token : WriteToken)

namespace Tandem

variable {p : LeasePair} {s s' : Tandem} {token : WriteToken}

variable {view : NodeId → Option WriteToken} {visible : List (NodeId × RenewalId)} {id : RenewalId}
  {cue : TandemCue}

/-- The start of both lives. -/
def start (p : LeasePair) (born : Nat) : Tandem where
  now := 0
  ledger := .new p.writer p.durationMs p.writerLife born
  cores := fun _ => .new p.writer
  looks := fun _ => none
  begun := []
  verdicts := []
  counted := []
  maps := []
  core := .new p.reader p.durationMs p.marginMs p.readerLife
  renewed := []
  applied := fun _ => none

def writerNow (p : LeasePair) (s : Tandem) : Nat := s.now + p.writerClock

def readerNow (p : LeasePair) (s : Tandem) : Nat := s.now + p.readerClock

/-- The newest grant to the reader. -/
def granted (p : LeasePair) (s : Tandem) : Option (RenewalId × Nat) :=
  (s.ledger.reader p.reader).granted

def Applied (p : LeasePair) (s : Tandem) (token : WriteToken) : Prop :=
  ∃ done, s.applied p.writer = some done ∧ token ≤ done

def step (p : LeasePair) (s : Tandem) : TandemAct → Tandem
  | .pass now => { s with now := now }
  | .begin token =>
    { s with
      ledger := s.ledger.begin p.writer token (s.writerNow p)
      begun := token :: s.begun
      counted := if p.writer ∈ s.core.roster then token :: s.counted else s.counted }
  | .look token holders view =>
    let snapshot := s.ledger.waitSnapshot holders view (s.writerNow p)
    { s with looks := Function.update s.looks token (some (s.writerNow p, snapshot)) }
  | .poll token =>
    match s.looks token with
    | none => s
    | some (now, snapshot) =>
      let out := (s.cores token).step token now snapshot
      { s with
        cores := Function.update s.cores token out.1
        looks := Function.update s.looks token none
        verdicts := if out.2.terminal then token :: s.verdicts else s.verdicts }
  | .finish token =>
    { s with
      ledger := s.ledger.finish p.writer token
      looks := Function.update s.looks token none }
  | .fold visible view =>
    let out := s.ledger.fold (s.writerNow p) visible view
    { s with ledger := out.1, maps := out.2 :: s.maps }
  | .readerMap map => { s with ledger := s.ledger.observeReaderMap p.reader map }
  | .renew =>
    { s with
      core := (s.core.onRenew (s.readerNow p)).1
      renewed := s.renewed ++ [s.readerNow p] }
  | .call call => { s with core := s.core.call call }
  | .deliver map => { s with core := s.core.observeGrantMap p.writer map }
  | .apply writer token => { s with applied := Function.update s.applied writer (some token) }

/-- The writer sees of the reader's watermarks what the reader had published at some point. -/
def Sees (s : Tandem) (view : NodeId → Option WriteToken) : Prop :=
  ∀ writer seen, view writer = some seen → ∃ done, s.applied writer = some done ∧ seen ≤ done

def Allows (p : LeasePair) (s : Tandem) : TandemAct → Prop
  | .pass now => s.now ≤ now
  | .begin token => token ∉ s.begun
  | .look token _ view =>
    token ∈ s.begun ∧ s.Sees fun writer => if writer = p.writer then view p.reader else none
  | .poll token => s.looks token ≠ none
  | .finish token => token ∈ s.begun
  | .fold visible view =>
    (visible.map Prod.fst).Nodup ∧ s.Sees (view p.reader) ∧
      ∀ id, (p.reader, id) ∈ visible →
        id.epoch = p.readerLife ∧ 1 ≤ id.seq ∧ id.seq ≤ s.renewed.length
  | .readerMap map =>
    ∀ life, GranterLife.of p.reader map = some life → life = ⟨p.readerLife, false⟩
  | .renew => True
  | .call call => (∀ at_, call ≠ .onRenew at_) ∧ ∀ map, call ≠ .observeGrantMap p.writer map
  | .deliver map => map ∈ s.maps
  | .apply writer token => ∀ done, s.applied writer = some done → done ≤ token

/-- No fold grants the reader a newer renewal while it is behind a write in flight, and no
clock or counter reaches its end. -/
def Steady (p : LeasePair) (s : Tandem) : TandemAct → Prop
  | .fold visible view =>
    ∀ id, (p.reader, id) ∈ visible →
      (∃ w ∈ s.ledger.inflight, GrantLedger.behind (view p.reader) w.writer w.token = true) →
      (∃ g, s.granted p = some g ∧ id ≤ g.1) ∨
        s.ledger.current (view p.reader) = false ∨
        ∃ w ∈ s.ledger.inflight, GrantLedger.behind (view p.reader) w.writer w.token = true ∧
          w.began < (s.ledger.reader p.reader).firstSeen id (s.writerNow p)
  | .look _ _ _ => s.writerNow p < u64Max
  | .renew => s.core.nextSeq < u64Max
  | .pass _ | .begin _ | .poll _ | .finish _ | .readerMap _ | .call _ | .deliver _ | .apply _ _ =>
    True

def SteadyStep (p : LeasePair) (s s' : Tandem) : Prop :=
  ∃ act, s.Allows p act ∧ s.Steady p act ∧ s' = s.step p act

/-! ## The invariant -/

/-- A renewal of the reader that was published before the writer first saw it. -/
def Shown (p : LeasePair) (s : Tandem) (id : RenewalId) (first : Nat) : Prop :=
  id.epoch = p.readerLife ∧ ∃ i publishedAt, id.seq = i + 1 ∧ s.renewed[i]? = some publishedAt ∧
    publishedAt + p.writerClock ≤ first + p.readerClock

/-- The reader's half, and what the writer granted it. -/
structure Leased (p : LeasePair) (s : Tandem) : Prop where
  me : s.ledger.me = p.writer
  term : s.ledger.durationMs = p.durationMs
  life : s.ledger.granterLife = ⟨p.writerLife, false⟩
  coreMe : s.core.me = p.reader
  coreEpoch : s.core.epoch = p.readerLife
  coreTerm : s.core.durationMs = p.durationMs
  nextSeq : s.core.nextSeq = s.renewed.length + 1
  published : ∀ (seq at_ : Nat), s.core.published[seq]? = some at_ →
    ∃ i, seq = i + 1 ∧ s.renewed[i]? = some at_
  rising : s.renewed.Pairwise (· ≤ ·)
  past : ∀ at_ ∈ s.renewed, at_ ≤ s.readerNow p
  stays : (s.ledger.reader p.reader).departed = none
  seen : ∀ id first, (s.ledger.reader p.reader).seen = some (id, first) → s.Shown p id first
  granted : ∀ id first, s.granted p = some (id, first) → s.Shown p id first
  maps : ∀ map ∈ s.maps, GranterLife.of p.writer map = some ⟨p.writerLife, false⟩ ∧
    ∀ id, map[p.reader]? = some id → id.epoch = p.readerLife ∧ ∃ g, s.granted p = some g ∧ id ≤ g.1
  confirmed : ∀ (q : Nat), s.core.granters[p.writer]? = some q →
    ∃ g, s.granted p = some g ∧ q ≤ g.1.seq
  undeparted : s.core.departs p.writer = false
  counted : s.counted ≠ [] → p.writer ∈ s.core.roster

/-- The writes, for a reader that has not applied them. -/
structure Waits (p : LeasePair) (s : Tandem) : Prop where
  barrier : ∀ token ∈ s.begun, (∃ began, ⟨p.writer, token, began⟩ ∈ s.ledger.inflight) ∨
    ∃ newest, s.ledger.ended[p.writer]? = some newest ∧ token ≤ newest
  cores : ∀ token, (s.cores token).writer = p.writer
  idle : ∀ token, token ∉ s.begun → s.cores token = .new p.writer
  progress : ∀ token ∈ s.begun, ¬ s.Applied p token →
    Bounded p.reader (Shut p.durationMs (s.granted p) (s.writerNow p))
      (ShutFrom p.durationMs (s.granted p)) ((s.cores token).progress token)
  looks : ∀ token now snapshot, s.looks token = some (now, snapshot) →
    token ∈ s.begun ∧ now ≤ s.writerNow p ∧ now < u64Max ∧
    (¬ s.Applied p token →
      (∀ holder ∈ snapshot, Pends p.reader token (ShutFrom p.durationMs (s.granted p)) holder) ∧
      (p.reader ∉ snapshot.map WaitMember.member → Shut p.durationMs (s.granted p) now))
  verdicts : ∀ token ∈ s.verdicts, token ∈ s.begun ∧
    (¬ s.Applied p token → Shut p.durationMs (s.granted p) (s.writerNow p))

theorem leased_start (p : LeasePair) (born : Nat) : Leased p (start p born) where
  me := rfl
  term := rfl
  life := rfl
  coreMe := rfl
  coreEpoch := rfl
  coreTerm := rfl
  nextSeq := rfl
  published := fun seq at_ h => by simp [start, LeaseCore.new] at h
  rising := List.Pairwise.nil
  past := fun _ h => absurd h List.not_mem_nil
  stays := by simp [start, GrantLedger.new, GrantLedger.reader, GrantReader.unknown]
  seen := by simp [start, GrantLedger.new, GrantLedger.reader, GrantReader.unknown]
  granted := by simp [start, Tandem.granted, GrantLedger.new, GrantLedger.reader,
    GrantReader.unknown]
  maps := fun _ h => absurd h List.not_mem_nil
  confirmed := fun q h => by simp [start, LeaseCore.new] at h
  undeparted := by simp [start, LeaseCore.new, LeaseCore.departs]
  counted := fun h => absurd rfl h

theorem waits_start (p : LeasePair) (born : Nat) : Waits p (start p born) where
  barrier := fun _ h => absurd h List.not_mem_nil
  cores := fun _ => rfl
  idle := fun _ _ => rfl
  progress := fun _ h => absurd h List.not_mem_nil
  looks := fun _ _ _ h => by cases h
  verdicts := fun _ h => absurd h List.not_mem_nil

/-! ## A fold -/

theorem behind_of_not_applied {newest : WriteToken} (hsees : s.Sees view)
    (hnot : ¬ s.Applied p token) (hle : token ≤ newest) :
    GrantLedger.behind view p.writer newest = true := by
  unfold GrantLedger.behind
  cases hview : view p.writer with
  | none => rfl
  | some seen =>
    obtain ⟨done, hdone, hseen⟩ := hsees p.writer seen hview
    refine decide_eq_true (lt_of_le_of_lt hseen (lt_of_lt_of_le ?_ hle))
    exact not_le.mp fun h => hnot ⟨done, hdone, h⟩

theorem cap_le {l : GrantLedger} {w : OpenWrite} (hw : w ∈ l.inflight)
    (hbehind : GrantLedger.behind view w.writer w.token = true) :
    ∃ began, l.cap view = some began ∧ began ≤ w.began := by
  have hmem : w.began ∈ (l.inflight.filter fun w =>
      GrantLedger.behind view w.writer w.token).map OpenWrite.began :=
    List.mem_map.mpr ⟨w, List.mem_filter.mpr ⟨hw, hbehind⟩, rfl⟩
  cases hcap : l.cap view with
  | none =>
    rw [List.min?_eq_none_iff.mp hcap] at hmem
    cases hmem
  | some began => exact ⟨began, rfl, (List.min?_eq_some_iff.mp hcap).2 _ hmem⟩

theorem current_eq_false {l : GrantLedger} {w : NodeId} {newest : WriteToken}
    (hended : l.ended[w]? = some newest) (hbehind : GrantLedger.behind view w newest = true) :
    l.current view = false := by
  unfold GrantLedger.current
  rw [Bool.not_eq_false']
  refine List.any_eq_true.mpr ⟨(w, newest), ?_, hbehind⟩
  exact Std.TreeMap.mem_toList_iff_getElem?_eq_some.mpr hended

/-- The reader's record after a fold: as it was, or granted its visible renewal. -/
theorem reader_fold {visible : List (NodeId × RenewalId)}
    {view : NodeId → NodeId → Option WriteToken} (hl : Leased p s)
    (hnodup : (visible.map Prod.fst).Nodup) :
    (((s.ledger.fold (s.writerNow p) visible view).1.reader p.reader = s.ledger.reader p.reader ∧
        (s.ledger.fold (s.writerNow p) visible view).2[p.reader]? = none) ∨
      ∃ id, (p.reader, id) ∈ visible ∧
        (s.ledger.fold (s.writerNow p) visible view).1.reader p.reader =
          ((s.ledger.reader p.reader).grant id (s.writerNow p) (s.ledger.current (view p.reader))
            (s.ledger.cap (view p.reader))).1 ∧
        (s.ledger.fold (s.writerNow p) visible view).2[p.reader]? =
          ((s.ledger.reader p.reader).grant id (s.writerNow p) (s.ledger.current (view p.reader))
            (s.ledger.cap (view p.reader))).2) := by
  have hr : p.reader ≠ s.ledger.me := hl.me ▸ p.distinct
  by_cases hvis : p.reader ∈ visible.map Prod.fst
  · obtain ⟨⟨n, id⟩, hmem, rfl⟩ := List.mem_map.mp hvis
    obtain ⟨hreader, hgrant⟩ :=
      @GrantLedger.fold_of_visible s.ledger p.reader (s.writerNow p) visible view id hr hnodup hmem
    refine Or.inr ⟨id, hmem, ?_, hgrant⟩
    rw [GrantLedger.reader, Std.TreeMap.getD_eq_getD_getElem?, hreader]
    rfl
  · obtain ⟨hreader, hgrant⟩ := @GrantLedger.fold_of_not_visible s.ledger p.reader (s.writerNow p)
      visible view hr hvis
    refine Or.inl ⟨?_, hgrant⟩
    rw [GrantLedger.reader, GrantLedger.reader, Std.TreeMap.getD_eq_getD_getElem?, hreader,
      Std.TreeMap.getD_eq_getD_getElem?]

/-- While the reader is behind a write a steady fold leaves its newest grant. -/
theorem granted_fold {view : NodeId → NodeId → Option WriteToken} (hl : Leased p s) (hw : Waits p s)
    (hallows : s.Allows p (.fold visible view)) (hsteady : s.Steady p (.fold visible view))
    (hbegun : token ∈ s.begun) (hnot : ¬ s.Applied p token) :
    (s.step p (.fold visible view)).granted p = s.granted p := by
  obtain ⟨hnodup, hsees, _⟩ := hallows
  rcases @reader_fold p s visible view hl hnodup with ⟨hreader, _⟩ | ⟨id, hmem, hreader, _⟩
  · exact congrArg GrantReader.granted hreader
  rcases @GrantReader.grant_granted (s.ledger.reader p.reader) id (s.writerNow p)
    (s.ledger.current (view p.reader)) (s.ledger.cap (view p.reader)) with
    hkeep | ⟨_, hcur, hcap, hnew⟩
  · exact (congrArg GrantReader.granted hreader).trans hkeep
  exfalso
  rcases hw.barrier token hbegun with ⟨began, hopen⟩ | ⟨newest, hended, hle⟩
  · have hbehind := behind_of_not_applied hsees hnot (le_refl token)
    rcases hsteady id hmem ⟨_, hopen, hbehind⟩ with ⟨g, hg, hle⟩ | hold | ⟨w, hwopen, hwb, hlt⟩
    · exact absurd (hnew g hg) (not_lt.mpr hle)
    · rw [hold] at hcur
      cases hcur
    obtain ⟨first, hfirst, hle⟩ := cap_le hwopen hwb
    have := hcap first hfirst
    omega
  · rw [current_eq_false hended (behind_of_not_applied hsees hnot hle)] at hcur
    cases hcur

/-! ## One step -/

theorem Shown.mono {first : Nat} (h : s.Shown p id first)
    (hrenewed : ∀ (i a : Nat), s.renewed[i]? = some a → s'.renewed[i]? = some a) :
    s'.Shown p id first := by
  obtain ⟨hepoch, i, at_, hseq, hget, hle⟩ := h
  exact ⟨hepoch, i, at_, hseq, hrenewed i at_ hget, hle⟩

section

variable (hl : Leased p s) (hid : id.epoch = p.readerLife ∧ 1 ≤ id.seq ∧ id.seq ≤ s.renewed.length)

include hl hid

theorem shown_now : s.Shown p id (s.writerNow p) := by
  obtain ⟨hepoch, hpos, hlen⟩ := hid
  have hlt : id.seq - 1 < s.renewed.length := by omega
  refine ⟨hepoch, id.seq - 1, s.renewed[id.seq - 1], by omega, List.getElem?_eq_getElem hlt, ?_⟩
  have hpast := hl.past _ (List.getElem_mem hlt)
  unfold readerNow at hpast
  unfold writerNow
  omega

theorem shown_firstSeen :
    s.Shown p id ((s.ledger.reader p.reader).firstSeen id (s.writerNow p)) := by
  unfold GrantReader.firstSeen
  split
  next seen first hseen =>
    split
    next heq => exact heq ▸ hl.seen seen first hseen
    next => exact shown_now hl hid
  next => exact shown_now hl hid

end

/-- A later grant is at least as new. -/
theorem le_granted_fold {view : NodeId → NodeId → Option WriteToken} (hl : Leased p s)
    (hnodup : (visible.map Prod.fst).Nodup) {g : RenewalId × Nat} (hg : s.granted p = some g) :
    ∃ g', (s.step p (.fold visible view)).granted p = some g' ∧ g.1 ≤ g'.1 := by
  rcases @reader_fold p s visible view hl hnodup with ⟨hreader, _⟩ | ⟨id, _, hreader, _⟩
  · exact ⟨g, (congrArg GrantReader.granted hreader).trans hg, le_rfl⟩
  have hstep := congrArg GrantReader.granted hreader
  rcases @GrantReader.grant_granted (s.ledger.reader p.reader) id (s.writerNow p)
    (s.ledger.current (view p.reader)) (s.ledger.cap (view p.reader)) with
    hkeep | ⟨hnew, _, _, hlt⟩
  · exact ⟨g, (hstep.trans hkeep).trans hg, le_rfl⟩
  · exact ⟨_, hstep.trans hnew, le_of_lt (hlt g hg)⟩

/-- What is granted after a fold was published before it was first seen. -/
theorem shown_granted_fold {view : NodeId → NodeId → Option WriteToken} (hl : Leased p s)
    (hallows : s.Allows p (.fold visible view)) {first : Nat}
    (h : (s.step p (.fold visible view)).granted p = some (id, first)) : s.Shown p id first := by
  rcases @reader_fold p s visible view hl hallows.1 with ⟨hreader, _⟩ | ⟨id', hmem, hreader, _⟩
  · exact hl.granted id first ((congrArg GrantReader.granted hreader).symm.trans h)
  have h' := (congrArg GrantReader.granted hreader).symm.trans h
  rcases @GrantReader.grant_granted (s.ledger.reader p.reader) id' (s.writerNow p)
    (s.ledger.current (view p.reader)) (s.ledger.cap (view p.reader)) with hkeep | ⟨hnew, _⟩
  · exact hl.granted id first (hkeep.symm.trans h')
  · obtain ⟨rfl, rfl⟩ := Prod.mk.inj (Option.some.inj (hnew.symm.trans h'))
    exact shown_firstSeen hl (hallows.2.2 _ hmem)

theorem Leased.fold {view : NodeId → NodeId → Option WriteToken} (hl : Leased p s)
    (hallows : s.Allows p (.fold visible view)) : Leased p (s.step p (.fold visible view)) := by
  have hcases := @reader_fold p s visible view hl hallows.1
  refine { hl with stays := ?_, seen := ?_, granted := ?_, maps := ?_, confirmed := ?_ }
  · rcases hcases with ⟨hreader, _⟩ | ⟨id, _, hreader, _⟩
    · exact (congrArg GrantReader.departed hreader).trans hl.stays
    · exact (congrArg GrantReader.departed hreader).trans
        (GrantReader.grant_departed.trans hl.stays)
  · intro id' first hseen
    show s.Shown p id' first
    rcases hcases with ⟨hreader, _⟩ | ⟨id, hmem, hreader, _⟩
    · exact hl.seen id' first ((congrArg GrantReader.seen hreader).symm.trans hseen)
    have hseen' := (congrArg GrantReader.seen hreader).symm.trans hseen
    rcases @GrantReader.grant_seen (s.ledger.reader p.reader) id (s.writerNow p)
      (s.ledger.current (view p.reader)) (s.ledger.cap (view p.reader)) with hkeep | hnew
    · exact hl.seen id' first (hkeep.symm.trans hseen')
    · obtain ⟨rfl, rfl⟩ := Prod.mk.inj (Option.some.inj (hnew.symm.trans hseen'))
      exact shown_firstSeen hl (hallows.2.2 _ hmem)
  · exact fun _ _ hgranted => shown_granted_fold hl hallows hgranted
  · intro map hmap
    rcases List.mem_cons.mp hmap with rfl | hmap
    · refine ⟨?_, fun id' hid' => ?_⟩
      · show GranterLife.of p.writer (s.ledger.granterLife.stamp s.ledger.me _) = _
        rw [hl.me, GranterLife.of_stamp, hl.life]
      rcases hcases with ⟨_, hnone⟩ | ⟨id, hmem, hreader, hgrant⟩
      · rw [hnone] at hid'
        cases hid'
      obtain ⟨hwhich, g, hg, hle⟩ := GrantReader.le_of_grant (hgrant.symm.trans hid')
      refine ⟨?_, g, (congrArg GrantReader.granted hreader).trans hg, hle⟩
      rcases hwhich with rfl | ⟨g', hg', rfl⟩
      · exact (hallows.2.2 id' hmem).1
      · exact (hl.granted g'.1 g'.2 hg').1
    · obtain ⟨hlife, hrow⟩ := hl.maps map hmap
      refine ⟨hlife, fun id hid => ?_⟩
      obtain ⟨hepoch, g, hg, hle⟩ := hrow id hid
      obtain ⟨g', hg', hle'⟩ := le_granted_fold hl hallows.1 hg
      exact ⟨hepoch, g', hg', hle.trans hle'⟩
  · intro q hq
    obtain ⟨g, hg, hle⟩ := hl.confirmed q hq
    obtain ⟨g', hg', hle'⟩ := le_granted_fold hl hallows.1 hg
    refine ⟨g', hg', Nat.le_trans hle ?_⟩
    -- Both renewals are of the reader's one life.
    have hepoch := (hl.granted g.1 g.2 hg).1
    have hepoch' := (shown_granted_fold hl hallows hg').1
    rcases RenewalId.le_iff.mp hle' with hlt | ⟨_, hseq⟩
    · omega
    · exact hseq

theorem reader_observeReaderMap {l : GrantLedger} {r : NodeId} {map : GrantMap}
    (hlife : ∀ life, GranterLife.of r map = some life → life.departed = false) :
    ((l.observeReaderMap r map).reader r).seen = (l.reader r).seen ∧
      ((l.observeReaderMap r map).reader r).granted = (l.reader r).granted ∧
      ((l.observeReaderMap r map).reader r).departed = (l.reader r).departed := by
  unfold GrantLedger.observeReaderMap
  split
  · exact ⟨rfl, rfl, rfl⟩
  next life hof =>
    rw [hlife life hof]
    unfold GrantLedger.reader
    simp only [Bool.false_eq_true, if_false, Std.TreeMap.getD_insert_self]
    split
    · exact ⟨rfl, rfl, rfl⟩
    · split <;> exact ⟨rfl, rfl, rfl⟩

/-- A map of the reader changes neither what was seen nor what was granted. -/
theorem Leased.readerMap {map : GrantMap} (hl : Leased p s)
    (hallows : s.Allows p (.readerMap map)) :
    Leased p (s.step p (.readerMap map)) ∧
      (s.step p (.readerMap map)).granted p = s.granted p ∧
      (s.step p (.readerMap map)).ledger.inflight = s.ledger.inflight ∧
      (s.step p (.readerMap map)).ledger.ended = s.ledger.ended := by
  have hlife : ∀ life, GranterLife.of p.reader map = some life → life.departed = false :=
    fun life h => hallows life h ▸ rfl
  obtain ⟨hseen, hgranted, hdeparted⟩ := @reader_observeReaderMap s.ledger p.reader map hlife
  have hsame : (s.ledger.observeReaderMap p.reader map).me = s.ledger.me ∧
      (s.ledger.observeReaderMap p.reader map).durationMs = s.ledger.durationMs ∧
      (s.ledger.observeReaderMap p.reader map).granterLife = s.ledger.granterLife ∧
      (s.ledger.observeReaderMap p.reader map).inflight = s.ledger.inflight ∧
      (s.ledger.observeReaderMap p.reader map).ended = s.ledger.ended := by
    unfold GrantLedger.observeReaderMap
    split <;> exact ⟨rfl, rfl, rfl, rfl, rfl⟩
  obtain ⟨hme, hterm, hglife, hinflight, hended⟩ := hsame
  refine ⟨{ hl with
    me := hme.trans hl.me
    term := hterm.trans hl.term
    life := hglife.trans hl.life
    stays := hdeparted.trans hl.stays
    seen := fun id first h => hl.seen id first (hseen.symm.trans h)
    granted := fun id first h => hl.granted id first (hgranted.symm.trans h)
    maps := ?_
    confirmed := ?_ }, hgranted, hinflight, hended⟩
  · intro m hm
    obtain ⟨hof, hrow⟩ := hl.maps m hm
    refine ⟨hof, fun id hid => ?_⟩
    obtain ⟨hepoch, g, hg, hle⟩ := hrow id hid
    exact ⟨hepoch, g, hgranted.trans hg, hle⟩
  · intro q hq
    obtain ⟨g, hg, hle⟩ := hl.confirmed q hq
    exact ⟨g, hgranted.trans hg, hle⟩

theorem Leased.renew (hl : Leased p s) (hroom : s.core.nextSeq < u64Max) :
    Leased p (s.step p .renew) := by
  have hget : ∀ (i a : Nat), s.renewed[i]? = some a →
      (s.renewed ++ [s.readerNow p])[i]? = some a := by
    intro i a h
    rw [List.getElem?_append_left (List.getElem?_eq_some_iff.mp h).1]
    exact h
  refine { hl with
    nextSeq := ?_
    published := ?_
    rising := ?_
    past := ?_
    seen := fun id first h => (hl.seen id first h).mono hget
    granted := fun id first h => (hl.granted id first h).mono hget }
  · show satAdd s.core.nextSeq 1 = (s.renewed ++ [s.readerNow p]).length + 1
    rw [satAdd_eq_add hroom, hl.nextSeq, List.length_append]
    rfl
  · intro seq at_ h
    rcases LeaseCore.published_onRenew h with ⟨rfl, rfl⟩ | hold
    · refine ⟨s.renewed.length, hl.nextSeq, ?_⟩
      show (s.renewed ++ [s.readerNow p])[s.renewed.length]? = _
      simp
    · obtain ⟨i, hseq, hi⟩ := hl.published seq at_ hold
      exact ⟨i, hseq, hget i at_ hi⟩
  · refine List.pairwise_append.mpr ⟨hl.rising, List.pairwise_singleton _ _, ?_⟩
    intro a ha b hb
    rw [List.mem_singleton.mp hb]
    exact hl.past a ha
  · intro a ha
    rcases List.mem_append.mp ha with ha | ha
    · exact hl.past a ha
    · exact Nat.le_of_eq (List.mem_singleton.mp ha)

theorem Leased.call {call : LeaseCall} (hl : Leased p s) (hallows : s.Allows p (.call call)) :
    Leased p (s.step p (.call call)) := by
  obtain ⟨hrenew, hmap⟩ := hallows
  have hf : LeaseCore.Frame p.writer s.core (s.core.call call) := LeaseCore.frame_call hrenew hmap
  refine { hl with
    coreMe := hf.me.trans hl.coreMe
    coreEpoch := hf.epoch.trans hl.coreEpoch
    coreTerm := hf.duration.trans hl.coreTerm
    nextSeq := hf.nextSeq.trans hl.nextSeq
    published := ?_
    confirmed := fun q hq => hl.confirmed q (hf.granters q hq)
    undeparted := hf.departs hl.undeparted
    counted := ?_ }
  · intro seq at_ h
    refine hl.published seq at_ ?_
    rw [← hf.published]
    exact h
  · intro hcounted
    exact LeaseCore.mem_call (hl.counted hcounted) fun _ _ => hl.undeparted

/-- A map of the writer reaches the reader. -/
theorem Leased.deliver {map : GrantMap} (hl : Leased p s) (hmap : map ∈ s.maps) :
    Leased p (s.step p (.deliver map)) := by
  obtain ⟨hof, hrow⟩ := hl.maps map hmap
  refine { hl with confirmed := ?_, undeparted := ?_ }
  · intro q hq
    simp only [step, LeaseCore.observeGrantMap, hl.coreMe, hl.coreEpoch] at hq
    split at hq
    next id hid =>
      obtain ⟨hepoch, g, hg, hle⟩ := hrow id hid
      rw [if_pos hepoch, Std.TreeMap.getElem?_insert_self] at hq
      obtain rfl := Option.some.inj hq
      refine ⟨g, hg, ?_⟩
      have hg' := (hl.granted g.1 g.2 hg).1
      rcases RenewalId.le_iff.mp hle with hlt | ⟨_, hseq⟩
      · omega
      · exact hseq
    next =>
      rw [Std.TreeMap.getElem?_erase_self] at hq
      cases hq
  · simp [step, LeaseCore.observeGrantMap, LeaseCore.departs, hof]

/-- The writes stand as they are while the grant of a reader behind them does. -/
theorem Waits.keep (hw : Waits p s) (hnow : s.writerNow p ≤ s'.writerNow p)
    (happlied : ∀ token, s.Applied p token → s'.Applied p token)
    (hgranted : ∀ token ∈ s.begun, ¬ s'.Applied p token → s'.granted p = s.granted p)
    (hbarrier : ∀ token ∈ s.begun, (∃ began, ⟨p.writer, token, began⟩ ∈ s'.ledger.inflight) ∨
      ∃ newest, s'.ledger.ended[p.writer]? = some newest ∧ token ≤ newest)
    (hbegun : s'.begun = s.begun) (hcores : s'.cores = s.cores)
    (hverdicts : s'.verdicts = s.verdicts)
    (hlooks : ∀ token look, s'.looks token = some look → s.looks token = some look) :
    Waits p s' := by
  refine ⟨hbegun ▸ hbarrier, hcores ▸ hw.cores, ?_, ?_, ?_, ?_⟩
  · rw [hbegun, hcores]
    exact hw.idle
  · intro token htoken hnot
    rw [hbegun] at htoken
    rw [hcores, hgranted token htoken hnot]
    exact (hw.progress token htoken fun h => hnot (happlied token h)).mono
      (fun h => h.mono hnow) fun _ h => h
  · intro token now snapshot hlook
    obtain ⟨htoken, hle, hlt, hfacts⟩ := hw.looks token now snapshot (hlooks token _ hlook)
    refine ⟨hbegun ▸ htoken, Nat.le_trans hle hnow, hlt, fun hnot => ?_⟩
    rw [hgranted token htoken hnot]
    exact hfacts fun h => hnot (happlied token h)
  · intro token hverdict
    rw [hverdicts] at hverdict
    obtain ⟨htoken, hshut⟩ := hw.verdicts token hverdict
    refine ⟨hbegun ▸ htoken, fun hnot => ?_⟩
    rw [hgranted token htoken hnot]
    exact (hshut fun h => hnot (happlied token h)).mono hnow

theorem Waits.begin (hw : Waits p s) (hnew : token ∉ s.begun) :
    Waits p (s.step p (.begin token)) := by
  have hmem : ∀ t, t ∈ s.begun → t ∈ (s.step p (.begin token)).begun :=
    fun t h => List.mem_cons_of_mem _ h
  have hopen : ∀ w ∈ s.ledger.inflight, w ∈ (s.step p (.begin token)).ledger.inflight := by
    intro w hwopen
    simp only [step, GrantLedger.begin]
    split
    · exact hwopen
    · exact List.mem_cons_of_mem _ hwopen
  have hledger : (s.step p (.begin token)).ledger.ended = s.ledger.ended ∧
      (s.step p (.begin token)).granted p = s.granted p := by
    simp only [step, GrantLedger.begin, Tandem.granted]
    split <;> exact ⟨rfl, rfl⟩
  obtain ⟨hended, hgranted⟩ := hledger
  refine ⟨?_, hw.cores, ?_, ?_, ?_, ?_⟩
  · intro t ht
    rcases List.mem_cons.mp ht with rfl | ht
    · left
      simp only [step, GrantLedger.begin]
      split
      next hany =>
        obtain ⟨w, hwopen, heq⟩ := List.any_eq_true.mp hany
        obtain ⟨hwriter, htoken⟩ := of_decide_eq_true heq
        exact ⟨w.began, by rw [← hwriter, ← htoken]; exact hwopen⟩
      next => exact ⟨_, List.mem_cons_self ..⟩
    · rw [hended]
      exact (hw.barrier t ht).imp_left fun ⟨began, h⟩ => ⟨began, hopen _ h⟩
  · exact fun t ht => hw.idle t fun h => ht (hmem t h)
  · intro t ht hnot
    rw [hgranted]
    rcases List.mem_cons.mp ht with rfl | ht
    · show Bounded _ _ _ ((s.cores t).progress t)
      rw [hw.idle t hnew]
      have hprogress : (CoherenceCore.new p.writer).progress t = Progress.start := by
        simp [CoherenceCore.new, CoherenceCore.progress]
      rw [hprogress]
      exact Progress.bounded_start
    · exact hw.progress t ht hnot
  · intro t now snapshot hlook
    obtain ⟨ht, hrest⟩ := hw.looks t now snapshot hlook
    rw [hgranted]
    exact ⟨hmem t ht, hrest⟩
  · intro t ht
    obtain ⟨hbegun, hshut⟩ := hw.verdicts t ht
    rw [hgranted]
    exact ⟨hmem t hbegun, hshut⟩

/-- A snapshot is taken. -/
theorem Waits.look {holders : List NodeId} (hl : Leased p s) (hw : Waits p s)
    (hallows : s.Allows p (.look token holders view)) (hclock : s.writerNow p < u64Max) :
    Waits p (s.step p (.look token holders view)) := by
  obtain ⟨hbegun, hsees⟩ := hallows
  refine { hw with looks := ?_ }
  intro t now snapshot hlook
  by_cases ht : t = token
  · subst ht
    simp only [step, Function.update_self, Option.some.injEq, Prod.mk.injEq] at hlook
    obtain ⟨rfl, rfl⟩ := hlook
    refine ⟨hbegun, Nat.le_refl _, hclock, fun hnot => ⟨?_, fun hmem => ?_⟩⟩
    · have hview : (view p.reader).any (fun applied => decide (t ≤ applied)) = false := by
        have hbehind := behind_of_not_applied hsees hnot (le_refl t)
        unfold GrantLedger.behind at hbehind
        dsimp only at hbehind
        rw [if_pos rfl] at hbehind
        cases hv : view p.reader with
        | none => rfl
        | some seen =>
          rw [hv] at hbehind
          exact decide_eq_false (not_le.mpr (of_decide_eq_true hbehind))
      have hpends := @GrantLedger.pends_waitSnapshot s.ledger p.reader p.readerLife (s.writerNow p)
        holders view t hl.stays (fun id first h => (hl.seen id first h).1)
        (fun id first h => (hl.granted id first h).1) hview
      rw [hl.term] at hpends
      exact hpends
    · have hshut := GrantLedger.shut_of_not_mem_waitSnapshot (hl.me ▸ p.distinct) hclock hmem
      rw [hl.term] at hshut
      exact hshut
  · simp only [step, Function.update_of_ne ht] at hlook
    exact hw.looks t now snapshot hlook

/-- A snapshot is folded into its write. -/
theorem Waits.poll (hw : Waits p s) : Waits p (s.step p (.poll token)) := by
  cases hlook : s.looks token with
  | none =>
    simp only [step, hlook]
    exact hw
  | some look =>
    obtain ⟨now, snapshot⟩ := look
    obtain ⟨hbegun, hle, hlt, hfacts⟩ := hw.looks token now snapshot hlook
    -- What one poll does for a reader that has not applied the write.
    have hstep : ¬ s.Applied p token →
        Bounded p.reader (Shut p.durationMs (s.granted p) (s.writerNow p))
          (ShutFrom p.durationMs (s.granted p))
          (((s.cores token).step token now snapshot).1.progress token) ∧
        (((s.cores token).step token now snapshot).2.terminal = true →
          Shut p.durationMs (s.granted p) (s.writerNow p)) := by
      intro hnot
      obtain ⟨hpends, hshut⟩ := hfacts hnot
      obtain ⟨hbounded, hover⟩ := CoherenceCore.step_bounded ((hw.cores token).symm ▸ p.distinct)
        (hw.progress token hbegun hnot) hpends
        fun x hx hxle => (hx now hxle hlt).mono hle
      exact ⟨hbounded, fun hterm => (hover hterm).elim id fun hmem => (hshut hmem).mono hle⟩
    simp only [step, hlook]
    refine ⟨hw.barrier, ?_, ?_, ?_, ?_, ?_⟩
    · intro t
      dsimp only
      by_cases ht : t = token
      · subst ht
        rw [Function.update_self]
        have hwriter : ((s.cores t).step t now snapshot).1.writer = (s.cores t).writer := by
          unfold CoherenceCore.step
          dsimp only
          split <;> rfl
        exact hwriter.trans (hw.cores t)
      · rw [Function.update_of_ne ht]
        exact hw.cores t
    · intro t ht
      have hne : t ≠ token := fun h => ht (h ▸ hbegun)
      dsimp only
      rw [Function.update_of_ne hne]
      exact hw.idle t ht
    · intro t ht hnot
      dsimp only
      by_cases htoken : t = token
      · subst htoken
        rw [Function.update_self]
        exact (hstep hnot).1
      · rw [Function.update_of_ne htoken]
        exact hw.progress t ht hnot
    · intro t now' snapshot' hlook'
      dsimp only at hlook'
      by_cases ht : t = token
      · subst ht
        rw [Function.update_self] at hlook'
        cases hlook'
      · rw [Function.update_of_ne ht] at hlook'
        exact hw.looks t now' snapshot' hlook'
    · intro t ht
      split at ht
      next hterm =>
        rcases List.mem_cons.mp ht with rfl | ht
        · exact ⟨hbegun, fun hnot => (hstep hnot).2 hterm⟩
        · exact hw.verdicts t ht
      next => exact hw.verdicts t ht

/-- A write ends. -/
theorem Waits.finish (hw : Waits p s) : Waits p (s.step p (.finish token)) := by
  refine hw.keep (Nat.le_refl _) (fun _ h => h) (fun _ _ _ => rfl) ?_ rfl rfl rfl ?_
  · intro t ht
    simp only [step, GrantLedger.finish, Std.TreeMap.getElem?_insert_self]
    rcases hw.barrier t ht with ⟨began, hopen⟩ | ⟨newest, hended, hle⟩
    · by_cases htoken : t = token
      · subst htoken
        refine Or.inr ⟨_, rfl, ?_⟩
        split
        · exact le_max_right _ _
        · exact le_rfl
      · exact Or.inl ⟨began, List.mem_filter.mpr ⟨hopen, by simp [htoken]⟩⟩
    · refine Or.inr ⟨_, rfl, ?_⟩
      rw [hended]
      exact hle.trans (le_max_left _ _)
  · intro t look hlook
    by_cases ht : t = token
    · subst ht
      simp only [step, Function.update_self] at hlook
      cases hlook
    · simpa only [step, Function.update_of_ne ht] using hlook

theorem Waits.apply {writer : NodeId} (hw : Waits p s)
    (hallows : s.Allows p (.apply writer token)) : Waits p (s.step p (.apply writer token)) := by
  refine hw.keep (Nat.le_refl _) ?_ (fun _ _ _ => rfl) hw.barrier rfl rfl rfl fun _ _ h => h
  rintro t ⟨done, hdone, hle⟩
  by_cases hwriter : p.writer = writer
  · subst hwriter
    exact ⟨token, Function.update_self .., hle.trans (hallows done hdone)⟩
  refine ⟨done, ?_, hle⟩
  simp only [step, Function.update_of_ne hwriter]
  exact hdone

theorem step_sound (hl : Leased p s) (hw : Waits p s) (h : SteadyStep p s s') :
    Leased p s' ∧ Waits p s' := by
  obtain ⟨act, hallows, hsteady, rfl⟩ := h
  have hsame : ∀ t, s.Applied p t → s.Applied p t := fun _ h => h
  cases act with
  | pass now =>
    have hnow : s.writerNow p ≤ (s.step p (.pass now)).writerNow p := Nat.add_le_add_right hallows _
    refine ⟨{ hl with past := ?_ },
      hw.keep hnow hsame (fun _ _ _ => rfl) hw.barrier rfl rfl rfl fun _ _ h => h⟩
    intro a ha
    exact Nat.le_trans (hl.past a ha) (Nat.add_le_add_right hallows _)
  | begin token =>
    refine ⟨?_, hw.begin hallows⟩
    have hledger : ∃ inflight, (s.step p (.begin token)).ledger =
        { s.ledger with inflight := inflight } := by
      simp only [step, GrantLedger.begin]
      split
      · exact ⟨_, rfl⟩
      · exact ⟨_, rfl⟩
    obtain ⟨inflight, hledger⟩ := hledger
    have hreader : (s.step p (.begin token)).ledger.reader p.reader = s.ledger.reader p.reader := by
      rw [hledger]
      rfl
    have hgranted : (s.step p (.begin token)).granted p = s.granted p :=
      congrArg GrantReader.granted hreader
    refine { hl with
      me := by rw [hledger]; exact hl.me
      term := by rw [hledger]; exact hl.term
      life := by rw [hledger]; exact hl.life
      stays := by rw [hreader]; exact hl.stays
      seen := by rw [hreader]; exact hl.seen
      granted := by rw [hgranted]; exact hl.granted
      maps := by rw [hgranted]; exact hl.maps
      confirmed := by rw [hgranted]; exact hl.confirmed
      counted := ?_ }
    intro hcounted
    simp only [step] at hcounted
    split at hcounted
    next hmem => exact hmem
    next => exact hl.counted hcounted
  | look token holders view =>
    exact ⟨{ hl with }, hw.look hl hallows hsteady⟩
  | poll token =>
    refine ⟨?_, hw.poll⟩
    cases hlook : s.looks token with
    | none =>
      simp only [step, hlook]
      exact hl
    | some look =>
      simp only [step, hlook]
      exact { hl with }
  | finish token =>
    exact ⟨{ hl with }, hw.finish⟩
  | fold visible view =>
    exact ⟨hl.fold hallows, hw.keep (Nat.le_refl _) hsame
      (fun _ htoken hnot => granted_fold hl hw hallows hsteady htoken hnot)
      hw.barrier rfl rfl rfl fun _ _ h => h⟩
  | readerMap map =>
    obtain ⟨hl', hgranted, hinflight, hended⟩ := hl.readerMap hallows
    refine ⟨hl', hw.keep (Nat.le_refl _) hsame (fun _ _ _ => hgranted) ?_ rfl rfl rfl
      fun _ _ h => h⟩
    rw [hinflight, hended]
    exact hw.barrier
  | renew =>
    exact ⟨hl.renew hsteady, { hw with }⟩
  | call call =>
    exact ⟨hl.call hallows, { hw with }⟩
  | deliver map =>
    exact ⟨hl.deliver hallows, { hw with }⟩
  | apply writer token =>
    exact ⟨{ hl with }, hw.apply hallows⟩

/-! ## The guarantee -/

/-- A reader that counts the writer serves on nothing but a grant that runs. -/
theorem Leased.not_liveAt (hl : Leased p s) (hmem : p.writer ∈ s.core.roster)
    (hshut : Shut p.durationMs (s.granted p) (s.writerNow p)) :
    s.core.liveAt (s.readerNow p) = false := by
  by_contra hdead
  have hlive : s.core.liveAt (s.readerNow p) = true := by simpa using hdead
  obtain ⟨seq, q, publishedAt, hpub, hq, hle, hlt⟩ := LeaseCore.exists_of_liveAt hlive hmem
  obtain ⟨i, rfl, hi⟩ := hl.published seq publishedAt hpub
  obtain ⟨g, hg, hqg⟩ := hl.confirmed q hq
  obtain ⟨_, j, at_, hj, hgetj, hclock⟩ := hl.granted g.1 g.2 hg
  -- The renewal served on was published no later than the newest one granted.
  have hmono : publishedAt ≤ at_ := by
    rcases Nat.lt_or_eq_of_le (by omega : i ≤ j) with hij | rfl
    · obtain ⟨hilt, rfl⟩ := List.getElem?_eq_some_iff.mp hi
      obtain ⟨hjlt, rfl⟩ := List.getElem?_eq_some_iff.mp hgetj
      exact List.pairwise_iff_getElem.mp hl.rising i j hilt hjlt hij
    · exact Nat.le_of_eq (Option.some.inj (hi.symm.trans hgetj))
  have hdone := hshut g hg
  rw [hl.coreTerm] at hlt
  unfold writerNow at hdone
  unfold readerNow at hlt
  omega

/-- In every run of steady steps: once the wait of a write is over that began with the writer
in the reader's roster, the reader has applied the write or holds no open window. -/
theorem coherent_write_fences {born : Nat} (h : Reachable (· = start p born) (SteadyStep p) s)
    (hverdict : token ∈ s.verdicts) (hcounted : token ∈ s.counted) :
    s.Applied p token ∨ s.core.liveAt (s.readerNow p) = false := by
  have hsound : Leased p s ∧ Waits p s := by
    refine h.invariant (P := fun s => Leased p s ∧ Waits p s) ?_ fun _ _ hs hstep =>
      step_sound hs.1 hs.2 hstep
    rintro _ rfl
    exact ⟨leased_start p born, waits_start p born⟩
  obtain ⟨hl, hw⟩ := hsound
  by_cases happlied : s.Applied p token
  · exact Or.inl happlied
  · refine Or.inr (hl.not_liveAt (hl.counted (List.ne_nil_of_mem hcounted)) ?_)
    exact (hw.verdicts token hverdict).2 happlied

/-! ## Schedules

A schedule names the acts by what they carry: one renewal per fold, and per view the
reader's watermark of the writer's feed and everybody else's. -/

inductive TandemCue where
  | pass (now : Nat)
  | begin (token : WriteToken)
  | look (token : WriteToken) (holders : List NodeId) (mine others : Option WriteToken)
  | poll (token : WriteToken)
  | finish (token : WriteToken)
  | fold (seq : Nat) (done : Option WriteToken)
  | readerMap
  | renew
  | pin
  | deliver
  | apply (token : WriteToken)

def TandemCue.act (p : LeasePair) (s : Tandem) : TandemCue → TandemAct
  | .pass now => .pass now
  | .begin token => .begin token
  | .look token holders mine others =>
    .look token holders fun n => if n = p.reader then mine else others
  | .poll token => .poll token
  | .finish token => .finish token
  | .fold seq done =>
    .fold [(p.reader, ⟨p.readerLife, seq⟩)] fun _ writer => if writer = p.writer then done else none
  | .readerMap =>
    .readerMap (GranterLife.stamp ⟨p.readerLife, false⟩ p.reader
      (Std.TreeMap.insert ∅ p.writer ⟨p.writerLife, 1⟩))
  | .renew => .renew
  | .pin => .call (.pin p.writer p.writerLife)
  | .deliver => .deliver (s.maps.headD ∅)
  | .apply token => .apply p.writer token

/-- Whether the reader has published a watermark. -/
def sees? (p : LeasePair) (s : Tandem) (seen : Option WriteToken) : Bool :=
  seen.all fun seen => (s.applied p.writer).any fun done => decide (seen ≤ done)

/-- Whether the act of a cue can happen. -/
def allows? (p : LeasePair) (s : Tandem) : TandemCue → Bool
  | .pass now => decide (s.now ≤ now)
  | .begin token => decide (token ∉ s.begun)
  | .look token _ mine _ => decide (token ∈ s.begun) && s.sees? p mine
  | .poll token => (s.looks token).isSome
  | .finish token => decide (token ∈ s.begun)
  | .fold seq done => s.sees? p done && decide (1 ≤ seq) && decide (seq ≤ s.renewed.length)
  | .readerMap | .renew | .pin => true
  | .deliver => !s.maps.isEmpty
  | .apply token => (s.applied p.writer).all fun done => decide (done ≤ token)

theorem sees_of_sees? {seen : Option WriteToken} (h : s.sees? p seen = true) :
    s.Sees fun writer => if writer = p.writer then seen else none := by
  intro writer token htoken
  dsimp only at htoken
  split at htoken
  next heq =>
    subst heq
    subst htoken
    obtain ⟨done, hdone, hle⟩ := (Option.any_eq_true _ _).mp h
    exact ⟨done, hdone, of_decide_eq_true hle⟩
  next => cases htoken

theorem allows_of_allows? (h : s.allows? p cue = true) : s.Allows p (cue.act p s) := by
  cases cue with
  | pass now =>
    have hle : s.now ≤ now := of_decide_eq_true h
    exact hle
  | begin token =>
    have hnew : token ∉ s.begun := of_decide_eq_true h
    exact hnew
  | look token holders mine others =>
    obtain ⟨hbegun, hsees⟩ := Bool.and_eq_true_iff.mp h
    refine ⟨of_decide_eq_true hbegun, ?_⟩
    simpa only [if_true] using sees_of_sees? hsees
  | poll token => exact Option.isSome_iff_ne_none.mp h
  | finish token =>
    have hbegun : token ∈ s.begun := of_decide_eq_true h
    exact hbegun
  | fold seq done =>
    obtain ⟨h, hlen⟩ := Bool.and_eq_true_iff.mp h
    obtain ⟨hsees, hpos⟩ := Bool.and_eq_true_iff.mp h
    refine ⟨by simp, sees_of_sees? hsees, fun id hid => ?_⟩
    obtain ⟨-, rfl⟩ := Prod.mk.inj (List.mem_singleton.mp hid)
    exact ⟨rfl, of_decide_eq_true hpos, of_decide_eq_true hlen⟩
  | readerMap =>
    intro life hlife
    rw [GranterLife.of_stamp] at hlife
    exact (Option.some.inj hlife).symm
  | renew => trivial
  | pin => exact ⟨nofun, nofun⟩
  | deliver =>
    show s.maps.headD ∅ ∈ s.maps
    cases hmaps : s.maps with
    | nil => simp [allows?, hmaps] at h
    | cons map maps => exact List.mem_cons_self ..
  | apply token =>
    intro done hdone
    simpa [allows?, hdone] using h

def steady? (p : LeasePair) (s : Tandem) : TandemCue → Bool
  | .fold seq done =>
    let view : NodeId → Option WriteToken := fun writer => if writer = p.writer then done else none
    let behind (w : OpenWrite) := GrantLedger.behind view w.writer w.token
    !s.ledger.inflight.any behind ||
      (s.granted p).any (fun g => decide ((⟨p.readerLife, seq⟩ : RenewalId) ≤ g.1)) ||
      !s.ledger.current view ||
      s.ledger.inflight.any fun w => behind w && decide (w.began <
        (s.ledger.reader p.reader).firstSeen ⟨p.readerLife, seq⟩ (s.writerNow p))
  | .look _ _ _ _ => decide (s.writerNow p < u64Max)
  | .renew => decide (s.core.nextSeq < u64Max)
  | .pass _ | .begin _ | .poll _ | .finish _ | .readerMap | .pin | .deliver | .apply _ => true

theorem steady_of_steady? (h : s.steady? p cue = true) : s.Steady p (cue.act p s) := by
  cases cue with
  | fold seq done =>
    rintro id hid ⟨w, hw, hbehind⟩
    obtain ⟨-, rfl⟩ := Prod.mk.inj (List.mem_singleton.mp hid)
    simp only [steady?, Bool.or_eq_true, Bool.not_eq_true', List.any_eq_false, List.any_eq_true,
      Option.any_eq_true, Bool.and_eq_true, decide_eq_true_eq] at h
    rcases h with ((hnone | hgranted) | hcurrent) | hlate
    · exact absurd hbehind (hnone w hw)
    · exact Or.inl hgranted
    · exact Or.inr (Or.inl hcurrent)
    · exact Or.inr (Or.inr hlate)
  | look token holders mine others =>
    have hclock : s.writerNow p < u64Max := of_decide_eq_true h
    exact hclock
  | renew =>
    have hroom : s.core.nextSeq < u64Max := of_decide_eq_true h
    exact hroom
  | pass now | begin token | poll token | finish token | readerMap | pin | deliver | apply token =>
    trivial

def perform (p : LeasePair) (s : Tandem) (cue : TandemCue) : Option Tandem :=
  if s.allows? p cue then some (s.step p (cue.act p s)) else none

def performSteady (p : LeasePair) (s : Tandem) (cue : TandemCue) : Option Tandem :=
  if s.steady? p cue then s.perform p cue else none

theorem step_of_perform (h : s.perform p cue = some s') :
    s.Allows p (cue.act p s) ∧ s' = s.step p (cue.act p s) := by
  unfold perform at h
  split at h
  next hallows => exact ⟨allows_of_allows? hallows, (Option.some.inj h).symm⟩
  next => cases h

theorem step_of_performSteady (h : s.performSteady p cue = some s') : SteadyStep p s s' := by
  unfold performSteady at h
  split at h
  next hsteady =>
    obtain ⟨hallows, hstep⟩ := step_of_perform h
    exact ⟨_, hallows, steady_of_steady? hsteady, hstep⟩
  next => cases h

/-! A lease of 20.  The reader renews at 0, and again at 8. -/

def leasePair : LeasePair where
  writer := .ofChar 'w'
  reader := .ofChar 'r'
  distinct := by decide
  durationMs := 20
  marginMs := 1
  writerLife := 1
  readerLife := 1
  writerClock := 0
  readerClock := 0

def leaseOther : NodeId := .ofChar 'q'

def leaseOpening : List TandemCue :=
  [.pin, .renew, .fold 1 none, .deliver, .readerMap]

/-- The second renewal is held back for a write that ended, `(1, 1)`.  While another reader is
waited for, the reader is excused from `(1, 2)` on its first renewal, applies `(1, 1)`, and is
granted the second. -/
def leaseRegrant : List TandemCue :=
  leaseOpening ++
    [.pass 1, .begin ⟨1, 1⟩, .finish ⟨1, 1⟩, .pass 8, .renew, .pass 9, .fold 2 none,
      .pass 10, .begin ⟨1, 2⟩,
      .pass 20, .look ⟨1, 2⟩ [leasePair.reader, leaseOther] none none, .poll ⟨1, 2⟩,
      .pass 21, .apply ⟨1, 1⟩, .fold 2 (some ⟨1, 1⟩), .deliver,
      .pass 22, .look ⟨1, 2⟩ [leasePair.reader, leaseOther] (some ⟨1, 1⟩) (some ⟨1, 2⟩),
      .poll ⟨1, 2⟩]

/-- The reader renews once and its lease runs out. -/
def leaseLapse : List TandemCue :=
  leaseOpening ++
    [.pass 10, .begin ⟨1, 2⟩, .pass 20, .look ⟨1, 2⟩ [leasePair.reader] none none, .poll ⟨1, 2⟩]

/-- A reader excused from a write serves without it after the wait is over. -/
theorem coherent_write_overtaken :
    ∃ s, Reachable (· = start leasePair 0) (fun s s' => ∃ act, s.Allows leasePair act ∧
        s' = s.step leasePair act) s ∧
      (⟨1, 2⟩ : WriteToken) ∈ s.verdicts ∧ (⟨1, 2⟩ : WriteToken) ∈ s.counted ∧
      s.applied leasePair.writer = some ⟨1, 1⟩ ∧
      s.core.liveAt (s.readerNow leasePair) = true := by
  have hrun : (leaseRegrant.foldlM (perform leasePair) (start leasePair 0)).any (fun s =>
      decide ((⟨1, 2⟩ : WriteToken) ∈ s.verdicts ∧ (⟨1, 2⟩ : WriteToken) ∈ s.counted ∧
        s.applied leasePair.writer = some ⟨1, 1⟩ ∧
        s.core.liveAt (s.readerNow leasePair) = true)) = true := by
    decide +kernel
  obtain ⟨s, hs, hcheck⟩ := (Option.any_eq_true _ _).mp hrun
  refine ⟨s, ?_, of_decide_eq_true hcheck⟩
  exact Reachable.of_foldlM (fun h => ⟨_, step_of_perform h⟩) (Reachable.start rfl) hs

theorem coherent_write_fences_lapse :
    ∃ s, Reachable (· = start leasePair 0) (SteadyStep leasePair) s ∧
      (⟨1, 2⟩ : WriteToken) ∈ s.verdicts ∧ (⟨1, 2⟩ : WriteToken) ∈ s.counted ∧
      s.applied leasePair.writer = none ∧ s.core.liveAt (s.readerNow leasePair) = false := by
  have hrun : (leaseLapse.foldlM (performSteady leasePair) (start leasePair 0)).any (fun s =>
      decide ((⟨1, 2⟩ : WriteToken) ∈ s.verdicts ∧ (⟨1, 2⟩ : WriteToken) ∈ s.counted ∧
        s.applied leasePair.writer = none)) = true := by
    decide +kernel
  obtain ⟨s, hs, hcheck⟩ := (Option.any_eq_true _ _).mp hrun
  obtain ⟨hverdict, hcounted, hnone⟩ := of_decide_eq_true hcheck
  have hreach : Reachable (· = start leasePair 0) (SteadyStep leasePair) s := by
    refine Reachable.of_foldlM ?_ (Reachable.start rfl) hs
    exact fun h => step_of_performSteady h
  refine ⟨s, hreach, hverdict, hcounted, hnone, ?_⟩
  refine (coherent_write_fences hreach hverdict hcounted).resolve_left ?_
  rintro ⟨done, hdone, _⟩
  rw [hnone] at hdone
  cases hdone

end Tandem

end Groupnet
