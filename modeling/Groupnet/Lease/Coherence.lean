import Groupnet.Lease.Grants
import Groupnet.Lease.Roster

/-!
# How far a coherent write has got

A writer polls its view of the readers that may be serving.  A reader that advertises the
write is done, one that does not is waited for, and one whose lease has run out on the
writer's clock is excused from this write for good.  The wait is over when nobody is left.
-/

namespace Groupnet

open Std (TreeMap TreeSet)

/-- One reader that may be serving, as the writer sees it. -/
structure WaitMember where
  member : NodeId
  /-- How far it advertises having applied the writer's feed. -/
  applied : Option WriteToken
  excusableAt : Option Nat

/-- The verdict of one poll. -/
inductive CoherenceStep where
  | allApplied
  | leaseLapsed (stragglers : List NodeId)
  | waiting (on : List NodeId)
deriving DecidableEq

/-- Whether the wait is over. -/
def CoherenceStep.terminal : CoherenceStep → Bool
  | .allApplied | .leaseLapsed _ => true
  | .waiting _ => false

/-! ## One write -/

/-- One write's progress through its readers. -/
structure Progress where
  /-- Those that have not applied it, with the newest instant each was reported with. -/
  waiting : TreeMap NodeId (Option Nat)
  /-- Those excused by lapse. -/
  lapsed : TreeSet NodeId

namespace Progress

def start : Progress := ⟨∅, ∅⟩

/-- Takes one reader of a snapshot into account. -/
def note (writer : NodeId) (token : WriteToken) (p : Progress) (holder : WaitMember) : Progress :=
  if holder.member = writer ∨ holder.member ∈ p.lapsed then p
  else if holder.applied.any fun applied => decide (token ≤ applied) then
    { p with waiting := p.waiting.erase holder.member }
  else { p with waiting := p.waiting.insert holder.member holder.excusableAt }

/-- Excuses the readers whose instant has come. -/
def excuse (p : Progress) (now : Nat) : Progress :=
  let excused := (p.waiting.toList.filter fun m =>
    m.2.any fun excusableAt => decide (excusableAt ≤ now)).map Prod.fst
  ⟨excused.foldl (fun w m => w.erase m) p.waiting, excused.foldl (fun s m => s.insert m) p.lapsed⟩

end Progress

/-- The waits of one writer. -/
structure CoherenceCore where
  writer : NodeId
  inflight : TreeMap WriteToken Progress

namespace CoherenceCore

def new (writer : NodeId) : CoherenceCore := ⟨writer, ∅⟩

def progress (c : CoherenceCore) (token : WriteToken) : Progress := c.inflight.getD token .start

def step (c : CoherenceCore) (token : WriteToken) (now : Nat) (snapshot : List WaitMember) :
    CoherenceCore × CoherenceStep :=
  let p := (snapshot.foldl (Progress.note c.writer token) (c.progress token)).excuse now
  if !p.waiting.isEmpty then
    ({ c with inflight := c.inflight.insert token p }, .waiting p.waiting.keys)
  else
    ({ c with inflight := c.inflight.erase token },
      if p.lapsed.isEmpty then .allApplied else .leaseLapsed p.lapsed.toList)

end CoherenceCore

/-- The readers that may be serving at `now`: those with a live renewal in the writer's view
and those it granted within the last lease duration. -/
def GrantLedger.waitSnapshot (l : GrantLedger) (holders : List NodeId)
    (applied : NodeId → Option WriteToken) (now : Nat) : List WaitMember :=
  ((TreeSet.ofList (holders ++ l.openGrants now)).toList.filter fun m => m ≠ l.me).map fun m =>
    ⟨m, applied m, l.excusableAt m⟩

/-! ## One reader -/

namespace Progress

variable {p : Progress} {writer r : NodeId} {token : WriteToken} {now : Nat} {A : Prop}
  {B : Nat → Prop}

variable {holder : WaitMember} {snapshot : List WaitMember}

/-- If the reader was excused then `A`, and `B` of the instant it is waited for with. -/
structure Bounded (r : NodeId) (A : Prop) (B : Nat → Prop) (p : Progress) : Prop where
  lapsed : r ∈ p.lapsed → A
  waiting : ∀ excusableAt, p.waiting[r]? = some (some excusableAt) → B excusableAt

/-- The reader is waited for or excused. -/
def Counts (r : NodeId) (p : Progress) : Prop := r ∈ p.lapsed ∨ r ∈ p.waiting

theorem bounded_start : Bounded r A B start :=
  ⟨fun h => absurd h TreeSet.not_mem_emptyc, fun _ h => by simp [start] at h⟩

theorem Bounded.mono {A' : Prop} {B' : Nat → Prop} (h : Bounded r A B p) (hA : A → A')
    (hB : ∀ x, B x → B' x) : Bounded r A' B' p :=
  ⟨fun hr => hA (h.lapsed hr), fun x hx => hB x (h.waiting x hx)⟩

/-- A reader of a snapshot that has not applied the write. -/
structure Pends (r : NodeId) (token : WriteToken) (B : Nat → Prop) (holder : WaitMember) :
    Prop where
  applied : holder.member = r → (holder.applied.any fun applied => decide (token ≤ applied)) = false
  excusable : holder.member = r → ∀ x, holder.excusableAt = some x → B x

theorem Bounded.note (h : Bounded r A B p) (hh : Pends r token B holder) :
    Bounded r A B (p.note writer token holder) := by
  unfold Progress.note
  split
  · exact h
  split
  · refine ⟨h.lapsed, fun x hx => h.waiting x ?_⟩
    rw [TreeMap.getElem?_erase] at hx
    split at hx
    · cases hx
    · exact hx
  · refine ⟨h.lapsed, fun x hx => ?_⟩
    rw [TreeMap.getElem?_insert] at hx
    split at hx
    next heq =>
      exact hh.excusable (Std.LawfulEqOrd.eq_of_compare heq) x (Option.some.inj hx)
    next => exact h.waiting x hx

theorem Counts.note (h : Counts r p) (hh : Pends r token B holder) :
    Counts r (p.note writer token holder) := by
  unfold Progress.note
  split
  · exact h
  split
  next happ =>
    have hne : holder.member ≠ r := by
      intro heq
      rw [hh.applied heq] at happ
      cases happ
    refine h.imp_right fun hr => TreeMap.mem_erase.mpr ⟨?_, hr⟩
    simpa using hne
  next => exact h.imp_right fun hr => TreeMap.mem_insert.mpr (Or.inr hr)

/-- A reader of the snapshot is counted. -/
theorem counts_note (hw : r ≠ writer) (hmember : holder.member = r) (hh : Pends r token B holder) :
    Counts r (p.note writer token holder) := by
  unfold Progress.note
  split
  next hskip =>
    rcases hskip with heq | hlapsed
    · exact absurd (hmember.symm.trans heq) hw
    · exact Or.inl (hmember ▸ hlapsed)
  next =>
    rw [hh.applied hmember, hmember]
    exact Or.inr TreeMap.mem_insert_self

theorem Bounded.notes (h : Bounded r A B p) (hh : ∀ holder ∈ snapshot, Pends r token B holder) :
    Bounded r A B (snapshot.foldl (Progress.note writer token) p) :=
  List.foldlRecOn snapshot _ h fun _ hp holder hmem => hp.note (hh holder hmem)

theorem Counts.notes (h : Counts r p) (hh : ∀ holder ∈ snapshot, Pends r token B holder) :
    Counts r (snapshot.foldl (Progress.note writer token) p) :=
  List.foldlRecOn snapshot _ h fun _ hp holder hmem => hp.note (hh holder hmem)

theorem counts_notes (hw : r ≠ writer) (hmem : r ∈ snapshot.map WaitMember.member)
    (hh : ∀ holder ∈ snapshot, Pends r token B holder) :
    Counts r (snapshot.foldl (Progress.note writer token) p) := by
  induction snapshot generalizing p with
  | nil => cases hmem
  | cons holder snapshot ih =>
    have hrest : ∀ x ∈ snapshot, Pends r token B x := fun x hx => hh x (List.mem_cons_of_mem _ hx)
    rcases List.mem_cons.mp hmem with heq | hmem
    · exact (counts_note hw heq.symm (hh holder (List.mem_cons_self ..))).notes hrest
    · exact ih hmem hrest

theorem mem_of_mem_foldl_erase {nodes : List NodeId} {w : TreeMap NodeId (Option Nat)} (h : r ∈ w)
    (hn : r ∉ nodes) : r ∈ nodes.foldl (fun w m => w.erase m) w := by
  induction nodes generalizing w with
  | nil => exact h
  | cons n nodes ih =>
    rw [List.mem_cons, not_or] at hn
    refine ih (TreeMap.mem_erase.mpr ⟨?_, h⟩) hn.2
    simpa using Ne.symm hn.1

/-- An excuse is backed by the instant the reader was waited for with. -/
theorem Bounded.excuse (h : Bounded r A B p) (hAB : ∀ x, B x → x ≤ now → A) :
    Bounded r A B (p.excuse now) := by
  refine ⟨fun hr => ?_, fun x hx => h.waiting x (getElem?_of_foldl_erase hx)⟩
  rcases LeaseCore.mem_foldl_insert.mp hr with hexc | hold
  · obtain ⟨⟨m, at?⟩, hm, rfl⟩ := List.mem_map.mp hexc
    obtain ⟨hin, hdue⟩ := List.mem_filter.mp hm
    obtain ⟨x, rfl, hle⟩ := (Option.any_eq_true _ _).mp hdue
    have hx := TreeMap.mem_toList_iff_getElem?_eq_some.mp hin
    exact hAB x (h.waiting x hx) (of_decide_eq_true hle)
  · exact h.lapsed hold

theorem Counts.excuse (h : Counts r p) (now : Nat) : Counts r (p.excuse now) := by
  rcases h with hlapsed | hwaiting
  · exact Or.inl (LeaseCore.mem_foldl_insert.mpr (Or.inr hlapsed))
  by_cases hexc : r ∈ (p.waiting.toList.filter fun m =>
      m.2.any fun excusableAt => decide (excusableAt ≤ now)).map Prod.fst
  · exact Or.inl (LeaseCore.mem_foldl_insert.mpr (Or.inl hexc))
  · exact Or.inr (mem_of_mem_foldl_erase hwaiting hexc)

end Progress

open Progress in
/-- One poll, for a reader that has not applied the write: it stays bounded, and the wait is
over only if the reader was excused, or was neither in the snapshot nor waited for. -/
theorem CoherenceCore.step_bounded {c : CoherenceCore} {r : NodeId} {token : WriteToken} {now : Nat}
    {snapshot : List WaitMember} {A : Prop} {B : Nat → Prop} (hw : r ≠ c.writer)
    (h : Bounded r A B (c.progress token)) (hh : ∀ holder ∈ snapshot, Pends r token B holder)
    (hAB : ∀ x, B x → x ≤ now → A) :
    Bounded r A B ((c.step token now snapshot).1.progress token) ∧
      ((c.step token now snapshot).2.terminal = true →
        A ∨ r ∉ snapshot.map WaitMember.member) := by
  have hnotes : Bounded r A B (snapshot.foldl (Progress.note c.writer token) (c.progress token)) :=
    h.notes hh
  have hb := hnotes.excuse hAB
  have hcounts : r ∈ snapshot.map WaitMember.member →
      Counts r ((snapshot.foldl (Progress.note c.writer token) (c.progress token)).excuse now) :=
    fun hmem => (counts_notes hw hmem hh).excuse now
  generalize hp : (snapshot.foldl (Progress.note c.writer token) (c.progress token)).excuse now = p
    at hb hcounts
  unfold step
  rw [hp]
  dsimp only
  split
  next hne =>
    refine ⟨?_, fun hterm => by cases hterm⟩
    simpa [progress] using hb
  next hempty =>
    refine ⟨?_, fun _ => ?_⟩
    · simpa [progress, TreeMap.getD_erase_self] using bounded_start
    by_cases hmem : r ∈ snapshot.map WaitMember.member
    · rcases hcounts hmem with hlapsed | hwaiting
      · exact Or.inl (hb.lapsed hlapsed)
      · simp only [Bool.not_eq_true', Bool.not_eq_false] at hempty
        exact absurd hwaiting (TreeMap.isEmpty_iff_forall_not_mem.mp hempty r)
    · exact Or.inr hmem

end Groupnet
