import Mathlib.Data.List.Induction
import Groupnet.Lease.Core

/-!
# Who leaves a reader's roster

A granter leaves a roster only when the roster is refreshed while the last map seen of it
declares its life departed.  The refresh does not compare lives: a map of a life that is
long over, read after the granter was pinned in its next life, takes it out as well.
-/

namespace Groupnet

/-- A map from which keys were erased holds what it held. -/
theorem getElem?_of_foldl_erase {α : Type} {nodes : List NodeId} {m : Std.TreeMap NodeId α}
    {node : NodeId} {x : α} (h : (nodes.foldl (fun m n => m.erase n) m)[node]? = some x) :
    m[node]? = some x := by
  induction nodes generalizing m with
  | nil => exact h
  | cons n nodes ih =>
    have hm := ih h
    rw [Std.TreeMap.getElem?_erase] at hm
    split at hm
    · cases hm
    · exact hm

namespace LeaseCore

variable {c : LeaseCore} {g : NodeId}

/-! ## One call -/

theorem mem_foldl_insert {nodes : List NodeId} {r : Std.TreeSet NodeId} :
    g ∈ nodes.foldl (fun r n => r.insert n) r ↔ g ∈ nodes ∨ g ∈ r := by
  induction nodes generalizing r with
  | nil => simp
  | cons n nodes ih =>
    rw [List.foldl_cons, ih, Std.TreeSet.mem_insert, List.mem_cons, compare_eq_iff_eq, eq_comm]
    tauto

theorem mem_foldl_erase {nodes : List NodeId} {r : Std.TreeSet NodeId} :
    g ∈ nodes.foldl (fun r n => r.erase n) r ↔ g ∉ nodes ∧ g ∈ r := by
  induction nodes generalizing r with
  | nil => simp
  | cons n nodes ih =>
    rw [List.foldl_cons, ih, Std.TreeSet.mem_erase, List.mem_cons, ne_eq, compare_eq_iff_eq,
      eq_comm, not_or]
    tauto

/-- A refresh keeps a counted granter exactly when its last map did not depart. -/
theorem mem_setRoster_iff {roster : List NodeId} (hg : g ∈ c.roster) :
    g ∈ (c.setRoster roster).roster ↔ c.departs g = false := by
  have hroster : ∀ (p : Prop) [Decidable p] (d : LeaseCore),
      (if p then d else { d with caughtUp := false, lapses := d.lapses + 1 }).roster =
        d.roster := by
    intro p _ d
    split <;> rfl
  unfold setRoster
  dsimp only
  rw [hroster]
  dsimp only
  rw [mem_foldl_erase, mem_foldl_insert, List.mem_filter, Std.TreeSet.mem_toList, mem_foldl_insert]
  constructor
  · rintro ⟨hout, hin⟩
    cases hdeparts : c.departs g
    · rfl
    · exact absurd ⟨hin, hdeparts⟩ hout
  · intro hdeparts
    refine ⟨fun h => ?_, .inr hg⟩
    rw [hdeparts] at h
    cases h.2

theorem mem_call {call : LeaseCall} (hg : g ∈ c.roster)
    (hcall : ∀ roster, call = .setRoster roster → c.departs g = false) :
    g ∈ (c.call call).roster := by
  cases call with
  | onRenew => exact hg
  | setRoster roster => exact (mem_setRoster_iff hg).mpr (hcall roster rfl)
  | pin granter life =>
    have hmem : g ∈ c.roster.insert granter := Std.TreeSet.mem_insert.mpr (.inr hg)
    unfold call pin
    dsimp only
    split
    · exact hg
    split
    · split
      · split
        · exact hg
        · exact hmem
      · exact hmem
    · exact hmem
  | observeGrantMap => exact hg
  | forgetGranter => exact hg
  | poll now =>
    unfold call poll
    dsimp only
    split <;> exact hg
  | markCaughtUp now =>
    unfold call markCaughtUp
    dsimp only
    split <;> exact hg
  | requireResync => exact hg

/-! ## Whole runs -/

def calls (c : LeaseCore) (cs : List LeaseCall) : LeaseCore := cs.foldl call c

theorem calls_concat (c : LeaseCore) (cs : List LeaseCall) (call : LeaseCall) :
    c.calls (cs ++ [call]) = (c.calls cs).call call := by
  simp [calls]

/-- The pin takes: it is of another node, and not of a life known to have departed. -/
def Pins (c : LeaseCore) (g : NodeId) (life : Nat) : Prop :=
  g ≠ c.me ∧ ∀ known, c.lives[g]? = some known → known.departed = true → known.epoch ≠ life

theorem mem_pin {life : Nat} (h : c.Pins g life) : g ∈ (c.pin g life).roster := by
  have hmem : g ∈ c.roster.insert g := Std.TreeSet.mem_insert_self
  unfold pin
  rw [if_neg h.1]
  split
  next known hknown =>
    split
    next hdeparted =>
      rw [if_neg (h.2 known hknown hdeparted)]
      exact hmem
    next => exact hmem
  next => exact hmem

/-- A map of the granter, stamped with a departed life of at least this epoch, was read. -/
def DepartureRead (g : NodeId) (life : Nat) (cs : List LeaseCall) : Prop :=
  ∃ grants departed, .observeGrantMap g grants ∈ cs ∧ GranterLife.of g grants = some departed ∧
    departed.departed = true ∧ life ≤ departed.epoch

/-- After a pin the granter stays in the roster up to its departure, exactly if the roster
is never refreshed before that while the last map read of the granter departs. -/
theorem pinned_stays_iff {life : Nat} (h : c.Pins g life) (cs : List LeaseCall) :
    (∀ pre, pre <+: cs → ¬ DepartureRead g life pre → g ∈ ((c.pin g life).calls pre).roster) ↔
      ∀ pre roster, pre ++ [.setRoster roster] <+: cs → ¬ DepartureRead g life pre →
        ((c.pin g life).calls pre).departs g = false := by
  constructor
  · intro hstays pre roster hpre hread
    have hread' : ¬ DepartureRead g life (pre ++ [.setRoster roster]) := by
      rintro ⟨grants, departed, hmem, hrest⟩
      refine hread ⟨grants, departed, ?_, hrest⟩
      simpa using hmem
    have hbefore := hstays pre ((List.prefix_append pre _).trans hpre) hread
    have hafter := hstays _ hpre hread'
    rw [calls_concat] at hafter
    exact (mem_setRoster_iff hbefore).mp hafter
  · intro hfresh pre
    induction pre using List.reverseRecOn with
    | nil => exact fun _ _ => mem_pin h
    | append_singleton pre call ih =>
      intro hpre hread
      have hread' : ¬ DepartureRead g life pre := by
        rintro ⟨grants, departed, hmem, hrest⟩
        exact hread ⟨grants, departed, List.mem_append_left _ hmem, hrest⟩
      have hbefore := ih ((List.prefix_append pre _).trans hpre) hread'
      rw [calls_concat]
      refine mem_call hbefore ?_
      rintro roster rfl
      exact hfresh pre roster hpre hread'

/-! A granter pinned in its second life, whose map of the first is read late. -/

def lateMap : GrantMap := GranterLife.stamp ⟨1, true⟩ (.ofChar 'g') ∅

def lateReader : LeaseCore := .new (.ofChar 'r') 1000 100 1

theorem lateReader_pins : lateReader.Pins (.ofChar 'g') 2 := by
  refine ⟨by decide, fun known hknown => ?_⟩
  simp [lateReader, new] at hknown

theorem stale_departure_unpins :
    lateReader.Pins (.ofChar 'g') 2 ∧
      ¬ DepartureRead (.ofChar 'g') 2 [.observeGrantMap (.ofChar 'g') lateMap, .setRoster []] ∧
      NodeId.ofChar 'g' ∈ (lateReader.pin (.ofChar 'g') 2).roster ∧
      NodeId.ofChar 'g' ∉ ((lateReader.pin (.ofChar 'g') 2).calls
        [.observeGrantMap (.ofChar 'g') lateMap, .setRoster []]).roster := by
  refine ⟨lateReader_pins, ?_, mem_pin lateReader_pins, by decide +kernel⟩
  rintro ⟨grants, departed, hmem, hlife, _, hle⟩
  simp only [List.mem_cons, LeaseCall.observeGrantMap.injEq, true_and, reduceCtorEq,
    List.not_mem_nil, or_false] at hmem
  subst hmem
  cases (GranterLife.of_stamp ..).symm.trans hlife
  exact absurd hle (by decide)

theorem pinned_stays_iff_late :
    lateReader.Pins (.ofChar 'g') 2 ∧
    ∀ pre, pre <+: [.setRoster []] → ¬ DepartureRead (.ofChar 'g') 2 pre →
      NodeId.ofChar 'g' ∈ ((lateReader.pin (.ofChar 'g') 2).calls pre).roster := by
  refine ⟨lateReader_pins, (pinned_stays_iff lateReader_pins [.setRoster []]).mpr ?_⟩
  intro pre roster hpre _
  have hlen := hpre.length_le
  rw [List.length_append, List.length_singleton, List.length_singleton] at hlen
  obtain rfl : pre = [] := List.length_eq_zero_iff.mp (by omega)
  decide +kernel

end LeaseCore

end Groupnet
