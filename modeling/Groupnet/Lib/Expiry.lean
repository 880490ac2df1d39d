import Mathlib.Data.Prod.Lex
import Mathlib.Order.WithBot
import Groupnet.Lib.Ordered

/-!
# Expiry indexes

A key is held until its lapse, which is an instant or never comes.  The index also keeps the lapses
that are instants in order, so that what has lapsed is found at the front.  The two agree: every
key with a lapse at an instant has one entry at it, and there are no other entries.  What is left
after an expiry is then what lapses later.
-/

namespace Groupnet

inductive Lapse where
  | instant (t : Nat)
  | never
deriving DecidableEq

namespace Lapse

def toTop : Lapse → WithTop Nat
  | .instant t => WithTop.some t
  | .never => ⊤

theorem toTop_injective : Function.Injective toTop := by
  rintro (a | _) (b | _) h
  · exact congrArg Lapse.instant (WithTop.coe_injective h)
  · exact absurd h (WithTop.coe_ne_top)
  · exact absurd h.symm (WithTop.coe_ne_top)
  · rfl

instance : LinearOrder Lapse := LinearOrder.lift' toTop toTop_injective

/-- The lapse comes after an instant. -/
def isAfter (now : Nat) : Lapse → Bool
  | .instant t => now < t
  | .never => true

@[simp] theorem instant_le_instant {a b : Nat} : Lapse.instant a ≤ .instant b ↔ a ≤ b :=
  WithTop.coe_le_coe

theorem le_never (l : Lapse) : l ≤ .never := show l.toTop ≤ ⊤ from le_top

theorem isAfter_mono {now : Nat} {l l' : Lapse} (h : l ≤ l') (hl : l.isAfter now) :
    l'.isAfter now := by
  cases l' with
  | never => rfl
  | instant b =>
    cases l with
    | never => exact absurd h (WithTop.not_top_le_coe b)
    | instant a =>
      simp only [isAfter, decide_eq_true_eq] at hl ⊢
      exact lt_of_lt_of_le hl (instant_le_instant.mp h)

end Lapse

/-- The lapse of every key that is held, and the keys by their lapse. -/
structure Expiry (κ : Type) [LinearOrder κ] where
  held : Std.TreeMap κ Lapse
  lapses : Std.TreeSet (Nat ×ₗ κ)

namespace Expiry

variable {κ : Type} [LinearOrder κ] {e : Expiry κ} {now : Nat}

def empty : Expiry κ := ⟨∅, ∅⟩

def unlist (lapses : Std.TreeSet (Nat ×ₗ κ)) (key : κ) : Option Lapse → Std.TreeSet (Nat ×ₗ κ)
  | some (.instant t) => lapses.erase (toLex (t, key))
  | _ => lapses

def list (lapses : Std.TreeSet (Nat ×ₗ κ)) (key : κ) : Option Lapse → Std.TreeSet (Nat ×ₗ κ)
  | some (.instant t) => lapses.insert (toLex (t, key))
  | _ => lapses

def update (e : Expiry κ) (key : κ) (live : Option Lapse) : Expiry κ where
  held := match live with
    | some lapse => e.held.insert key lapse
    | none => e.held.erase key
  lapses := list (unlist e.lapses key e.held[key]?) key live

/-- Drops the first key. -/
def pop (e : Expiry κ) (entry : Nat ×ₗ κ) : Expiry κ :=
  ⟨e.held.erase (ofLex entry).2, e.lapses.erase entry⟩

/-- Drops the keys that have lapsed, the earliest first. -/
def expire (e : Expiry κ) (now : Nat) : Expiry κ :=
  (e.lapses.toList.takeWhile fun entry => decide ((ofLex entry).1 ≤ now)).foldl pop e

/-- The keys with a lapse at an instant are the entries. -/
def Paired (e : Expiry κ) : Prop :=
  ∀ entry, entry ∈ e.lapses ↔ e.held[(ofLex entry).2]? = some (.instant (ofLex entry).1)

theorem paired_empty : Paired (empty : Expiry κ) := by
  intro entry
  simp [empty]

theorem held_update (e : Expiry κ) (key key' : κ) (live : Option Lapse) :
    (e.update key live).held[key']? = if key = key' then live else e.held[key']? := by
  unfold update
  cases live with
  | some lapse => simp only [Std.TreeMap.getElem?_insert, compare_eq_iff_eq]
  | none => simp only [Std.TreeMap.getElem?_erase, compare_eq_iff_eq]

omit [LinearOrder κ] in
theorem entry_eq_iff {t : Nat} {key : κ} {entry : Nat ×ₗ κ} :
    toLex (t, key) = entry ↔ t = (ofLex entry).1 ∧ key = (ofLex entry).2 := by
  rw [← toLex_ofLex entry, toLex_inj, Prod.ext_iff]
  rfl

theorem mem_unlist {lapses : Std.TreeSet (Nat ×ₗ κ)} {key : κ} {old : Option Lapse}
    {entry : Nat ×ₗ κ} : entry ∈ unlist lapses key old ↔
      entry ∈ lapses ∧ ¬ (key = (ofLex entry).2 ∧ old = some (.instant (ofLex entry).1)) := by
  unfold unlist
  split
  · rw [Std.TreeSet.mem_erase, ne_eq, compare_eq_iff_eq, entry_eq_iff]
    simp only [Option.some.injEq, Lapse.instant.injEq]
    tauto
  rename_i hold
  have hnone : old ≠ some (.instant (ofLex entry).1) := fun h => hold _ h
  tauto

theorem mem_list {lapses : Std.TreeSet (Nat ×ₗ κ)} {key : κ} {live : Option Lapse}
    {entry : Nat ×ₗ κ} : entry ∈ list lapses key live ↔
      entry ∈ lapses ∨ key = (ofLex entry).2 ∧ live = some (.instant (ofLex entry).1) := by
  unfold list
  split
  · rw [Std.TreeSet.mem_insert, compare_eq_iff_eq, entry_eq_iff]
    simp only [Option.some.injEq, Lapse.instant.injEq]
    tauto
  rename_i hlive
  have hnone : live ≠ some (.instant (ofLex entry).1) := fun h => hlive _ h
  tauto

theorem Paired.update (h : Paired e) (key : κ) (live : Option Lapse) :
    Paired (e.update key live) := by
  intro entry
  rw [held_update]
  show entry ∈ list (unlist e.lapses key e.held[key]?) key live ↔ _
  rw [mem_list, mem_unlist, h entry]
  by_cases hkey : key = (ofLex entry).2
  · rw [if_pos hkey, hkey]
    tauto
  · rw [if_neg hkey]
    tauto

/-! ## Expiry -/

theorem mem_lapses_pops (due : List (Nat ×ₗ κ)) (e : Expiry κ) (entry : Nat ×ₗ κ) :
    entry ∈ (due.foldl pop e).lapses ↔ entry ∈ e.lapses ∧ entry ∉ due := by
  induction due generalizing e with
  | nil => simp
  | cons first due ih =>
    rw [List.foldl_cons, ih, List.mem_cons, not_or]
    simp only [pop, Std.TreeSet.mem_erase, ne_eq, compare_eq_iff_eq]
    tauto

theorem held_pops (due : List (Nat ×ₗ κ)) (e : Expiry κ) (key : κ) :
    (due.foldl pop e).held[key]? =
      if key ∈ due.map fun entry => (ofLex entry).2 then none else e.held[key]? := by
  induction due generalizing e with
  | nil => simp
  | cons first due ih =>
    rw [List.foldl_cons, ih, List.map_cons]
    simp only [pop, Std.TreeMap.getElem?_erase, compare_eq_iff_eq, List.mem_cons]
    split_ifs <;> simp_all

/-- The entries that are popped are those that have lapsed. -/
theorem mem_due {entry : Nat ×ₗ κ} :
    entry ∈ (e.lapses.toList.takeWhile fun entry => decide ((ofLex entry).1 ≤ now)) ↔
      entry ∈ e.lapses ∧ (ofLex entry).1 ≤ now := by
  rw [takeWhile_eq_filter, List.mem_filter, Std.TreeSet.mem_toList, decide_eq_true_eq]
  refine e.lapses.ordered_toList.imp fun {a b} hlt hb => ?_
  have hle : (ofLex a).1 ≤ (ofLex b).1 := by
    rcases Prod.Lex.lt_iff.mp (compare_lt_iff_lt.mp hlt) with hlt | heq
    · exact hlt.le
    · exact heq.1.le
  simp only [decide_eq_true_eq] at hb ⊢
  exact hle.trans hb

theorem Paired.held_expire (h : Paired e) (now : Nat) (key : κ) :
    (e.expire now).held[key]? = e.held[key]?.filter (Lapse.isAfter now) := by
  unfold expire
  rw [held_pops]
  -- an entry of the key is at the key's own lapse
  have hmem : (key ∈ (e.lapses.toList.takeWhile fun entry => decide ((ofLex entry).1 ≤ now)).map
      fun entry => (ofLex entry).2) ↔ ∃ t, e.held[key]? = some (.instant t) ∧ t ≤ now := by
    rw [List.mem_map]
    constructor
    · rintro ⟨entry, hentry, rfl⟩
      obtain ⟨hlisted, hle⟩ := mem_due.mp hentry
      exact ⟨_, (h entry).mp hlisted, hle⟩
    · rintro ⟨t, hheld, hle⟩
      exact ⟨toLex (t, key), mem_due.mpr ⟨(h _).mpr hheld, hle⟩, rfl⟩
  cases hheld : e.held[key]? with
  | none => rw [ite_self, Option.filter_none]
  | some lapse =>
    rw [Option.filter_some]
    by_cases hafter : lapse.isAfter now
    · rw [if_pos hafter, if_neg]
      intro hdue
      obtain ⟨t, ht, hle⟩ := hmem.mp hdue
      cases hheld.symm.trans ht
      exact absurd (of_decide_eq_true hafter) (not_lt.mpr hle)
    · rw [if_neg hafter, if_pos]
      refine hmem.mpr ?_
      cases lapse with
      | never => exact absurd rfl hafter
      | instant t => exact ⟨t, hheld, not_lt.mp fun hlt => hafter (decide_eq_true hlt)⟩

theorem Paired.expire (h : Paired e) (now : Nat) : Paired (e.expire now) := by
  intro entry
  rw [h.held_expire, Option.filter_eq_some_iff, ← h entry]
  unfold Expiry.expire
  rw [mem_lapses_pops, mem_due]
  simp only [Lapse.isAfter, decide_eq_true_eq]
  constructor
  · rintro ⟨hmem, hlater⟩
    exact ⟨hmem, not_le.mp fun hle => hlater ⟨hmem, hle⟩⟩
  · rintro ⟨hmem, hlater⟩
    exact ⟨hmem, fun hle => not_le.mpr hlater hle.2⟩

end Expiry

end Groupnet
