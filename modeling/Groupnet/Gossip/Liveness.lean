import Mathlib.Data.List.Perm.Basic
import Mathlib.Data.List.Induction
import Groupnet.Membership

/-!
# Verdicts and the order they are heard in

A verdict is what a record says of a member's liveness: an incarnation and a status.  An
engine that hears a verdict keeps the one it holds unless the new one supersedes it.

Supersession is not total.  Two dead verdicts of different incarnations leave each other
alone, and so do a dead verdict and a suspicion of a later incarnation.  What an engine
ends with may therefore depend on the order in which it heard, and two engines that clash
stay apart.  `Settled` says for which verdicts, and which records to begin with, this
cannot happen.
-/

namespace Groupnet

structure Liveness where
  incarnation : Nat
  status : Status
deriving DecidableEq

namespace Liveness

variable {v w x u : Liveness}

variable {ws : List Liveness} {r : Option Liveness}

/-- Whether the second verdict overrides the first. -/
def supersededBy (v w : Liveness) : Bool :=
  match w.status with
  | .alive => decide (v.incarnation < w.incarnation)
  | .suspect =>
    match v.status with
    | .alive => decide (v.incarnation ≤ w.incarnation)
    | .suspect => decide (v.incarnation < w.incarnation)
    | .dead => false
  | .dead => decide (v.status ≠ .dead) && decide (v.incarnation ≤ w.incarnation)

/-- Neither verdict can move a record that holds the other. -/
def Clash (v w : Liveness) : Prop :=
  v.status = .dead ∧ (w.status = .dead ∧ v.incarnation ≠ w.incarnation ∨
      w.status = .suspect ∧ v.incarnation < w.incarnation) ∨
    w.status = .dead ∧ v.status = .suspect ∧ w.incarnation < v.incarnation

theorem Clash.symm (h : v.Clash w) : w.Clash v := by
  rcases h with ⟨hv, ⟨hw, hne⟩ | ⟨hw, hlt⟩⟩ | ⟨hw, hv, hlt⟩
  · exact .inl ⟨hw, .inl ⟨hv, hne.symm⟩⟩
  · exact .inr ⟨hv, hw, hlt⟩
  · exact .inl ⟨hw, .inr ⟨hv, hlt⟩⟩

/-- Verdicts that do not clash are equal, or exactly one supersedes the other. -/
theorem clash_cases (v w : Liveness) : v.Clash w ∨ v = w ∨
    (v.supersededBy w = true ∧ w.supersededBy v = false) ∨
      (v.supersededBy w = false ∧ w.supersededBy v = true) := by
  obtain ⟨i, s⟩ := v
  obtain ⟨j, t⟩ := w
  rcases Nat.lt_trichotomy i j with h | rfl | h <;> cases s <;> cases t <;>
    simp [supersededBy, Clash, *] <;> omega

theorem not_superseded_of_clash (h : v.Clash w) : v.supersededBy w = false := by
  obtain ⟨i, s⟩ := v
  obtain ⟨j, t⟩ := w
  rcases h with ⟨hv, ⟨hw, hne⟩ | ⟨hw, hlt⟩⟩ | ⟨hw, hv, hlt⟩ <;>
    (dsimp only at hv hw; subst hv hw) <;> simp [supersededBy]
  exact hlt

theorem ne_of_clash (h : v.Clash w) : v ≠ w := by
  rintro rfl
  rcases h with ⟨hv, ⟨_, hne⟩ | ⟨hw, _⟩⟩ | ⟨hw, hv, _⟩
  · exact hne rfl
  · cases hv.symm.trans hw
  · cases hv.symm.trans hw

theorem incarnation_le (h : v.supersededBy w = true) : v.incarnation ≤ w.incarnation := by
  obtain ⟨i, s⟩ := v
  obtain ⟨j, t⟩ := w
  cases s <;> cases t <;> simp [supersededBy] at h ⊢ <;> omega

theorem alive_lt (h : v.supersededBy w = true) (hw : w.status = .alive) :
    v.incarnation < w.incarnation := by
  simpa [supersededBy, hw] using h

/-- Only a newer life revives a dead record. -/
theorem revived (h : v.supersededBy w = true) (hv : v.status = .dead) : w.status = .alive := by
  obtain ⟨j, t⟩ := w
  cases t <;> simp [supersededBy, hv] at h ⊢

theorem superseded_alive (hw : w.status = .alive) (hlt : v.incarnation < w.incarnation) :
    v.supersededBy w = true := by
  simpa [supersededBy, hw] using hlt

theorem superseded_dead (hw : w.status = .dead) (hv : v.status ≠ .dead)
    (hle : v.incarnation ≤ w.incarnation) : v.supersededBy w = true := by
  simpa [supersededBy, hw, hv] using hle

/-! ## Hearing -/

/-- What a record says after a verdict was heard. -/
def hear : Option Liveness → Liveness → Option Liveness
  | none, w => some w
  | some v, w => if v.supersededBy w then some w else some v

/-- What a record says after several were heard, in order. -/
def hearAll (r : Option Liveness) (ws : List Liveness) : Option Liveness := ws.foldl hear r

/-- What a record says after it was told of another. -/
def hearFrom (r other : Option Liveness) : Option Liveness :=
  match other with
  | none => r
  | some w => hear r w

@[simp] theorem hearFrom_some (r : Option Liveness) (w : Liveness) :
    hearFrom r (some w) = hear r w := rfl

theorem hear_of_superseded (h : v.supersededBy w = true) : hear (some v) w = some w := if_pos h

theorem hear_of_not_superseded (h : v.supersededBy w = false) : hear (some v) w = some v :=
  if_neg (by simp [h])

/-- Records that do not clash agree once each has heard of the other. -/
theorem hearFrom_comm {r' : Option Liveness} (h : ∀ v w, r = some v → r' = some w → ¬ v.Clash w) :
    hearFrom r r' = hearFrom r' r := by
  cases r with
  | none => cases r' <;> rfl
  | some v =>
    cases r' with
    | none => rfl
    | some w =>
      rw [hearFrom_some, hearFrom_some]
      rcases clash_cases v w with hclash | rfl | ⟨hvw, hwv⟩ | ⟨hvw, hwv⟩
      · exact absurd hclash (h v w rfl rfl)
      · rfl
      · rw [hear_of_superseded hvw, hear_of_not_superseded hwv]
      · rw [hear_of_not_superseded hvw, hear_of_superseded hwv]

/-- Records that clash stay apart. -/
theorem hearFrom_ne_of_clash (h : v.Clash w) :
    hearFrom (some v) (some w) ≠ hearFrom (some w) (some v) := by
  rw [hearFrom_some, hearFrom_some, hear_of_not_superseded (not_superseded_of_clash h),
    hear_of_not_superseded (not_superseded_of_clash h.symm)]
  exact fun heq => ne_of_clash h (Option.some.inj heq)

/-! ## What a record can come to say -/

/-- A record gives way to a verdict, in the company of others. -/
def Yields (r : Option Liveness) (ws : List Liveness) (v : Liveness) : Prop :=
  ∀ u, r = some u →
    (u.status = .dead → ∃ w ∈ ws, w.status = .alive ∧ u.incarnation < w.incarnation) ∧
      (u.status ≠ .dead → u.incarnation ≤ v.incarnation)

/-- A verdict that may be the last one standing: it is held or can be taken, and no life
that was heard of outdoes it if it is dead. -/
def Lasting (r : Option Liveness) (ws : List Liveness) (v : Liveness) : Prop :=
  (r = some v ∨ v ∈ ws ∧ Yields r ws v) ∧
    (v.status = .dead → ∀ w ∈ ws, w.status = .alive → w.incarnation ≤ v.incarnation)

/-- No verdict that may last at one record clashes with one that may last at the other. -/
def Settled (r r' : Option Liveness) (ws : List Liveness) : Prop :=
  ∀ v w, Lasting r ws v → Lasting r' ws w → ¬ v.Clash w

structure Heard (r : Option Liveness) (ws : List Liveness) (x : Liveness) : Prop where
  source : r = some x ∨ x ∈ ws
  yields : r ≠ some x → Yields r ws x
  alive : ∀ w ∈ ws, w.status = .alive → w.incarnation ≤ x.incarnation
  began : ∀ u, r = some u → u.incarnation ≤ x.incarnation

theorem hearAll_concat (r : Option Liveness) (ws : List Liveness) (w : Liveness) :
    hearAll r (ws ++ [w]) = hear (hearAll r ws) w := by
  simp [hearAll]

/-- A record that knows nothing has heard nothing. -/
theorem eq_nil_of_hearAll (h : hearAll r ws = none) : r = none ∧ ws = [] := by
  induction ws using List.reverseRecOn with
  | nil => exact ⟨h, rfl⟩
  | append_singleton ws w _ =>
    rw [hearAll_concat] at h
    cases hv : hearAll r ws with
    | none =>
      rw [hv] at h
      cases h
    | some v =>
      rw [hv, hear] at h
      split at h <;> cases h

/-- A verdict that is not taken leaves what is known. -/
theorem Heard.kept (h : Heard r ws x) (hw : x.supersededBy w = false) : Heard r (ws ++ [w]) x where
  source := h.source.imp_right (List.mem_append_left _)
  yields := by
    intro hne u hu
    refine ⟨fun hdead => ?_, (h.yields hne u hu).2⟩
    obtain ⟨y, hy, hrest⟩ := (h.yields hne u hu).1 hdead
    exact ⟨y, List.mem_append_left _ hy, hrest⟩
  alive := by
    intro y hy hlive
    rcases List.mem_append.mp hy with hy | hy
    · exact h.alive y hy hlive
    obtain rfl := List.mem_singleton.mp hy
    by_contra hlt
    rw [superseded_alive hlive (by omega)] at hw
    cases hw
  began := h.began

/-- A verdict that is taken is the record. -/
theorem Heard.taken (h : Heard r ws v) (hw : v.supersededBy w = true) : Heard r (ws ++ [w]) w where
  source := .inr (List.mem_append_right _ (List.mem_singleton_self w))
  yields := by
    intro _ u hu
    refine ⟨fun hdead => ?_, fun _ => (h.began u hu).trans (incarnation_le hw)⟩
    by_cases heq : r = some v
    · -- The record was dead up to now, so a newer life was heard.
      obtain rfl := Option.some.inj (hu.symm.trans heq)
      have hlive := revived hw hdead
      exact ⟨w, List.mem_append_right _ (List.mem_singleton_self w), hlive, alive_lt hw hlive⟩
    · obtain ⟨y, hy, hrest⟩ := (h.yields heq u hu).1 hdead
      exact ⟨y, List.mem_append_left _ hy, hrest⟩
  alive := by
    intro y hy hlive
    rcases List.mem_append.mp hy with hy | hy
    · exact (h.alive y hy hlive).trans (incarnation_le hw)
    · rw [List.mem_singleton.mp hy]
  began := fun u hu => (h.began u hu).trans (incarnation_le hw)

theorem heard_hearAll (h : hearAll r ws = some x) : Heard r ws x := by
  induction ws using List.reverseRecOn generalizing x with
  | nil =>
    refine ⟨.inl h, fun hne => absurd h hne, by simp, fun u hu => ?_⟩
    cases hu.symm.trans h
    exact le_rfl
  | append_singleton ws w ih =>
    rw [hearAll_concat] at h
    cases hv : hearAll r ws with
    | none =>
      obtain ⟨rfl, rfl⟩ := eq_nil_of_hearAll hv
      rw [hv] at h
      cases h
      refine ⟨.inr (by simp), fun _ u hu => (by cases hu), ?_, fun u hu => by cases hu⟩
      intro y hy _
      rw [List.mem_singleton.mp hy]
    | some v =>
      rw [hv] at h
      cases hw : v.supersededBy w
      · rw [hear_of_not_superseded hw] at h
        cases h
        exact (ih hv).kept hw
      rw [hear_of_superseded hw] at h
      cases h
      exact (ih hv).taken hw

/-- What a record ends with may last. -/
theorem lasting_of_hearAll (h : hearAll r ws = some x) : Lasting r ws x := by
  have hheard := heard_hearAll h
  refine ⟨?_, fun _ => hheard.alive⟩
  by_cases heq : r = some x
  · exact .inl heq
  · exact .inr ⟨hheard.source.resolve_left heq, hheard.yields heq⟩

/-- What may last does not depend on the order. -/
theorem Lasting.of_perm {ws' : List Liveness} (h : Lasting r ws x) (hp : ws.Perm ws') :
    Lasting r ws' x := by
  obtain ⟨hwhere, hlives⟩ := h
  refine ⟨?_, fun hdead w hw => hlives hdead w (hp.symm.subset hw)⟩
  rcases hwhere with hheld | ⟨hmem, hyields⟩
  · exact .inl hheld
  refine .inr ⟨hp.subset hmem, fun u hu => ⟨fun hdead => ?_, (hyields u hu).2⟩⟩
  obtain ⟨y, hy, hrest⟩ := (hyields u hu).1 hdead
  exact ⟨y, hp.subset hy, hrest⟩

/-! ## Orders that bring a verdict about -/

/-- A dead record that no life outdoes stays. -/
theorem hearAll_dead (hv : v.status = .dead)
    (hlives : ∀ w ∈ ws, w.status = .alive → w.incarnation ≤ v.incarnation) :
    hearAll (some v) ws = some v := by
  induction ws with
  | nil => rfl
  | cons w ws ih =>
    have hkeep : v.supersededBy w = false := by
      cases hw : v.supersededBy w
      · rfl
      · have hlive := revived hw hv
        exact absurd (alive_lt hw hlive) (Nat.not_lt.mpr (hlives w List.mem_cons_self hlive))
    rw [hearAll, List.foldl_cons, hear_of_not_superseded hkeep]
    exact ih fun y hy => hlives y (List.mem_cons_of_mem w hy)

/-- A record past every life is never brought back below. -/
theorem hearAll_past {k : Nat} (hk : ∀ w ∈ ws, w.status = .alive → w.incarnation ≤ k)
    (hv : v.status ≠ .alive) (hlt : k < v.incarnation) :
    ∃ x, hearAll (some v) ws = some x ∧ x.status ≠ .alive ∧
      k < x.incarnation := by
  induction ws generalizing v with
  | nil => exact ⟨v, rfl, hv, hlt⟩
  | cons w ws ih =>
    have hrest : ∀ y ∈ ws, y.status = .alive → y.incarnation ≤ k := fun y hy =>
      hk y (List.mem_cons_of_mem w hy)
    rw [hearAll, List.foldl_cons]
    cases hw : v.supersededBy w
    · rw [hear_of_not_superseded hw]
      exact ih hrest hv hlt
    rw [hear_of_superseded hw]
    refine ih hrest (fun hlive => ?_) (Nat.lt_of_lt_of_le hlt (incarnation_le hw))
    have hle := hk w List.mem_cons_self hlive
    have hmore := alive_lt hw hlive
    omega

/-- A verdict that a record yields to can be heard in an order that begins by taking it. -/
theorem exists_order (hmem : v ∈ ws) (hyields : Yields r ws v) (hv : v.status ≠ .alive)
    (hlives : ∀ w ∈ ws, w.status = .alive → w.incarnation ≤ v.incarnation) :
    ∃ (first rest : List Liveness) (x : Liveness), (first ++ rest).Perm ws ∧
      hearAll r first = some x ∧
      x.status ≠ .alive ∧ v.incarnation ≤ x.incarnation ∧ (v.status = .dead → x = v) := by
  have herase := List.perm_cons_erase hmem
  cases r with
  | none => exact ⟨[v], ws.erase v, v, herase.symm, rfl, hv, le_rfl, fun _ => rfl⟩
  | some u =>
    obtain ⟨hdead, hlive⟩ := hyields u rfl
    by_cases hu : u.status = .dead
    · -- A newer life comes first, and then the verdict.
      obtain ⟨y, hy, hyalive, hlt⟩ := hdead hu
      have hne : y ≠ v := by
        rintro rfl
        exact hv hyalive
      have hy' : y ∈ ws.erase v := (List.mem_erase_of_ne hne).mpr hy
      have hperm : (y :: v :: (ws.erase v).erase y).Perm ws :=
        (List.Perm.swap v y _).trans ((List.perm_cons_erase hy').symm.cons v |>.trans herase.symm)
      have hle := hlives y hy hyalive
      have htake : y.supersededBy v = true := by
        cases hstatus : v.status with
        | alive => exact absurd hstatus hv
        | suspect => simpa [supersededBy, hstatus, hyalive] using hle
        | dead => exact superseded_dead hstatus (by simp [hyalive]) hle
      refine ⟨[y, v], (ws.erase v).erase y, v, hperm, ?_, hv, le_rfl, fun _ => rfl⟩
      rw [hearAll, List.foldl_cons, hear_of_superseded (superseded_alive hyalive hlt)]
      exact hear_of_superseded htake
    · have hle := hlive hu
      cases htake : u.supersededBy v
      · -- The record already holds a suspicion of this incarnation.
        obtain ⟨hustatus, hvstatus, hueq⟩ : u.status = .suspect ∧ v.status = .suspect ∧
            u.incarnation = v.incarnation := by
          obtain ⟨i, s⟩ := u
          obtain ⟨j, t⟩ := v
          cases s <;> cases t <;> simp_all [supersededBy]
          omega
        refine ⟨[v], ws.erase v, u, herase.symm, hear_of_not_superseded htake, ?_, hueq.ge, ?_⟩
        · simp [hustatus]
        intro hdead
        rw [hvstatus] at hdead
        cases hdead
      · exact ⟨[v], ws.erase v, v, herase.symm, hear_of_superseded htake, hv, le_rfl, fun _ => rfl⟩

theorem hearAll_append (r : Option Liveness) (ws ws' : List Liveness) :
    hearAll r (ws ++ ws') = hearAll (hearAll r ws) ws' := List.foldl_append

theorem exists_hearAll_dead (h : Lasting r ws v) (hv : v.status = .dead) :
    ∃ p, p.Perm ws ∧ hearAll r p = some v := by
  have hlives := h.2 hv
  rcases h.1 with rfl | ⟨hmem, hyields⟩
  · exact ⟨ws, .refl _, hearAll_dead hv hlives⟩
  obtain ⟨first, rest, x, hperm, hfirst, -, -, hx⟩ :=
    exists_order hmem hyields (by simp [hv]) hlives
  obtain rfl := hx hv
  refine ⟨first ++ rest, hperm, ?_⟩
  rw [hearAll_append, hfirst]
  exact hearAll_dead hv fun w hw => hlives w (hperm.subset (List.mem_append_right _ hw))

/-- A suspicion past every life that may last leads past every life, in some order. -/
theorem exists_hearAll_past {k : Nat} (h : Lasting r ws v) (hv : v.status = .suspect)
    (hk : ∀ w ∈ ws, w.status = .alive → w.incarnation ≤ k) (hlt : k < v.incarnation) :
    ∃ p x, p.Perm ws ∧ hearAll r p = some x ∧ x.status ≠ .alive ∧ k < x.incarnation := by
  rcases h.1 with rfl | ⟨hmem, hyields⟩
  · obtain ⟨x, hx, hrest⟩ := hearAll_past hk (v := v) (by simp [hv]) hlt
    exact ⟨ws, x, .refl _, hx, hrest⟩
  obtain ⟨first, rest, y, hperm, hfirst, hyalive, hle, -⟩ :=
    exists_order hmem hyields (by simp [hv]) fun w hw hlive => (hk w hw hlive).trans hlt.le
  obtain ⟨x, hx, hxalive, hxlt⟩ := hearAll_past
    (fun w hw => hk w (hperm.subset (List.mem_append_right first hw))) hyalive (hlt.trans_le hle)
  refine ⟨first ++ rest, x, hperm, ?_, hxalive, hxlt⟩
  rw [hearAll_append, hfirst]
  exact hx

/-- Verdicts that may last at either side and clash can be brought about. -/
theorem exists_clash {r' : Option Liveness} (hv : Lasting r ws v) (hw : Lasting r' ws w)
    (hdead : v.status = .dead) (hclash : w.status = .dead ∧ v.incarnation ≠ w.incarnation ∨
      w.status = .suspect ∧ v.incarnation < w.incarnation) :
    ∃ p q x, p.Perm ws ∧ q.Perm ws ∧ hearAll r p = some v ∧ hearAll r' q = some x ∧ v.Clash x := by
  obtain ⟨p, hp, hpv⟩ := exists_hearAll_dead hv hdead
  rcases hclash with ⟨hwdead, hne⟩ | ⟨hwsuspect, hlt⟩
  · obtain ⟨q, hq, hqw⟩ := exists_hearAll_dead hw hwdead
    exact ⟨p, q, w, hp, hq, hpv, hqw, .inl ⟨hdead, .inl ⟨hwdead, hne⟩⟩⟩
  obtain ⟨q, x, hq, hqx, halive, hxlt⟩ := exists_hearAll_past hw hwsuspect (hv.2 hdead) hlt
  refine ⟨p, q, x, hp, hq, hpv, hqx, .inl ⟨hdead, ?_⟩⟩
  cases hx : x.status with
  | alive => exact absurd hx halive
  | suspect => exact .inr ⟨rfl, hxlt⟩
  | dead => exact .inl ⟨rfl, hxlt.ne⟩

/-- Two records that hear the same verdicts in any two orders, and then of each other,
agree exactly when the verdicts are settled between them. -/
theorem settled_iff (r r' : Option Liveness) (ws : List Liveness) :
    (∀ p q, p.Perm ws → q.Perm ws → hearFrom (hearAll r p) (hearAll r' q) =
      hearFrom (hearAll r' q) (hearAll r p)) ↔ Settled r r' ws := by
  constructor
  · intro hagree v w hv hw hclash
    rcases hclash with ⟨hdead, hclash⟩ | ⟨hdead, hclash⟩
    · obtain ⟨p, q, x, hp, hq, hpv, hqx, hclash⟩ := exists_clash hv hw hdead hclash
      have heq := hagree p q hp hq
      rw [hpv, hqx] at heq
      exact hearFrom_ne_of_clash hclash heq
    · obtain ⟨q, p, x, hq, hp, hqw, hpx, hclash⟩ := exists_clash hw hv hdead (.inr hclash)
      have heq := hagree p q hp hq
      rw [hqw, hpx] at heq
      exact hearFrom_ne_of_clash hclash heq.symm
  · intro hsettled p q hp hq
    refine hearFrom_comm fun v w hv hw => ?_
    exact hsettled v w ((lasting_of_hearAll hv).of_perm hp) ((lasting_of_hearAll hw).of_perm hq)

end Liveness

end Groupnet
