import Mathlib.Data.List.Induction
import Groupnet.Hosted.Lineage

/-!
# The stream of a lineage

What a hosted reader is to hand out, whatever happens around it.  A stream goes from
cursor to cursor: an epoch above the last one opens with a gap, and from there each write
is the next of the epoch's host, or stands behind a gap that covers what is skipped.
`Told` is a stream of such events.  Dropping every event below an epoch from the end of a
stream leaves a stream.
-/

namespace Groupnet

variable {K : Type}

def HostedRead.token? : HostedRead K → Option WriteToken
  | .wrote _ token _ => some token
  | .gap _ | .migrated _ _ => none

def HostedRead.pair? : HostedRead K → Option (Nat × Option NodeId)
  | .migrated epoch host => some (epoch, host)
  | .gap _ | .wrote _ _ _ => none

/-- The token the cursor stands at. -/
def Opened.token (o : Opened) : WriteToken := ⟨o.epoch, o.next⟩

/-- One event of a stream, from one cursor to the next.  `opens` lists the epochs opened
and their hosts. -/
inductive Tells (opens : List (Nat × NodeId)) : Option Opened → HostedRead K → Option Opened → Prop
  | migrated {o : Option Opened} (epoch : Nat) (host : Option NodeId) :
      Tells opens o (.migrated epoch host) o
  | opens {o : Option Opened} {epoch first : Nat} {host : NodeId} (hrise : ∀ x ∈ o, x.epoch < epoch)
      (hin : (epoch, host) ∈ opens) :
      Tells opens o (.gap ⟨epoch, first - 1⟩) (some ⟨epoch, host, first⟩)
  | wrote {epoch next : Nat} {host : NodeId} (key : K) :
      Tells opens (some ⟨epoch, host, next⟩) (.wrote host ⟨epoch, next⟩ key)
        (some ⟨epoch, host, satAdd next 1⟩)
  | gap {epoch next next' seq : Nat} {host : NodeId} (hle : next ≤ next')
      (hcover : next' ≤ seq + 1) :
      Tells opens (some ⟨epoch, host, next⟩) (.gap ⟨epoch, seq⟩) (some ⟨epoch, host, next'⟩)

/-- A stream from one cursor to another. -/
inductive Told (opens : List (Nat × NodeId)) (x : Option Opened) :
    List (HostedRead K) → Option Opened → Prop
  | nil : Told opens x [] x
  | snoc {rs : List (HostedRead K)} {r : HostedRead K} {y z : Option Opened} (h : Told opens x rs y)
      (ht : Tells opens y r z) : Told opens x (rs ++ [r]) z

variable {opens opens' : List (Nat × NodeId)} {x y z : Option Opened} {rs rs' : List (HostedRead K)}
  {r : HostedRead K}

theorem Tells.mono (h : Tells opens x r y) (hsub : opens ⊆ opens') : Tells opens' x r y := by
  cases h with
  | migrated epoch host => exact .migrated epoch host
  | opens hrise hin => exact .opens hrise (hsub hin)
  | wrote key => exact .wrote key
  | gap hle hcover => exact .gap hle hcover

namespace Told

theorem mono (h : Told opens x rs y) (hsub : opens ⊆ opens') : Told opens' x rs y := by
  induction h with
  | nil => exact .nil
  | snoc _ ht ih => exact .snoc ih (ht.mono hsub)

theorem append (h : Told opens x rs y) (h' : Told opens y rs' z) : Told opens x (rs ++ rs') z := by
  induction h' with
  | nil => rwa [List.append_nil]
  | snoc _ ht ih =>
    rw [← List.append_assoc]
    exact .snoc ih ht

theorem single (h : Tells opens x r y) : Told opens x [r] y := .snoc .nil h

/-- The last event of a stream. -/
theorem of_snoc (h : Told opens x (rs ++ [r]) z) : ∃ y, Told opens x rs y ∧ Tells opens y r z := by
  generalize hlist : rs ++ [r] = all at h
  cases h with
  | nil => simp at hlist
  | snoc h ht =>
    obtain ⟨rfl, hr⟩ := List.append_inj' hlist rfl
    cases hr
    exact ⟨_, h, ht⟩

/-! ## What a stream says -/

/-- The cursor is at the last epoch. -/
theorem epoch_le (h : Told opens none rs y) {epoch : Nat} (hr : r ∈ rs)
    (he : r.epoch? = some epoch) :
    ∃ o ∈ y, epoch ≤ o.epoch := by
  induction h with
  | nil => cases hr
  | snoc _ ht ih =>
    rcases List.mem_append.mp hr with hr | hr
    · obtain ⟨o, ho, hle⟩ := ih hr
      cases ht with
      | migrated => exact ⟨o, ho, hle⟩
      | opens hrise => exact ⟨_, rfl, hle.trans (hrise o ho).le⟩
      | wrote | gap =>
        cases ho
        exact ⟨_, rfl, hle⟩
    · cases List.mem_singleton.mp hr
      cases ht with
      | migrated => cases he
      | opens | wrote | gap =>
        cases he
        exact ⟨_, rfl, le_refl _⟩

/-- An epoch's writes are the host's that opened it. -/
theorem host_mem (h : Told opens none rs y) :
    (∀ o ∈ y, (o.epoch, o.host) ∈ opens) ∧
      ∀ host token key, .wrote host token key ∈ rs → (token.epoch, host) ∈ opens := by
  induction h with
  | nil => exact ⟨fun o ho => (nomatch ho), fun _ _ _ hr => (nomatch hr)⟩
  | snoc _ ht ih =>
    obtain ⟨hcursor, hwrites⟩ := ih
    have hold : ∀ {rs : List (HostedRead K)} {r host token key}, r ≠ .wrote host token key →
        .wrote host token key ∈ rs ++ [r] → .wrote host token key ∈ rs := by
      intro rs r host token key hne hr
      rcases List.mem_append.mp hr with hr | hr
      · exact hr
      · exact absurd (List.mem_singleton.mp hr).symm hne
    cases ht with
    | migrated => exact ⟨hcursor, fun host token key hr => hwrites _ _ key (hold (by simp) hr)⟩
    | opens hrise hin =>
      refine ⟨fun o ho => ?_, fun host token key hr => hwrites _ _ key (hold (by simp) hr)⟩
      cases ho
      exact hin
    | @gap epoch next =>
      refine ⟨fun o ho => ?_, fun host token key hr => hwrites _ _ key (hold (by simp) hr)⟩
      cases ho
      exact hcursor ⟨epoch, _, next⟩ rfl
    | @wrote epoch next host key =>
      have hopen : (epoch, host) ∈ opens := hcursor ⟨epoch, host, next⟩ rfl
      refine ⟨fun o ho => ?_, fun host token key hr => ?_⟩
      · cases ho
        exact hopen
      rcases List.mem_append.mp hr with hr | hr
      · exact hwrites host token key hr
      · cases List.mem_singleton.mp hr
        exact hopen

/-- Writes come in order, below the cursor. -/
theorem tokens_sorted (h : Told opens none rs y)
    (hseq : ∀ t ∈ rs.filterMap HostedRead.token?, t.seq < u64Max) :
    (rs.filterMap HostedRead.token?).Pairwise (· < ·) ∧
      ∀ t ∈ rs.filterMap HostedRead.token?, ∃ o ∈ y, t < o.token := by
  induction h with
  | nil => exact ⟨.nil, fun t ht => (nomatch ht)⟩
  | @snoc rs r y z _ ht ih =>
    rw [List.filterMap_append] at hseq ⊢
    obtain ⟨hsorted, hbelow⟩ := ih fun t hin => hseq t (List.mem_append_left _ hin)
    -- What writes nothing moves the cursor on.
    have hquiet : r.token? = none → (∀ o ∈ y, ∃ o' ∈ z, o.token ≤ o'.token) →
        (rs.filterMap HostedRead.token? ++ [r].filterMap HostedRead.token?).Pairwise (· < ·) ∧
          ∀ t ∈ rs.filterMap HostedRead.token? ++ [r].filterMap HostedRead.token?,
            ∃ o ∈ z, t < o.token := by
      intro hr hmove
      rw [List.filterMap_cons_none hr, List.filterMap_nil, List.append_nil]
      refine ⟨hsorted, fun t hin => ?_⟩
      obtain ⟨o, ho, hlt⟩ := hbelow t hin
      obtain ⟨o', ho', hle⟩ := hmove o ho
      exact ⟨o', ho', hlt.trans_le hle⟩
    cases ht with
    | migrated => exact hquiet rfl fun o ho => ⟨o, ho, le_refl _⟩
    | opens hrise =>
      exact hquiet rfl fun o ho => ⟨_, rfl, WriteToken.le_iff.mpr (.inl (hrise o ho))⟩
    | gap hle =>
      refine hquiet rfl fun o ho => ⟨_, rfl, WriteToken.le_iff.mpr (.inr ⟨?_, ?_⟩)⟩ <;> cases ho
      · rfl
      · exact hle
    | @wrote epoch next host key =>
      have hmax : next < u64Max := hseq ⟨epoch, next⟩ (by simp [HostedRead.token?])
      have hcursor : ∀ t ∈ rs.filterMap HostedRead.token?, t < ⟨epoch, next⟩ := by
        intro t hin
        obtain ⟨o, ho, hlt⟩ := hbelow t hin
        cases ho
        exact hlt
      have hstep : (⟨epoch, next⟩ : WriteToken) < ⟨epoch, satAdd next 1⟩ :=
        WriteToken.lt_iff.mpr (.inr ⟨rfl, lt_satAdd_one hmax⟩)
      refine ⟨?_, fun t hin => ⟨_, rfl, ?_⟩⟩
      · refine List.pairwise_append.mpr ⟨hsorted, List.pairwise_singleton _ _, ?_⟩
        rintro t hin t' hin'
        cases List.mem_singleton.mp hin'
        exact hcursor t hin
      · rcases List.mem_append.mp hin with hin | hin
        · exact (hcursor t hin).trans hstep
        · cases List.mem_singleton.mp hin
          exact hstep

end Told

/-- `epoch` was opened by a gap, and every position below `next` was told or is covered. -/
def Covers (rs : List (HostedRead K)) (epoch next : Nat) : Prop :=
  (∃ m, .gap m ∈ rs ∧ m.epoch = epoch) ∧ ∀ seq < next,
    (∃ host key, .wrote host ⟨epoch, seq⟩ key ∈ rs) ∨ ∃ m, .gap m ∈ rs ∧ m.epoch = epoch ∧
      seq ≤ m.seq

theorem Covers.mono {epoch next : Nat} (h : Covers rs epoch next) (hsub : rs ⊆ rs') :
    Covers rs' epoch next := by
  obtain ⟨⟨m, hm, he⟩, hall⟩ := h
  refine ⟨⟨m, hsub hm, he⟩, fun seq hseq => ?_⟩
  rcases hall seq hseq with ⟨host, key, hin⟩ | ⟨m, hin, hcover⟩
  · exact .inl ⟨host, key, hsub hin⟩
  · exact .inr ⟨m, hsub hin, hcover⟩

namespace Told

/-- Everything below the cursor, and below each write before it, is covered. -/
theorem covers (h : Told opens none rs y) :
    (∀ o ∈ y, Covers rs o.epoch o.next) ∧
      ∀ before host token key after, rs = before ++ .wrote host token key :: after →
        Covers before token.epoch token.seq := by
  induction h with
  | nil => exact ⟨fun o ho => (nomatch ho), fun before _ _ _ _ hr => by simp at hr⟩
  | @snoc rs r y z _ ht ih =>
    obtain ⟨hcursor, hwrites⟩ := ih
    have hsub : rs ⊆ rs ++ [r] := List.subset_append_left ..
    have hlast : r ∈ rs ++ [r] := List.mem_append_right _ (List.mem_singleton_self r)
    refine ⟨?_, ?_⟩
    · intro o ho
      cases ht with
      | migrated => exact (hcursor o ho).mono hsub
      | @opens epoch first host hrise hin =>
        cases ho
        exact ⟨⟨_, hlast, rfl⟩, fun seq hseq => .inr ⟨_, hlast, rfl, Nat.le_sub_one_of_lt hseq⟩⟩
      | @wrote epoch next host key =>
        cases ho
        obtain ⟨hgap, hall⟩ := (hcursor ⟨epoch, host, next⟩ rfl).mono hsub
        refine ⟨hgap, fun seq hseq => ?_⟩
        rcases Nat.lt_or_ge seq next with hlt | hge
        · exact hall seq hlt
        · have heq : seq = next :=
            Nat.le_antisymm (Nat.le_of_lt_succ (hseq.trans_le (satAdd_le_add ..))) hge
          exact .inl ⟨host, key, heq ▸ hlast⟩
      | @gap epoch next next' seq host hle hcover =>
        cases ho
        obtain ⟨hgap, hall⟩ := (hcursor ⟨epoch, host, next⟩ rfl).mono hsub
        exact ⟨hgap,
          fun seq' hseq => .inr ⟨_, hlast, rfl, Nat.le_of_lt_succ (hseq.trans_le hcover)⟩⟩
    · intro before host token key after heq
      rcases List.eq_nil_or_concat after with rfl | ⟨after', r', rfl⟩
      · obtain ⟨rfl, hr⟩ := List.append_inj' heq rfl
        cases hr
        cases ht with
        | wrote => exact hcursor _ rfl
      · have heq' : rs ++ [r] = (before ++ .wrote host token key :: after') ++ [r'] := by
          rw [heq]
          simp
        exact hwrites before host token key after' (List.append_inj' heq' rfl).1

end Told

/-! ## Cutting a stream -/

def Below (epoch : Nat) (x : Option Opened) : Prop := ∀ o ∈ x, o.epoch < epoch

def HostedRead.outlives (epoch : Nat) (r : HostedRead K) : Bool := r.epoch?.all (epoch ≤ ·)

/-- What a cut leaves is a stream, to the same cursor or below the cut. -/
theorem Told.cut {before : List (HostedRead K)} {epoch : Nat} (h : Told opens x (before ++ rs) y) :
    ∃ z, Told opens x (before ++ rs.filter (·.outlives epoch)) z ∧
      (z = y ∨ Below epoch z ∧ Below epoch y) := by
  induction rs using List.reverseRecOn generalizing y with
  | nil => exact ⟨y, h, .inl rfl⟩
  | append_singleton rs r ih =>
    rw [← List.append_assoc] at h
    obtain ⟨y', hinit, ht⟩ := h.of_snoc
    obtain ⟨z, htold, hz⟩ := ih hinit
    rw [List.filter_append]
    cases hkeep : r.outlives epoch with
    | true =>
      rw [List.filter_cons_of_pos hkeep, List.filter_nil, ← List.append_assoc]
      rcases hz with rfl | ⟨hzb, hyb⟩
      · exact ⟨y, .snoc htold ht, .inl rfl⟩
      cases ht with
      | migrated => exact ⟨z, .snoc htold (.migrated ..), .inr ⟨hzb, hyb⟩⟩
      | opens hrise hin =>
        refine ⟨_, .snoc htold (.opens (fun o ho => ?_) hin), .inl rfl⟩
        exact (hzb o ho).trans_le (of_decide_eq_true hkeep)
      | wrote | gap => exact absurd (hyb _ rfl) (Nat.not_lt.mpr (of_decide_eq_true hkeep))
    | false =>
      rw [List.filter_cons_of_neg (by simp [hkeep]), List.filter_nil, List.append_nil]
      refine ⟨z, htold, .inr ?_⟩
      cases ht with
      | migrated => cases hkeep
      | opens hrise =>
        have hlt := Nat.lt_of_not_le (of_decide_eq_false hkeep)
        refine ⟨?_, fun o ho => by cases ho; exact hlt⟩
        rcases hz with rfl | ⟨hzb, _⟩
        · exact fun o ho => (hrise o ho).trans hlt
        · exact hzb
      | @wrote e next host | @gap e next _ _ host =>
        have hlt := Nat.lt_of_not_le (of_decide_eq_false hkeep)
        have hyb : Below epoch (some ⟨e, host, next⟩) := fun o ho => by cases ho; exact hlt
        refine ⟨?_, fun o ho => by cases ho; exact hlt⟩
        rcases hz with rfl | ⟨hzb, _⟩
        · exact hyb
        · exact hzb

end Groupnet
