import Mathlib.Data.Prod.Lex
import Std.Data.TreeMap.Lemmas
import Groupnet.Id
import Groupnet.Lib.Ordered

/-!
# The commit ledger

What a voter publishes: the leadership epoch it has adopted, and per writer the highest
token of that writer's feed it has applied.  `CommitLedger` is one process life's copy.  Both
halves only grow within it.  A ledger rebuilt from durable storage has the applied tokens
and no stamp.
-/

namespace Groupnet

/-! ## Tokens -/

structure WriteToken where
  /-- The life of the feed. -/
  epoch : Nat
  /-- The write's number within it, from 1. -/
  seq : Nat
deriving DecidableEq

namespace WriteToken

def key (t : WriteToken) : Nat ×ₗ Nat := toLex (t.epoch, t.seq)

theorem key_injective : Function.Injective key := by
  rintro ⟨e, s⟩ ⟨e', s'⟩ h
  cases h
  rfl

instance : LinearOrder WriteToken := LinearOrder.lift' key key_injective

theorem lt_iff {t t' : WriteToken} :
    t < t' ↔ t.epoch < t'.epoch ∨ t.epoch = t'.epoch ∧ t.seq < t'.seq := by
  show t.key < t'.key ↔ _
  exact Prod.Lex.toLex_lt_toLex

theorem le_iff {t t' : WriteToken} :
    t ≤ t' ↔ t.epoch < t'.epoch ∨ t.epoch = t'.epoch ∧ t.seq ≤ t'.seq := by
  show t.key ≤ t'.key ↔ _
  exact Prod.Lex.toLex_le_toLex

theorem between {t : WriteToken} {epoch m k : Nat} (hge : ⟨epoch, m⟩ ≤ t) (hlt : t < ⟨epoch, k⟩) :
    t.epoch = epoch ∧ m ≤ t.seq ∧ t.seq < k := by
  have hge' := le_iff.mp hge
  have hlt' := lt_iff.mp hlt
  dsimp only at hge' hlt'
  omega

/-- What a writer's watermark starts from. -/
def zero : WriteToken := ⟨0, 0⟩

end WriteToken

/-! ## Readings -/

/-- Per writer, the highest token applied. -/
abbrev Watermarks := Std.TreeMap NodeId WriteToken

/-- What one member publishes. -/
structure Reading where
  /-- The leadership epoch the publisher had adopted. -/
  leadEpoch : Nat
  applied : Watermarks

/-- One member of a decision, as the deciding node sees it. -/
structure LedgerView where
  member : NodeId
  alive : Bool
  /-- `none` when it publishes no ledger. -/
  reading : Option Reading

def Watermarks.Covers (later earlier : Watermarks) : Prop :=
  ∀ (writer : NodeId) (token : WriteToken), earlier[writer]? = some token →
    ∃ token', later[writer]? = some token' ∧ token ≤ token'

/-- A reading that could follow another of the same life. -/
structure Reading.Precedes (r r' : Reading) : Prop where
  stamp : r.leadEpoch ≤ r'.leadEpoch
  applied : Watermarks.Covers r'.applied r.applied

namespace Watermarks.Covers

theorem refl (marks : Watermarks) : Covers marks marks := fun _ token h => ⟨token, h, le_rfl⟩

theorem trans {a b c : Watermarks} (hab : Covers b a) (hbc : Covers c b) : Covers c a := by
  intro writer token h
  obtain ⟨token', h', hle⟩ := hab writer token h
  obtain ⟨token'', h'', hle'⟩ := hbc writer token' h'
  exact ⟨token'', h'', hle.trans hle'⟩

end Watermarks.Covers

/-! ## The ledger of one life -/

/-- The published half of the ledger. -/
structure CommitLedger where
  /-- The highest leadership epoch ever stamped. -/
  stamp : Nat
  applied : Watermarks

namespace CommitLedger

variable {l : CommitLedger} {writer : NodeId} {token : WriteToken} {leadEpoch : Nat}

/-- A ledger seeded with what durable storage says was applied. -/
def withRecovered (applied : Watermarks) : CommitLedger := ⟨0, applied⟩

/-- What the ledger puts on the wire. -/
def reading (l : CommitLedger) : Reading := ⟨l.stamp, l.applied⟩

/-- Raises a writer's watermark and the stamp, and says whether either moved. -/
def fold (l : CommitLedger) (writer : NodeId) (token : WriteToken) (leadEpoch : Nat) :
    CommitLedger × Bool :=
  let stamped := decide (l.stamp < leadEpoch)
  let stamp := if stamped then leadEpoch else l.stamp
  let entry := l.applied.getD writer .zero
  let advanced := decide (entry < token)
  (⟨stamp, l.applied.insert writer (if advanced then token else entry)⟩, stamped || advanced)

/-- Records an applied token under the current leadership epoch, with what is published. -/
def record (l : CommitLedger) (writer : NodeId) (token : WriteToken) (leadEpoch : Nat) :
    CommitLedger × Option Reading :=
  let folded := l.fold writer token leadEpoch
  (folded.1, if folded.2 then some folded.1.reading else none)

/-- Re-stamps the ledger with the current leadership epoch, and publishes it. -/
def refresh (l : CommitLedger) (leadEpoch : Nat) : CommitLedger × Option Reading :=
  let l := { l with stamp := max l.stamp leadEpoch }
  (l, some l.reading)

theorem fold_stamp : (l.fold writer token leadEpoch).1.stamp = max l.stamp leadEpoch := by
  by_cases h : l.stamp < leadEpoch
  · simp [fold, h, Nat.max_eq_right h.le]
  · simp [fold, h, Nat.max_eq_left (Nat.le_of_not_lt h)]

theorem fold_applied :
    (l.fold writer token leadEpoch).1.applied =
      l.applied.insert writer (max (l.applied.getD writer .zero) token) := by
  by_cases h : l.applied.getD writer .zero < token
  · simp [fold, h, max_eq_right h.le]
  · simp [fold, h, max_eq_left (not_lt.mp h)]

theorem covers_fold : Watermarks.Covers (l.fold writer token leadEpoch).1.applied l.applied := by
  intro w t h
  rw [fold_applied, Std.TreeMap.getElem?_insert]
  split
  next heq =>
    obtain rfl := Std.LawfulEqOrd.eq_of_compare heq
    refine ⟨_, rfl, ?_⟩
    rw [Std.TreeMap.getD_eq_getD_getElem?, h]
    exact le_max_left ..
  next => exact ⟨t, h, le_rfl⟩

/-- Within one life every later state of the ledger follows every earlier one. -/
theorem precedes_record : l.reading.Precedes (l.record writer token leadEpoch).1.reading where
  stamp := by
    show l.stamp ≤ (l.fold writer token leadEpoch).1.stamp
    rw [fold_stamp]
    exact Nat.le_max_left ..
  applied := by
    show Watermarks.Covers (l.fold writer token leadEpoch).1.applied l.applied
    exact covers_fold

theorem precedes_refresh : l.reading.Precedes (l.refresh leadEpoch).1.reading where
  stamp := Nat.le_max_left ..
  applied := .refl _

end CommitLedger

end Groupnet
