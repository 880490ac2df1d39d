import Groupnet.Feed.Ring
import Groupnet.Lib.Codec

/-!
# The frame of a feed on the wire

A frame is its epoch and first position, its writes each behind its length, and the seal as
its last byte.  A ring does not encode its frame to know how long it is: it counts the bytes
of its writes as they come and go, and drops its oldest writes by that count.  The count is
right as long as a ring, with the write it is given, fits the memory of the machine
(`Life.Addressable`), where the count saturates.
-/

namespace Groupnet

open Codec

namespace FeedFrame

/-- A write behind its length, which saturates. -/
def putKey (key : List UInt8) : List UInt8 := putU32 (min key.length 4294967295) ++ key

def encode (frame : FeedFrame) : List UInt8 :=
  putU64 frame.epoch ++ (putU64 frame.firstSeq ++ (putU32 (min frame.keys.length 4294967295) ++
    (frame.keys.flatMap putKey ++ [if frame.isSealed then 1 else 0])))

def wireBytes (keys : List (List UInt8)) : Nat := (keys.map fun key => 4 + key.length).sum

theorem length_encode (frame : FeedFrame) : frame.encode.length = 21 + wireBytes frame.keys := by
  have hkey : ∀ key : List UInt8, (putKey key).length = 4 + key.length := by
    intro key
    simp [putKey]
  simp only [encode, List.length_append, length_putLE, List.length_flatMap, hkey,
    List.length_singleton, wireBytes]
  omega

end FeedFrame

open FeedFrame (wireBytes)

namespace Ring

structure Counted (ring : Ring) : Prop where
  bytes : ring.encodedKeysBytes = wireBytes ring.keys
  room : 21 + wireBytes ring.keys ≤ u64Max

theorem wireBytes_cons (key : List UInt8) (keys : List (List UInt8)) :
    wireBytes (key :: keys) = 4 + key.length + wireBytes keys := rfl

namespace Counted

variable {ring : Ring}

theorem encodedLen_eq (h : ring.Counted) :
    encodedLen ring.encodedKeysBytes = ring.frame.encode.length := by
  rw [FeedFrame.length_encode, h.bytes]
  exact satAdd_eq_add h.room

theorem dropFront (h : ring.Counted) {key : List UInt8} {keys : List (List UInt8)}
    (hkeys : ring.keys = key :: keys) (firstSeq : Nat) :
    ({ ring with
      keys := keys
      encodedKeysBytes := ring.encodedKeysBytes - satAdd 4 key.length
      firstSeq := firstSeq } : Ring).Counted := by
  have hbytes := h.bytes
  have hroom := h.room
  rw [hkeys, wireBytes_cons] at hbytes hroom
  have hkey : satAdd 4 key.length = 4 + key.length := satAdd_eq_add (by omega)
  refine ⟨?_, ?_⟩
  · show ring.encodedKeysBytes - satAdd 4 key.length = wireBytes keys
    omega
  · show 21 + wireBytes keys ≤ u64Max
    omega

end Counted

/-- Shrinking leaves a ring that fits, with the end of what it held and at least one write. -/
theorem Counted.shrink {keys : List (List UInt8)} {ring : Ring} (h : ring.Counted)
    (hkeys : ring.keys = keys) (hcap : 1 ≤ ring.capacity) :
    (ring.shrink keys).Counted ∧ (ring.shrink keys).overfull = false ∧
      (keys ≠ [] → (ring.shrink keys).keys ≠ []) := by
  induction keys generalizing ring with
  | nil =>
    refine ⟨h, ?_, fun hne => absurd rfl hne⟩
    simp [Ring.shrink, overfull, hkeys]
  | cons key keys ih =>
    unfold Ring.shrink
    split
    next hover =>
      have hkeep : keys ≠ [] := by
        rintro rfl
        simp only [overfull, hkeys, List.length_singleton, Nat.lt_irrefl, decide_false,
          Bool.false_and, Bool.or_false, decide_eq_true_eq] at hover
        omega
      obtain ⟨hcounted, hfits, hne⟩ := ih (h.dropFront hkeys _) rfl hcap
      exact ⟨hcounted, hfits, fun _ => hne hkeep⟩
    next hover =>
      refine ⟨h, Bool.eq_false_iff.mpr hover, fun _ => ?_⟩
      rw [hkeys]
      exact List.cons_ne_nil _ _

theorem Counted.push {ring : Ring} (h : ring.Counted) (hcap : 1 ≤ ring.capacity) {key : List UInt8}
    (hroom : 21 + wireBytes (ring.keys ++ [key]) ≤ u64Max) :
    (ring.push key).Counted ∧ (ring.push key).overfull = false ∧ (ring.push key).keys ≠ [] := by
  have hsum : wireBytes (ring.keys ++ [key]) = wireBytes ring.keys + (4 + key.length) := by
    simp [wireBytes]
  have hbytes : satAdd ring.encodedKeysBytes (satAdd 4 key.length) =
      wireBytes (ring.keys ++ [key]) := by
    have hkey : satAdd 4 key.length = 4 + key.length := satAdd_eq_add (by omega)
    rw [hkey, h.bytes, satAdd_eq_add (by omega), hsum]
  obtain ⟨hcounted, hfits, hne⟩ := @Counted.shrink (ring.keys ++ [key]) { ring with
    keys := ring.keys ++ [key]
    encodedKeysBytes := satAdd ring.encodedKeysBytes (satAdd 4 key.length) }
      ⟨hbytes, hroom⟩ rfl hcap
  exact ⟨hcounted, hfits, hne (List.append_ne_nil_of_right_ne_nil _ (List.cons_ne_nil _ _))⟩

/-- A ring within its limits.  Over the byte budget it holds one write at most. -/
structure Sized (ring : Ring) : Prop where
  counted : ring.Counted
  held : ring.keys.length ≤ ring.capacity
  budget : ring.maxFrameBytes < ring.frame.encode.length → ring.keys.length ≤ 1

namespace Sized

variable {ring : Ring}

theorem of_fits (h : ring.Counted) (hfits : ring.overfull = false) : ring.Sized := by
  have hlen := h.encodedLen_eq
  simp only [overfull, Bool.or_eq_false_iff, Bool.and_eq_false_iff, decide_eq_false_iff_not,
    Nat.not_lt, hlen] at hfits
  refine ⟨h, hfits.1, fun hover => ?_⟩
  exact hfits.2.resolve_right (Nat.not_le_of_lt hover)

theorem dropFront (h : ring.Sized) {key : List UInt8} {keys : List (List UInt8)}
    (hkeys : ring.keys = key :: keys) (firstSeq : Nat) :
    ({ ring with
      keys := keys
      encodedKeysBytes := ring.encodedKeysBytes - satAdd 4 key.length
      firstSeq := firstSeq } : Ring).Sized := by
  have hheld := h.held
  have hbudget := h.budget
  rw [hkeys, List.length_cons] at hheld hbudget
  refine ⟨h.counted.dropFront hkeys firstSeq, Nat.le_of_succ_le hheld, ?_⟩
  intro hover
  refine Nat.le_of_succ_le (hbudget (Nat.lt_of_lt_of_le hover ?_))
  rw [FeedFrame.length_encode, FeedFrame.length_encode]
  show 21 + wireBytes keys ≤ 21 + wireBytes ring.keys
  rw [hkeys, wireBytes_cons]
  omega

/-- Retiring keeps a ring within its limits and keeps its newest write. -/
theorem retire {keys : List (List UInt8)} {seq : Nat} {ring : Ring} (h : ring.Sized)
    (hkeys : ring.keys = keys) :
    (ring.retire seq keys).Sized ∧ (keys ≠ [] → (ring.retire seq keys).keys ≠ []) := by
  have hstays : ∀ {r : Ring}, r.keys = ring.keys → keys ≠ [] → r.keys ≠ [] := by
    intro r hr hne
    rwa [hr, hkeys]
  induction keys generalizing ring with
  | nil => exact ⟨h, hstays rfl⟩
  | cons key keys ih =>
    cases keys with
    | nil => exact ⟨h, hstays rfl⟩
    | cons next keys =>
      unfold Ring.retire
      split
      · obtain ⟨hsized, hne⟩ := ih (h.dropFront hkeys _) rfl fun hr _ => hr ▸ List.cons_ne_nil _ _
        exact ⟨hsized, fun _ => hne (List.cons_ne_nil _ _)⟩
      · exact ⟨h, hstays rfl⟩

end Sized

end Ring

namespace Life

variable {K : Type} {encode : K → List UInt8} {life : Life K} {ops : List (FeedOp K)}

/-- At every write the ring and the write are in memory together, so that the bytes of a frame
of them are counted by a machine word. -/
def Addressable (encode : K → List UInt8) (life : Life K) : Prop :=
  ∀ ops key, ops ++ [.publish key] <+: life.ops →
    21 + wireBytes ((life.after encode ops).ring.keys ++ [encode key]) ≤ u64Max

theorem sized_after (hcap : 1 ≤ life.capacity) (hmem : life.Addressable encode)
    (hops : ops <+: life.ops) : (life.after encode ops).ring.Sized ∧
      ((life.after encode ops).writes ≠ [] → (life.after encode ops).ring.keys ≠ []) := by
  induction ops using List.reverseRecOn with
  | nil =>
    refine ⟨.of_fits ⟨rfl, ?_⟩ ?_, fun hne => absurd rfl hne⟩
    · show 21 + 0 ≤ u64Max
      decide
    · simp [after, Ring.fresh, Ring.overfull]
  | append_singleton ops op ih =>
    obtain ⟨hsized, hne⟩ := ih ((List.prefix_append _ _).trans hops)
    have hlimits : (life.after encode ops).ring.limits = (life.capacity, life.maxFrameBytes) :=
      limits_after
    have hcapacity : (life.after encode ops).ring.capacity = life.capacity :=
      congrArg Prod.fst hlimits
    rw [after_snoc]
    cases op with
    | publish key =>
      have hroom := hmem ops key hops
      generalize life.after encode ops = feed at *
      unfold FeedState.call Ring.publish
      cases hsealed : feed.ring.isSealed with
      | true => simpa using And.intro hsized hne
      | false =>
        obtain ⟨hcounted, hfits, hkeys⟩ := hsized.counted.push (hcapacity ▸ hcap) hroom
        exact ⟨.of_fits hcounted hfits, fun _ => hkeys⟩
    | retireThrough token =>
      generalize life.after encode ops = feed at *
      show (feed.ring.retireThrough token).1.Sized ∧
        (_ → (feed.ring.retireThrough token).1.keys ≠ [])
      unfold Ring.retireThrough
      split
      · exact ⟨hsized, hne⟩
      · obtain ⟨hretired, hkeys⟩ := @Ring.Sized.retire _ token.seq _ hsized rfl
        exact ⟨hretired, fun hwrites => hkeys (hne hwrites)⟩
    | sealFeed =>
      refine ⟨⟨⟨hsized.counted.bytes, hsized.counted.room⟩, hsized.held, fun hover => ?_⟩, hne⟩
      have hbudget := hsized.budget
      rw [FeedFrame.length_encode] at hover hbudget
      exact hbudget hover

theorem seal_notMem (hwrites : (life.after encode ops).writes.length ≤ u64Max)
    (hshows : (life.after encode ops).ring.Shows life.epoch
      ((life.after encode ops).writes.map fun w => encode w.2))
    (hnumbered : Numbered life.epoch 1 (life.after encode ops).writes) :
    (life.after encode ops).ring.sealFeed.2 ∉ (life.after encode ops).writes.map Prod.fst := by
  intro hmem
  obtain ⟨w, hw, htoken⟩ := List.mem_map.mp hmem
  obtain ⟨-, hle, hlt⟩ := hnumbered.bounds hw
  have hseq : w.1.seq = wrapAdd (life.after encode ops).ring.firstSeq
      (life.after encode ops).ring.keys.length :=
    congrArg WriteToken.seq htoken
  have hpos := hshows.firstSeq_eq
  rw [List.length_map] at hpos
  -- past the last number of a word the position wraps to 0, which numbers no write
  unfold wrapAdd u64Max at *
  omega

/-- What the ring of a feed is after any calls: it counts the bytes of its frame, it holds the
end of what was published with the newest write last, it stands one past the writes, which have
different tokens, it stays within its capacity, over the byte budget it holds one write or
nothing was published, and a seal fixes where its frame ends. -/
theorem ring_invariant (encode : K → List UInt8) (life : Life K) (hcap : 1 ≤ life.capacity)
    (hwrites : (life.writes encode).length ≤ u64Max) (hmem : life.Addressable encode)
    (ops more : List (FeedOp K)) (hops : life.ops = ops ++ more) :
    let feed := life.after encode ops
    Ring.encodedLen feed.ring.encodedKeysBytes = feed.ring.frame.encode.length ∧
      feed.ring.keys <:+ (feed.writes.map fun w => encode w.2) ∧
      feed.ring.keys.getLast? = (feed.writes.map fun w => encode w.2).getLast? ∧
      feed.ring.firstSeq + feed.ring.keys.length = feed.writes.length + 1 ∧
      (feed.writes.map Prod.fst).Nodup ∧
      feed.ring.sealFeed.2 ∉ feed.writes.map Prod.fst ∧
      feed.ring.keys.length ≤ life.capacity ∧
      (life.maxFrameBytes < feed.ring.frame.encode.length →
        feed.ring.keys.length = 1 ∨ feed.writes = []) ∧
      (feed.ring.isSealed = true →
        (life.after encode (ops ++ more)).ring.frame.stop = feed.ring.frame.stop) := by
  obtain ⟨ws, hall, hsealed⟩ := @writes_after K encode life ops more
  have hroom : Ring.Room life.capacity (life.after encode (ops ++ more)).writes.length :=
    .inr ⟨hcap, hops ▸ hwrites⟩
  have hle : (life.after encode ops).writes.length ≤ u64Max := by
    have hlen := congrArg List.length hall
    rw [List.length_append] at hlen
    unfold writes at hwrites
    rw [hops] at hwrites
    omega
  obtain ⟨hshows, hnumbered⟩ := @shows_after_of_room K encode life ops (.inr ⟨hcap, hle⟩)
  obtain ⟨hlater, -⟩ := shows_after_of_room hroom
  obtain ⟨hsized, hnewest⟩ := sized_after hcap hmem (hops ▸ List.prefix_append ops more)
  have hseal := seal_notMem hle hshows hnumbered
  have hlimits : (life.after encode ops).ring.limits = (life.capacity, life.maxFrameBytes) :=
    limits_after
  have hposition := hshows.firstSeq_eq
  rw [List.length_map] at hposition
  generalize life.after encode ops = feed at *
  refine ⟨hsized.counted.encodedLen_eq, ?_, ?_, hposition, ?_, hseal, ?_, ?_, ?_⟩
  · rw [hshows.keys]
    exact List.drop_suffix _ _
  · rw [hshows.keys, List.getLast?_drop, List.length_map]
    split
    next hshort =>
      -- a ring that dropped every write is one into which nothing was published
      have hfront := hshows.front
      have hkeys : feed.ring.keys = [] := List.eq_nil_of_length_eq_zero (by omega)
      have hnone : feed.writes = [] := by
        by_contra hne
        exact hnewest hne hkeys
      rw [hnone]
      rfl
    · rfl
  · have hsorted := hnumbered.sorted
    rw [List.Nodup, List.pairwise_map]
    exact hsorted.imp fun hlt => ne_of_lt hlt
  · exact hsized.held.trans_eq (congrArg Prod.fst hlimits)
  · intro hover
    have hfew := hsized.budget ((congrArg Prod.snd hlimits).trans_lt hover)
    by_cases hnone : feed.writes = []
    · exact .inr hnone
    · have hsome := List.length_pos_iff.mpr (hnewest hnone)
      exact .inl (by omega)
  · intro h
    obtain ⟨rfl, -⟩ := hsealed h
    have hend := hlater.position
    rw [List.length_map, hall, List.append_nil] at hend
    exact hend.trans hposition.symm

/-- Before its first write a ring of a small budget is over it with no write at all. -/
theorem empty_ring_over_budget :
    ((⟨1, 1, 20, []⟩ : Life UInt8).after ([·]) []).ring.frame.encode.length = 21 ∧
      ((⟨1, 1, 20, []⟩ : Life UInt8).after ([·]) []).ring.keys.length ≠ 1 := by
  decide

/-- A feed of one slot that drops its first write for the second and is then sealed. -/
def slotted : Life UInt8 := ⟨1, 1, 20, [.publish 7, .publish 8, .sealFeed]⟩

theorem slotted_addressable : slotted.Addressable ([·]) := by
  rintro ops key ⟨rest, h⟩
  rcases ops with _ | ⟨x, _ | ⟨y, _ | ⟨z, ops⟩⟩⟩
  · cases h
    decide
  · cases h
    decide
  · cases h
  · have hlen := congrArg List.length h
    simp [slotted] at hlen

/-- Its frame is over the budget with one write, and ends where the seal stands. -/
theorem ring_invariant_slotted :
    (slotted.after ([·]) slotted.ops).ring.frame = ⟨1, 2, [[8]], true⟩ ∧
      slotted.maxFrameBytes < (slotted.after ([·]) slotted.ops).ring.frame.encode.length ∧
      (slotted.after ([·]) slotted.ops).ring.keys.length ≤ slotted.capacity :=
  ⟨by decide, by decide, (ring_invariant ([·]) slotted (by decide) (by decide) slotted_addressable
    slotted.ops [] (List.append_nil _).symm).2.2.2.2.2.2.1⟩

end Life

end Groupnet
