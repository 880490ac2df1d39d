import Mathlib.Data.List.Induction
import Groupnet.Feed.Subscriber

/-!
# The ring of a feed

A feed is a bounded ring of encoded writes: it drops its oldest writes and keeps its
position, so a write's token is the epoch and its position.  The writer may retire what
every reader has applied, and may end the life with a seal.

A life of a feed is a ring and the writes published into it.  `Life.Shown` is what a frame
of a life says: a segment of its writes, numbered from 1, that is at the end of them when
the frame is sealed.
-/

namespace Groupnet

/-- The last writes of one feed life. -/
structure Ring where
  epoch : Nat
  /-- The position of the front write. -/
  firstSeq : Nat
  keys : List (List UInt8)
  capacity : Nat
  maxFrameBytes : Nat
  encodedKeysBytes : Nat
  isSealed : Bool

namespace Ring

def fresh (epoch capacity maxFrameBytes : Nat) : Ring :=
  ⟨epoch, 1, [], capacity, maxFrameBytes, 0, false⟩

/-- The size of the frame that advertises a ring of so many bytes. -/
def encodedLen (encodedKeysBytes : Nat) : Nat := satAdd 21 encodedKeysBytes

/-- Whether the ring has to drop its front write. -/
def overfull (ring : Ring) : Bool :=
  decide (ring.capacity < ring.keys.length) ||
    decide (1 < ring.keys.length) &&
      decide (ring.maxFrameBytes < encodedLen ring.encodedKeysBytes)

/-- Drops writes from the front of `keys` until the ring fits. -/
def shrink (ring : Ring) : List (List UInt8) → Ring
  | [] => ring
  | key :: keys =>
    if ring.overfull then
      { ring with
        keys := keys
        encodedKeysBytes := ring.encodedKeysBytes - satAdd 4 key.length
        firstSeq := wrapAdd ring.firstSeq 1 }.shrink keys
    else ring

/-- Appends a write. -/
def push (ring : Ring) (key : List UInt8) : Ring :=
  let keys := ring.keys ++ [key]
  { ring with
    keys := keys
    encodedKeysBytes := satAdd ring.encodedKeysBytes (satAdd 4 key.length) }.shrink keys

def nextToken (ring : Ring) : WriteToken :=
  ⟨ring.epoch, wrapAdd ring.firstSeq ring.keys.length⟩

/-- Records a write under the next token, unless the feed is sealed. -/
def publish (ring : Ring) (key : List UInt8) : Ring × Option WriteToken :=
  if ring.isSealed then (ring, none) else (ring.push key, some ring.nextToken)

/-- Ends the life at its position. -/
def sealFeed (ring : Ring) : Ring × WriteToken := ({ ring with isSealed := true }, ring.nextToken)

/-- Drops writes through position `seq` from the front of `keys`, but not the last. -/
def retire (ring : Ring) (seq : Nat) : List (List UInt8) → Ring
  | key :: next :: keys =>
    if ring.firstSeq ≤ seq then
      { ring with
        keys := next :: keys
        encodedKeysBytes := ring.encodedKeysBytes - satAdd 4 key.length
        firstSeq := wrapAdd ring.firstSeq 1 }.retire seq (next :: keys)
    else ring
  | _ => ring

/-- Retires the acknowledged writes, and whether there were any.  The newest write stays. -/
def retireThrough (ring : Ring) (token : WriteToken) : Ring × Bool :=
  if token.epoch ≠ ring.epoch ∨ ring.keys.length ≤ 1 ∨ token.seq < ring.firstSeq then (ring, false)
  else (ring.retire token.seq ring.keys, true)

def frame (ring : Ring) : FeedFrame := ⟨ring.epoch, ring.firstSeq, ring.keys, ring.isSealed⟩

/-- The position after the last write. -/
def position (ring : Ring) : Nat := ring.firstSeq + ring.keys.length

/-- Dropping writes keeps the position, the epoch and the seal. -/
theorem shrink_spec {keys : List (List UInt8)} : ∀ {ring : Ring}, ring.keys = keys →
    ring.position ≤ u64Max →
    (ring.shrink keys).position = ring.position ∧ (ring.shrink keys).epoch = ring.epoch ∧
      (ring.shrink keys).isSealed = ring.isSealed := by
  induction keys with
  | nil => exact fun _ _ => ⟨rfl, rfl, rfl⟩
  | cons key keys ih =>
    intro ring hkeys hroom
    unfold shrink
    split
    · have hpos : wrapAdd ring.firstSeq 1 + keys.length = ring.position := by
        simp only [position, hkeys, List.length_cons] at hroom ⊢
        unfold wrapAdd u64Max at *
        omega
      obtain ⟨hpos', hepoch, hseal⟩ := @ih { ring with
        keys := keys
        encodedKeysBytes := ring.encodedKeysBytes - satAdd 4 key.length
        firstSeq := wrapAdd ring.firstSeq 1 } rfl (hpos.trans_le hroom)
      exact ⟨hpos'.trans hpos, hepoch, hseal⟩
    · exact ⟨rfl, rfl, rfl⟩

/-- A write takes one position. -/
theorem push_spec {ring : Ring} (key : List UInt8) (hroom : ring.position < u64Max) :
    (ring.push key).position = ring.position + 1 ∧ (ring.push key).epoch = ring.epoch ∧
      (ring.push key).isSealed = ring.isSealed := by
  have hpos : ring.firstSeq + (ring.keys ++ [key]).length = ring.position + 1 := by
    rw [List.length_append]
    rfl
  obtain ⟨hpos', hrest⟩ := @shrink_spec (ring.keys ++ [key]) { ring with
    keys := ring.keys ++ [key]
    encodedKeysBytes := satAdd ring.encodedKeysBytes (satAdd 4 key.length) } rfl
      (hpos.trans_le hroom)
  exact ⟨hpos'.trans hpos, hrest⟩

theorem nextToken_eq {ring : Ring} (hroom : ring.position ≤ u64Max) :
    ring.nextToken = ⟨ring.epoch, ring.position⟩ := by
  unfold nextToken position wrapAdd u64Max at *
  rw [Nat.mod_eq_of_lt (by omega)]

/-! ## A ring is a window -/

/-- The ring shows the end of `log`, whose writes are numbered from 1. -/
structure Shows (ring : Ring) (epoch : Nat) (log : List (List UInt8)) : Prop where
  epoch : ring.epoch = epoch
  front : 1 ≤ ring.firstSeq
  keys : ring.keys = log.drop (ring.firstSeq - 1)
  position : ring.position = log.length + 1

/-- A ring of this capacity can number `n` writes: its front stays in a word. -/
def Room (capacity n : Nat) : Prop := n < u64Max ∨ 1 ≤ capacity ∧ n ≤ u64Max

theorem shows_fresh (epoch capacity maxFrameBytes : Nat) :
    (fresh epoch capacity maxFrameBytes).Shows epoch [] :=
  ⟨rfl, Nat.le_refl _, rfl, rfl⟩

namespace Shows

variable {ring : Ring} {epoch : Nat} {log : List (List UInt8)}

theorem dropFront (h : ring.Shows epoch log) {key : List UInt8} {keys : List (List UInt8)}
    (hkeys : ring.keys = key :: keys) (hroom : ring.firstSeq < u64Max) (bytes : Nat) :
    ({ ring with keys := keys, encodedKeysBytes := bytes, firstSeq := wrapAdd ring.firstSeq 1 } :
      Ring).Shows epoch log := by
  have hpos := h.position
  have hfront := h.front
  unfold Ring.position at hpos
  rw [hkeys, List.length_cons] at hpos
  have hnext : wrapAdd ring.firstSeq 1 = ring.firstSeq + 1 := by
    unfold wrapAdd u64Max at *
    omega
  refine ⟨h.epoch, ?_, ?_, ?_⟩
  · show 1 ≤ wrapAdd ring.firstSeq 1
    omega
  · have htail : keys = (log.drop (ring.firstSeq - 1)).drop 1 := by
      rw [← h.keys, hkeys, List.drop_one, List.tail_cons]
    rw [hnext, htail, List.drop_drop, Nat.sub_add_cancel hfront, Nat.add_sub_cancel]
  show wrapAdd ring.firstSeq 1 + keys.length = _
  rw [hnext, ← hpos]
  omega

/-- The front of a ring that shows `log` is as far behind its end as the ring is long. -/
theorem firstSeq_eq (h : ring.Shows epoch log) :
    ring.firstSeq + ring.keys.length = log.length + 1 :=
  h.position

theorem shrink {keys : List (List UInt8)} (h : ring.Shows epoch log) (hkeys : ring.keys = keys)
    (hroom : Room ring.capacity log.length) : (ring.shrink keys).Shows epoch log := by
  induction keys generalizing ring with
  | nil => exact h
  | cons key keys ih =>
    unfold Ring.shrink
    split
    next hover =>
      refine ih (h.dropFront hkeys ?_ _) rfl hroom
      have hfirst := h.firstSeq_eq
      rw [hkeys, List.length_cons] at hfirst
      rcases hroom with hlt | ⟨hcap, hle⟩
      · omega
      -- a ring of one write is not overfull
      have hkeep : 0 < keys.length := by
        simp only [Ring.overfull, hkeys, List.length_cons, Bool.or_eq_true, Bool.and_eq_true,
          decide_eq_true_eq] at hover
        omega
      omega
    · exact h

theorem push (h : ring.Shows epoch log) (key : List UInt8)
    (hroom : Room ring.capacity (log.length + 1)) :
    (ring.push key).Shows epoch (log ++ [key]) := by
  have hpos := h.position
  unfold Ring.position at hpos
  refine Shows.shrink ⟨h.epoch, h.front, ?_, ?_⟩ rfl ?_
  · show ring.keys ++ [key] = _
    have hle : ring.firstSeq - 1 ≤ log.length := by omega
    rw [h.keys]
    exact (List.drop_append_of_le_length hle).symm
  · show ring.firstSeq + (ring.keys ++ [key]).length = _
    simp only [List.length_append, List.length_singleton]
    omega
  · rw [List.length_append]
    exact hroom

theorem retire {keys : List (List UInt8)} {seq : Nat} (h : ring.Shows epoch log)
    (hkeys : ring.keys = keys) (hroom : log.length ≤ u64Max) :
    (ring.retire seq keys).Shows epoch log := by
  induction keys generalizing ring with
  | nil => exact h
  | cons key keys ih =>
    cases keys with
    | nil => exact h
    | cons next keys =>
      unfold Ring.retire
      split
      · refine ih (h.dropFront hkeys ?_ _) rfl
        have hfirst := h.firstSeq_eq
        rw [hkeys, List.length_cons, List.length_cons] at hfirst
        omega
      · exact h

theorem retireThrough (h : ring.Shows epoch log) (token : WriteToken)
    (hroom : log.length ≤ u64Max) :
    (ring.retireThrough token).1.Shows epoch log := by
  unfold Ring.retireThrough
  split
  · exact h
  · exact h.retire rfl hroom

end Shows

variable {keys : List (List UInt8)} {ring : Ring}

def limits (ring : Ring) : Nat × Nat := (ring.capacity, ring.maxFrameBytes)

theorem limits_shrink : (ring.shrink keys).limits = ring.limits := by
  induction keys generalizing ring with
  | nil => rfl
  | cons key keys ih =>
    unfold shrink
    split
    · exact ih
    · rfl

theorem limits_retire {seq : Nat} : (ring.retire seq keys).limits = ring.limits := by
  induction keys generalizing ring with
  | nil => rfl
  | cons key keys ih =>
    cases keys with
    | nil => rfl
    | cons next keys =>
      unfold retire
      split
      · exact ih
      · rfl

theorem isSealed_retire {seq : Nat} : (ring.retire seq keys).isSealed = ring.isSealed := by
  induction keys generalizing ring with
  | nil => rfl
  | cons key keys ih =>
    cases keys with
    | nil => rfl
    | cons next keys =>
      unfold retire
      split
      · exact ih
      · rfl

theorem isSealed_retireThrough (ring : Ring) (token : WriteToken) :
    (ring.retireThrough token).1.isSealed = ring.isSealed := by
  unfold retireThrough
  split
  · rfl
  · exact isSealed_retire

end Ring

/-! ## The life of a feed -/

inductive FeedOp (K : Type) where
  | publish (key : K)
  | retireThrough (token : WriteToken)
  | sealFeed

/-- A ring and the writes published into it, with the tokens they were given. -/
structure FeedState (K : Type) where
  ring : Ring
  writes : List (WriteToken × K)

/-- One life of a feed: what it is opened with and the calls on it. -/
structure Life (K : Type) where
  epoch : Nat
  capacity : Nat
  maxFrameBytes : Nat
  ops : List (FeedOp K)

section Life

variable {K : Type} (encode : K → List UInt8)

def FeedState.call (feed : FeedState K) : FeedOp K → FeedState K
  | .publish key =>
    let (ring, token) := feed.ring.publish (encode key)
    ⟨ring, feed.writes ++ (token.map (·, key)).toList⟩
  | .retireThrough token => { feed with ring := (feed.ring.retireThrough token).1 }
  | .sealFeed => { feed with ring := feed.ring.sealFeed.1 }

def Life.after (life : Life K) (ops : List (FeedOp K)) : FeedState K :=
  ops.foldl (FeedState.call encode) ⟨.fresh life.epoch life.capacity life.maxFrameBytes, []⟩

/-- Everything published. -/
def Life.writes (life : Life K) : List (WriteToken × K) := (life.after encode life.ops).writes

/-- A frame the life advertises: the ring's, after some of the calls. -/
def Life.Advertises (life : Life K) (frame : FeedFrame) : Prop :=
  ∃ ops, ops <+: life.ops ∧ frame = (life.after encode ops).ring.frame

end Life

def Numbered {K : Type} (epoch : Nat) : Nat → List (WriteToken × K) → Prop
  | _, [] => True
  | n, w :: ws => w.1 = ⟨epoch, n⟩ ∧ Numbered epoch (n + 1) ws

namespace Numbered

variable {K : Type} {epoch n : Nat} {ws : List (WriteToken × K)}

section

variable (h : Numbered epoch n ws)

include h

theorem snoc (key : K) : Numbered epoch n (ws ++ [(⟨epoch, n + ws.length⟩, key)]) := by
  induction ws generalizing n with
  | nil => exact ⟨rfl, trivial⟩
  | cons w ws ih =>
    have htail := ih h.2
    rw [Nat.add_right_comm, Nat.add_assoc n] at htail
    exact ⟨h.1, htail⟩

theorem take (k : Nat) : Numbered epoch n (ws.take k) := by
  induction ws generalizing n k with
  | nil => rwa [List.take_nil]
  | cons w ws ih =>
    cases k with
    | zero => trivial
    | succ k => exact ⟨h.1, ih h.2 k⟩

theorem drop (k : Nat) : Numbered epoch (n + k) (ws.drop k) := by
  induction ws generalizing n k with
  | nil => rw [List.drop_nil]; trivial
  | cons w ws ih =>
    cases k with
    | zero => exact h
    | succ k =>
      rw [← Nat.add_assoc, Nat.add_right_comm]
      exact ih h.2 k

theorem bounds {w : WriteToken × K} (hw : w ∈ ws) :
    w.1.epoch = epoch ∧ n ≤ w.1.seq ∧ w.1.seq < n + ws.length := by
  induction ws generalizing n with
  | nil => cases hw
  | cons x ws ih =>
    rw [List.length_cons]
    rcases List.mem_cons.mp hw with rfl | hw
    · rw [h.1]
      exact ⟨rfl, Nat.le_refl n, show n < n + (ws.length + 1) by omega⟩
    · obtain ⟨hepoch, hle, hlt⟩ := ih h.2 hw
      exact ⟨hepoch, by omega, by omega⟩

theorem sorted : ws.Pairwise (·.1 < ·.1) := by
  induction ws generalizing n with
  | nil => exact .nil
  | cons w ws ih =>
    refine List.pairwise_cons.mpr ⟨fun x hx => ?_, ih h.2⟩
    obtain ⟨hepoch, hle, _⟩ := h.2.bounds hx
    rw [h.1]
    exact WriteToken.lt_iff.mpr (.inr ⟨hepoch.symm, hle⟩)

theorem mem_window {w : WriteToken × K} (hw : w ∈ ws) {m k : Nat} (hm : m ≤ w.1.seq)
    (hk : w.1.seq < k) : w ∈ (ws.take (k - n)).drop (m - n) := by
  induction ws generalizing n with
  | nil => cases hw
  | cons x ws ih =>
    rcases List.mem_cons.mp hw with rfl | hw
    · rw [h.1] at hm hk
      rw [Nat.sub_eq_zero_of_le hm, ← Nat.succ_pred_eq_of_pos (Nat.sub_pos_of_lt hk)]
      exact List.mem_cons_self
    obtain ⟨_, hle, _⟩ := h.2.bounds hw
    have hin := ih h.2 hw
    rw [show k - n = k - (n + 1) + 1 by omega, List.take_succ_cons]
    rcases Nat.lt_or_ge n m with hlt | hge
    · rw [show m - n = m - (n + 1) + 1 by omega, List.drop_succ_cons]
      exact hin
    rw [Nat.sub_eq_zero_of_le hge]
    rw [Nat.sub_eq_zero_of_le (hge.trans (Nat.le_succ n))] at hin
    exact List.mem_cons_of_mem _ hin

end

end Numbered

namespace Life

variable {K : Type} {encode : K → List UInt8} {life : Life K} {ops : List (FeedOp K)}

theorem after_snoc (op : FeedOp K) :
    life.after encode (ops ++ [op]) = (life.after encode ops).call encode op := by
  unfold after
  rw [List.foldl_append, List.foldl_cons, List.foldl_nil]

/-- A call publishes at most one write more, and none once the feed is sealed. -/
theorem writes_call (feed : FeedState K) (op : FeedOp K) :
    ∃ ws, (feed.call encode op).writes = feed.writes ++ ws ∧
      (feed.ring.isSealed = true → ws = [] ∧ (feed.call encode op).ring.isSealed = true) := by
  cases op with
  | publish key =>
    unfold FeedState.call Ring.publish
    cases hsealed : feed.ring.isSealed with
    | true => exact ⟨[], rfl, fun _ => ⟨rfl, hsealed⟩⟩
    | false => exact ⟨_, rfl, fun h => nomatch h⟩
  | retireThrough token =>
    exact ⟨[], (List.append_nil _).symm,
      fun h => ⟨rfl, (feed.ring.isSealed_retireThrough token).trans h⟩⟩
  | sealFeed => exact ⟨[], (List.append_nil _).symm, fun _ => ⟨rfl, rfl⟩⟩

/-- What is published stays, and nothing follows a seal. -/
theorem writes_after {rest : List (FeedOp K)} :
    ∃ ws, (life.after encode (ops ++ rest)).writes = (life.after encode ops).writes ++ ws ∧
      ((life.after encode ops).ring.isSealed = true →
        ws = [] ∧ (life.after encode (ops ++ rest)).ring.isSealed = true) := by
  induction rest using List.reverseRecOn with
  | nil =>
    rw [List.append_nil]
    exact ⟨[], (List.append_nil _).symm, fun h => ⟨rfl, h⟩⟩
  | append_singleton rest op ih =>
    obtain ⟨ws, hws, hsealed⟩ := ih
    obtain ⟨ws', hws', hsealed'⟩ := @writes_call K encode (life.after encode (ops ++ rest)) op
    rw [← List.append_assoc, after_snoc]
    refine ⟨ws ++ ws', by rw [hws', hws, List.append_assoc], fun h => ?_⟩
    obtain ⟨rfl, hs⟩ := hsealed h
    obtain ⟨rfl, hs'⟩ := hsealed' hs
    exact ⟨rfl, hs'⟩

theorem limits_call (feed : FeedState K) (op : FeedOp K) :
    (feed.call encode op).ring.limits = feed.ring.limits := by
  cases op with
  | publish key =>
    unfold FeedState.call Ring.publish
    cases feed.ring.isSealed with
    | true => rfl
    | false => exact Ring.limits_shrink
  | retireThrough token =>
    show (feed.ring.retireThrough token).1.limits = _
    unfold Ring.retireThrough
    split
    · rfl
    · exact Ring.limits_retire
  | sealFeed => rfl

theorem limits_after :
    (life.after encode ops).ring.limits = (life.capacity, life.maxFrameBytes) := by
  induction ops using List.reverseRecOn with
  | nil => rfl
  | append_singleton ops op ih =>
    rw [after_snoc, limits_call]
    exact ih

/-- The ring shows the end of what was published, and a write's token is its place. -/
theorem shows_after_of_room
    (hroom : Ring.Room life.capacity (life.after encode ops).writes.length) :
    (life.after encode ops).ring.Shows life.epoch
        ((life.after encode ops).writes.map fun w => encode w.2) ∧
      Numbered life.epoch 1 (life.after encode ops).writes := by
  induction ops using List.reverseRecOn with
  | nil => exact ⟨Ring.shows_fresh .., trivial⟩
  | append_singleton ops op ih =>
    obtain ⟨ws, hws, _⟩ := @writes_after K encode life ops [op]
    have hroom' : Ring.Room life.capacity (life.after encode ops).writes.length := by
      unfold Ring.Room at hroom ⊢
      rw [hws, List.length_append] at hroom
      omega
    have hlimits : (life.after encode ops).ring.limits = (life.capacity, life.maxFrameBytes) :=
      limits_after
    have hcap : (life.after encode ops).ring.capacity = life.capacity := congrArg Prod.fst hlimits
    obtain ⟨hshows, hnumbered⟩ := ih hroom'
    rw [after_snoc] at hroom ⊢
    generalize life.after encode ops = feed at *
    have hle : (feed.writes.map fun w => encode w.2).length ≤ u64Max := by
      rw [List.length_map]
      unfold Ring.Room at hroom'
      omega
    cases op with
    | publish key =>
      unfold FeedState.call Ring.publish at hroom ⊢
      cases hsealed : feed.ring.isSealed with
      | true => simpa using And.intro hshows hnumbered
      | false =>
        simp only [hsealed, Bool.false_eq_true, if_false, Option.map_some, Option.toList_some,
          List.length_append, List.length_singleton] at hroom
        have htoken : feed.ring.nextToken = ⟨life.epoch, 1 + feed.writes.length⟩ := by
          have hpos := hshows.position
          rw [List.length_map] at hpos
          have hlt : feed.ring.position ≤ u64Max := by
            unfold Ring.Room at hroom
            omega
          rw [Ring.nextToken_eq hlt, hshows.epoch, hpos, Nat.add_comm]
        have hwrites := hnumbered.snoc key
        rw [← htoken] at hwrites
        refine ⟨?_, hwrites⟩
        have hlength : Ring.Room feed.ring.capacity
            ((feed.writes.map fun w => encode w.2).length + 1) := by
          rw [hcap, List.length_map]
          exact hroom
        simpa using hshows.push (encode key) hlength
    | retireThrough token => exact ⟨hshows.retireThrough token hle, hnumbered⟩
    | sealFeed => exact ⟨{ hshows with }, hnumbered⟩

theorem shows_after (hroom : (life.after encode ops).writes.length + 1 < u64Max) :
    (life.after encode ops).ring.Shows life.epoch
        ((life.after encode ops).writes.map fun w => encode w.2) ∧
      Numbered life.epoch 1 (life.after encode ops).writes :=
  shows_after_of_room (.inl (Nat.lt_of_succ_lt hroom))

structure Shown (encode : K → List UInt8) (life : Life K) (frame : FeedFrame) : Prop where
  epoch : frame.epoch = life.epoch
  front : 1 ≤ frame.firstSeq
  stop_le : frame.stop ≤ (life.writes encode).length + 1
  keys : frame.keys = (((life.writes encode).take (frame.stop - 1)).drop (frame.firstSeq - 1)).map
    fun w => encode w.2
  stop_eq : frame.isSealed = true → frame.stop = (life.writes encode).length + 1

theorem numbered (hroom : (life.writes encode).length + 1 < u64Max) :
    Numbered life.epoch 1 (life.writes encode) := (shows_after hroom).2

theorem shown_of_advertises (hroom : (life.writes encode).length + 1 < u64Max) {frame : FeedFrame}
    (h : life.Advertises encode frame) : life.Shown encode frame := by
  obtain ⟨ops, ⟨rest, hops⟩, rfl⟩ := h
  obtain ⟨ws, hws, hsealed⟩ := @writes_after K encode life ops rest
  rw [hops] at hws
  have hall : life.writes encode = (life.after encode ops).writes ++ ws := hws
  rw [hall, List.length_append] at hroom
  obtain ⟨hshows, _⟩ := @shows_after K encode life ops (by omega)
  have hstop : (life.after encode ops).ring.frame.stop = (life.after encode ops).writes.length +
      1 := by
    have hpos := hshows.position
    rwa [List.length_map] at hpos
  refine ⟨hshows.epoch, hshows.front, ?_, ?_, ?_⟩
  · rw [hstop, hall, List.length_append]
    omega
  · rw [hstop, hall, Nat.add_sub_cancel, List.take_left, List.map_drop]
    exact hshows.keys
  · intro h
    rw [hstop, hall, (hsealed h).1, List.append_nil]

end Life

end Groupnet
