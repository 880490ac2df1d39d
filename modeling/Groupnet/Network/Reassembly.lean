import Mathlib.Algebra.BigOperators.Group.Finset.Basic
import Mathlib.Algebra.Order.BigOperators.Group.Finset
import Mathlib.Data.List.Perm.Subperm
import Groupnet.Network.Fragment

/-!
# Fragments come back as frames

Two results about reassembly.  Whatever packets come, an assembly keeps no more than the
length its frame declares, there are no more assemblies than configured, and a frame that is
returned has the length it declared.  And the fragments of some frames, in any order and with
repeats, give each frame back with its last missing fragment.

A frame in assembly is described by the set of the indices received (`Sending.assembly`).
The run keeps, for every frame that still has a fragment to come, the assembly of what was
received of it.
-/

namespace Groupnet.Network

open Std (TreeMap)
open Codec

/-! ## Numbers and headers -/

/-- What a header has to be to be read back. -/
structure FragmentHeader.Sendable (h : FragmentHeader) : Prop where
  magic : h.magic.length = 4
  id : h.id.length = 16
  index : h.index < 65536
  count : h.count < 65536
  total : h.total < 4294967296

theorem FragmentHeader.refFromFront_asBytes {h : FragmentHeader} (hh : h.Sendable)
    (body : List UInt8) :
    refFromFront (h.asBytes ++ body) = some (h, body) := by
  have hlen : h.asBytes.length = 28 := by simp [asBytes, hh.magic, hh.id]
  have hindex := @fromBE_putBE 2 h.index hh.index
  have hcount := @fromBE_putBE 2 h.count hh.count
  have htotal := @fromBE_putBE 4 h.total hh.total
  unfold refFromFront
  rw [List.length_append, hlen, if_neg (by simp [fragmentLen])]
  simp [asBytes, fragmentLen, List.drop_append, List.drop_of_length_le, hh.magic, hh.id,
    hindex, hcount, htotal]

/-! ## Parts -/

theorem lt_countOf {chunk len index : Nat} (hchunk : 0 < chunk) :
    index < countOf chunk len ↔ index * chunk < len := by
  unfold countOf
  rw [Nat.lt_iff_add_one_le, Nat.le_div_iff_mul_le hchunk, Nat.add_mul, Nat.one_mul]
  omega

theorem countOf_le {chunk len : Nat} (hchunk : 0 < chunk) : countOf chunk len ≤ len := by
  by_contra hlt
  have hless := (lt_countOf hchunk).mp (Nat.lt_of_not_le hlt)
  have := Nat.le_mul_of_pos_right len hchunk
  omega

theorem flatMap_partAt (bytes : List UInt8) (chunk n : Nat) :
    (List.range n).flatMap (partAt bytes chunk) = bytes.take (n * chunk) := by
  induction n with
  | zero => simp
  | succ n ih =>
    rw [List.range_succ, List.flatMap_append, ih, List.flatMap_singleton, partAt, Nat.succ_mul,
      List.take_add]

theorem flatMap_parts {bytes : List UInt8} {chunk : Nat} (hchunk : 0 < chunk) :
    (List.range (countOf chunk bytes.length)).flatMap (partAt bytes chunk) = bytes := by
  have hlast : ¬ countOf chunk bytes.length * chunk < bytes.length := fun h =>
    Nat.lt_irrefl _ ((lt_countOf hchunk).mpr h)
  rw [flatMap_partAt, List.take_of_length_le (Nat.le_of_not_lt hlast)]

theorem sum_length_parts {bytes : List UInt8} {chunk : Nat} (hchunk : 0 < chunk) :
    ∑ k ∈ Finset.range (countOf chunk bytes.length), (partAt bytes chunk k).length =
      bytes.length := by
  have hsum : ∀ n, ∑ k ∈ Finset.range n, (partAt bytes chunk k).length =
      ((List.range n).flatMap (partAt bytes chunk)).length := by
    intro n
    induction n with
    | zero => rfl
    | succ n ih =>
      rw [Finset.sum_range_succ, ih, List.range_succ, List.flatMap_append, List.length_append,
        List.flatMap_singleton]
  rw [hsum, flatMap_parts hchunk]

/-! ## Frames on a link -/

/-- A frame a router may send on a link, under a fragment id. -/
structure Sending (config : RouterConfig) where
  link : Nat
  session : Option Nat
  sender : NodeId
  id : List UInt8
  bytes : List UInt8
  mtu : Nat
  idLen : id.length = 16
  nonempty : 0 < bytes.length
  short : bytes.length ≤ config.maxFrame.val + config.sealing.overhead
  admitted : config.admitsMtu mtu = true

namespace Sending

variable {config : RouterConfig}

variable (s : Sending config)

def key (s : Sending config) : AssemblyKey := ⟨s.link, s.session, s.sender, fromBE s.id⟩

def chunk (s : Sending config) : Nat := s.mtu - fragmentLen - config.sealing.fragments.tag

def count (s : Sending config) : Nat := countOf s.chunk s.bytes.length

def part (s : Sending config) (index : Nat) : List UInt8 := partAt s.bytes s.chunk index

def header (s : Sending config) (index : Nat) : FragmentHeader :=
  ⟨config.sealing.fragments.magic, s.id, index, s.count, s.bytes.length⟩

def fragments (s : Sending config) : List (List UInt8) :=
  fragment s.bytes s.mtu s.id config.sealing.fragments

theorem tag_eq_overhead (sealing : Sealing) : sealing.fragments.tag = sealing.overhead := by
  unfold Sealing.fragments Sealing.overhead
  split <;> rfl

theorem chunk_pos : 0 < s.chunk := by
  have h := s.admitted
  simp only [RouterConfig.admitsMtu, Bool.and_eq_true, decide_eq_true_eq] at h
  unfold chunk
  rw [tag_eq_overhead]
  omega

theorem count_le : s.count ≤ config.reassembly.maxFragments.val := by
  have h := s.admitted
  simp only [RouterConfig.admitsMtu, Bool.and_eq_true, decide_eq_true_eq] at h
  have hshort := s.short
  have hchunk : s.chunk = s.mtu - fragmentLen - config.sealing.overhead := by
    rw [← tag_eq_overhead]
    rfl
  rw [← hchunk] at h
  refine le_trans (Nat.div_le_div_right ?_) h.2
  omega

theorem count_pos : 0 < s.count := by
  rw [count, lt_countOf s.chunk_pos, Nat.zero_mul]
  exact s.nonempty

theorem fragments_getElem? (h : index < s.count) :
    s.fragments[index]? = some ((s.header index).asBytes ++ s.part index) := by
  show ((List.range s.count).map fun index => (s.header index).asBytes ++ s.part index)[index]? = _
  rw [List.getElem?_map, List.getElem?_range h, Option.map_some]

theorem part_ne_nil (h : index < s.count) : s.part index ≠ [] := by
  have hlt := (lt_countOf s.chunk_pos).mp h
  have hpos := s.chunk_pos
  intro hnil
  have hlen := congrArg List.length hnil
  rw [part, partAt, List.length_take, List.length_drop, List.length_nil] at hlen
  omega

theorem header_sendable (h : index < s.count) : (s.header index).Sendable where
  magic := by
    show config.sealing.fragments.magic.length = 4
    unfold Sealing.fragments
    split <;> rfl
  id := s.idLen
  index := (h.trans_le s.count_le).trans config.reassembly.fits
  count := s.count_le.trans_lt config.reassembly.fits
  total := s.short.trans_lt config.sized

/-! ## A frame in assembly -/

/-- The assembly of a frame of which the fragments in `seen` are here. -/
def assembly (s : Sending config) (created : Time) (seen : Finset Nat) : Assembly where
  created := created
  total := s.bytes.length
  retained := ∑ k ∈ seen, (s.part k).length
  parts := (List.range s.count).map fun k => if k ∈ seen then some (s.part k) else none
  missing := s.count - seen.card

theorem assembly_begun (now : Time) (index : Nat) :
    Reassembly.begun now (s.header index) = s.assembly now ∅ := by
  unfold Reassembly.begun assembly header
  simp [List.map_const']

variable {s : Sending config} {seen : Finset Nat} {index : Nat} {created : Time}

theorem retained_le (hseen : seen ⊆ Finset.range s.count) :
    ∑ k ∈ seen, (s.part k).length ≤ s.bytes.length := by
  have htotal : ∑ k ∈ Finset.range s.count, (s.part k).length = s.bytes.length :=
    sum_length_parts s.chunk_pos
  rw [← htotal]
  exact Finset.sum_le_sum_of_subset hseen

theorem lacks_eq (h : index < s.count) :
    (s.assembly created seen).lacks index = decide (index ∉ seen) := by
  show ((((List.range s.count).map fun k => if k ∈ seen then some (s.part k)
    else none)[index]?).join).isNone = _
  rw [List.getElem?_map, List.getElem?_range h, Option.map_some, Option.join_some]
  by_cases hmem : index ∈ seen <;> simp [hmem]

theorem parts_set :
    (s.assembly created seen).parts.set index (some (s.part index)) =
      (s.assembly created (insert index seen)).parts := by
  refine List.ext_getElem? fun k => ?_
  show (((List.range s.count).map fun k => if k ∈ seen then some (s.part k) else none).set index
    (some (s.part index)))[k]? = ((List.range s.count).map fun k =>
      if k ∈ insert index seen then some (s.part k) else none)[k]?
  rw [List.getElem?_set]
  by_cases hk : index = k
  · subst hk
    rw [if_pos rfl, List.length_map, List.length_range, List.getElem?_map]
    by_cases hlt : index < s.count
    · rw [if_pos hlt, List.getElem?_range hlt, Option.map_some, if_pos (Finset.mem_insert_self ..)]
    · rw [if_neg hlt, List.getElem?_eq_none (by simpa using hlt), Option.map_none]
  · rw [if_neg hk, List.getElem?_map, List.getElem?_map]
    by_cases hlt : k < s.count
    · rw [List.getElem?_range hlt, Option.map_some, Option.map_some]
      simp only [Finset.mem_insert, Ne.symm hk, false_or]
    · rw [List.getElem?_eq_none (by simpa using hlt), Option.map_none, Option.map_none]

/-- All fragments are here. -/
def Complete (s : Sending config) (seen : Finset Nat) : Prop := seen = Finset.range s.count

instance (s : Sending config) (seen : Finset Nat) : Decidable (s.Complete seen) :=
  inferInstanceAs (Decidable (_ = _))

theorem parts_complete (h : s.Complete seen) :
    ((s.assembly created seen).parts.flatMap fun part => part.getD []) = s.bytes := by
  have hparts : (s.assembly created seen).parts = (List.range s.count).map fun k =>
      some (s.part k) := by
    refine List.map_congr_left fun k hk => ?_
    rw [h, if_pos (Finset.mem_range.mpr (List.mem_range.mp hk))]
  rw [hparts, List.flatMap_map]
  exact flatMap_parts s.chunk_pos

/-- A fragment of the frame adds to what is here, and the last one gives the frame. -/
theorem accept_eq (r : Reassembly) (hseen : seen ⊆ Finset.range s.count) (h : index < s.count) :
    r.accept s.key (s.assembly created seen) (s.header index) (s.part index) =
      if s.Complete (insert index seen) then (r.remove s.key, some s.bytes)
      else (r.put s.key (s.assembly created (insert index seen)), none) := by
  have hinto : insert index seen ⊆ Finset.range s.count :=
    Finset.insert_subset (Finset.mem_range.mpr h) hseen
  have hlacks : (s.assembly created seen).lacks index = decide (index ∉ seen) := lacks_eq h
  have hadd : (s.assembly created seen).add index (s.part index) =
      s.assembly created (insert index seen) := by
    unfold Assembly.add
    rw [hlacks]
    by_cases hmem : index ∈ seen
    · rw [if_neg (by simpa using hmem), Finset.insert_eq_of_mem hmem]
    have hretained : (s.assembly created seen).retained + (s.part index).length =
        (s.assembly created (insert index seen)).retained := by
      show ∑ k ∈ seen, (s.part k).length + (s.part index).length = ∑ k ∈ insert index seen,
        (s.part k).length
      rw [Finset.sum_insert hmem, Nat.add_comm]
    have hmissing : (s.assembly created seen).missing - 1 =
        (s.assembly created (insert index seen)).missing := by
      show s.count - seen.card - 1 = s.count - (insert index seen).card
      rw [Finset.card_insert_of_notMem hmem, Nat.sub_sub]
    rw [if_pos (by simpa using hmem), hretained, parts_set, hmissing]
    rfl
  have hfits : ¬ (s.header index).total < (s.assembly created (insert index seen)).retained :=
    Nat.not_lt.mpr (retained_le hinto)
  unfold Reassembly.accept
  rw [if_neg (by simp [header, assembly]), show (s.header index).index = index from rfl, hadd]
  rw [if_neg fun hlong => hfits hlong.2]
  by_cases hall : s.Complete (insert index seen)
  · have hzero : (s.assembly created (insert index seen)).missing = 0 := by
      show s.count - (insert index seen).card = 0
      rw [hall, Finset.card_range, Nat.sub_self]
    have hfull : (s.assembly created (insert index seen)).retained = (s.header index).total := by
      show ∑ k ∈ insert index seen, (s.part k).length = s.bytes.length
      rw [hall]
      exact sum_length_parts s.chunk_pos
    rw [if_neg (not_not.mpr hzero), if_neg (not_not.mpr hfull), if_pos hall, parts_complete hall]
  · have hsome : (s.assembly created (insert index seen)).missing ≠ 0 := by
      have hlt := Finset.card_lt_card (hinto.ssubset_of_ne hall)
      rw [Finset.card_range] at hlt
      exact Nat.sub_ne_zero_of_lt hlt
    rw [if_pos hsome, if_neg hall]

end Sending

/-! ## Receiving fragments -/

/-- One fragment of a frame as it arrives. -/
structure Arrival (config : RouterConfig) where
  sending : Sending config
  index : Nat
  now : Time
  inRange : index < sending.count

namespace Arrival

variable {config : RouterConfig}

def key (a : Arrival config) : AssemblyKey := a.sending.key

/-- The packet that carries the fragment. -/
def packet (a : Arrival config) : Packet :=
  ⟨a.now, a.sending.link, a.sending.session, a.sending.sender,
    (a.sending.fragments[a.index]?).getD []⟩

def seen (key : AssemblyKey) (past : List (Arrival config)) : Finset Nat :=
  ((past.filter fun a => a.key = key).map index).toFinset

theorem seen_snoc (key : AssemblyKey) (past : List (Arrival config)) (a : Arrival config) :
    seen key (past ++ [a]) = if a.key = key then insert a.index (seen key past)
      else seen key past := by
  unfold seen
  rw [List.filter_append]
  split
  next h =>
    ext k
    simp [h]
  next h => simp [h]

theorem seen_mono (key : AssemblyKey) (past more : List (Arrival config)) :
    seen key past ⊆ seen key (past ++ more) := by
  intro k hk
  simp only [seen, List.mem_toFinset, List.filter_append, List.map_append, List.mem_append] at hk ⊢
  exact .inl hk

end Arrival

namespace Reassembly

structure Of (config : RouterConfig) (r : Reassembly) : Prop where
  config_eq : r.config = config.reassembly
  maxFrame_eq : r.maxFrame = config.maxFrame.val + config.sealing.overhead
  magic_eq : r.magic = config.sealing.magic
  fragmentMagic_eq : r.fragmentMagic = config.sealing.fragments.magic

theorem of_fragments (config : RouterConfig) : config.fragments.Of config := ⟨rfl, rfl, rfl, rfl⟩

variable {config : RouterConfig} {r : Reassembly}

theorem Of.pending (h : r.Of config) (pending : TreeMap AssemblyKey Assembly) :
    ({ r with pending := pending } : Reassembly).Of config :=
  { h with }

theorem Of.accept (h : r.Of config) (key : AssemblyKey) (entry : Assembly) (header : FragmentHeader)
    (body : List UInt8) : (r.accept key entry header body).1.Of config := by
  unfold Reassembly.accept
  split
  · exact h.pending _
  dsimp only
  split
  · exact h.pending _
  split
  · exact h.pending _
  · split <;> exact h.pending _

theorem Of.receive (h : r.Of config) (p : Packet) : (r.receive p).1.Of config := by
  have hretain : (r.retain p.now).Of config := h.pending _
  unfold Reassembly.receive
  dsimp only
  split
  · exact hretain
  split
  · exact hretain
  split
  · exact hretain
  split
  · exact hretain
  split
  · exact hretain.accept ..
  split
  · exact hretain
  · exact hretain.accept ..

theorem acceptable_header (h : r.Of config) (a : Arrival config) :
    r.acceptable (a.sending.header a.index) = true := by
  have hmax := a.sending.count_le
  have hindex := a.inRange
  have hshort := a.sending.short
  have hle : a.sending.count ≤ a.sending.bytes.length := countOf_le a.sending.chunk_pos
  simp only [acceptable, Bool.not_eq_true', Bool.or_eq_false_iff, decide_eq_false_iff_not]
  rw [h.config_eq, h.maxFrame_eq]
  show (((¬ a.sending.count = 0 ∧ ¬ _ < a.sending.count) ∧ ¬ a.sending.count ≤ a.index) ∧
    ¬ _ < a.sending.bytes.length) ∧ ¬ a.sending.bytes.length < a.sending.count
  omega

/-- What a fragment does: it is added to its assembly, or begins one when there is room. -/
theorem receive_packet (h : r.Of config) (a : Arrival config) : r.receive a.packet =
    match (r.retain a.now).pending[a.key]? with
    | some entry =>
      (r.retain a.now).accept a.key entry (a.sending.header a.index) (a.sending.part a.index)
    | none =>
      if config.reassembly.maxPending.val ≤ (r.retain a.now).pending.size then
        (r.retain a.now, none)
      else (r.retain a.now).accept a.key (a.sending.assembly a.now ∅) (a.sending.header a.index)
        (a.sending.part a.index) := by
  have hbytes : a.packet.bytes = (a.sending.header a.index).asBytes ++ a.sending.part a.index := by
    show (a.sending.fragments[a.index]?).getD [] = _
    rw [a.sending.fragments_getElem? a.inRange, Option.getD_some]
  have hretain : (r.retain a.now).Of config := h.pending _
  have hmagic : a.packet.bytes.take 4 = config.sealing.fragments.magic := by
    have hlen := (a.sending.header_sendable a.inRange).magic
    rw [hbytes, FragmentHeader.asBytes, List.append_assoc]
    exact List.take_left' hlen
  have hdiffer : config.sealing.fragments.magic ≠ config.sealing.magic := by
    unfold Sealing.fragments Sealing.magic
    split <;> decide
  have hread := FragmentHeader.refFromFront_asBytes (a.sending.header_sendable a.inRange)
    (a.sending.part a.index)
  unfold receive
  dsimp only
  rw [hmagic, show (r.retain a.packet.now).magic = _ from hretain.magic_eq, if_neg hdiffer, hbytes,
    hread]
  dsimp only
  rw [if_neg, show a.packet.now = a.now from rfl, acceptable_header hretain a,
    Sending.assembly_begun, hretain.config_eq]
  · rfl
  rintro (hne | hnil)
  · exact hne hretain.fragmentMagic_eq.symm
  · exact a.sending.part_ne_nil a.inRange hnil

end Reassembly

namespace Reassembly

def after (r : Reassembly) (ps : List Packet) : Reassembly :=
  ps.foldl (fun r p => (r.receive p).1) r

theorem retain_getElem? (r : Reassembly) (now : Time) (key : AssemblyKey) :
    (r.retain now).pending[key]? =
      r.pending[key]?.filter fun entry => decide (now - entry.created < r.config.timeout) := by
  show (r.pending.filter fun _ entry => decide (now - entry.created < r.config.timeout))[key]? = _
  rw [TreeMap.getElem?_filter']

theorem after_snoc (r : Reassembly) (ps : List Packet) (p : Packet) :
    r.after (ps ++ [p]) = ((r.after ps).receive p).1 := by
  unfold after
  rw [List.foldl_append, List.foldl_cons, List.foldl_nil]

theorem receiveAll_getElem? (r : Reassembly) (ps : List Packet) (p : Packet) (qs : List Packet) :
    (r.receiveAll (ps ++ p :: qs))[ps.length]? = some ((r.after ps).receive p).2 := by
  induction ps generalizing r with
  | nil => rfl
  | cons q ps ih => exact ih (r.receive q).1

end Reassembly

/-! ## Any packets -/

namespace Assembly

/-- An assembly keeps what it counts, and no more than the frame declares. -/
structure Tight (maxFrame : Nat) (entry : Assembly) : Prop where
  retained_eq : entry.retained = (entry.parts.map fun part => (part.getD []).length).sum
  retained_le : entry.retained ≤ entry.total
  total_le : entry.total ≤ maxFrame

/-- Filling an empty slot adds the length of what it is filled with. -/
theorem sum_set {parts : List (Option (List UInt8))} {index : Nat} (body : List UInt8)
    (hlt : index < parts.length) (hempty : (parts[index]?.join).isNone = true) :
    ((parts.set index (some body)).map fun part => (part.getD []).length).sum =
      (parts.map fun part => (part.getD []).length).sum + body.length := by
  induction parts generalizing index with
  | nil => cases hlt
  | cons part parts ih =>
    cases index with
    | zero =>
      cases part with
      | none => simp [Nat.add_comm]
      | some _ => simp at hempty
    | succ index =>
      simp only [List.set_cons_succ, List.map_cons, List.sum_cons]
      rw [ih (Nat.lt_of_succ_lt_succ hlt) hempty, Nat.add_assoc]

theorem total_add (entry : Assembly) (index : Nat) (body : List UInt8) :
    (entry.add index body).total = entry.total := by
  unfold add
  split <;> rfl

/-- A fragment that is not too long leaves the assembly tight. -/
theorem Tight.add {maxFrame : Nat} {entry : Assembly} (h : entry.Tight maxFrame) {index : Nat}
    (body : List UInt8) (hlt : index < entry.parts.length)
    (hlong : ¬ (entry.lacks index = true ∧ entry.total < (entry.add index body).retained)) :
    (entry.add index body).Tight maxFrame := by
  unfold Assembly.add at hlong ⊢
  by_cases hlacks : entry.lacks index = true
  · rw [if_pos hlacks] at hlong ⊢
    refine ⟨?_, Nat.le_of_not_lt fun hover => hlong ⟨hlacks, hover⟩, h.total_le⟩
    rw [sum_set body hlt hlacks, h.retained_eq]
  · rw [if_neg hlacks]
    exact h

end Assembly

namespace Reassembly

variable {r : Reassembly}

/-- There are no more assemblies than configured, and each is tight. -/
structure Bounded (r : Reassembly) : Prop where
  size_le : r.pending.size ≤ r.config.maxPending.val
  tight : ∀ (key : AssemblyKey) (entry : Assembly), r.pending[key]? = some entry →
    entry.Tight r.maxFrame

theorem Bounded.remove (h : r.Bounded) (key : AssemblyKey) : (r.remove key).Bounded where
  size_le := TreeMap.size_erase_le.trans h.size_le
  tight key' entry hentry := by
    rw [Reassembly.remove, TreeMap.getElem?_erase] at hentry
    split at hentry
    · cases hentry
    · exact h.tight key' entry hentry

theorem Bounded.retain (h : r.Bounded) (now : Time) : (r.retain now).Bounded where
  size_le := TreeMap.size_filter_le_size.trans h.size_le
  tight key entry hentry := by
    rw [retain_getElem?] at hentry
    exact h.tight key entry (Option.eq_some_of_filter_eq_some hentry)

/-- An assembly that is there, or for which there is room, may be put. -/
theorem Bounded.put (h : r.Bounded) {key : AssemblyKey} {entry : Assembly}
    (htight : entry.Tight r.maxFrame)
    (hroom : key ∈ r.pending ∨ r.pending.size < r.config.maxPending.val) :
    (r.put key entry).Bounded where
  size_le := by
    rw [Reassembly.put, TreeMap.size_insert]
    split
    · exact h.size_le
    next hnew => exact hroom.resolve_left hnew
  tight key' entry' hentry := by
    rw [Reassembly.put, TreeMap.getElem?_insert] at hentry
    split at hentry
    · cases hentry
      exact htight
    · exact h.tight key' entry' hentry

/-- Adding a fragment keeps the bounds, and a frame it returns is as long as declared. -/
theorem Bounded.accept (hb : r.Bounded) {key : AssemblyKey} {entry : Assembly} {h : FragmentHeader}
    {body : List UInt8} (htight : entry.Tight r.maxFrame) (hindex : h.index < h.count)
    (hroom : key ∈ r.pending ∨ r.pending.size < r.config.maxPending.val) :
    (r.accept key entry h body).1.Bounded ∧
      ∀ out, (r.accept key entry h body).2 = some out → out.length = h.total ∧
        h.total ≤ r.maxFrame := by
  unfold Reassembly.accept
  split
  · exact ⟨hb.remove key, fun out hout => nomatch hout⟩
  next hsame =>
    simp only [ne_eq, not_or, not_not] at hsame
    obtain ⟨htotal, hcount⟩ := hsame
    dsimp only
    split
    · exact ⟨hb.remove key, fun out hout => nomatch hout⟩
    next hlong =>
      have hnext := htight.add body (hcount ▸ hindex) (htotal ▸ hlong)
      have hsame := (entry.total_add h.index body).trans htotal
      generalize entry.add h.index body = next at hnext hsame
      split
      · exact ⟨hb.put hnext hroom, fun out hout => nomatch hout⟩
      split
      · exact ⟨hb.remove key, fun out hout => nomatch hout⟩
      next hfull =>
        refine ⟨hb.remove key, fun out hout => ?_⟩
        obtain rfl := Option.some.inj hout
        rw [List.length_flatMap, ← hnext.retained_eq]
        exact ⟨not_not.mp hfull, hsame ▸ hnext.total_le⟩

/-- What a packet may return: itself, or a frame as long as its header declares. -/
def Returns (r : Reassembly) (p : Packet) (out : List UInt8) : Prop :=
  out.length ≤ r.maxFrame ∧
    (p.bytes.take 4 = r.magic ∧ out = p.bytes ∨
      ∃ h body, FragmentHeader.refFromFront p.bytes = some (h, body) ∧ out.length = h.total)

theorem Bounded.receive (hb : r.Bounded) (p : Packet) :
    (r.receive p).1.Bounded ∧ ∀ out, (r.receive p).2 = some out → r.Returns p out := by
  have hkept := hb.retain p.now
  unfold Reassembly.receive
  dsimp only
  split
  next hmagic =>
    refine ⟨hkept, fun out hout => ?_⟩
    split at hout
    next hlen =>
      cases hout
      exact ⟨hlen, .inl ⟨hmagic, rfl⟩⟩
    · cases hout
  · split
    · exact ⟨hkept, fun out hout => nomatch hout⟩
    next h body hread =>
      split
      · exact ⟨hkept, fun out hout => nomatch hout⟩
      split
      · exact ⟨hkept, fun out hout => nomatch hout⟩
      next hok =>
        simp only [acceptable, Bool.not_not, Bool.or_eq_true, decide_eq_true_eq, not_or, Nat.not_le,
          Nat.not_lt] at hok
        have hreturns : ∀ {entry : Assembly}, entry.Tight (r.retain p.now).maxFrame →
            (⟨p.link, p.session, p.sender, fromBE h.id⟩ ∈ (r.retain p.now).pending ∨
              (r.retain p.now).pending.size < (r.retain p.now).config.maxPending.val) →
            ((r.retain p.now).accept ⟨p.link, p.session, p.sender, fromBE h.id⟩ entry h
              body).1.Bounded ∧
              ∀ out,
                ((r.retain p.now).accept ⟨p.link, p.session, p.sender, fromBE h.id⟩ entry h
                  body).2 =
                some out → r.Returns p out := by
          intro entry htight hroom
          obtain ⟨hbounded, hout⟩ := @Bounded.accept _ hkept _ _ h body htight hok.1.1.2 hroom
          refine ⟨hbounded, fun out heq => ?_⟩
          obtain ⟨hlen, hle⟩ := hout out heq
          exact ⟨hlen.trans_le hle, .inr ⟨h, body, hread, hlen⟩⟩
        split
        next entry hentry =>
          refine hreturns (hkept.tight _ entry hentry) (.inl ?_)
          rw [TreeMap.mem_iff_isSome_getElem?, hentry]
          rfl
        next hnone =>
          split
          · exact ⟨hkept, fun out hout => nomatch hout⟩
          next hroom =>
            refine hreturns ⟨?_, Nat.zero_le _, hok.1.2⟩ (.inr (Nat.lt_of_not_le hroom))
            simp [begun]

theorem bounded_after (config : RouterConfig) (ps : List Packet) :
    (config.fragments.after ps).Of config ∧ (config.fragments.after ps).Bounded := by
  induction ps using List.reverseRecOn with
  | nil =>
    refine ⟨of_fragments config, Nat.zero_le _, fun key entry hentry => ?_⟩
    have hempty : config.fragments.pending[key]? = none := TreeMap.getElem?_emptyc
    cases hempty.symm.trans hentry
  | append_singleton ps p ih =>
    rw [after_snoc]
    exact ⟨ih.1.receive p, (ih.2.receive p).1⟩

end Reassembly

/-! ## A run of fragments -/

section Run

variable {config : RouterConfig} {frames : List (Sending config)}
  {past future : List (Arrival config)} {a : Arrival config} {r : Reassembly}

open Arrival (seen)

/-- Fragments of some frames that arrive in any order, with any repeats of a frame that is not
complete yet, each less than the timeout after the others of its frame. -/
structure Feeds (frames : List (Sending config)) (arrivals : List (Arrival config)) : Prop where
  distinct : (frames.map Sending.key).Nodup
  fit : frames.length ≤ config.reassembly.maxPending.val
  sent : ∀ a ∈ arrivals, a.sending ∈ frames
  ordered : arrivals.Pairwise fun a b => a.now ≤ b.now
  timely : arrivals.Pairwise fun a b => a.key = b.key → b.now - a.now < config.reassembly.timeout
  wanted : ∀ past a future, arrivals = past ++ a :: future → ¬ a.sending.Complete (seen a.key past)

theorem Feeds.sending_eq (h : Feeds frames past) {b : Arrival config} (ha : a ∈ past)
    (hb : b ∈ past) (hkey : a.key = b.key) : a.sending = b.sending :=
  List.inj_on_of_nodup_map h.distinct (h.sent a ha) (h.sent b hb) hkey

theorem Feeds.seen_subset (h : Feeds frames past) (ha : a ∈ past) {before : List (Arrival config)}
    (hbefore : before ⊆ past) : seen a.key before ⊆ Finset.range a.sending.count := by
  intro k hk
  simp only [seen, List.mem_toFinset, List.mem_map, List.mem_filter, decide_eq_true_eq] at hk
  obtain ⟨b, ⟨hb, hkey⟩, rfl⟩ := hk
  rw [Finset.mem_range, ← h.sending_eq (hbefore hb) ha hkey]
  exact b.inRange

/-- Between two fragments: every frame with a fragment to come is held as far as it was
received, and is not too old when its fragments come. -/
structure Collects (frames : List (Sending config)) (past future : List (Arrival config))
    (r : Reassembly) :
    Prop where
  of : r.Of config
  keys : ∀ key entry, r.pending[key]? = some entry → key ∈ frames.map Sending.key
  held : ∀ a ∈ future, r.pending[a.key]? = none ∧ seen a.key past = ∅ ∨
    ∃ t, r.pending[a.key]? = some (a.sending.assembly t (seen a.key past)) ∧
      ∀ b ∈ future, b.key = a.key → b.now - t < config.reassembly.timeout

/-- A reassembly without the key of a frame has room for it. -/
theorem size_lt (hkeys : ∀ key entry, r.pending[key]? = some entry → key ∈ frames.map Sending.key)
    (hmem : a.sending ∈ frames) (hnone : r.pending[a.key]? = none) :
    r.pending.size < frames.length := by
  have hnodup : (a.key :: r.pending.keys).Nodup := by
    refine List.nodup_cons.mpr ⟨?_, TreeMap.nodup_keys⟩
    rw [TreeMap.mem_keys]
    exact fun hin => by simp [TreeMap.mem_iff_isSome_getElem?, hnone] at hin
  have hsubset : a.key :: r.pending.keys ⊆ frames.map Sending.key := by
    intro key hkey
    rcases List.mem_cons.mp hkey with rfl | hkey
    · exact List.mem_map_of_mem hmem
    obtain ⟨entry, hentry⟩ := Option.isSome_iff_exists.mp
      (TreeMap.mem_iff_isSome_getElem?.mp (TreeMap.mem_keys.mp hkey))
    exact hkeys key entry hentry
  have hlen := (hnodup.subperm hsubset).length_le
  rw [List.length_cons, List.length_map, TreeMap.length_keys] at hlen
  exact hlen

/-- Nothing that has a fragment to come is dropped for its age. -/
theorem Collects.retain (h : Collects frames past (a :: future) r)
    (hordered : ∀ b ∈ future, a.now ≤ b.now) :
    Collects frames past (a :: future) (r.retain a.now) where
  of := h.of.pending _
  keys key entry hentry := by
    rw [Reassembly.retain_getElem?] at hentry
    exact h.keys key entry (Option.eq_some_of_filter_eq_some hentry)
  held b hb := by
    rw [Reassembly.retain_getElem?]
    rcases h.held b hb with ⟨hnone, hseen⟩ | ⟨t, hsome, hlast⟩
    · exact .inl ⟨by rw [hnone, Option.filter_none], hseen⟩
    refine .inr ⟨t, ?_, hlast⟩
    have hle : a.now ≤ b.now := by
      rcases List.mem_cons.mp hb with rfl | hb
      · exact Nat.le_refl _
      · exact hordered b hb
    have hyoung : a.now - t < r.config.timeout := by
      rw [h.of.config_eq]
      exact (Nat.sub_le_sub_right hle t).trans_lt (hlast b hb rfl)
    rw [hsome, Option.filter_some]
    exact if_pos (decide_eq_true hyoung)

theorem Collects.step (hf : Feeds frames (past ++ a :: future))
    (h : Collects frames past (a :: future) r) :
    (r.receive a.packet).2 =
      (if a.sending.Complete (seen a.key (past ++ [a])) then some a.sending.bytes
        else none) ∧
      Collects frames (past ++ [a]) future (r.receive a.packet).1 := by
  have hin : a ∈ past ++ a :: future := List.mem_append_right _ List.mem_cons_self
  have hsubset : seen a.key past ⊆ Finset.range a.sending.count :=
    hf.seen_subset hin (List.subset_append_left _ _)
  have hsnoc : seen a.key (past ++ [a]) = insert a.index (seen a.key past) := by
    rw [Arrival.seen_snoc, if_pos rfl]
  have hafter := (List.pairwise_append.mp hf.ordered).2.1
  have hkept := h.retain fun b hb => List.rel_of_pairwise_cons hafter hb
  -- both an assembly that is there and one that is begun are of what was received
  obtain ⟨t, hreceive, hyoung⟩ : ∃ t, r.receive a.packet = (r.retain a.now).accept a.key
      (a.sending.assembly t (seen a.key past)) (a.sending.header a.index) (a.sending.part a.index) ∧
        ∀ b ∈ future, b.key = a.key → b.now - t < config.reassembly.timeout := by
    rw [Reassembly.receive_packet h.of a]
    rcases hkept.held a List.mem_cons_self with ⟨hnone, hseen⟩ | ⟨t, hsome, hlast⟩
    · have hroom := size_lt hkept.keys (hf.sent a hin) hnone
      have htimely := (List.pairwise_append.mp hf.timely).2.1
      refine ⟨a.now, ?_, fun b hb hkey => List.rel_of_pairwise_cons htimely hb hkey.symm⟩
      rw [hnone, hseen]
      exact if_neg (Nat.not_le.mpr (hroom.trans_le hf.fit))
    · refine ⟨t, ?_, fun b hb => hlast b (List.mem_cons_of_mem _ hb)⟩
      rw [hsome]
  have haccept : (r.retain a.now).accept a.key (a.sending.assembly t (seen a.key past))
      (a.sending.header a.index) (a.sending.part a.index) =
      if a.sending.Complete (insert a.index (seen a.key past)) then
        ((r.retain a.now).remove a.key, some a.sending.bytes)
      else ((r.retain a.now).put a.key (a.sending.assembly t (insert a.index (seen a.key past))),
        none) :=
    Sending.accept_eq _ hsubset a.inRange
  rw [hreceive, haccept, hsnoc]
  split
  next hall =>
    refine ⟨rfl, hkept.of.pending _, fun key entry hentry => ?_, fun b hb => ?_⟩
    · rw [Reassembly.remove, TreeMap.getElem?_erase] at hentry
      split at hentry
      · cases hentry
      · exact hkept.keys key entry hentry
    · -- a frame that is complete has no fragment to come
      have hne : a.key ≠ b.key := by
        intro hkey
        obtain ⟨mid, rest, rfl⟩ := List.append_of_mem hb
        have hsplit : past ++ a :: (mid ++ b :: rest) = past ++ [a] ++ mid ++ b :: rest := by simp
        refine hf.wanted _ b rest hsplit ?_
        have hbin : b ∈ past ++ a :: (mid ++ b :: rest) := by simp
        refine Finset.Subset.antisymm
          (hf.seen_subset hbin (hsplit ▸ List.subset_append_left _ _)) ?_
        rw [← hf.sending_eq hin hbin hkey, ← hall, ← hsnoc, hkey]
        exact Arrival.seen_mono b.key (past ++ [a]) mid
      rw [Arrival.seen_snoc, if_neg hne, Reassembly.remove, TreeMap.getElem?_erase,
        if_neg (by simpa [compare_eq_iff_eq] using hne)]
      rcases hkept.held b (List.mem_cons_of_mem _ hb) with hnone | ⟨t', hsome, hlast⟩
      · exact .inl hnone
      · exact .inr ⟨t', hsome, fun c hc => hlast c (List.mem_cons_of_mem _ hc)⟩
  next hmore =>
    refine ⟨rfl, hkept.of.pending _, fun key entry hentry => ?_, fun b hb => ?_⟩
    · rw [Reassembly.put, TreeMap.getElem?_insert] at hentry
      split at hentry
      next hkey =>
        rw [← compare_eq_iff_eq.mp hkey]
        exact List.mem_map_of_mem (hf.sent a hin)
      · exact hkept.keys key entry hentry
    · rw [Arrival.seen_snoc, Reassembly.put, TreeMap.getElem?_insert]
      by_cases hkey : a.key = b.key
      · have hbin : b ∈ past ++ a :: future := List.mem_append_right _ (List.mem_cons_of_mem _ hb)
        rw [if_pos (compare_eq_iff_eq.mpr hkey), if_pos hkey, ← hf.sending_eq hin hbin hkey, ← hkey]
        exact .inr ⟨t, rfl, hyoung⟩
      rw [if_neg (by simpa [compare_eq_iff_eq] using hkey), if_neg hkey]
      rcases hkept.held b (List.mem_cons_of_mem _ hb) with hnone | ⟨t', hsome, hlast⟩
      · exact .inl hnone
      · exact .inr ⟨t', hsome, fun c hc => hlast c (List.mem_cons_of_mem _ hc)⟩

theorem Feeds.collects (hf : Feeds frames (past ++ future)) :
    Collects frames past future (config.fragments.after (past.map Arrival.packet)) := by
  induction past using List.reverseRecOn generalizing future with
  | nil =>
    have hempty : ∀ key, (config.fragments.after []).pending[key]? = none := fun _ =>
      TreeMap.getElem?_emptyc
    refine ⟨Reassembly.of_fragments config, fun key entry hentry => ?_,
      fun a _ => .inl ⟨hempty _, rfl⟩⟩
    cases (hempty key).symm.trans hentry
  | append_singleton past a ih =>
    rw [List.append_assoc, List.singleton_append] at hf
    rw [List.map_append, List.map_singleton, Reassembly.after_snoc]
    exact (Collects.step hf (ih hf)).2

/-- A fragment returns its frame when it is the last missing one, and nothing otherwise. -/
theorem Feeds.returns (hf : Feeds frames (past ++ a :: future)) :
    (config.fragments.receiveAll ((past ++ a :: future).map Arrival.packet))[past.length]? =
      some (if a.sending.Complete (seen a.key (past ++ [a])) then some a.sending.bytes
        else none) := by
  rw [List.map_append, List.map_cons, ← List.length_map (f := Arrival.packet),
    Reassembly.receiveAll_getElem?]
  rw [(Collects.step hf hf.collects).1]

theorem exists_last {key : AssemblyKey} {arrivals : List (Arrival config)}
    (h : ∃ a ∈ arrivals, a.key = key) :
    ∃ past a future, arrivals = past ++ a :: future ∧ a.key = key ∧ ∀ b ∈ future, b.key ≠ key := by
  induction arrivals using List.reverseRecOn with
  | nil => obtain ⟨a, ha, -⟩ := h; cases ha
  | append_singleton arrivals a ih =>
    by_cases hkey : a.key = key
    · exact ⟨arrivals, a, [], rfl, hkey, fun b hb => nomatch hb⟩
    obtain ⟨b, hb, hbkey⟩ := h
    have hin : b ∈ arrivals := by
      rcases List.mem_append.mp hb with hb | hb
      · exact hb
      · rw [List.mem_singleton.mp hb] at hbkey
        exact absurd hbkey hkey
    obtain ⟨past, c, future, rfl, hc, hlast⟩ := ih ⟨b, hin, hbkey⟩
    refine ⟨past, c, future ++ [a], by simp, hc, fun d hd => ?_⟩
    rcases List.mem_append.mp hd with hd | hd
    · exact hlast d hd
    · rw [List.mem_singleton.mp hd]
      exact hkey

theorem seen_append_of_ne {key : AssemblyKey} (h : ∀ b ∈ future, b.key ≠ key) :
    seen key (past ++ future) = seen key past := by
  unfold seen
  have hnone : future.filter (fun b => b.key = key) = [] :=
    List.filter_eq_nil_iff.mpr fun b hb => by simpa using h b hb
  rw [List.filter_append, hnone, List.append_nil]

theorem Feeds.returned_once {arrivals : List (Arrival config)} (hf : Feeds frames arrivals)
    {s : Sending config} (hs : s ∈ frames) (hall : s.Complete (seen s.key arrivals)) :
    ∃! n : Nat, ∃ a, arrivals[n]? = some a ∧ a.sending = s ∧
      (config.fragments.receiveAll (arrivals.map Arrival.packet))[n]? = some (some s.bytes) := by
  have hsome : ∃ a ∈ arrivals, a.key = s.key := by
    have hzero : 0 ∈ seen s.key arrivals := hall ▸ Finset.mem_range.mpr s.count_pos
    simp only [seen, List.mem_toFinset, List.mem_map, List.mem_filter, decide_eq_true_eq] at hzero
    obtain ⟨a, ⟨ha, hkey⟩, -⟩ := hzero
    exact ⟨a, ha, hkey⟩
  have hsending : ∀ a ∈ arrivals, a.key = s.key → a.sending = s := fun a ha hkey =>
    List.inj_on_of_nodup_map hf.distinct (hf.sent a ha) hs hkey
  obtain ⟨past, a, future, rfl, hkey, hlast⟩ := exists_last hsome
  have ha : a.sending = s := hsending a (by simp) hkey
  -- nothing of the frame comes after its last fragment, so that is when it is complete
  have hdone : a.sending.Complete (seen a.key (past ++ [a])) := by
    rw [List.append_cons, seen_append_of_ne hlast, ← hkey] at hall
    rwa [ha]
  refine ⟨past.length, ⟨a, by simp, ha, ?_⟩, ?_⟩
  · rw [hf.returns, if_pos hdone, ha]
  rintro n ⟨b, hb, hbs, hout⟩
  have hbkey : b.key = a.key := congrArg Sending.key (hbs.trans ha.symm)
  rcases lt_trichotomy n past.length with hlt | heq | hgt
  · -- it would be complete before its last fragment
    rw [List.getElem?_append_left hlt] at hb
    obtain ⟨_, hget⟩ := List.getElem?_eq_some_iff.mp hb
    have hpast : past = past.take n ++ b :: past.drop (n + 1) := by
      rw [← hget, ← List.drop_eq_getElem_cons hlt, List.take_append_drop]
    have hlen : (past.take n).length = n := List.length_take_of_le hlt.le
    generalize past.take n = before at hpast hlen
    generalize past.drop (n + 1) = mid at hpast
    subst hpast
    have hsplit : before ++ b :: mid ++ a :: future = before ++ b :: (mid ++ a :: future) := by simp
    have hearlier : Feeds frames (before ++ b :: (mid ++ a :: future)) := hsplit ▸ hf
    rw [hsplit, ← hlen, hearlier.returns] at hout
    have hearly : b.sending.Complete (seen b.key (before ++ [b])) := by
      by_contra hnot
      rw [if_neg hnot] at hout
      cases hout
    refine absurd ?_ (hf.wanted (before ++ b :: mid) a future rfl)
    refine Finset.Subset.antisymm (hf.seen_subset (by simp) (List.subset_append_left _ _)) ?_
    rw [ha, ← hbs, ← hearly, hbkey, List.append_cons before b mid]
    exact Arrival.seen_mono a.key (before ++ [b]) mid
  · exact heq
  · rw [List.getElem?_append_right hgt.le, ← Nat.succ_pred_eq_of_pos (Nat.sub_pos_of_lt hgt),
      List.getElem?_cons_succ] at hb
    exact absurd (hbkey.trans hkey) (hlast b (List.mem_of_getElem? hb))

end Run

open Arrival (seen) in
/-- Fragments come back as frames.  Of fragments of some frames, in any order and with repeats,
each returns its frame when it is the last missing one and nothing otherwise, so that a frame
whose fragments all arrive is returned once.  Of any packets, what is returned is a frame of
the length it declares or an unfragmented one, and the assemblies keep within their bounds. -/
theorem fragments_reassemble (config : RouterConfig) :
    (∀ (frames : List (Sending config)) (arrivals : List (Arrival config)), Feeds frames arrivals →
      (∀ past a future, arrivals = past ++ a :: future →
        (config.fragments.receiveAll (arrivals.map Arrival.packet))[past.length]? =
          some (if a.sending.Complete (seen a.key (past ++ [a])) then some a.sending.bytes
            else none)) ∧
      ∀ s ∈ frames, s.Complete (seen s.key arrivals) →
        ∃! n : Nat, ∃ a, arrivals[n]? = some a ∧ a.sending = s ∧
          (config.fragments.receiveAll (arrivals.map Arrival.packet))[n]? = some (some s.bytes)) ∧
    ∀ ps : List Packet,
      (config.fragments.after ps).pending.size ≤ config.reassembly.maxPending.val ∧
      (∀ (key : AssemblyKey) (entry : Assembly), (config.fragments.after ps).pending[key]? =
        some entry → entry.Tight (config.maxFrame.val + config.sealing.overhead)) ∧
      ∀ p out, ((config.fragments.after ps).receive p).2 = some out →
        config.fragments.Returns p out := by
  refine ⟨fun frames arrivals hf => ⟨?_, fun s hs hall => hf.returned_once hs hall⟩, fun ps => ?_⟩
  · rintro past a future rfl
    exact hf.returns
  obtain ⟨hof, hbounded⟩ := Reassembly.bounded_after config ps
  refine ⟨?_, fun key entry hentry => ?_, fun p out hout => ?_⟩
  · exact hof.config_eq ▸ hbounded.size_le
  · exact hof.maxFrame_eq ▸ hbounded.tight key entry hentry
  have hreturns := (hbounded.receive p).2 out hout
  unfold Reassembly.Returns at hreturns
  rw [hof.maxFrame_eq, hof.magic_eq] at hreturns
  exact hreturns

/-- A router of the smallest frames a data header fits, whose fragments carry two bytes each on
a link of 30 bytes. -/
def smallRouter : RouterConfig where
  maxFrame := ⟨536, Nat.succ_pos 535⟩
  sealing := ⟨false⟩
  reassembly := ⟨⟨1, Nat.one_pos⟩, ⟨268, Nat.succ_pos 267⟩, 10, Nat.le_of_ble_eq_true rfl⟩
  sized := Nat.le_of_ble_eq_true rfl

def threeBytes : Sending smallRouter where
  link := 0
  session := none
  sender := .ofChar 'a'
  id := List.replicate 16 0
  bytes := [1, 2, 3]
  mtu := 30
  idLen := rfl
  nonempty := Nat.succ_pos 2
  short := Nat.le_of_ble_eq_true rfl
  admitted := rfl

/-- Its second fragment, that one again, and its first. -/
def outOfOrder : List (Arrival smallRouter) :=
  [⟨threeBytes, 1, 0, Nat.one_lt_two⟩, ⟨threeBytes, 1, 3, Nat.one_lt_two⟩,
    ⟨threeBytes, 0, 5, Nat.two_pos⟩]

theorem feeds_outOfOrder : Feeds [threeBytes] outOfOrder where
  distinct := List.nodup_singleton _
  fit := Nat.le_refl 1
  sent a ha := by
    simp only [outOfOrder, List.mem_cons, List.not_mem_nil, or_false] at ha
    rcases ha with rfl | rfl | rfl <;> exact List.mem_singleton_self _
  ordered := by simp [outOfOrder]
  timely := by simp [outOfOrder, smallRouter]
  wanted := by
    intro past a future h
    rcases past with _ | ⟨x, _ | ⟨y, _ | ⟨z, past⟩⟩⟩
    · cases h
      decide
    · cases h
      decide
    · cases h
      decide
    · have hlen := congrArg List.length h
      simp [outOfOrder] at hlen

/-- The three bytes come back with the fragment that was missing. -/
theorem fragments_reassemble_outOfOrder :
    (smallRouter.fragments.receiveAll (outOfOrder.map Arrival.packet))[2]? =
      some (some [1, 2, 3]) :=
  ((fragments_reassemble smallRouter).1 [threeBytes] outOfOrder feeds_outOfOrder).1
    (outOfOrder.take 2) ⟨threeBytes, 0, 5, Nat.two_pos⟩ [] rfl |>.trans (by decide)

end Groupnet.Network
