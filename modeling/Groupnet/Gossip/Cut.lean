import Groupnet.Gossip.Touch
import Groupnet.Wire.Accepted

/-!
# Frames are cut to the budget

Three builders cut what they send to the frame budget, each with a running sum of encoded
sizes and each taking its first item whatever its size.  So a frame over the budget holds
one item: a digest line, a want, or a section of one entry at most.  The sums are those of
the encoding.
-/

namespace Groupnet

open Wire (Frame)

namespace GroupEngine

/-! ## Digests and requests -/

theorem fillSlice_append (budget size : Nat) (slice rest : List Wire.NodeDigest) :
    (fillSlice budget size slice rest).1 ++ (fillSlice budget size slice rest).2 =
      slice ++ rest := by
  induction rest generalizing size slice with
  | nil => rfl
  | cons d rest ih =>
    unfold fillSlice
    split
    · rfl
    · rw [ih, List.append_assoc, List.singleton_append]

/-- An item is taken where it fits, or as the first of its list. -/
theorem takes_cut {α : Type} {kept : List α} {budget total : Nat} (x : α)
    (h : ¬ (budget < total && !kept.isEmpty) = true) :
    total ≤ budget ∨ (kept ++ [x]).length ≤ 1 := by
  simp only [Bool.and_eq_true, decide_eq_true_eq, Bool.not_eq_true', not_and,
    Bool.not_eq_false, List.isEmpty_iff] at h
  rcases Nat.lt_or_ge budget total with hover | hfits
  · exact Or.inr (by simp [h hover])
  · exact Or.inl hfits

/-- A slice is within the budget, or it is one line at most. -/
theorem cut_fillSlice {budget base size : Nat} {slice : List Wire.NodeDigest}
    (rest : List Wire.NodeDigest) (hsize : size = base + (slice.map Wire.digestLen).sum)
    (hcut : size ≤ budget ∨ slice.length ≤ 1) :
    base + ((fillSlice budget size slice rest).1.map Wire.digestLen).sum ≤ budget ∨
      (fillSlice budget size slice rest).1.length ≤ 1 := by
  induction rest generalizing size slice with
  | nil => exact hsize ▸ hcut
  | cons d rest ih =>
    unfold fillSlice
    split
    · exact hsize ▸ hcut
    next htaken => exact ih (by simp [hsize, Nat.add_assoc]) (takes_cut d htaken)

theorem cut_keepWants {budget base size : Nat} {kept : List Wire.NodeWant}
    (wants : List Wire.NodeWant) (hsize : size = base + (kept.map Wire.wantLen).sum)
    (hcut : size ≤ budget ∨ kept.length ≤ 1) :
    base + ((keepWants budget size kept wants).map Wire.wantLen).sum ≤ budget ∨
      (keepWants budget size kept wants).length ≤ 1 := by
  induction wants generalizing size kept with
  | nil => exact hsize ▸ hcut
  | cons w wants ih =>
    unfold keepWants
    split
    · exact hsize ▸ hcut
    next htaken => exact ih (by simp [hsize, Nat.add_assoc]) (takes_cut w htaken)

/-- A frame of a chunked digest is cut to the budget.  It holds lines of the digest, and
all the metadata or none. -/
theorem of_mem_digestChunks {group : GroupId} {budget fuel : Nat} {md : List Wire.MetaDelta}
    {rest : List Wire.NodeDigest} {f : Frame} (h : f ∈ digestChunks group budget fuel md rest) :
    f.members = [] ∧ f.lead = none ∧ (f.metadata = [] ∨ f.metadata = md) ∧
      (f.kind = .digest ∧ f.group = group ∧ f.target = none) ∧ CutTo budget f ∧
      ∀ d ∈ f.digest, d ∈ rest := by
  induction fuel generalizing md rest with
  | zero => cases h
  | succ fuel ih =>
    rw [digestChunks] at h
    dsimp only at h
    generalize hbase : 1 + 1 + (4 + group.str.utf8ByteSize) + 1 + 4 + (4 + Wire.metadataLen md) =
      base at h
    have hslice := fillSlice_append budget base [] rest
    have hcut : base + ((fillSlice budget base [] rest).1.map Wire.digestLen).sum ≤ budget ∨
        (fillSlice budget base [] rest).1.length ≤ 1 :=
          cut_fillSlice rest rfl (Or.inr (Nat.zero_le _))
    generalize fillSlice budget base [] rest = filled at h hslice hcut
    rw [List.nil_append] at hslice
    have hframe : ∀ frame : Frame, frame = { Frame.bare .digest group none with
          digest := filled.1, metadata := md } → frame.members = [] ∧
        frame.lead = none ∧ (frame.metadata = [] ∨ frame.metadata = md) ∧
        (frame.kind = .digest ∧ frame.group = group ∧ frame.target = none) ∧ CutTo budget frame ∧
        ∀ d ∈ frame.digest, d ∈ rest := by
      rintro frame rfl
      refine ⟨rfl, rfl, .inr rfl, ⟨rfl, rfl, rfl⟩, ?_,
        fun d hd => hslice ▸ List.mem_append_left _ hd⟩
      unfold CutTo
      rw [Wire.length_encode]
      refine hcut.imp (fun hle => ?_) fun hone => ⟨hone, Nat.zero_le _⟩
      have hlen : Wire.frameLen { Frame.bare .digest group none with
        digest := filled.1, metadata := md } =
          1 + 1 + (4 + group.str.utf8ByteSize) + 1 + 4 + 0 + (filled.1.map Wire.digestLen).sum +
            (4 + Wire.metadataLen md) := rfl
      omega
    split at h
    · cases h
    split at h
    · exact hframe f (List.mem_singleton.mp h)
    rcases List.mem_cons.mp h with h | h
    · exact hframe f h
    obtain ⟨hmembers, hlead, hmd, hhead, hcut, hrest⟩ := ih h
    refine ⟨hmembers, hlead, .inl (hmd.elim id id), hhead, hcut, ?_⟩
    exact fun d hd => hslice ▸ List.mem_append_right _ (hrest d hd)

/-! ## Deltas -/

/-- A packed section is within the budget, or it opens the frame with one entry at most. -/
theorem cut_packEntries {budget size header : Nat} {first : Bool} {p : Packed}
    (row : List Wire.EntryDelta) (hsize : p.size = header + (p.entries.map Wire.entryLen).sum)
    (hcut : size + p.size ≤ budget ∨ first = true ∧ p.entries.length ≤ 1) :
    (packEntries budget size first p row).size =
        header + ((packEntries budget size first p row).entries.map Wire.entryLen).sum ∧
      (size + (packEntries budget size first p row).size ≤ budget ∨
        first = true ∧ (packEntries budget size first p row).entries.length ≤ 1) := by
  induction row generalizing p with
  | nil => exact ⟨hsize, hcut⟩
  | cons ed row ih =>
    unfold packEntries
    split
    · exact ⟨hsize, hcut⟩
    next htaken =>
      simp only [Bool.and_eq_true, decide_eq_true_eq, Bool.not_eq_true', not_and,
        Bool.not_eq_false, List.isEmpty_iff] at htaken
      refine ih (by simp [hsize, Nat.add_assoc]) ?_
      rcases Nat.lt_or_ge budget (size + p.size + Wire.entryLen ed) with hover | hfits
      · obtain ⟨hfirst, hnil⟩ := htaken hover
        exact Or.inr ⟨hfirst, by simp [hnil]⟩
      · exact Or.inl (by dsimp only; omega)

/-- A row of sections is within the budget, or it is one section of one entry at most. -/
def CutSections (budget base : Nat) (sections : List Wire.MemberDelta) : Prop :=
  base + (sections.map Wire.memberLen).sum ≤ budget ∨
    sections = [] ∨ ∃ s, sections = [s] ∧ s.entries.length ≤ 1

theorem cut_packWants (e : GroupEngine) (now : Time) {budget base size : Nat}
    {sections : List Wire.MemberDelta} {wants : List (NodeId × Nat)}
    (hsize : size = base + (sections.map Wire.memberLen).sum)
    (hcut : CutSections budget base sections) :
    CutSections budget base (e.packWants now budget size sections wants) := by
  induction wants generalizing size sections with
  | nil => exact hcut
  | cons want wants ih =>
    obtain ⟨node, since⟩ := want
    unfold packWants
    split
    · exact ih hsize hcut
    next m hm =>
      dsimp only
      split
      · exact hcut
      next hroom =>
        simp only [Bool.and_eq_true, decide_eq_true_eq, Bool.not_eq_true', not_and,
          Bool.not_eq_false, List.isEmpty_iff] at hroom
        have hopen : size + Wire.memberHeaderLen node ≤ budget ∨
            sections.isEmpty = true ∧ ([] : List Wire.EntryDelta).length ≤ 1 := by
          rcases Nat.lt_or_ge budget (size + Wire.memberHeaderLen node) with hover | hfits
          · exact Or.inr ⟨by simp [hroom hover], Nat.zero_le _⟩
          · exact Or.inl hfits
        obtain ⟨hpsize, hpcut⟩ :=
          @cut_packEntries budget size (Wire.memberHeaderLen node) sections.isEmpty
          ⟨[], Wire.memberHeaderLen node, since, false⟩ (e.qualifying m since now) rfl hopen
        generalize packEntries budget size sections.isEmpty _ (e.qualifying m since now) =
          p at hpsize hpcut ⊢
        -- The section joins the row, or is left out for having nothing to tell.
        have hnext : ∀ (md : Wire.MemberDelta) (keep : Bool), md.node = node →
          md.entries = p.entries →
            CutSections budget base (if keep then sections ++ [md] else sections) ∧
            (if keep then size + p.size else size) =
              base + ((if keep then sections ++ [md] else sections).map Wire.memberLen).sum := by
          rintro md keep rfl hentries
          cases keep with
          | false => exact ⟨hcut, hsize⟩
          | true =>
            have hlen : ((sections ++ [md]).map Wire.memberLen).sum =
                (sections.map Wire.memberLen).sum + p.size := by
              simp [Wire.memberLen, hentries, hpsize]
            simp only [if_true, CutSections, hlen]
            refine ⟨?_, by omega⟩
            rcases hpcut with hfits | ⟨hnil, hone⟩
            · exact Or.inl (by omega)
            · rw [List.isEmpty_iff.mp hnil]
              exact Or.inr (Or.inr ⟨md, rfl, hentries ▸ hone⟩)
        split
        · exact (hnext _ _ rfl rfl).1
        · exact ih (hnext _ _ rfl rfl).2 (hnext _ _ rfl rfl).1

/-- A delta frame is within the budget, or it is one section of one entry at most. -/
theorem of_buildDeltaFrame {e : GroupEngine} {wants : List (NodeId × Nat)} {now : Time} {f : Frame}
    (h : e.buildDeltaFrame wants now = some f) :
    f.kind = .delta ∧ ((Wire.encode f).length ≤ e.config.maxDeltaFrameBytes.val ∨
      ∃ s, f.members = [s] ∧ s.entries.length ≤ 1) := by
  have hcut : CutSections e.config.maxDeltaFrameBytes.val (Wire.deltaFrameOverhead e.group)
      (e.packWants now e.config.maxDeltaFrameBytes.val
        (Wire.deltaFrameOverhead e.group) [] wants) :=
    e.cut_packWants now rfl (Or.inr (Or.inl rfl))
  unfold buildDeltaFrame at h
  dsimp only at h
  generalize e.packWants now _ _ [] wants = sections at h hcut
  split at h
  · cases h
  next hsome =>
    cases h
    refine ⟨rfl, ?_⟩
    rw [Wire.length_encode]
    rcases hcut with hfits | hnil | hone
    · exact Or.inl hfits
    · exact absurd (List.isEmpty_iff.mpr hnil) hsome
    · exact Or.inr hone

end GroupEngine

end Groupnet
