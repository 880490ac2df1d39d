import Groupnet.Lib.Checked
import Groupnet.Lib.Codec

/-!
# Frames on a byte stream

A frame is an eight-byte header and a payload.  The sender offers the header and the two parts of
the payload to a writer.  The writer may take any part of what it is offered, and the sender goes
on where the writer stopped.  The receiver reads one byte, and then exactly what is missing.

A cursor stands on a byte that is not written yet, or past the end.  So what it offers is never
empty and it indexes no part out of its range.
-/

namespace Groupnet.Framing

open Codec

def maxFrameBytes : Nat := 256 * 2 ^ 20

/-- Slices offered in one write. -/
def maxIoSlices : Nat := 16

inductive FrameLengthError where
  | aboveCeiling (length : Nat)
  | overflow
  | limitAboveCeiling (maxBytes : Nat)
  | sendAboveLimit (length maxBytes : Nat)
  | receivedAboveLimit (length maxBytes : Nat)
  deriving DecidableEq

inductive IoError where
  | length (error : FrameLengthError)
  | writeZero
  | moreThanOffered
  | unexpectedEof
  | unsupportedHeader
  | outOfMemory
  /-- An error of the stream itself. -/
  | stream (code : Nat)
  deriving DecidableEq

/-! ## Lengths -/

def LengthHeader.new (length : Nat) : Except FrameLengthError (List UInt8) :=
  if length ≤ u32Max ∧ length ≤ maxFrameBytes then .ok (putBE 4 length)
  else .error (.aboveCeiling length)

def LengthHeader.forParts (parts : List (List UInt8)) : Except FrameLengthError (List UInt8) :=
  match parts.foldlM (fun total part => checkedAdd usizeMax total part.length) 0 with
  | none => .error .overflow
  | some length => LengthHeader.new length

def LengthHeader.lengthWithin (header : List UInt8) (maxBytes : Nat) :
    Except FrameLengthError Nat :=
  if maxFrameBytes < maxBytes then .error (.limitAboveCeiling maxBytes)
  else if fromBE header ≤ maxBytes then .ok (fromBE header)
  else .error (.receivedAboveLimit (fromBE header) maxBytes)

def checkLimit (maxBytes : Nat) : Except FrameLengthError Nat :=
  if maxFrameBytes < maxBytes then .error (.limitAboveCeiling maxBytes) else .ok maxBytes

/-! ## The cursor -/

structure Cursor where
  parts : List (List UInt8)
  index : Nat
  offset : Nat

namespace Cursor

variable {c c' : Cursor} {n : Nat} {part : List UInt8}

def skipWritten (c : Cursor) : Cursor :=
  match _h : c.parts[c.index]? with
  | some part =>
    if c.offset = part.length then skipWritten { c with index := c.index + 1, offset := 0 } else c
  | none => c
termination_by c.parts.length - c.index
decreasing_by
  have := (List.getElem?_eq_some_iff.mp _h).1
  exact Nat.sub_succ_lt_self _ _ this

def new (parts : List (List UInt8)) : Cursor := skipWritten ⟨parts, 0, 0⟩

def isDone (c : Cursor) : Bool := c.index = c.parts.length

/-- The slices offered, or nothing if an index is out of range. -/
def fill (c : Cursor) : Option (List (List UInt8)) :=
  match c.parts[c.index]? with
  | none => none
  | some part =>
    if part.length < c.offset ∨ c.parts.length < c.index + 1 then none
    else some
      ((part.drop c.offset :: (c.parts.drop (c.index + 1)).filter (!·.isEmpty)).take maxIoSlices)

theorem skipWritten_mono (c : Cursor) :
    c.skipWritten.parts = c.parts ∧ c.index ≤ c.skipWritten.index ∧
      (∀ part, c.parts[c.index]? = some part → c.offset = part.length →
        c.index < c.skipWritten.index) := by
  fun_induction skipWritten c with
  | case1 c part h hoffset ih => exact ⟨ih.1, Nat.le_of_lt ih.2.1, fun _ _ _ => ih.2.1⟩
  | case2 c part h hoffset =>
    refine ⟨rfl, Nat.le_refl _, fun _ h' heq => ?_⟩
    cases h.symm.trans h'
    exact absurd heq hoffset
  | case3 c h => exact ⟨rfl, Nat.le_refl _, fun _ h' => nomatch h.symm.trans h'⟩

/-- Goes on behind what was written, or says that this was more than there is. -/
def advance (c : Cursor) (written : Nat) : Option (Except IoError Cursor) :=
  if written = 0 then some (.ok c)
  else
    match _h : c.parts[c.index]? with
    | none => some (.error .moreThanOffered)
    | some part =>
      if part.length < c.offset then none
      else
        let step := min written (part.length - c.offset)
        advance (skipWritten { c with offset := c.offset + step }) (written - step)
termination_by written + (c.parts.length - c.index)
decreasing_by
  obtain ⟨hparts, hle, hlt⟩ :=
    skipWritten_mono { c with offset := c.offset + min written (part.length - c.offset) }
  have hlt := hlt part _h
  have hindex := (List.getElem?_eq_some_iff.mp _h).1
  rw [hparts]
  dsimp only at hle hlt ⊢
  omega

/-- What is not written yet. -/
def rest (c : Cursor) : List UInt8 := (c.parts.drop c.index).flatten.drop c.offset

/-- Between two parts a cursor may stand at the end of one. -/
structure Within (c : Cursor) : Prop where
  index : c.index ≤ c.parts.length
  offset : ∀ part, c.parts[c.index]? = some part → c.offset ≤ part.length

/-- On a byte that is not written yet, or past the end. -/
structure Placed (c : Cursor) : Prop where
  index : c.index ≤ c.parts.length
  offset : ∀ part, c.parts[c.index]? = some part → c.offset < part.length

theorem rest_of_some (h : c.parts[c.index]? = some part) (hle : c.offset ≤ part.length) :
    c.rest = part.drop c.offset ++ (c.parts.drop (c.index + 1)).flatten := by
  obtain ⟨hindex, rfl⟩ := List.getElem?_eq_some_iff.mp h
  rw [rest, List.drop_eq_getElem_cons hindex, List.flatten_cons, List.drop_append_of_le_length hle]

theorem rest_of_none (h : c.parts[c.index]? = none) : c.rest = [] := by
  rw [rest, List.drop_eq_nil_of_le (List.getElem?_eq_none_iff.mp h), List.flatten_nil,
    List.drop_nil]

theorem skipWritten_spec (h : c.Within) : c.skipWritten.Placed ∧ c.skipWritten.rest = c.rest := by
  fun_induction skipWritten c with
  | case1 c part hpart hoffset ih =>
    have hindex := (List.getElem?_eq_some_iff.mp hpart).1
    obtain ⟨hplaced, hrest⟩ := ih ⟨hindex, fun _ _ => Nat.zero_le _⟩
    refine ⟨hplaced, hrest.trans ?_⟩
    rw [rest_of_some hpart (h.offset part hpart), hoffset, List.drop_length]
    rfl
  | case2 c part hpart hoffset =>
    refine ⟨⟨h.index, fun part' hpart' => ?_⟩, rfl⟩
    cases hpart.symm.trans hpart'
    exact Nat.lt_of_le_of_ne (h.offset part hpart) hoffset
  | case3 c hnone => exact ⟨⟨h.index, fun _ h' => nomatch hnone.symm.trans h'⟩, rfl⟩

theorem new_spec (parts : List (List UInt8)) :
    (new parts).Placed ∧ (new parts).rest = parts.flatten :=
  skipWritten_spec ⟨Nat.zero_le _, fun _ _ => Nat.zero_le _⟩

theorem advance_spec (h : c.Placed) :
    (n ≤ c.rest.length → ∃ c', c.advance n = some (.ok c') ∧ c'.Placed ∧ c'.rest = c.rest.drop n) ∧
      (c.rest.length < n → c.advance n = some (.error .moreThanOffered)) := by
  fun_induction advance c n with
  | case1 c => exact ⟨fun _ => ⟨c, rfl, h, rfl⟩, fun hn => absurd hn (Nat.not_lt_zero _)⟩
  | case2 c n hn hnone =>
    rw [rest_of_none hnone]
    exact ⟨fun hle => absurd (Nat.le_zero.mp hle) hn, fun _ => rfl⟩
  | case3 c n hn part hpart hbad =>
    exact absurd (h.offset part hpart) (Nat.not_lt.mpr (Nat.le_of_lt hbad))
  | case4 c n hn part hpart _ step ih =>
    have hlt := h.offset part hpart
    have hstep : c.offset + step ≤ part.length := by omega
    have hrest : rest { c with offset := c.offset + step } = c.rest.drop step := by
      rw [rest, rest, List.drop_drop]
    obtain ⟨hplaced, hskip⟩ := skipWritten_spec (c := { c with offset := c.offset + step })
      ⟨h.index, fun part' hpart' => by cases hpart.symm.trans hpart'; exact hstep⟩
    obtain ⟨hok, hover⟩ := ih hplaced
    rw [hskip, hrest, List.length_drop, List.drop_drop] at hok
    rw [hskip, hrest, List.length_drop] at hover
    have hpos : step ≤ n := Nat.min_le_left _ _
    have hroom : part.length - c.offset ≤ c.rest.length := by
      rw [rest_of_some hpart (Nat.le_of_lt hlt), List.length_append, List.length_drop]
      exact Nat.le_add_right _ _
    refine ⟨fun hle => ?_, fun hgt => hover (by omega)⟩
    rw [Nat.add_sub_cancel' hpos] at hok
    exact hok (by omega)

theorem fill_spec (h : c.Placed) (hdone : c.isDone = false) :
    ∃ slices, c.fill = some slices ∧ slices.flatten <+: c.rest ∧ slices.flatten ≠ [] := by
  have hindex : c.index < c.parts.length :=
    Nat.lt_of_le_of_ne h.index fun heq => nomatch hdone.symm.trans (decide_eq_true heq)
  have hpart := List.getElem?_eq_getElem hindex
  have hlt := h.offset _ hpart
  unfold fill
  rw [hpart]
  dsimp only
  rw [if_neg (by omega)]
  refine ⟨_, rfl, ?_, ?_⟩
  · rw [rest_of_some hpart (Nat.le_of_lt hlt),
      ← List.flatten_filter_not_isEmpty (L := c.parts.drop _), ← List.flatten_cons]
    exact ⟨_, by rw [← List.flatten_append, List.take_append_drop]⟩
  · rw [maxIoSlices, List.take_succ_cons, List.flatten_cons]
    intro hnil
    have hnil := List.length_eq_zero_iff.mpr (List.append_eq_nil_iff.mp hnil).1
    rw [List.length_drop] at hnil
    omega

/-- The cursors of a list of parts. -/
inductive Reached (parts : List (List UInt8)) : Cursor → Prop
  | new : Reached parts (new parts)
  | advance {c c' : Cursor} {n : Nat} : Reached parts c → c.advance n = some (.ok c') →
      Reached parts c'

theorem Reached.placed {parts : List (List UInt8)} (h : Reached parts c) : c.Placed := by
  induction h with
  | new => exact (new_spec parts).1
  | @advance c c' n _ heq ih =>
    obtain ⟨hok, hover⟩ := advance_spec (n := n) ih
    rcases Nat.lt_or_ge c.rest.length n with hn | hn
    · cases heq.symm.trans (hover hn)
    · obtain ⟨_, heq', hplaced, -⟩ := hok hn
      cases heq.symm.trans heq'
      exact hplaced

theorem advance_isSome (h : c.Placed) (n : Nat) : (c.advance n).isSome = true := by
  obtain ⟨hok, hover⟩ := advance_spec (n := n) h
  rcases Nat.lt_or_ge c.rest.length n with hn | hn
  · exact hover hn ▸ rfl
  · obtain ⟨_, heq, -⟩ := hok hn
    exact heq ▸ rfl

end Cursor

/-! ## Sending -/

/-- What a writer says to one call.  It takes at most what it is offered. -/
inductive WriteAnswer where
  | accept (n : Nat)
  | interrupted
  | failed (error : IoError)

/-- It takes something. -/
def WriteAnswer.takes : WriteAnswer → Bool
  | .accept n => 0 < n
  | _ => false

variable {bytes : List UInt8} (answers : List WriteAnswer)

def WriteAnswer.willing : WriteAnswer → Bool
  | .interrupted => true
  | answer => answer.takes

inductive Ended where
  | returned (result : Except IoError Unit)
  /-- The writer has not answered yet. -/
  | waiting
  | panicked

/-- The loop of `write_parts`, on a stream that holds `sink`. -/
def writeFrom (c : Cursor) (sink : List UInt8) (answers : List WriteAnswer) :
    Ended × List UInt8 × List WriteAnswer :=
  if c.isDone then (.returned (.ok ()), sink, answers)
  else
    match c.fill with
    | none => (.panicked, sink, answers)
    | some slices =>
      match answers with
      | [] => (.waiting, sink, [])
      | .interrupted :: answers => writeFrom c sink answers
      | .failed error :: answers => (.returned (.error error), sink, answers)
      | .accept n :: answers =>
        let taken := slices.flatten.take n
        if taken.length = 0 then (.returned (.error .writeZero), sink, answers)
        else
          match c.advance taken.length with
          | none => (.panicked, sink ++ taken, answers)
          | some (.error error) => (.returned (.error error), sink ++ taken, answers)
          | some (.ok c) => writeFrom c (sink ++ taken) answers

def writeParts (parts : List (List UInt8)) := writeFrom (Cursor.new parts)

/-- How a call ends that is to put `bytes` on the stream, after a part of them. -/
def Ends (bytes part : List UInt8) (answers left : List WriteAnswer) : Ended → Prop
  | .returned (.ok _) => part = bytes
  | .returned (.error _) => ∃ answer ∈ answers, answer.willing = false
  | .waiting => left = [] ∧ part.length < bytes.length
  | .panicked => False

/-- What a call does that is to put `bytes` on the stream: it puts a part of them there, and each
answer that takes something takes a byte. -/
structure Wrote (bytes part : List UInt8) (answers left : List WriteAnswer) (ended : Ended) :
    Prop where
  begins : part <+: bytes
  mine : ∀ answer ∈ left, answer ∈ answers
  count : answers.countP WriteAnswer.takes ≤ left.countP WriteAnswer.takes + part.length
  ends : Ends bytes part answers left ended

theorem Wrote.trans {front part : List UInt8} {answers mid left : List WriteAnswer} {ended : Ended}
    (h : Wrote front front answers mid (.returned (.ok ())))
    (h' : Wrote bytes part mid left ended) :
    Wrote (front ++ bytes) (front ++ part) answers left ended where
  begins := (List.prefix_append_right_inj front).mpr h'.begins
  mine answer hin := h.mine answer (h'.mine answer hin)
  count := by
    have hcount := h.count
    have hcount' := h'.count
    rw [List.length_append]
    omega
  ends := by
    match ended, h'.ends with
    | .returned (.ok _), heq => exact congrArg (front ++ ·) heq
    | .returned (.error _), ⟨answer, hin, hbad⟩ => exact ⟨answer, h.mine answer hin, hbad⟩
    | .waiting, ⟨hleft, hlt⟩ =>
      refine ⟨hleft, ?_⟩
      rw [List.length_append, List.length_append]
      exact Nat.add_lt_add_left hlt _

theorem Wrote.nothing : Wrote [] [] answers answers (.returned (.ok ())) :=
  ⟨List.prefix_refl _, fun _ h => h, Nat.le_refl _, rfl⟩

/-- One answer is used up. -/
theorem Wrote.answer {answer : WriteAnswer} (h : answer.takes = true → bytes ≠ []) :
    Wrote bytes bytes (answer :: answers) answers (.returned (.ok ())) where
  begins := List.prefix_refl _
  mine _ hin := .tail _ hin
  count := by
    rw [List.countP_cons]
    split
    · exact Nat.add_le_add_left (List.length_pos_iff.mpr (h ‹_›)) _
    · exact Nat.le_add_right _ _
  ends := rfl

/-- The call fails at an answer that is not willing. -/
theorem Wrote.failed {answer : WriteAnswer} {error : IoError} (h : answer.willing = false)
    (h' : answer.takes = false) :
    Wrote bytes [] (answer :: answers) answers (.returned (.error error)) where
  begins := List.nil_prefix
  mine _ hin := .tail _ hin
  count := by
    rw [List.countP_cons, h', if_neg nofun]
    exact Nat.le_refl _
  ends := ⟨answer, .head _, h⟩

/-- A writer that takes a part of what it is offered takes the next bytes. -/
theorem taken_spec {c : Cursor} {slices : List (List UInt8)} (h : c.Placed)
    (hdone : ¬ c.isDone = true) (hfill : c.fill = some slices) (n : Nat) :
    ∃ c', c.advance (slices.flatten.take n).length = some (.ok c') ∧ c'.Placed ∧
      c.rest = slices.flatten.take n ++ c'.rest := by
  obtain ⟨_, hsome, hle, -⟩ := Cursor.fill_spec h (Bool.eq_false_of_not_eq_true hdone)
  cases hfill.symm.trans hsome
  have htaken := (List.take_prefix n slices.flatten).trans hle
  obtain ⟨c', hok, hplaced, hrest⟩ := (Cursor.advance_spec h).1 htaken.length_le
  obtain ⟨tail, htail⟩ := htaken
  refine ⟨c', hok, hplaced, ?_⟩
  rw [hrest, ← htail, List.drop_left]

theorem writeFrom_spec {c : Cursor} (h : c.Placed) (sink : List UInt8)
    (answers : List WriteAnswer) :
    ∃ ended part left, writeFrom c sink answers = (ended, sink ++ part, left) ∧
      Wrote c.rest part answers left ended := by
  fun_induction writeFrom c sink answers with
  | case1 answers c sink hdone =>
    have hnil : c.rest = [] :=
      Cursor.rest_of_none (List.getElem?_eq_none_iff.mpr (of_decide_eq_true hdone).ge)
    exact ⟨.returned (.ok ()), [], answers, by rw [List.append_nil], hnil ▸ .nothing answers⟩
  | case2 answers c sink hdone hfill =>
    obtain ⟨slices, hsome, -⟩ := Cursor.fill_spec h (Bool.eq_false_of_not_eq_true hdone)
    cases hfill.symm.trans hsome
  | case3 c sink hdone slices hfill =>
    obtain ⟨_, hsome, hle, hne⟩ := Cursor.fill_spec h (Bool.eq_false_of_not_eq_true hdone)
    cases hfill.symm.trans hsome
    refine ⟨.waiting, [], [], by rw [List.append_nil], List.nil_prefix, fun _ h => h, Nat.zero_le _,
      rfl, ?_⟩
    exact Nat.lt_of_lt_of_le (List.length_pos_iff.mpr hne) hle.length_le
  | case4 c sink hdone slices hfill answers ih =>
    obtain ⟨ended, part, left, heq, hwrote⟩ := ih h
    have hskip : Wrote [] [] (.interrupted :: answers) answers (.returned (.ok ())) :=
      .answer answers fun h => absurd h Bool.false_ne_true
    exact ⟨ended, part, left, heq, hskip.trans hwrote⟩
  | case5 c sink hdone slices hfill error answers =>
    exact ⟨_, [], answers, by rw [List.append_nil], .failed answers rfl rfl⟩
  | case6 c sink hdone slices hfill n answers taken hzero =>
    -- what is offered is not empty, so the writer took nothing
    obtain ⟨_, hsome, hle, hne⟩ := Cursor.fill_spec h (Bool.eq_false_of_not_eq_true hdone)
    cases hfill.symm.trans hsome
    have hn : n = 0 := by
      have hpos := List.length_pos_iff.mpr hne
      rw [List.length_take] at hzero
      omega
    subst hn
    exact ⟨_, [], answers, by rw [List.append_nil], .failed answers rfl rfl⟩
  | case7 c sink hdone slices hfill n answers taken hpos hnone =>
    obtain ⟨_, hok, -⟩ := taken_spec h hdone hfill n
    cases hnone.symm.trans hok
  | case8 c sink hdone slices hfill n answers taken hpos error herror =>
    obtain ⟨_, hok, -⟩ := taken_spec h hdone hfill n
    cases herror.symm.trans hok
  | case9 c sink hdone slices hfill n answers taken hpos c' hadvance ih =>
    obtain ⟨_, hok, hplaced, hrest⟩ := taken_spec h hdone hfill n
    cases hadvance.symm.trans hok
    obtain ⟨ended, part, left, heq, hwrote⟩ := ih hplaced
    refine ⟨ended, taken ++ part, left, by rw [heq, List.append_assoc], ?_⟩
    rw [hrest]
    exact (Wrote.answer answers fun _ hnil => hpos (congrArg List.length hnil)).trans hwrote

/-! ## Frames -/

def frameKindData : UInt8 := 0

/-- The bytes of a frame. -/
def frame (payload : List UInt8) : List UInt8 :=
  putBE 4 payload.length ++ [frameKindData, 0, 0, 0] ++ payload

def stream (payloads : List (List UInt8)) : List UInt8 := payloads.flatMap frame

structure Writer where
  answers : List WriteAnswer
  /-- The bytes on the stream. -/
  sink : List UInt8
  /-- What a flush answers. -/
  flush : Except IoError Unit

def sendBoundedParts (head body : List UInt8) (maxBytes : Nat) (w : Writer) : Ended × Writer :=
  match checkLimit maxBytes with
  | .error error => (.returned (.error (.length error)), w)
  | .ok maxBytes =>
    match checkedAdd usizeMax head.length body.length with
    | none => (.returned (.error (.length .overflow)), w)
    | some length =>
      if maxBytes < length then (.returned (.error (.length (.sendAboveLimit length maxBytes))), w)
      else
        match LengthHeader.forParts [head, body] with
        | .error error => (.returned (.error (.length error)), w)
        | .ok len =>
          match writeParts [len ++ [frameKindData, 0, 0, 0], head, body] w.sink w.answers with
          | (.returned (.ok ()), sink, answers) => (.returned w.flush, { w with answers, sink })
          | (ended, sink, answers) => (ended, { w with answers, sink })

/-- The payloads, given as head and body. -/
def joined (payloads : List (List UInt8 × List UInt8)) : List (List UInt8) :=
  payloads.map fun p => p.1 ++ p.2

/-- Sends one payload after the other, as long as that works. -/
def sendAll (maxBytes : Nat) : List (List UInt8 × List UInt8) → Writer → Ended × Writer
  | [], w => (.returned (.ok ()), w)
  | (head, body) :: payloads, w =>
    match sendBoundedParts head body maxBytes w with
    | (.returned (.ok ()), w) => sendAll maxBytes payloads w
    | r => r

section

variable {maxBytes : Nat} {head body : List UInt8}

theorem send_of_le (hmax : maxBytes ≤ maxFrameBytes) (h : head.length + body.length ≤ maxBytes)
    (w : Writer) :
    sendBoundedParts head body maxBytes w =
      match writeParts [putBE 4 (head ++ body).length ++ [frameKindData, 0, 0, 0], head,
        body] w.sink w.answers with
      | (.returned (.ok ()), sink, answers) => (.returned w.flush, { w with answers, sink })
      | (ended, sink, answers) => (ended, { w with answers, sink }) := by
  have hceiling : maxFrameBytes ≤ u32Max ∧ maxFrameBytes ≤ usizeMax := by decide
  have hsum : checkedAdd usizeMax head.length body.length = some (head.length + body.length) :=
    if_pos (by omega)
  have hlimit : checkLimit maxBytes = .ok maxBytes := if_neg (Nat.not_lt.mpr hmax)
  have hparts : LengthHeader.forParts [head, body] = .ok (putBE 4 (head ++ body).length) := by
    have hfirst : checkedAdd usizeMax 0 head.length = some head.length := by
      rw [checkedAdd, Nat.zero_add, if_pos (by omega)]
    unfold LengthHeader.forParts
    simp only [List.foldlM_cons, List.foldlM_nil, hfirst, hsum, Option.bind_eq_bind,
      Option.bind_some]
    rw [List.length_append]
    exact if_pos ⟨by omega, by omega⟩
  unfold sendBoundedParts
  rw [hlimit, hsum, hparts]
  dsimp only
  rw [if_neg (Nat.not_lt.mpr h)]

theorem send_of_gt (hmax : maxBytes ≤ maxFrameBytes) (h : maxBytes < head.length + body.length)
    (w : Writer) :
    ∃ error, sendBoundedParts head body maxBytes w = (.returned (.error (.length error)), w) := by
  unfold sendBoundedParts
  rw [checkLimit, if_neg (Nat.not_lt.mpr hmax)]
  cases hsum : checkedAdd usizeMax head.length body.length with
  | none => exact ⟨_, rfl⟩
  | some length =>
    obtain ⟨-, rfl⟩ := checkedAdd_eq_some hsum
    exact ⟨_, if_pos h⟩

end

theorem sendAll_spec {maxBytes : Nat} (hmax : maxBytes ≤ maxFrameBytes)
    {payloads : List (List UInt8 × List UInt8)}
    (h : ∀ p ∈ payloads, p.1.length + p.2.length ≤ maxBytes) (w : Writer)
    (hflush : w.flush = .ok ()) :
    ∃ ended part left, sendAll maxBytes payloads w =
      (ended, { w with answers := left, sink := w.sink ++ part }) ∧
      Wrote (stream (joined payloads)) part w.answers left ended := by
  induction payloads generalizing w with
  | nil =>
    exact ⟨.returned (.ok ()), [], w.answers, by rw [List.append_nil]; rfl, .nothing _⟩
  | cons p payloads ih =>
    obtain ⟨head, body⟩ := p
    obtain ⟨hp, hpayloads⟩ := List.forall_mem_cons.mp h
    obtain ⟨hplaced, hrest⟩ :=
      Cursor.new_spec [putBE 4 (head ++ body).length ++ [frameKindData, 0, 0, 0], head, body]
    obtain ⟨ended, part, left, heq, hwrote⟩ := writeFrom_spec hplaced w.sink w.answers
    have hframe : [putBE 4 (head ++ body).length ++ [frameKindData, 0, 0, 0], head, body].flatten =
        frame (head ++ body) := by
      simp [frame]
    rw [hrest, hframe] at hwrote
    rw [sendAll, send_of_le hmax hp, writeParts, heq]
    show ∃ ended part left, _ ∧
      Wrote (frame (head ++ body) ++ stream (joined payloads)) part _ left ended
    match ended, hwrote with
    | .returned (.ok ()), hwrote =>
      have hall : part = frame (head ++ body) := hwrote.ends
      subst hall
      obtain ⟨ended', part', left', heq', hwrote'⟩ :=
        ih hpayloads { w with answers := left, sink := w.sink ++ frame (head ++ body) } hflush
      refine ⟨ended', frame (head ++ body) ++ part', left', ?_, hwrote.trans hwrote'⟩
      rw [hflush]
      dsimp only
      rw [← hflush, heq', List.append_assoc]
    | .returned (.error error), hwrote =>
      exact ⟨_, part, left, rfl, hwrote.begins.trans (List.prefix_append _ _), hwrote.mine,
        hwrote.count, hwrote.ends⟩
    | .waiting, hwrote =>
      refine ⟨_, part, left, rfl, hwrote.begins.trans (List.prefix_append _ _), hwrote.mine,
        hwrote.count, hwrote.ends.1, ?_⟩
      rw [List.length_append]
      exact Nat.lt_add_right _ hwrote.ends.2

/-! ## Receiving -/

/-- The rest of a stream.  `chunk` says how many more bytes than one a read gets, by the number of
reads before it, and `reserves` how much memory there is. -/
structure Reader where
  data : List UInt8
  chunk : Nat → Nat
  reserves : Nat → Bool
  reads : Nat

namespace Reader

def read (r : Reader) (size : Nat) : List UInt8 × Reader :=
  let n := min size (r.chunk r.reads + 1)
  (r.data.take n, { r with data := r.data.drop n, reads := r.reads + 1 })

def readExact (r : Reader) (size : Nat) : Except IoError (List UInt8) × Reader :=
  if size = 0 then (.ok [], r)
  else
    match _h : r.read size with
    | ([], r) => (.error .unexpectedEof, r)
    | (byte :: bytes, r) =>
      match readExact r (size - (bytes.length + 1)) with
      | (.error error, r) => (.error error, r)
      | (.ok rest, r) => (.ok (byte :: bytes ++ rest), r)
termination_by size

theorem read_eq {r r' : Reader} {size : Nat} (hsize : size ≠ 0) (h : r.read size = (bytes, r')) :
    r.data = bytes ++ r'.data ∧ bytes.length ≤ size ∧ (bytes = [] → r.data = []) ∧
      r' = { r with data := r'.data, reads := r'.reads } := by
  cases h
  refine ⟨(List.take_append_drop _ _).symm, ?_, fun hnil => ?_, rfl⟩
  · rw [List.length_take]
    omega
  · have hlength := congrArg List.length hnil
    rw [List.length_take, List.length_nil] at hlength
    exact List.length_eq_zero_iff.mp (by omega)

theorem readExact_eq (r : Reader) (size : Nat) :
    ∃ reads, r.readExact size = (if size ≤ r.data.length then .ok (r.data.take size)
      else .error .unexpectedEof, { r with data := r.data.drop size, reads := reads }) := by
  induction size using Nat.strongRecOn generalizing r with
  | ind size ih =>
    rw [readExact]
    split
    · rename_i hzero
      subst hzero
      exact ⟨r.reads, rfl⟩
    rename_i hsize
    split
    · rename_i r' hread
      obtain ⟨hdata, -, hnil, hr'⟩ := read_eq hsize hread
      have hempty := hnil rfl
      rw [hempty] at hdata
      refine ⟨r'.reads, ?_⟩
      rw [hempty, List.drop_nil, if_neg (by simpa using hsize), hr',
        ← List.append_eq_nil_iff.mp hdata.symm |>.2]
    · rename_i byte bytes r' hread
      obtain ⟨hdata, hle, -, hr'⟩ := read_eq hsize hread
      obtain ⟨reads, heq⟩ := ih (size - (bytes.length + 1)) (by omega) r'
      refine ⟨reads, ?_⟩
      rw [heq, hdata, hr', List.take_append, List.drop_append, List.take_of_length_le hle,
        List.drop_of_length_le hle, List.length_append, List.length_cons, List.nil_append]
      dsimp only
      by_cases hroom : size - (bytes.length + 1) ≤ r'.data.length
      · rw [if_pos hroom, if_pos (by omega)]
      · rw [if_neg hroom, if_neg (by omega)]

end Reader

def headerSize : Nat := 8

def recvBounded (maxBytes : Nat) (r : Reader) : Except IoError (Option (List UInt8)) × Reader :=
  match checkLimit maxBytes with
  | .error error => (.error (.length error), r)
  | .ok maxBytes =>
    match r.read 1 with
    | ([], r) => (.ok none, r)
    | (first, r) =>
      match r.readExact (headerSize - 1) with
      | (.error error, r) => (.error error, r)
      | (.ok more, r) =>
        if (first ++ more).drop 4 ≠ [frameKindData, 0, 0, 0] then (.error .unsupportedHeader, r)
        else
          match LengthHeader.lengthWithin ((first ++ more).take 4) maxBytes with
          | .error error => (.error (.length error), r)
          | .ok len =>
            if r.reserves len = false then (.error .outOfMemory, r)
            else
              match r.readExact len with
              | (.error error, r) => (.error error, r)
              | (.ok payload, r) => (.ok (some payload), r)

def recvTimes (maxBytes : Nat) : Nat → Reader → List (Except IoError (Option (List UInt8)))
  | 0, _ => []
  | n + 1, r => (recvBounded maxBytes r).1 :: recvTimes maxBytes n (recvBounded maxBytes r).2

section

variable {maxBytes : Nat} {payload : List UInt8} {r : Reader}

theorem length_frame (payload : List UInt8) :
    (frame payload).length = headerSize + payload.length := by
  simp [frame, headerSize]
  omega

theorem recv_nil (hmax : maxBytes ≤ maxFrameBytes) (h : r.data = []) :
    (recvBounded maxBytes r).1 = .ok none := by
  unfold recvBounded Reader.read
  rw [checkLimit, if_neg (Nat.not_lt.mpr hmax), h]
  rfl

/-- The first byte is there. -/
theorem read_one {first : UInt8} {rest : List UInt8} (h : r.data = first :: rest) :
    r.read 1 = ([first], { r with data := rest, reads := r.reads + 1 }) := by
  have hone : min 1 (r.chunk r.reads + 1) = 1 := by omega
  unfold Reader.read
  rw [hone, h]
  rfl

/-- What is received of a stream that goes on with a frame, or with a part of one. -/
theorem recv_frame (hmax : maxBytes ≤ maxFrameBytes) (hlength : payload.length ≤ maxBytes)
    (hreserves : r.reserves payload.length = true) {tail : List UInt8} (hne : r.data ≠ [])
    (h : r.data <+: frame payload ++ tail) :
    ∃ reads, recvBounded maxBytes r =
      (if (frame payload).length ≤ r.data.length then .ok (some payload) else .error .unexpectedEof,
        { r with data := r.data.drop (frame payload).length, reads := reads }) := by
  obtain ⟨first, rest, hdata⟩ := List.exists_cons_of_ne_nil hne
  obtain ⟨reads, hmore⟩ := Reader.readExact_eq { r with data := rest, reads := r.reads + 1 }
    (headerSize - 1)
  unfold recvBounded
  rw [checkLimit, if_neg (Nat.not_lt.mpr hmax)]
  rw [read_one hdata]
  dsimp only
  rw [hmore, length_frame, headerSize]
  have hlen : r.data.length = rest.length + 1 := by rw [hdata, List.length_cons]
  by_cases hheader : 7 ≤ rest.length
  · obtain ⟨more, hmore⟩ := h
    have hwhole : first :: rest.take 7 ++ (rest.drop 7 ++ more) =
        putBE 4 payload.length ++ [frameKindData, 0, 0, 0] ++ (payload ++ tail) := by
      rw [← List.append_assoc, List.cons_append, List.take_append_drop, ← hdata, hmore, frame,
        List.append_assoc]
    obtain ⟨hfront, hback⟩ := List.append_inj hwhole (by simp [hheader])
    have hwithin : LengthHeader.lengthWithin (putBE 4 payload.length) maxBytes =
        .ok payload.length := by
      have hword : maxFrameBytes < 256 ^ 4 := by decide
      rw [LengthHeader.lengthWithin, if_neg (Nat.not_lt.mpr hmax), fromBE_putBE (by omega),
        if_pos hlength]
    obtain ⟨reads', hpayload⟩ :=
      Reader.readExact_eq { r with data := rest.drop 7, reads := reads } payload.length
    rw [if_pos hheader]
    dsimp only
    have hkind : ([first] ++ rest.take 7).drop 4 = [frameKindData, 0, 0, 0] := by
      rw [List.singleton_append, hfront, List.drop_left' (length_putBE 4 _)]
    have hlen4 : ([first] ++ rest.take 7).take 4 = putBE 4 payload.length := by
      rw [List.singleton_append, hfront, List.take_left' (length_putBE 4 _)]
    rw [if_neg (not_not.mpr hkind), hlen4, hwithin]
    dsimp only
    rw [hreserves, if_neg nofun, hpayload, List.length_drop, List.drop_drop]
    refine ⟨reads', ?_⟩
    have hdrop : r.data.drop (8 + payload.length) = rest.drop (7 + payload.length) := by
      rw [hdata, show 8 + payload.length = 7 + payload.length + 1 by omega, List.drop_succ_cons]
    by_cases hroom : payload.length ≤ rest.length - 7
    · have hexact : (rest.drop 7).take payload.length = payload := by
        have htaken : (rest.drop 7 ++ more).take payload.length = payload := by
          rw [hback, List.take_left]
        rwa [List.take_append_of_le_length (by rwa [List.length_drop])] at htaken
      rw [if_pos hroom, if_pos (by omega), hexact, hdrop]
    · rw [if_neg hroom, if_neg (by omega), hdrop]
  · refine ⟨reads, ?_⟩
    dsimp only
    rw [if_neg hheader, if_neg (by omega), List.drop_of_length_le (by omega),
      List.drop_of_length_le (by omega)]

variable {payloads : List (List UInt8)}

/-- The frames of a stream are received in order, and then what follows them. -/
theorem recvTimes_stream (hmax : maxBytes ≤ maxFrameBytes)
    (hlength : ∀ p ∈ payloads, p.length ≤ maxBytes)
    (hreserves : ∀ p ∈ payloads, r.reserves p.length = true) {tail : List UInt8}
    (h : r.data = stream payloads ++ tail) (n : Nat) :
    ∃ reads, recvTimes maxBytes (payloads.length + n) r =
      payloads.map (fun p => .ok (some p)) ++ recvTimes maxBytes n
        { r with data := tail, reads := reads } := by
  induction payloads generalizing r with
  | nil => exact ⟨r.reads, by rw [List.length_nil, Nat.zero_add, ← show r.data = tail from h]; rfl⟩
  | cons p payloads ih =>
    obtain ⟨hp, hlength⟩ := List.forall_mem_cons.mp hlength
    obtain ⟨hmem, hreserves⟩ := List.forall_mem_cons.mp hreserves
    have hdata : r.data = frame p ++ (stream payloads ++ tail) := h.trans (List.append_assoc _ _ _)
    have hpos := length_frame p
    have hle : (frame p).length ≤ r.data.length := by
      rw [hdata, List.length_append]; exact Nat.le_add_right _ _
    obtain ⟨reads, hrecv⟩ :=
      recv_frame hmax hp hmem (List.length_pos_iff.mp (by unfold headerSize at hpos; omega))
      ⟨[], by rw [hdata, List.append_nil]⟩
    rw [if_pos hle, hdata, List.drop_left] at hrecv
    obtain ⟨reads', hmore⟩ :=
      @ih { r with data := stream payloads ++ tail, reads := reads } hlength hreserves rfl
    refine ⟨reads', ?_⟩
    rw [List.length_cons, Nat.add_right_comm, recvTimes, hrecv, hmore]
    rfl

/-- Where a stream was cut: at a boundary, or inside a frame. -/
theorem stream_prefix (h : bytes <+: stream payloads) : ∃ whole part, bytes = stream whole ++ part ∧
      (part = [] ∧ whole <+: payloads ∨
        ∃ p, whole ++ [p] <+: payloads ∧ part ≠ [] ∧ part <+: frame p ∧
          part.length < (frame p).length) := by
  induction payloads generalizing bytes with
  | nil => exact ⟨[], [], List.prefix_nil.mp h, .inl ⟨rfl, List.nil_prefix⟩⟩
  | cons p payloads ih =>
    rcases Nat.lt_or_ge bytes.length (frame p).length with hlt | hle
    · have hpart : bytes <+: frame p :=
        List.prefix_of_prefix_length_le h (List.prefix_append _ _) hlt.le
      by_cases hnil : bytes = []
      · exact ⟨[], [], hnil, .inl ⟨rfl, List.nil_prefix⟩⟩
      · exact ⟨[], bytes, rfl, .inr ⟨p, ⟨payloads, rfl⟩, hnil, hpart, hlt⟩⟩
    · obtain ⟨more, rfl⟩ := List.prefix_of_prefix_length_le (List.prefix_append (frame p) _) h hle
      obtain ⟨whole, part, rfl, hcut⟩ := ih ((List.prefix_append_right_inj _).mp h)
      refine ⟨p :: whole, part, (List.append_assoc _ _ _).symm,
        hcut.imp (And.imp_right fun h => ?_) ?_⟩
      · exact (List.prefix_append_right_inj [p]).mpr h
      · exact fun ⟨q, hq, hpart⟩ => ⟨q, (List.prefix_append_right_inj [p]).mpr hq, hpart⟩

end

theorem sendAll_exact {maxBytes : Nat} (hmax : maxBytes ≤ maxFrameBytes)
    {payloads : List (List UInt8 × List UInt8)}
    (hfits : ∀ p ∈ payloads, p.1.length + p.2.length ≤ maxBytes) (w : Writer)
    (hflush : w.flush = .ok ()) (hwilling : ∀ answer ∈ w.answers, answer.willing = true) :
    ∃ ended part left, sendAll maxBytes payloads w =
      (ended, { w with answers := left, sink := w.sink ++ part }) ∧
      part <+: stream (joined payloads) ∧
      (ended = .returned (.ok ()) ∧ part = stream (joined payloads) ∨ ended = .waiting) ∧
      ((stream (joined payloads)).length ≤ w.answers.countP WriteAnswer.takes →
        ended = .returned (.ok ())) := by
  obtain ⟨ended, part, left, heq, hwrote⟩ := sendAll_spec hmax hfits w hflush
  refine ⟨ended, part, left, heq, hwrote.begins, ?_⟩
  match ended, hwrote with
  | .returned (.ok ()), hwrote => exact ⟨.inl ⟨rfl, hwrote.ends⟩, fun _ => rfl⟩
  | .returned (.error _), hwrote =>
    obtain ⟨answer, hin, hbad⟩ := hwrote.ends
    cases hbad.symm.trans (hwilling answer hin)
  | .waiting, hwrote =>
    obtain ⟨rfl, hlt⟩ := hwrote.ends
    refine ⟨.inr rfl, fun hle => absurd hwrote.count ?_⟩
    rw [List.countP_nil]
    omega

section

variable {limit : Nat} (hmax : limit ≤ maxFrameBytes) {payloads : List (List UInt8)} {r : Reader}
variable (hlength : ∀ p ∈ payloads, p.length ≤ limit)
  (hreserves : ∀ p ∈ payloads, r.reserves p.length = true)

include hmax hlength hreserves

theorem recvTimes_exact (h : r.data = stream payloads) :
    recvTimes limit (payloads.length + 1) r = payloads.map (fun p => .ok (some p)) ++
      [.ok none] := by
  obtain ⟨reads, heq⟩ :=
    recvTimes_stream hmax hlength hreserves (h.trans (List.append_nil _).symm) 1
  rw [heq, recvTimes, recv_nil hmax rfl]
  rfl

theorem recvTimes_cut (h : r.data <+: stream payloads)
    (hcut : ∀ n, r.data ≠ stream (payloads.take n)) :
    ∃ n < payloads.length, recvTimes limit (n + 1) r =
      (payloads.take n).map (fun p => .ok (some p)) ++ [.error .unexpectedEof] := by
  obtain ⟨whole, part, hdata, ⟨rfl, hwhole⟩ | ⟨p, hwhole, hne, hpart, hlt⟩⟩ := stream_prefix h
  · rw [List.append_nil] at hdata
    exact absurd (hdata.trans (congrArg stream (List.prefix_iff_eq_take.mp hwhole))) (hcut _)
  · obtain ⟨tail, rfl⟩ := hwhole
    rw [List.append_assoc] at hlength hreserves ⊢
    obtain ⟨hlengths, hlast⟩ := List.forall_mem_append.mp hlength
    obtain ⟨hmem, hmemLast⟩ := List.forall_mem_append.mp hreserves
    obtain ⟨reads, heq⟩ := recvTimes_stream hmax hlengths hmem hdata 1
    obtain ⟨reads', hrecv⟩ := @recv_frame limit p { r with data := part, reads := reads } hmax
      (hlast p (.head _)) (hmemLast p (.head _)) [] hne (by rwa [List.append_nil])
    refine ⟨whole.length, by simp, ?_⟩
    rw [if_neg (Nat.not_le.mpr hlt)] at hrecv
    rw [List.take_left, heq, recvTimes, hrecv]
    rfl

end

/-- For payloads within the limits, a sender whose writer takes something at each call or is
interrupted puts the frames on the stream one after the other, and has put them there as soon as
the writer took as often as there are bytes.  Whatever the reads get, the receiver gets the
payloads in order and then the end.  If the stream was cut inside a frame it gets the payloads of
the whole frames and then an error.  A payload over the limit is not begun, and no cursor indexes
a part out of its range. -/
theorem stream_framing_exact {maxBytes : Nat} (hmax : maxBytes ≤ maxFrameBytes)
    {payloads : List (List UInt8 × List UInt8)}
    (hfits : ∀ p ∈ payloads, p.1.length + p.2.length ≤ maxBytes) :
    (∀ w : Writer, w.flush = .ok () → (∀ answer ∈ w.answers, answer.willing = true) →
      ∃ ended part left, sendAll maxBytes payloads w =
        (ended, { w with answers := left, sink := w.sink ++ part }) ∧
        part <+: stream (joined payloads) ∧
        (ended = .returned (.ok ()) ∧ part = stream (joined payloads) ∨ ended = .waiting) ∧
        ((stream (joined payloads)).length ≤ w.answers.countP WriteAnswer.takes →
          ended = .returned (.ok ()))) ∧
    (∀ limit ≤ maxFrameBytes, (∀ p ∈ joined payloads, p.length ≤ limit) → ∀ r : Reader,
      (∀ p ∈ joined payloads, r.reserves p.length = true) →
      (r.data = stream (joined payloads) → recvTimes limit (payloads.length + 1) r =
        (joined payloads).map (fun p => .ok (some p)) ++ [.ok none]) ∧
      (r.data <+: stream (joined payloads) → (∀ n, r.data ≠ stream ((joined payloads).take n)) →
        ∃ n < payloads.length, recvTimes limit (n + 1) r =
          ((joined payloads).take n).map (fun p => .ok (some p)) ++ [.error .unexpectedEof])) ∧
    (∀ head body w, maxBytes < head.length + body.length →
      ∃ error, sendBoundedParts head body maxBytes w = (.returned (.error (.length error)), w)) ∧
    (∀ parts c, Cursor.Reached parts c →
      (c.isDone = false → c.fill.isSome = true) ∧ ∀ n, (c.advance n).isSome = true) := by
  have hcount : (joined payloads).length = payloads.length := List.length_map _
  refine ⟨fun w => sendAll_exact hmax hfits w,
    fun limit hlimit hlength r hreserves => ⟨fun h => ?_, fun h hcut => ?_⟩,
    fun _ _ w h => send_of_gt hmax h w, fun _ _ hreached => ⟨fun hdone => ?_, fun n => ?_⟩⟩
  · exact hcount ▸ recvTimes_exact hlimit hlength hreserves h
  · exact hcount ▸ recvTimes_cut hlimit hlength hreserves h hcut
  · obtain ⟨slices, hfill, -⟩ := Cursor.fill_spec hreached.placed hdone
    exact hfill ▸ rfl
  · exact Cursor.advance_isSome hreached.placed n

/-- Three bytes in two parts, taken and read byte by byte. -/
theorem stream_framing_exact_bytewise :
    ∃ part left, sendAll 3 [([1], [2, 3])] ⟨List.replicate 11 (.accept 1), [], .ok ()⟩ =
        (.returned (.ok ()), ⟨left, part, .ok ()⟩) ∧
      recvTimes 3 2 ⟨stream [[1, 2, 3]], fun _ => 0, fun _ => true, 0⟩ =
        [.ok (some [1, 2, 3]), .ok none] := by
  obtain ⟨hsent, hreceived, -⟩ :=
    @stream_framing_exact 3 (by decide) [([1], [2, 3])] (by decide)
  obtain ⟨ended, part, left, heq, -, -, hended⟩ :=
    hsent ⟨List.replicate 11 (.accept 1), [], .ok ()⟩ rfl (by decide)
  obtain rfl := hended (by decide)
  exact ⟨part, left, heq, (hreceived 3 (by decide) (by decide) _ fun _ _ => rfl).1 rfl⟩

/-- A limit above the ceiling is refused, though every payload is below it. -/
theorem limit_above_ceiling_refused :
    recvTimes (maxFrameBytes + 1) 2 ⟨stream [[]], fun _ => 0, fun _ => true, 0⟩ =
      [.error (.length (.limitAboveCeiling (maxFrameBytes + 1))),
        .error (.length (.limitAboveCeiling (maxFrameBytes + 1)))] := rfl

end Groupnet.Framing
