import Mathlib.Data.BitVec

/-!
# Reflected checksums

A cyclic redundancy check that works from the low bit up, bit by bit.  A byte is added to the
low end of the register, and each of its bits is shifted out through the polynomial.

A shift is linear, and it can be undone when the top bit of the polynomial is set: that bit of
the result is the bit that was shifted out.  So a change of the register is never lost on the
way to the end of the input.  As many bytes as the register has are added to it without
running into each other, so a change within them changes the register.
-/

namespace Groupnet.Crc

variable {w : Nat} {poly : BitVec w}

/-- Shifts out the low bit. -/
def shift (poly crc : BitVec w) : BitVec w := (crc >>> 1) ^^^ (poly &&& -(crc &&& 1#w))

/-- Shifts out `n` bits. -/
def shifts (poly : BitVec w) : Nat → BitVec w → BitVec w
  | 0, crc => crc
  | n + 1, crc => shifts poly n (shift poly crc)

/-- Takes in a byte. -/
def update (poly crc : BitVec w) (byte : UInt8) : BitVec w :=
  shifts poly 8 (crc ^^^ byte.toBitVec.setWidth w)

/-! ## One bit -/

/-- The mask is the polynomial when a one is shifted out. -/
theorem shift_eq (poly crc : BitVec w) :
    shift poly crc = (crc >>> 1) ^^^ if crc.getLsbD 0 then poly else 0#w := by
  unfold shift
  rw [BitVec.and_one_eq_setWidth_ofBool_getLsbD]
  cases crc.getLsbD 0 with
  | false => simp
  | true =>
    have hone : (BitVec.ofBool true).setWidth w = 1#w := BitVec.eq_of_toNat_eq (by simp)
    rw [hone, BitVec.neg_one_eq_allOnes, BitVec.and_allOnes, if_pos rfl]

theorem shift_xor (a b : BitVec w) : shift poly (a ^^^ b) = shift poly a ^^^ shift poly b := by
  rw [shift_eq, shift_eq, shift_eq, BitVec.ushiftRight_xor_distrib, BitVec.getLsbD_xor]
  have hcancel (x y : BitVec w) : x ^^^ y = x ^^^ poly ^^^ (y ^^^ poly) := by
    rw [BitVec.xor_comm y, ← BitVec.xor_assoc, BitVec.xor_assoc x, BitVec.xor_self, BitVec.xor_zero]
  cases a.getLsbD 0 <;> cases b.getLsbD 0 <;> simp
  · ac_rfl
  · ac_rfl
  · exact hcancel _ _

/-- The top bit of the result is the bit that was shifted out. -/
theorem msb_shift (hpoly : poly.msb = true) (crc : BitVec w) :
    (shift poly crc).msb = crc.getLsbD 0 := by
  rw [shift_eq, BitVec.msb_xor]
  cases crc.getLsbD 0 <;> simp [hpoly, BitVec.msb_ushiftRight]

theorem shift_injective (hpoly : poly.msb = true) : Function.Injective (shift poly) := by
  intro a b h
  have hlow : a.getLsbD 0 = b.getLsbD 0 := by
    rw [← msb_shift hpoly, h, msb_shift hpoly]
  have hrest : a >>> 1 = b >>> 1 := by
    rw [shift_eq, shift_eq, hlow] at h
    exact (BitVec.xor_left_inj _).mp h
  apply BitVec.eq_of_getLsbD_eq
  intro i _
  cases i with
  | zero => exact hlow
  | succ i => simpa [Nat.add_comm] using congrArg (BitVec.getLsbD · i) hrest

/-! ## Many bits -/

theorem shifts_xor (n : Nat) (a b : BitVec w) :
    shifts poly n (a ^^^ b) = shifts poly n a ^^^ shifts poly n b := by
  induction n generalizing a b with
  | zero => rfl
  | succ n ih =>
    unfold shifts
    rw [shift_xor, ih]

theorem shifts_add (m n : Nat) (a : BitVec w) :
    shifts poly (m + n) a = shifts poly n (shifts poly m a) := by
  induction m generalizing a with
  | zero => rw [Nat.zero_add, shifts]
  | succ m ih =>
    rw [Nat.succ_add]
    exact ih _

theorem shifts_injective (hpoly : poly.msb = true) (n : Nat) :
    Function.Injective (shifts poly n) := by
  induction n with
  | zero => exact Function.injective_id
  | succ n ih => exact ih.comp (shift_injective hpoly)

/-- The bits of a word from `n` on are clear. -/
def Below (n : Nat) (x : BitVec w) : Prop := ∀ i, n ≤ i → x.getLsbD i = false

/-- A word that was moved up without loss moves down again. -/
theorem shifts_shiftLeft {n k : Nat} {x : BitVec w} (hx : Below k x) (hfit : k + n ≤ w) :
    shifts poly n (x <<< n) = x := by
  induction n with
  | zero => exact BitVec.shiftLeft_zero x
  | succ n ih =>
    have hdown : shift poly (x <<< (n + 1)) = x <<< n := by
      rw [shift_eq]
      have hlow : (x <<< (n + 1)).getLsbD 0 = false := by simp
      rw [hlow]
      apply BitVec.eq_of_getLsbD_eq
      intro i hi
      by_cases htop : i + 1 < w
      · simp [htop, hi, Nat.add_comm 1]
      · have hclear := hx (i - n) (by omega)
        simp [hclear]
        omega
    unfold shifts
    rw [hdown]
    exact ih (by omega)

/-! ## Bytes -/

/-- The word of some bytes, lowest first. -/
def word (w : Nat) : List UInt8 → BitVec w
  | [] => 0#w
  | byte :: bytes => byte.toBitVec.setWidth w ^^^ word w bytes <<< 8

theorem below_word (bytes : List UInt8) : Below (8 * bytes.length) (word w bytes) := by
  induction bytes with
  | nil =>
    intro i _
    simp [word]
  | cons byte bytes ih =>
    intro i hi
    rw [List.length_cons] at hi
    have hrest := ih (i - 8) (by omega)
    have hbyte : byte.toBitVec.getLsbD i = false := BitVec.getLsbD_of_ge _ _ (by omega)
    simp [word, hrest, hbyte]

/-- The bytes of a window are added to the register at once. -/
theorem foldl_update {bytes : List UInt8} (hfit : 8 * bytes.length ≤ w) (crc : BitVec w) :
    bytes.foldl (update poly) crc = shifts poly (8 * bytes.length) (crc ^^^ word w bytes) := by
  induction bytes generalizing crc with
  | nil => simp [word, shifts]
  | cons byte bytes ih =>
    rw [List.length_cons] at hfit
    have hword : shifts poly 8 (word w bytes <<< 8) = word w bytes :=
      shifts_shiftLeft (below_word bytes) (by omega)
    rw [List.foldl_cons, ih (by omega), List.length_cons, Nat.mul_succ, Nat.add_comm, shifts_add]
    unfold update
    rw [← hword, ← shifts_xor, word, BitVec.xor_assoc]

theorem word_inj {a b : List UInt8} (hlen : a.length = b.length) (hfit : 8 * a.length ≤ w)
    (h : word w a = word w b) : a = b := by
  induction a generalizing b with
  | nil => exact (List.length_eq_zero_iff.mp hlen.symm).symm
  | cons x a ih =>
    cases b with
    | nil => cases hlen
    | cons y b =>
      rw [List.length_cons] at hfit
      have hfirst : x = y := by
        apply UInt8.toBitVec_inj.mp
        apply BitVec.eq_of_getLsbD_eq
        intro i hi
        have hbit := congrArg (BitVec.getLsbD · i) h
        simpa [word, hi, show i < w by omega] using hbit
      have hrest : word w a <<< 8 = word w b <<< 8 := by
        unfold word at h
        rw [hfirst] at h
        exact (BitVec.xor_right_inj _).mp h
      have hlen : a.length = b.length := Nat.succ.inj hlen
      have hword : word w a = word w b := by
        have hback : shifts 0#w 8 (word w a <<< 8) = word w a :=
          shifts_shiftLeft (below_word a) (by omega)
        rw [← hback, hrest, shifts_shiftLeft (below_word b) (by omega)]
      rw [hfirst, ih hlen (by omega) hword]

theorem foldl_update_injective (hpoly : poly.msb = true) (bytes : List UInt8) :
    Function.Injective (bytes.foldl (update poly)) := by
  induction bytes with
  | nil => exact Function.injective_id
  | cons byte bytes ih =>
    intro a b h
    exact (BitVec.xor_left_inj _).mp (shifts_injective hpoly 8 (ih h))

/-- Inputs that differ within as many bytes as the register has leave different registers. -/
theorem window_inj (hpoly : poly.msb = true) {crc : BitVec w} {a b rest : List UInt8}
    (hlen : a.length = b.length) (hfit : 8 * a.length ≤ w)
    (h : (a ++ rest).foldl (update poly) crc = (b ++ rest).foldl (update poly) crc) : a = b := by
  rw [List.foldl_append, List.foldl_append] at h
  have hregister := foldl_update_injective hpoly rest h
  rw [foldl_update hfit, foldl_update (hlen ▸ hfit), ← hlen] at hregister
  exact word_inj hlen hfit ((BitVec.xor_right_inj _).mp (shifts_injective hpoly _ hregister))

end Groupnet.Crc
