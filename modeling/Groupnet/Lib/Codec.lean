import Mathlib.Algebra.GroupWithZero.Nat
import Mathlib.Data.String.Basic

/-!
# Length-prefixed byte codecs

A writer is a function to bytes.  A reader consumes bytes from the front of its
input and fails on input it cannot read.  `Reads p bs x` says that `p` reads
exactly `bs` as `x`, whatever follows, and the rules below build such a fact for a
reader from those of its parts.  A round trip of a composite format is one
application of a rule per part.

Integers are little-endian.  A reader of `k` bytes goes byte by byte and fails
exactly when fewer than `k` are left, as one that checks the length first does.
-/

namespace Groupnet.Codec

variable {α β : Type} {bs cur : List UInt8} {n : Nat}

/-- A reader of a value from the front of a byte string. -/
abbrev Get := StateT (List UInt8) Option

/-- The next byte. -/
def takeU8 : Get UInt8
  | [] => none
  | b :: rest => some (b, rest)

def takeBytes (n : Nat) : Get (List UInt8) := fun cur =>
  if cur.length < n then none else some (cur.take n, cur.drop n)

/-- The `k` low bytes of `n`, lowest first. -/
def putLE : Nat → Nat → List UInt8
  | 0, _ => []
  | k + 1, n => UInt8.ofNat n :: putLE k (n / 256)

/-- Reads a `k`-byte integer, lowest byte first. -/
def getLE : Nat → Get Nat
  | 0 => pure 0
  | k + 1 => do
    let b ← takeU8
    let rest ← getLE k
    pure (b.toNat + 256 * rest)

abbrev putU32 (n : Nat) : List UInt8 := putLE 4 n
abbrev putU64 (n : Nat) : List UInt8 := putLE 8 n
abbrev getU32 : Get Nat := getLE 4
abbrev getU64 : Get Nat := getLE 8

def putBytes (b : List UInt8) : List UInt8 := putU32 b.length ++ b

/-- Reads bytes behind a 32-bit length. -/
def getBytes : Get (List UInt8) := do
  let len ← getU32
  takeBytes len

def putStr (s : String) : List UInt8 := putBytes s.toUTF8.data.toList

/-- Reads a length-prefixed UTF-8 string. -/
def getStr : Get String := do
  let b ← getBytes
  (String.fromUTF8? ⟨b.toArray⟩ : Option String)

/-- Runs a reader `n` times. -/
def getN {α : Type} (p : Get α) : Nat → Get (List α)
  | 0 => pure []
  | n + 1 => do
    let x ← p
    let xs ← getN p n
    pure (x :: xs)

/-- A list behind a 32-bit count. -/
def putList {α : Type} (put : α → List UInt8) (xs : List α) : List UInt8 :=
  putU32 xs.length ++ xs.flatMap put

/-- Reads a list behind a 32-bit count. -/
def getList {α : Type} (p : Get α) : Get (List α) := do
  let n ← getU32
  getN p n

/-! ## What a reader reads -/

def Reads {α : Type} (p : Get α) (bs : List UInt8) (x : α) : Prop :=
  ∀ rest, p (bs ++ rest) = some (x, rest)

theorem Reads.pure (x : α) : Reads (Pure.pure x : Get α) [] x := fun _ => rfl

theorem Reads.bind {p : Get α} {f : α → Get β} {bs' : List UInt8} {x : α} {y : β}
    (hp : Reads p bs x) (hf : Reads (f x) bs' y) : Reads (p >>= f) (bs ++ bs') y := by
  intro rest
  have h := hp (bs' ++ rest)
  rw [← List.append_assoc] at h
  change (p (bs ++ bs' ++ rest)).bind (fun r => f r.1 r.2) = _
  rw [h]
  exact hf rest

/-- A reader followed by a total function of its result. -/
theorem Reads.map {p : Get α} {f : α → β} {x : α} (hp : Reads p bs x) :
    Reads (p >>= fun a => Pure.pure (f a)) bs (f x) := by
  have h := Reads.bind (f := fun a => Pure.pure (f a)) hp (Reads.pure (f x))
  rwa [List.append_nil] at h

/-- A reader followed by a partial function that succeeds on its result. -/
theorem Reads.lift {p : Get α} {f : α → Option β} {x : α} {y : β} (hp : Reads p bs x)
    (hf : f x = some y) :
    Reads (p >>= fun a => (liftM (f a) : Get β)) bs y := by
  intro rest
  change (p (bs ++ rest)).bind (fun r => (f r.1).bind fun b => some (b, r.2)) = _
  rw [hp rest]
  simp [hf]

theorem reads_takeU8 (b : UInt8) : Reads takeU8 [b] b := fun _ => rfl

theorem reads_takeBytes (b : List UInt8) : Reads (takeBytes b.length) b b := by
  intro rest
  simp [takeBytes]

theorem reads_getLE {k : Nat} (h : n < 256 ^ k) : Reads (getLE k) (putLE k n) n := by
  induction k generalizing n with
  | zero =>
    have : n = 0 := by simpa using h
    subst this
    exact Reads.pure 0
  | succ k ih =>
    have hdiv : n / 256 < 256 ^ k := by
      rw [Nat.div_lt_iff_lt_mul (by decide)]
      rwa [← Nat.pow_succ]
    have hn : (UInt8.ofNat n).toNat + 256 * (n / 256) = n := by
      rw [UInt8.toNat_ofNat']
      omega
    have hrest := Reads.map (f := fun r => (UInt8.ofNat n).toNat + 256 * r) (ih hdiv)
    have := Reads.bind (f := fun b => getLE k >>= fun r => Pure.pure (b.toNat + 256 * r))
      (reads_takeU8 (UInt8.ofNat n)) hrest
    rw [hn] at this
    exact this

theorem reads_getU32 (h : n < 4294967296) : Reads getU32 (putU32 n) n :=
  reads_getLE (by simpa using h)

theorem reads_getU64 (h : n < 18446744073709551616) : Reads getU64 (putU64 n) n :=
  reads_getLE (by simpa using h)

theorem reads_getBytes {b : List UInt8} (h : b.length < 4294967296) :
    Reads getBytes (putBytes b) b :=
  Reads.bind (reads_getU32 h) (reads_takeBytes b)

theorem fromUTF8?_eq_some {b : List UInt8} {s : String} :
    String.fromUTF8? ⟨b.toArray⟩ = some s ↔ s.toUTF8.data.toList = b := by
  constructor
  · intro h
    unfold String.fromUTF8? at h
    split at h
    · cases h
      rfl
    · cases h
  · rintro rfl
    simp [String.fromUTF8?, String.fromUTF8, s.isValidUTF8]

theorem reads_getStr {s : String} (h : s.utf8ByteSize < 4294967296) :
    Reads getStr (putStr s) s := by
  exact Reads.lift (reads_getBytes (by simpa using h)) (fromUTF8?_eq_some.mpr rfl)

theorem reads_getN {p : Get α} {put : α → List UInt8} {xs : List α}
    (h : ∀ x ∈ xs, Reads p (put x) x) : Reads (getN p xs.length) (xs.flatMap put) xs := by
  induction xs with
  | nil => exact Reads.pure []
  | cons x xs ih =>
    have hx := h x (List.mem_cons_self ..)
    have hxs := ih fun y hy => h y (List.mem_cons_of_mem _ hy)
    exact Reads.bind (f := fun a => getN p xs.length >>= fun as => Pure.pure (a :: as)) hx
      (Reads.map hxs)

theorem reads_getList {p : Get α} {put : α → List UInt8} {xs : List α}
    (hlen : xs.length < 4294967296) (h : ∀ x ∈ xs, Reads p (put x) x) :
    Reads (getList p) (putList put xs) xs :=
  Reads.bind (reads_getU32 hlen) (reads_getN h)

/-- A reader that consumes all of its input returns what was written. -/
theorem Reads.run_eq {p : Get α} {x : α} (h : Reads p bs x) : p bs = some (x, []) := by
  simpa using h []

/-! ## What a reader yields -/

/-- Every value `p` reads meets `P`. -/
def Yields {α : Type} (p : Get α) (P : α → Prop) : Prop :=
  ∀ cur x rest, p cur = some (x, rest) → P x

theorem bind_eq_some {p : Get α} {f : α → Get β} {rest : List UInt8} {y : β}
    (h : (p >>= f) cur = some (y, rest)) :
    ∃ x mid, p cur = some (x, mid) ∧ f x mid = some (y, rest) := by
  change (p cur).bind (fun r => f r.1 r.2) = some (y, rest) at h
  obtain ⟨⟨x, mid⟩, hp, hf⟩ := Option.bind_eq_some_iff.mp h
  exact ⟨x, mid, hp, hf⟩

theorem lift_eq_some {o : Option α} {rest : List UInt8} {y : α}
    (h : (liftM o : Get α) cur = some (y, rest)) : o = some y ∧ rest = cur := by
  change o.bind (fun b => some (b, cur)) = some (y, rest) at h
  obtain ⟨b, hb, heq⟩ := Option.bind_eq_some_iff.mp h
  cases heq
  exact ⟨hb, rfl⟩

theorem Yields.any (p : Get α) : Yields p fun _ => True := fun _ _ _ _ => trivial

theorem Yields.pure {P : α → Prop} {x : α} (h : P x) : Yields (Pure.pure x : Get α) P := by
  intro cur y rest hrun
  cases hrun
  exact h

theorem Yields.bind {p : Get α} {f : α → Get β} {P : α → Prop} {Q : β → Prop} (hp : Yields p P)
    (hf : ∀ x, P x → Yields (f x) Q) : Yields (p >>= f) Q := by
  intro cur y rest hrun
  obtain ⟨x, mid, hx, hy⟩ := bind_eq_some hrun
  exact hf x (hp _ _ _ hx) _ _ _ hy

/-- A reader followed by a partial function of its result. -/
theorem Yields.lift {p : Get α} {f : α → Option β} {P : α → Prop} {Q : β → Prop} (hp : Yields p P)
    (hf : ∀ x y, P x → f x = some y → Q y) : Yields (p >>= fun a => (liftM (f a) : Get β)) Q :=
  hp.bind fun x hx _ y _ hrun => hf x y hx (lift_eq_some hrun).1

theorem yields_failure (P : α → Prop) : Yields (failure : Get α) P := by
  intro cur x rest hrun
  cases hrun

theorem yields_getLE (k : Nat) : Yields (getLE k) (· < 256 ^ k) := by
  induction k with
  | zero => exact Yields.pure Nat.one_pos
  | succ k ih =>
    refine (Yields.any takeU8).bind fun b _ => ih.bind fun r hr => Yields.pure ?_
    have hb : b.toNat < 256 := b.toNat_lt
    rw [Nat.pow_succ]
    omega

theorem yields_takeBytes (n : Nat) : Yields (takeBytes n) (·.length = n) := by
  intro cur x rest hrun
  unfold takeBytes at hrun
  split at hrun
  · cases hrun
  next hlen =>
    cases hrun
    rw [List.length_take]
    omega

theorem yields_getBytes : Yields getBytes (·.length < 4294967296) :=
  (yields_getLE 4).bind fun n hn _ _ _ hrun => (yields_takeBytes n _ _ _ hrun).symm ▸ hn

theorem yields_getStr : Yields getStr (·.utf8ByteSize < 4294967296) := by
  refine yields_getBytes.lift fun b s hb hs => ?_
  rw [← fromUTF8?_eq_some.mp hs] at hb
  simpa using hb

theorem yields_getN {p : Get α} {P : α → Prop} (hp : Yields p P) (n : Nat) :
    Yields (getN p n) fun xs => xs.length = n ∧ ∀ x ∈ xs, P x := by
  induction n with
  | zero => exact Yields.pure ⟨rfl, fun _ h => nomatch h⟩
  | succ n ih =>
    refine hp.bind fun x hx => ih.bind fun xs hxs => Yields.pure ⟨congrArg (· + 1) hxs.1, ?_⟩
    exact List.forall_mem_cons.mpr ⟨hx, hxs.2⟩

theorem yields_getList {p : Get α} {P : α → Prop} (hp : Yields p P) :
    Yields (getList p) fun xs => xs.length < 4294967296 ∧ ∀ x ∈ xs, P x :=
  (yields_getLE 4).bind fun n hn _ _ _ hrun => by
    obtain ⟨hlen, hall⟩ := yields_getN hp n _ _ _ hrun
    exact ⟨hlen.symm ▸ hn, hall⟩

/-! ## Readers that look only at what they take -/

/-- What `p` takes it reads, whatever follows. -/
def Local {α : Type} (p : Get α) : Prop :=
  ∀ cur x rest, p cur = some (x, rest) → ∃ used, cur = used ++ rest ∧ Reads p used x

theorem Local.pure (x : α) : Local (Pure.pure x : Get α) := by
  intro cur y rest hrun
  cases hrun
  exact ⟨[], rfl, .pure x⟩

theorem Local.bind {p : Get α} {f : α → Get β} (hp : Local p) (hf : ∀ x, Local (f x)) :
    Local (p >>= f) := by
  intro cur y rest hrun
  obtain ⟨x, mid, hx, hy⟩ := bind_eq_some hrun
  obtain ⟨used, rfl, hused⟩ := hp cur x mid hx
  obtain ⟨used', rfl, hused'⟩ := hf x mid y rest hy
  exact ⟨used ++ used', (List.append_assoc ..).symm, hused.bind hused'⟩

theorem Local.lift (o : Option α) : Local (liftM o : Get α) := by
  intro cur y rest hrun
  obtain ⟨rfl, rfl⟩ := lift_eq_some hrun
  exact ⟨[], rfl, fun _ => rfl⟩

theorem local_failure : Local (failure : Get α) := by
  intro cur x rest hrun
  cases hrun

theorem Local.ite {c : Prop} [Decidable c] {p q : Get α} (hp : Local p) (hq : Local q) :
    Local (if c then p else q) := by
  split
  · exact hp
  · exact hq

theorem local_takeU8 : Local takeU8 := by
  intro cur x rest hrun
  cases cur with
  | nil => cases hrun
  | cons b cur =>
    cases hrun
    exact ⟨[x], rfl, reads_takeU8 x⟩

theorem local_takeBytes (n : Nat) : Local (takeBytes n) := by
  intro cur x rest hrun
  have hlen := yields_takeBytes n cur x rest hrun
  unfold takeBytes at hrun
  split at hrun
  · cases hrun
  cases hrun
  have hreads := reads_takeBytes (cur.take n)
  rw [hlen] at hreads
  exact ⟨cur.take n, (List.take_append_drop n cur).symm, hreads⟩

theorem local_getLE (k : Nat) : Local (getLE k) := by
  induction k with
  | zero => exact .pure 0
  | succ k ih => exact local_takeU8.bind fun _ => ih.bind fun _ => .pure _

theorem local_getStr : Local getStr :=
  ((local_getLE 4).bind local_takeBytes).bind fun _ => .lift _

theorem local_getN {p : Get α} (hp : Local p) (n : Nat) : Local (getN p n) := by
  induction n with
  | zero => exact .pure []
  | succ n ih => exact hp.bind fun _ => ih.bind fun _ => .pure _

/-- Two ways to read the front of one input are one. -/
theorem Local.eq_of_front {p : Get α} (hp : Local p) {tail : List UInt8} {x y : α}
    (hx : Reads p bs x) (hcur : bs = cur ++ tail) (hy : p cur = some (y, [])) :
    tail = [] ∧ y = x := by
  obtain ⟨used, hused, hread⟩ := hp cur y [] hy
  rw [List.append_nil] at hused
  subst hused
  have hrun := hx.run_eq
  rw [hcur, hread tail] at hrun
  cases hrun
  exact ⟨rfl, rfl⟩

/-! ## Readers by position

The same readers over a fixed byte string and a position in it, which is how they are
written where a string is not consumed. -/

/-- A reader at a position. -/
abbrev GetAt := StateT Nat Option

def sliceAt (bytes : List UInt8) (n : Nat) : GetAt (List UInt8) := fun pos =>
  if pos + n ≤ bytes.length then some ((bytes.drop pos).take n, pos + n) else none

/-- The integer of some bytes, lowest first. -/
def fromLE : List UInt8 → Nat
  | [] => 0
  | b :: rest => b.toNat + 256 * fromLE rest

/-- `r` reads at a position what `p` reads from there. -/
def Mirrors {α : Type} (bytes : List UInt8) (r : GetAt α) (p : Get α) : Prop :=
  ∀ pos ≤ bytes.length,
    r pos = (p (bytes.drop pos)).map fun next => (next.1, bytes.length - next.2.length)

namespace Mirrors

variable {α β : Type} {bytes : List UInt8}

theorem pure (x : α) : Mirrors bytes (Pure.pure x) (Pure.pure x) := by
  intro pos hpos
  show some (x, pos) = some (x, bytes.length - (bytes.drop pos).length)
  rw [List.length_drop, Nat.sub_sub_self hpos]

theorem bind {r : GetAt α} {p : Get α} {r' : α → GetAt β} {p' : α → Get β} (h : Mirrors bytes r p)
    (hp : Local p) (h' : ∀ x, Mirrors bytes (r' x) (p' x)) :
    Mirrors bytes (r >>= r') (p >>= p') := by
  intro pos hpos
  show (r pos).bind (fun next => r' next.1 next.2) =
    ((p (bytes.drop pos)).bind fun next => p' next.1 next.2).map _
  rw [h pos hpos]
  cases hrun : p (bytes.drop pos) with
  | none => rfl
  | some next =>
    obtain ⟨x, rest⟩ := next
    obtain ⟨used, hused, -⟩ := hp _ _ _ hrun
    -- the rest is the input from the next position on
    have hlen : (bytes.drop pos).length = used.length + rest.length := by
      rw [hused, List.length_append]
    rw [List.length_drop] at hlen
    have hrest : bytes.drop (bytes.length - rest.length) = rest := by
      have heq : bytes.length - rest.length = pos + used.length := by omega
      rw [heq, ← List.drop_drop, hused, List.drop_left]
    have hnext := h' x (bytes.length - rest.length) (Nat.sub_le ..)
    rw [hrest] at hnext
    exact hnext

theorem lift (o : Option α) : Mirrors bytes (liftM o) (liftM o) := by
  intro pos hpos
  cases o with
  | none => rfl
  | some x => exact pure x pos hpos

theorem failure : Mirrors bytes (failure : GetAt α) failure := fun _ _ => rfl

theorem ite {c : Prop} [Decidable c] {r r' : GetAt α} {p p' : Get α} (h : Mirrors bytes r p)
    (h' : Mirrors bytes r' p') : Mirrors bytes (if c then r else r') (if c then p else p') := by
  split
  · exact h
  · exact h'

theorem slice (n : Nat) : Mirrors bytes (sliceAt bytes n) (takeBytes n) := by
  intro pos hpos
  unfold sliceAt takeBytes
  rw [List.length_drop]
  by_cases hn : pos + n ≤ bytes.length
  · rw [if_pos hn, if_neg (by omega), Option.map_some, List.drop_drop, List.length_drop]
    congr 2
    omega
  · rw [if_neg hn, if_pos (by omega), Option.map_none]

end Mirrors

theorem takeBytes_fromLE (k : Nat) : (takeBytes k >>= fun raw => pure (fromLE raw)) = getLE k := by
  funext cur
  show (takeBytes k cur).bind (fun next => some (fromLE next.1, next.2)) = _
  induction k generalizing cur with
  | zero => rfl
  | succ k ih =>
    cases cur with
    | nil => rfl
    | cons b cur =>
      show _ = (getLE k cur).bind fun next => some (b.toNat + 256 * next.1, next.2)
      rw [← ih cur]
      unfold takeBytes
      rw [List.length_cons]
      by_cases hk : cur.length < k
      · rw [if_pos hk, if_pos (by omega)]
        rfl
      · rw [if_neg hk, if_neg (by omega)]
        rfl

def leAt (bytes : List UInt8) (k : Nat) : GetAt Nat := do
  let raw ← sliceAt bytes k
  pure (fromLE raw)

theorem Mirrors.le {bytes : List UInt8} (k : Nat) : Mirrors bytes (leAt bytes k) (getLE k) := by
  rw [← takeBytes_fromLE]
  exact (slice k).bind (local_takeBytes k) fun _ => .pure _

/-! ## Lengths -/

@[simp] theorem length_putLE (k n : Nat) : (putLE k n).length = k := by
  induction k generalizing n with
  | zero => rfl
  | succ k ih => simp [putLE, ih]

@[simp] theorem length_putBytes (b : List UInt8) : (putBytes b).length = 4 + b.length := by
  simp [putBytes]

@[simp] theorem length_putStr (s : String) : (putStr s).length = 4 + s.utf8ByteSize := by
  simp [putStr]

theorem length_putList {α : Type} {put : α → List UInt8} {len : α → Nat}
    (h : ∀ x, (put x).length = len x) (xs : List α) :
    (putList put xs).length = 4 + (xs.map len).sum := by
  simp [putList, List.length_flatMap, h]

/-! ## Network byte order -/

/-- The `k` low bytes of `n`, highest first. -/
def putBE (k n : Nat) : List UInt8 := (putLE k n).reverse

/-- The integer of some bytes, highest first. -/
def fromBE (bytes : List UInt8) : Nat := fromLE bytes.reverse

/-- Reads a `k`-byte integer, highest byte first. -/
def getBE (k : Nat) : Get Nat := do
  let raw ← takeBytes k
  pure (fromBE raw)

theorem fromLE_putLE {k n : Nat} (h : n < 256 ^ k) : fromLE (putLE k n) = n := by
  induction k generalizing n with
  | zero =>
    rw [Nat.pow_zero, Nat.lt_one_iff] at h
    rw [h]
    rfl
  | succ k ih =>
    have hdiv : n / 256 < 256 ^ k := by
      rw [Nat.div_lt_iff_lt_mul (by decide)]
      rwa [← Nat.pow_succ]
    show (UInt8.ofNat n).toNat + 256 * fromLE (putLE k (n / 256)) = n
    rw [ih hdiv, UInt8.toNat_ofNat']
    omega

theorem fromBE_putBE {k n : Nat} (h : n < 256 ^ k) : fromBE (putBE k n) = n := by
  unfold fromBE putBE
  rw [List.reverse_reverse, fromLE_putLE h]

@[simp] theorem length_putBE (k n : Nat) : (putBE k n).length = k := by
  simp [putBE]

theorem putLE_fromLE (bytes : List UInt8) : putLE bytes.length (fromLE bytes) = bytes := by
  induction bytes with
  | nil => rfl
  | cons b bytes ih =>
    have hb := b.toNat_lt
    have hdiv : (b.toNat + 256 * fromLE bytes) / 256 = fromLE bytes := by omega
    have hmod : UInt8.ofNat (b.toNat + 256 * fromLE bytes) = b := by
      apply UInt8.toNat_inj.mp
      rw [UInt8.toNat_ofNat']
      omega
    show UInt8.ofNat (b.toNat + 256 * fromLE bytes) ::
      putLE bytes.length ((b.toNat + 256 * fromLE bytes) / 256) = _
    rw [hmod, hdiv, ih]

theorem putBE_fromBE {k : Nat} {bytes : List UInt8} (h : bytes.length = k) :
    putBE k (fromBE bytes) = bytes := by
  rw [putBE, fromBE, ← h, ← List.length_reverse, putLE_fromLE, List.reverse_reverse]

end Groupnet.Codec
