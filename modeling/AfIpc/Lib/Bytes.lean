/-
  AfIpc.Lib.Bytes

  Byte lists as bounded memory: big-endian numerals of a fixed number of
  bytes, and loads and stores that trap when they leave the list.

  The numeral pair `toBe` / `ofBe` is a bijection between the numbers below
  `256 ^ n` and the byte lists of length `n`.  The memory pair `load` / `store`
  is characterized on a buffer written as a concatenation (`load_append`,
  `store_append`), which is the form in which encoders and decoders meet it.
-/

import Mathlib.Data.List.Basic
import Mathlib.Tactic.Ring

namespace AfIpc.Lib

abbrev Byte := BitVec 8

/-- What stops a computation that C would leave undefined. -/
inductive Trap where
  | outOfBounds
  | outOfFuel
  deriving DecidableEq, Repr

/-! ## Big-endian numerals -/

/-- The `n` low-order bytes of `x`, most significant first. -/
def toBe : Nat → Nat → List Byte
  | 0, _ => []
  | n + 1, x => BitVec.ofNat 8 (x / 256 ^ n) :: toBe n x

/-- The number a byte list denotes, most significant byte first. -/
def ofBe : List Byte → Nat
  | [] => 0
  | b :: bs => b.toNat * 256 ^ bs.length + ofBe bs

@[simp] theorem toBe_length (n x : Nat) : (toBe n x).length = n := by
  induction n with
  | zero => rfl
  | succ n ih => simp [toBe, ih]

@[simp] theorem ofBe_nil : ofBe [] = 0 := rfl

theorem ofBe_cons (b : Byte) (bs : List Byte) :
    ofBe (b :: bs) = b.toNat * 256 ^ bs.length + ofBe bs := rfl

theorem ofBe_lt (bs : List Byte) : ofBe bs < 256 ^ bs.length := by
  induction bs with
  | nil => simp
  | cons b bs ih =>
      have hb : b.toNat + 1 ≤ 256 := b.isLt
      have hmul : (b.toNat + 1) * 256 ^ bs.length ≤ 256 * 256 ^ bs.length :=
        Nat.mul_le_mul_right _ hb
      rw [Nat.add_mul, Nat.one_mul] at hmul
      rw [ofBe_cons, List.length_cons, Nat.pow_succ, Nat.mul_comm (256 ^ bs.length)]
      omega

/-- Reading back `n` bytes gives the number reduced to `n` bytes. -/
theorem ofBe_toBe (n x : Nat) : ofBe (toBe n x) = x % 256 ^ n := by
  induction n with
  | zero => simp [toBe, Nat.mod_one]
  | succ n ih =>
      have hsplit : x % 256 ^ (n + 1) = x % 256 ^ n + 256 ^ n * (x / 256 ^ n % 256) := by
        rw [Nat.pow_succ, Nat.mod_mul]
      rw [toBe, ofBe_cons, ih, toBe_length, BitVec.toNat_ofNat, hsplit,
        show (2 : Nat) ^ 8 = 256 from rfl, Nat.mul_comm, Nat.add_comm]

theorem ofBe_toBe_of_lt {n x : Nat} (h : x < 256 ^ n) : ofBe (toBe n x) = x := by
  rw [ofBe_toBe, Nat.mod_eq_of_lt h]

/-- Only the low-order bytes of the number are written. -/
theorem toBe_mod (n x : Nat) : toBe n (x % 256 ^ n) = toBe n x := by
  suffices h : ∀ m, n ≤ m → toBe n (x % 256 ^ m) = toBe n x from h n (Nat.le_refl n)
  induction n with
  | zero => intro m _; rfl
  | succ n ih =>
      intro m hm
      have hsplit : 256 ^ m = 256 ^ n * (256 * 256 ^ (m - n - 1)) := by
        rw [← Nat.pow_succ', ← Nat.pow_add]
        congr 1
        omega
      have hhead : BitVec.ofNat 8 (x % 256 ^ m / 256 ^ n) = BitVec.ofNat 8 (x / 256 ^ n) := by
        apply BitVec.eq_of_toNat_eq
        rw [BitVec.toNat_ofNat, BitVec.toNat_ofNat, hsplit, Nat.mod_mul_right_div_self]
        exact Nat.mod_mul_right_mod _ _ _
      rw [toBe, toBe, hhead, ih m (by omega)]

/-- Every byte list is the numeral of its own value. -/
theorem toBe_ofBe (bs : List Byte) : toBe bs.length (ofBe bs) = bs := by
  induction bs with
  | nil => rfl
  | cons b bs ih =>
      have hlt := ofBe_lt bs
      have hpos : 0 < 256 ^ bs.length := Nat.pow_pos (by decide)
      have hhead : ofBe (b :: bs) / 256 ^ bs.length = b.toNat := by
        rw [ofBe_cons, Nat.mul_comm, Nat.mul_add_div hpos, Nat.div_eq_of_lt hlt, Nat.add_zero]
      have htail : ofBe (b :: bs) % 256 ^ bs.length = ofBe bs := by
        rw [ofBe_cons, Nat.mul_comm, Nat.mul_add_mod, Nat.mod_eq_of_lt hlt]
      rw [List.length_cons, toBe, hhead, ← toBe_mod, htail, ih]
      simp

/-! ## Loads and stores -/

/-- Read `n` bytes at `pos`. -/
def load (buf : List Byte) (pos n : Nat) : Except Trap (List Byte) :=
  if pos + n ≤ buf.length then .ok ((buf.drop pos).take n) else .error .outOfBounds

/-- Write `bs` at `pos`. -/
def store (buf : List Byte) (pos : Nat) (bs : List Byte) : Except Trap (List Byte) :=
  if pos + bs.length ≤ buf.length then
    .ok (buf.take pos ++ bs ++ buf.drop (pos + bs.length))
  else
    .error .outOfBounds

theorem load_append (pre mid post : List Byte) :
    load (pre ++ (mid ++ post)) pre.length mid.length = .ok mid := by
  have hle : pre.length + mid.length ≤ (pre ++ (mid ++ post)).length := by
    simp only [List.length_append]
    omega
  rw [load, if_pos hle, List.drop_left, List.take_left]

theorem load_eq_ok_iff {buf : List Byte} {pos n : Nat} {bs : List Byte} :
    load buf pos n = .ok bs ↔ pos + n ≤ buf.length ∧ bs = (buf.drop pos).take n := by
  unfold load
  split
  · simp only [Except.ok.injEq]
    refine ⟨?_, ?_⟩
    · intro h
      exact ⟨by assumption, h.symm⟩
    · intro h
      exact h.2.symm
  · refine ⟨?_, ?_⟩
    · intro h
      cases h
    · intro h
      omega

/-- A load that stays inside the first `k` bytes sees only those. -/
theorem load_take {buf : List Byte} {pos n k : Nat} (h : pos + n ≤ k) (hk : k ≤ buf.length) :
    load (buf.take k) pos n = load buf pos n := by
  have hlen : (buf.take k).length = k := by rw [List.length_take]; omega
  rw [load, load, hlen, if_pos h, if_pos (by omega), List.drop_take, List.take_take]
  congr 2
  omega

theorem store_append (pre post bs : List Byte) (h : bs.length ≤ post.length) :
    store (pre ++ post) pre.length bs = .ok (pre ++ (bs ++ post.drop bs.length)) := by
  have hle : pre.length + bs.length ≤ (pre ++ post).length := by
    rw [List.length_append]
    omega
  have hdrop : (pre ++ post).drop (pre.length + bs.length) = post.drop bs.length := by
    rw [← List.drop_drop, List.drop_left]
  rw [store, if_pos hle, List.take_left, hdrop, List.append_assoc]

/-- Overwriting the first bytes of a buffer. -/
theorem store_zero (pre post bs : List Byte) (h : bs.length = pre.length) :
    store (pre ++ post) 0 bs = .ok (bs ++ post) := by
  have hle : bs.length ≤ (pre ++ post).length := by
    rw [List.length_append]
    omega
  have hs := store_append [] (pre ++ post) bs hle
  simpa [h] using hs

/-- A store inside the buffer succeeds and keeps its length. -/
theorem store_ok {buf : List Byte} {pos : Nat} {bs : List Byte} (h : pos + bs.length ≤ buf.length) :
    ∃ buf', store buf pos bs = .ok buf' ∧ buf'.length = buf.length := by
  refine ⟨_, if_pos h, ?_⟩
  rw [List.length_append, List.length_append, List.length_take, List.length_drop]
  omega

/-- A store leaves what is before it alone. -/
theorem store_take {buf buf' : List Byte} {pos k : Nat} {bs : List Byte}
    (h : store buf pos bs = .ok buf') (hk : k ≤ pos) : buf'.take k = buf.take k := by
  unfold store at h
  split_ifs at h with hle
  obtain rfl := Except.ok.inj h
  have hlen : (buf.take pos).length = pos := by
    rw [List.length_take]
    omega
  rw [List.append_assoc, List.take_append_of_le_length (by omega), List.take_take]
  congr 1
  omega

/-! ## Conversions -/

/-- An `int` converted to `size_t`, as the usual arithmetic conversions do where
    one operand is a `sizeof`. -/
def sizeT (x : Int) : Nat := (x % 2 ^ 64).toNat

theorem sizeT_of_nonneg {x : Int} (h0 : 0 ≤ x) (h : x < 2 ^ 64) : sizeT x = x.toNat := by
  rw [sizeT, Int.emod_eq_of_lt h0 h]

end AfIpc.Lib
