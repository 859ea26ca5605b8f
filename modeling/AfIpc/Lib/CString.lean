/-
  AfIpc.Lib.CString

  C strings, and the conversions of the C library from text to numbers and back.

  A string is its bytes without the terminating NUL, of which it has none.
  `strtol` and `strtoul` are for base 10 and a `long` of 64 bits; `decimal` and
  `hexByte` are what `sprintf` makes of `%u`, `%d` and `%02x`.
-/

import Mathlib.Data.List.TakeWhile
import Mathlib.Data.Nat.Digits.Lemmas
import AfIpc.Lib.Bytes

namespace AfIpc.Lib

/-- A string: bytes of which none is NUL. -/
structure CString where
  bytes : List Byte
  noNul : ∀ b ∈ bytes, b ≠ 0

/-- `""`. -/
def CString.empty : CString := ⟨[], nofun⟩

/-- The string behind the first `n` bytes. -/
def CString.drop (s : CString) (n : Nat) : CString where
  bytes := s.bytes.drop n
  noNul := fun b hb => s.noNul b (List.mem_of_mem_drop hb)

/-! ## Characters -/

/-- `isspace`, in the C locale. -/
def isSpace (c : Byte) : Bool := c.toNat = 32 || (9 ≤ c.toNat && c.toNat ≤ 13)

/-- `isdigit`. -/
def isDigit (c : Byte) : Bool := 48 ≤ c.toNat && c.toNat ≤ 57

/-- `isxdigit`. -/
def isXDigit (c : Byte) : Bool :=
  isDigit c || (97 ≤ c.toNat && c.toNat ≤ 102) || (65 ≤ c.toNat && c.toNat ≤ 70)

/-- `tolower`. -/
def toLower (c : Byte) : Byte := if 65 ≤ c.toNat ∧ c.toNat ≤ 90 then c + 32 else c

/-- The sign `-`. -/
def minus : Byte := 45

theorem isDigit_iff {c : Byte} : isDigit c = true ↔ 48 ≤ c.toNat ∧ c.toNat ≤ 57 := by
  simp [isDigit]

/-! ## Numbers from text -/

/-- The number a string of decimal digits denotes. -/
def digitsVal (s : List Byte) : Nat := s.foldl (fun n c => 10 * n + (c.toNat - 48)) 0

/-- The sign in front of a number, and what is behind it. -/
def scanSign : List Byte → Bool × List Byte
  | [] => (false, [])
  | c :: s => if c = minus then (true, s) else if c.toNat = 43 then (false, s) else (false, c :: s)

/-- What `strtol` and `strtoul` read: white space, a sign, and digits as far as
    they go. -/
def scanInt (s : CString) : Bool × Nat :=
  let (neg, rest) := scanSign (s.bytes.dropWhile isSpace)
  (neg, digitsVal (rest.takeWhile isDigit))

/-- `strtol(s, NULL, 10)`. -/
def strtol (s : CString) : Int :=
  let (neg, n) := scanInt s
  max (-2 ^ 63) (min (if neg then -(n : Int) else n) (2 ^ 63 - 1))

/-- `strtoul(s, NULL, 10)`; a number with a minus sign is negated as an
    `unsigned long`. -/
def strtoul (s : CString) : Nat :=
  let (neg, n) := scanInt s
  if n > 2 ^ 64 - 1 then 2 ^ 64 - 1 else if neg then (2 ^ 64 - n) % 2 ^ 64 else n

/-- `atoi`. -/
def atoi (s : CString) : Int := (BitVec.ofInt 32 (strtol s)).toInt

/-- A string of digits is read to its end. -/
theorem scanInt_digits {s : CString} (h : s.bytes.all isDigit = true) :
    scanInt s = (false, digitsVal s.bytes) := by
  have hall : ∀ c ∈ s.bytes, isDigit c = true := List.all_eq_true.mp h
  have htake : s.bytes.takeWhile isDigit = s.bytes := List.takeWhile_eq_self_iff.mpr hall
  have hscan : scanSign (s.bytes.dropWhile isSpace) = (false, s.bytes) := by
    cases hs : s.bytes with
    | nil => rfl
    | cons c t =>
        have hc := isDigit_iff.mp (hall c (by rw [hs]; exact List.mem_cons_self))
        have hspace : ¬ isSpace c = true := by
          simp only [isSpace, Bool.or_eq_true, Bool.and_eq_true, decide_eq_true_eq]
          omega
        have hminus : c ≠ minus := by
          intro heq
          have hnat : c.toNat = 45 := by rw [heq]; rfl
          omega
        rw [List.dropWhile_cons_of_neg hspace, scanSign, if_neg hminus, if_neg (by omega)]
  simp only [scanInt, hscan, htake]

/-- So is one behind a minus sign. -/
theorem scanInt_minus {s : CString} {ds : List Byte} (hs : s.bytes = minus :: ds)
    (h : ds.all isDigit = true) : scanInt s = (true, digitsVal ds) := by
  have htake : ds.takeWhile isDigit = ds :=
    List.takeWhile_eq_self_iff.mpr (List.all_eq_true.mp h)
  have hspace : ¬ isSpace minus = true := by decide
  simp only [scanInt, hs]
  rw [List.dropWhile_cons_of_neg hspace, scanSign, if_pos rfl]
  simp only [htake]

/-! ## Text from numbers -/

/-- `%u`. -/
def decimal (n : Nat) : List Byte :=
  if n = 0 then [48] else (Nat.digits 10 n).reverse.map (fun d => BitVec.ofNat 8 (48 + d))

/-- `%d`. -/
def decimalInt (z : Int) : List Byte :=
  if z < 0 then minus :: decimal z.natAbs else decimal z.natAbs

/-- A hex digit, in lower case. -/
def hexDigit (d : Nat) : Byte := BitVec.ofNat 8 (if d < 10 then 48 + d else 87 + d)

/-- `%02x` of a byte. -/
def hexByte (b : Byte) : List Byte := [hexDigit (b.toNat / 16), hexDigit (b.toNat % 16)]

theorem ofNat_ne_zero {d : Nat} (hpos : 0 < d) (hlt : d < 256) : BitVec.ofNat 8 d ≠ 0 := by
  intro h
  have hnat := congrArg BitVec.toNat h
  rw [BitVec.toNat_ofNat, Nat.mod_eq_of_lt hlt] at hnat
  have hz : (0 : Byte).toNat = 0 := rfl
  omega

theorem decimal_noNul (n : Nat) : ∀ b ∈ decimal n, b ≠ 0 := by
  intro b hb
  unfold decimal at hb
  split_ifs at hb with hn
  · rw [List.mem_singleton.mp hb]
    exact ofNat_ne_zero (d := 48) (by omega) (by omega)
  · obtain ⟨d, hd, rfl⟩ := List.mem_map.mp hb
    have hlt : d < 10 := Nat.digits_lt_base (by omega) (List.mem_reverse.mp hd)
    exact ofNat_ne_zero (by omega) (by omega)

theorem decimalInt_noNul (z : Int) : ∀ b ∈ decimalInt z, b ≠ 0 := by
  intro b hb
  unfold decimalInt at hb
  split_ifs at hb
  · rcases List.mem_cons.mp hb with rfl | hb
    · exact ofNat_ne_zero (d := 45) (by omega) (by omega)
    · exact decimal_noNul _ b hb
  · exact decimal_noNul _ b hb

theorem hexByte_noNul (c : Byte) : ∀ b ∈ hexByte c, b ≠ 0 := by
  have hdigit : ∀ d, d < 16 → hexDigit d ≠ 0 := by
    intro d hd
    unfold hexDigit
    split_ifs
    · exact ofNat_ne_zero (by omega) (by omega)
    · exact ofNat_ne_zero (by omega) (by omega)
  have hlt := c.isLt
  intro b hb
  rcases List.mem_cons.mp hb with rfl | hb
  · exact hdigit _ (by omega)
  · rw [List.mem_singleton.mp hb]
    exact hdigit _ (by omega)

theorem hexByte_length (b : Byte) : (hexByte b).length = 2 := rfl

theorem hexText_length (bytes : List Byte) : (bytes.flatMap hexByte).length = bytes.length * 2 := by
  induction bytes with
  | nil => rfl
  | cons b bs ih =>
      rw [List.flatMap_cons, List.length_append, ih, hexByte_length, List.length_cons]
      omega

/-- A number below a power of ten has as many digits as the power. -/
theorem decimal_length_le_iff {n k : Nat} (hk : 0 < k) : (decimal n).length ≤ k ↔ n < 10 ^ k := by
  unfold decimal
  split_ifs with hn
  · have hpow : 0 < 10 ^ k := Nat.pow_pos (by omega)
    refine ⟨?_, ?_⟩
    · intro _
      omega
    · intro _
      exact hk
  · rw [List.length_map, List.length_reverse]
    exact Nat.digits_length_le_iff (by omega) n

/-- The text of a negative number has a sign besides its digits. -/
theorem decimalInt_length_le_iff {z : Int} {k : Nat} (hk : 1 < k) :
    (decimalInt z).length ≤ k ↔ -(10 ^ (k - 1) : Int) < z ∧ z < (10 ^ k : Int) := by
  have hcast : ∀ j : Nat, ((10 ^ j : Nat) : Int) = 10 ^ j := fun j => by push_cast; rfl
  have hle : (10 ^ (k - 1) : Nat) ≤ 10 ^ k := Nat.pow_le_pow_right (by omega) (by omega)
  have hpos : 0 < 10 ^ (k - 1) := Nat.pow_pos (by omega)
  rw [← hcast, ← hcast]
  unfold decimalInt
  split_ifs with hz
  · have hdigits := decimal_length_le_iff (n := z.natAbs) (k := k - 1) (by omega)
    rw [List.length_cons]
    refine ⟨?_, ?_⟩
    · intro h
      have hlt := hdigits.mp (by omega)
      omega
    · rintro ⟨hlow, _⟩
      have hlen := hdigits.mpr (by omega)
      omega
  · rw [decimal_length_le_iff (by omega)]
    omega

end AfIpc.Lib
