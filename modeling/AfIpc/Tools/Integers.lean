/-
  AfIpc.Tools.Integers

  The integer arguments of `ipc_send` (`ipc_send.c`).  The text of an argument
  is a `long` first, then an `int32_t` or `uint32_t`, and only then compared with
  the range of the type: a number that the cut to 32 bits brings back into the
  range is taken for another one.
-/

import AfIpc.Lib.CString
import AfIpc.Rpc.RoundTrip

namespace AfIpc.Tools

open AfIpc.Lib AfIpc.Rpc

-- ============================================================================
-- The source
-- ============================================================================

/-- `is_digits`. -/
def isDigits (s : List Byte) : Bool := s.all isDigit

/-- `format_int_param`: what is stored, or `IPC_SEND_ERR`.  An argument behind the
    last is NULL. -/
def formatIntParam (size : Int) (pvalStr : Option CString) : Option AfRpcParam :=
  match pvalStr with
  | none => none
  | some s =>
    let digits := match s.bytes with
      | [] => []
      | c :: ds => if c = minus then ds else c :: ds
    if isDigits digits = false then none
    else
      let paramVal : BitVec 32 := BitVec.ofInt 32 (strtol s)
      if size = 8 then
        if paramVal.toInt < -128 ∨ paramVal.toInt > 127 then none
        else some (setParamAs typeInt8 paramVal.toInt)
      else if size = 16 then
        if paramVal.toInt < -32768 ∨ paramVal.toInt > 32767 then none
        else some (setParamAs typeInt16 paramVal.toInt)
      else if size = 32 then
        if paramVal.toInt < -2147483648 ∨ paramVal.toInt > 2147483647 then none
        else some (setParamAs typeInt32 paramVal.toInt)
      else none

/-- `format_uint_param`; its local is unsigned, and never below 0. -/
def formatUintParam (size : Int) (pvalStr : Option CString) : Option AfRpcParam :=
  match pvalStr with
  | none => none
  | some s =>
    if isDigits s.bytes = false then none
    else
      let paramVal : BitVec 32 := BitVec.ofNat 32 (strtoul s)
      if size = 8 then
        if paramVal.toNat > 255 then none else some (setParamAs typeUint8 paramVal.toNat)
      else if size = 16 then
        if paramVal.toNat > 65535 then none else some (setParamAs typeUint16 paramVal.toNat)
      else if size = 32 then
        if paramVal.toNat > 4294967295 then none else some (setParamAs typeUint32 paramVal.toNat)
      else none

/-- The function for a kind, with the size of the kind. -/
def formatParam (k : IntKind) (s : CString) : Option AfRpcParam :=
  if k.isSigned then formatIntParam ((8 * k.width : Nat) : Int) (some s)
  else formatUintParam ((8 * k.width : Nat) : Int) (some s)

-- ============================================================================
-- What it is for
-- ============================================================================

/-- The number that a non-empty string of digits denotes. -/
def natural (s : List Byte) : Option Nat :=
  if s ≠ [] ∧ s.all isDigit = true then some (digitsVal s) else none

/-- The number that an argument of kind `k` denotes: a natural number, with a
    minus sign in front of it where the kind has negative numbers. -/
def numeral (k : IntKind) : List Byte → Option Int
  | [] => none
  | c :: ds =>
    if k.isSigned ∧ c = minus then (natural ds).map (fun n => -(n : Int))
    else (natural (c :: ds)).map (fun n => (n : Int))

/-- The number is in the range of the kind. -/
def Fits (k : IntKind) (v : Int) : Prop :=
  if k.isSigned then -(2 ^ (8 * k.width - 1) : Int) ≤ v ∧ v < 2 ^ (8 * k.width - 1)
  else 0 ≤ v ∧ v < 2 ^ (8 * k.width)

instance (k : IntKind) (v : Int) : Decidable (Fits k v) :=
  inferInstanceAs (Decidable (if k.isSigned then _ else _))

/-- The parameter has the type of the kind and the value. -/
def Carries (k : IntKind) (p : AfRpcParam) (v : Int) : Prop :=
  p.type = k.type.setWidth 32 ∧ k.reduce p.base = v

/-- The argument is taken exactly if it denotes a number in the range of the kind,
    and that number is stored. -/
structure ChecksRange (k : IntKind) (s : CString) : Prop where
  sound : ∀ p, formatParam k s = some p → ∃ v, numeral k s.bytes = some v ∧ Fits k v ∧ Carries k p v
  complete : ∀ v, numeral k s.bytes = some v → Fits k v → (formatParam k s).isSome = true

/-- What a number becomes in the local of 32 bits, by way of a `long` or an
    `unsigned long`, which stop at their limits. -/
def narrowed (k : IntKind) (v : Int) : Int :=
  if k.isSigned then Int.bmod (max (-2 ^ 63) (min v (2 ^ 63 - 1))) (2 ^ 32)
  else min v (2 ^ 64 - 1) % 2 ^ 32

-- ============================================================================
-- Ranges
-- ============================================================================

theorem fits_iff (k : IntKind) (v : Int) :
    Fits k v ↔ match k with
      | .uint8 => 0 ≤ v ∧ v < 256
      | .uint16 => 0 ≤ v ∧ v < 65536
      | .uint32 => 0 ≤ v ∧ v < 4294967296
      | .int8 => -128 ≤ v ∧ v < 128
      | .int16 => -32768 ≤ v ∧ v < 32768
      | .int32 => -2147483648 ≤ v ∧ v < 2147483648 := by
  cases k <;> exact Iff.rfl

/-- A number in the range goes through the local unchanged. -/
theorem narrowed_of_fits {k : IntKind} {v : Int} (h : Fits k v) : narrowed k v = v := by
  rw [fits_iff] at h
  cases k with
  | uint8 | uint16 | uint32 =>
      show min v (2 ^ 64 - 1) % 2 ^ 32 = v
      simp only at h
      omega
  | int8 | int16 | int32 =>
      show Int.bmod (max (-2 ^ 63) (min v (2 ^ 63 - 1))) (2 ^ 32) = v
      simp only at h
      have hclamp : max (-2 ^ 63) (min v (2 ^ 63 - 1)) = v := by omega
      rw [hclamp]
      exact Int.bmod_eq_of_le (by omega) (by omega)

/-- The macro of the kind keeps a number in its range. -/
theorem carries_setParamAs {k : IntKind} {v : Int} (h : Fits k v) :
    Carries k (setParamAs k.type v) v := by
  refine ⟨rfl, ?_⟩
  have hvalue : k.value (BitVec.ofInt (8 * k.width) v) = v := by
    rw [fits_iff] at h
    cases k with
    | uint8 | uint16 | uint32 =>
        show ((BitVec.ofInt _ v).toNat : Int) = v
        simp only at h
        rw [BitVec.toNat_ofInt]
        simp only [IntKind.width]
        omega
    | int8 | int16 | int32 =>
        show (BitVec.ofInt _ v).toInt = v
        simp only at h
        rw [BitVec.toInt_ofInt]
        exact Int.bmod_eq_of_le (by simp only [IntKind.width]; omega)
          (by simp only [IntKind.width]; omega)
  have hkept := k.reduce_setParamAs (BitVec.ofInt (8 * k.width) v)
  rw [hvalue] at hkept
  exact hkept

-- ============================================================================
-- Texts
-- ============================================================================

/-- The text is digits, with a minus sign in front where the kind has one. -/
def digitsOf (k : IntKind) : List Byte → List Byte
  | [] => []
  | c :: ds => if k.isSigned ∧ c = minus then ds else c :: ds

/-- The number that a text denotes if there are digits in it. -/
def valueOf (k : IntKind) : List Byte → Int
  | [] => 0
  | c :: ds => if k.isSigned ∧ c = minus then -(digitsVal ds : Int) else digitsVal (c :: ds)

theorem digitsOf_unsigned {k : IntKind} (h : k.isSigned = false) (s : List Byte) :
    digitsOf k s = s := by
  cases s with
  | nil => rfl
  | cons c ds =>
      refine if_neg (fun hc => ?_)
      rw [h] at hc
      cases hc.1

theorem digitsOf_signed {k : IntKind} (h : k.isSigned = true) (s : List Byte) :
    digitsOf k s = match s with
      | [] => []
      | c :: ds => if c = minus then ds else c :: ds := by
  cases s with
  | nil => rfl
  | cons c ds => simp only [digitsOf, h, true_and]

theorem numeral_eq (k : IntKind) (s : List Byte) :
    numeral k s =
      if digitsOf k s ≠ [] ∧ isDigits (digitsOf k s) = true then some (valueOf k s) else none := by
  cases s with
  | nil => rfl
  | cons c ds =>
      simp only [numeral, digitsOf, valueOf, natural, isDigits]
      split_ifs <;> rfl

/-- The text as `strtol` or `strtoul` and the local of 32 bits take it. -/
theorem local_eq (k : IntKind) (s : CString) (h : isDigits (digitsOf k s.bytes) = true) :
    (if k.isSigned then (BitVec.ofInt 32 (strtol s)).toInt
      else ((BitVec.ofNat 32 (strtoul s)).toNat : Int)) = narrowed k (valueOf k s.bytes) := by
  by_cases hsigned : k.isSigned = true
  · rw [if_pos hsigned, narrowed, if_pos hsigned, BitVec.toInt_ofInt]
    congr 1
    cases hs : s.bytes with
    | nil =>
        have hscan : scanInt s = (false, 0) := by
          have hempty := @scanInt_digits s (by rw [hs]; rfl)
          rw [hs] at hempty
          exact hempty
        simp only [strtol, hscan]
        rfl
    | cons c ds =>
        rw [hs] at h
        simp only [digitsOf, valueOf] at h ⊢
        by_cases hminus : c = minus
        · subst hminus
          rw [if_pos ⟨hsigned, rfl⟩] at h ⊢
          simp only [strtol, scanInt_minus hs h]
          rfl
        · rw [if_neg (fun hc => hminus hc.2)] at h ⊢
          have hscan : scanInt s = (false, digitsVal (c :: ds)) := by
            rw [← hs]
            exact scanInt_digits (by rw [hs]; exact h)
          simp only [strtol, hscan]
          rfl
  · rw [if_neg hsigned, narrowed, if_neg hsigned]
    have hvalue : valueOf k s.bytes = digitsVal s.bytes := by
      cases s.bytes with
      | nil => rfl
      | cons c ds => exact if_neg (fun hc => hsigned hc.1)
    rw [digitsOf_unsigned (by simpa using hsigned)] at h
    rw [hvalue]
    simp only [strtoul, scanInt_digits h, BitVec.toNat_ofNat, Bool.false_eq_true, if_false]
    by_cases hbig : digitsVal s.bytes > 2 ^ 64 - 1
    · rw [if_pos hbig]
      omega
    · rw [if_neg hbig]
      omega

/-- **`format_int_param` and `format_uint_param`** for the sizes they know: digits
    are required, and the local is compared with the range of the kind. -/
theorem formatParam_eq (k : IntKind) (s : CString) :
    formatParam k s =
      if isDigits (digitsOf k s.bytes) = true ∧ Fits k (narrowed k (valueOf k s.bytes)) then
        some (setParamAs k.type (narrowed k (valueOf k s.bytes)))
      else none := by
  by_cases hdigits : isDigits (digitsOf k s.bytes) = true
  · have hlocal := local_eq k s hdigits
    have hrange := fits_iff k (narrowed k (valueOf k s.bytes))
    generalize narrowed k (valueOf k s.bytes) = v at hlocal hrange
    have hiff : ∀ {P : Prop} [Decidable P], (P ↔ ¬ Fits k v) →
        (if P then none else some (setParamAs k.type v)) =
          if isDigits (digitsOf k s.bytes) = true ∧ Fits k v then some (setParamAs k.type v)
          else none := by
      intro P _ hP
      by_cases hfits : Fits k v
      · rw [if_neg (fun h => hP.mp h hfits), if_pos ⟨hdigits, hfits⟩]
      · rw [if_pos (hP.mpr hfits), if_neg (fun h => hfits h.2)]
    by_cases hsigned : k.isSigned = true
    · rw [if_pos hsigned] at hlocal
      rw [digitsOf_signed hsigned] at hdigits
      have hall : ¬ isDigits (match s.bytes with
          | [] => []
          | c :: ds => if c = minus then ds else c :: ds) = false := by
        rw [hdigits]
        simp
      rw [formatParam, if_pos hsigned]
      simp only [formatIntParam]
      rw [if_neg hall]
      cases k with
      | uint8 | uint16 | uint32 => cases hsigned
      | int8 | int16 | int32 =>
          simp only at hrange
          simp only [IntKind.width, Nat.reduceMul, Nat.cast_ofNat, Int.reduceEq, if_true, if_false,
            hlocal]
          apply hiff
          rw [hrange]
          omega
    · rw [if_neg hsigned] at hlocal
      subst hlocal
      rw [Bool.not_eq_true] at hsigned
      rw [digitsOf_unsigned hsigned] at hdigits
      have hall : ¬ isDigits s.bytes = false := by
        rw [hdigits]
        simp
      rw [formatParam, if_neg (by simp [hsigned])]
      simp only [formatUintParam]
      rw [if_neg hall]
      cases k with
      | int8 | int16 | int32 => cases hsigned
      | uint8 | uint16 | uint32 =>
          simp only at hrange
          simp only [IntKind.width, Nat.reduceMul, Nat.cast_ofNat, Int.reduceEq, if_true, if_false]
          apply hiff
          rw [hrange]
          omega
  · rw [if_neg (fun h => hdigits h.1)]
    rw [Bool.not_eq_true] at hdigits
    by_cases hsigned : k.isSigned = true
    · rw [digitsOf_signed hsigned] at hdigits
      rw [formatParam, if_pos hsigned]
      exact if_pos hdigits
    · rw [formatParam, if_neg hsigned]
      rw [Bool.not_eq_true] at hsigned
      rw [digitsOf_unsigned hsigned] at hdigits
      exact if_pos hdigits

-- ============================================================================
-- The range check
-- ============================================================================

/-- **The range check is exact** for an argument that has a digit in it and whose
    number, if it is not in the range of the kind, is not in it either when it has
    been cut to 32 bits. -/
theorem checksRange_iff (k : IntKind) (s : CString) :
    ChecksRange k s ↔ digitsOf k s.bytes ≠ [] ∧
      ∀ v, numeral k s.bytes = some v → ¬ Fits k v → ¬ Fits k (narrowed k v) := by
  have hformat := formatParam_eq k s
  have hnumeral := numeral_eq k s.bytes
  by_cases hdigits : isDigits (digitsOf k s.bytes) = true
  · by_cases hnil : digitsOf k s.bytes = []
    · -- no digit: the empty text is 0
      have hzero : valueOf k s.bytes = 0 := by
        cases hs : s.bytes with
        | nil => rfl
        | cons c ds =>
            rw [hs] at hnil
            simp only [digitsOf, valueOf] at hnil ⊢
            split_ifs at hnil ⊢
            rw [hnil]
            rfl
      have hfits : Fits k 0 := by cases k <;> decide
      rw [hzero, narrowed_of_fits hfits, if_pos ⟨hdigits, hfits⟩] at hformat
      rw [if_neg (fun h => h.1 hnil)] at hnumeral
      refine ⟨?_, ?_⟩
      · intro hexact
        obtain ⟨v, hv, _⟩ := hexact.sound _ hformat
        rw [hnumeral] at hv
        cases hv
      · intro hcond
        exact absurd hnil hcond.1
    · rw [if_pos ⟨hnil, hdigits⟩] at hnumeral
      refine ⟨?_, ?_⟩
      · intro hexact
        refine ⟨hnil, fun v hv hout hin => ?_⟩
        rw [hnumeral, Option.some.injEq] at hv
        subst hv
        rw [if_pos ⟨hdigits, hin⟩] at hformat
        obtain ⟨v', hv', hfits, _⟩ := hexact.sound _ hformat
        rw [hnumeral, Option.some.injEq] at hv'
        rw [hv'] at hout
        exact hout hfits
      · rintro ⟨_, hcut⟩
        refine ⟨?_, ?_⟩
        · intro p hp
          rw [hformat] at hp
          split_ifs at hp with hin
          rw [Option.some.injEq] at hp
          subst hp
          have hfits : Fits k (valueOf k s.bytes) := by
            by_contra hout
            exact hcut _ hnumeral hout hin.2
          refine ⟨_, hnumeral, hfits, ?_⟩
          rw [narrowed_of_fits hfits]
          exact carries_setParamAs hfits
        · intro v hv hfits
          rw [hnumeral, Option.some.injEq] at hv
          subst hv
          rw [hformat, narrowed_of_fits hfits, if_pos ⟨hdigits, hfits⟩]
          rfl
  · -- something that is no digit: refused
    rw [if_neg (fun h => hdigits h.1)] at hformat
    rw [if_neg (fun h => hdigits h.2)] at hnumeral
    refine ⟨?_, ?_⟩
    · intro _
      refine ⟨?_, ?_⟩
      · intro hnil
        rw [hnil] at hdigits
        exact hdigits rfl
      · intro v hv
        rw [hnumeral] at hv
        cases hv
    · intro _
      refine ⟨?_, ?_⟩
      · intro p hp
        rw [hformat] at hp
        cases hp
      · intro v hv
        rw [hnumeral] at hv
        cases hv

/-- The empty text is taken for 0, and 4294967296 for 0 too: its low 32 bits are. -/
theorem not_checksRange_uint8 :
    formatUintParam 8 (some ⟨[], by simp⟩) = some (setParamAs typeUint8 0) ∧
      ¬ ChecksRange .uint8 ⟨[], by simp⟩ ∧
      formatUintParam 8 (some ⟨[52, 50, 57, 52, 57, 54, 55, 50, 57, 54], by decide⟩) =
        some (setParamAs typeUint8 0) ∧
      ¬ ChecksRange .uint8 ⟨[52, 50, 57, 52, 57, 54, 55, 50, 57, 54], by decide⟩ := by
  have hempty : formatUintParam 8 (some ⟨[], by simp⟩) = some (setParamAs typeUint8 0) := by
    decide
  have hwrapped : formatUintParam 8 (some ⟨[52, 50, 57, 52, 57, 54, 55, 50, 57, 54], by decide⟩) =
      some (setParamAs typeUint8 0) := by
    decide
  refine ⟨hempty, ?_, hwrapped, ?_⟩
  · intro hexact
    obtain ⟨v, hv, _⟩ := hexact.sound _ hempty
    cases hv
  · intro hexact
    obtain ⟨v, hv, hfits, _⟩ := hexact.sound _ hwrapped
    have hv' : (4294967296 : Int) = v := Option.some.inj hv
    rw [fits_iff] at hfits
    simp only at hfits
    omega

end AfIpc.Tools
