/-
  AfIpc.Rpc.BuilderBounds

  The nine entry points that write a buffer, called with any `bufSize` on a buffer
  of that many bytes and any contents.  They write inside it and report errors with
  the buffer as it was (the batch builder: with the prefix as it was), except for
  `af_rpc_init_buffer` with a negative size: its test compares the size with a
  `sizeof`, and so as an unsigned number.
-/

import AfIpc.Rpc.BuilderSpec

namespace AfIpc.Rpc

open AfIpc.Lib

-- ============================================================================
-- The entry points
-- ============================================================================

/-- A call of a function that writes a buffer, with its own arguments. -/
inductive Builder where
  | initBuffer
  | addUint8 (value : BitVec 8)
  | addUint16 (value : BitVec 16)
  | addUint32 (value : BitVec 32)
  | addInt8 (value : BitVec 8)
  | addInt16 (value : BitVec 16)
  | addInt32 (value : BitVec 32)
  | addBlob (blob : Word) (blobSize : Int)
  | create (params : List AfRpcParam)

/-- Make the call. -/
def Builder.run (mem : Mem) (buf : List Byte) (bufSize : Int) :
    Builder → Except Trap (Int × List Byte)
  | initBuffer => afRpcInitBuffer buf bufSize
  | addUint8 value => afRpcAddUint8ToBuffer buf bufSize value
  | addUint16 value => afRpcAddUint16ToBuffer buf bufSize value
  | addUint32 value => afRpcAddUint32ToBuffer buf bufSize value
  | addInt8 value => afRpcAddInt8ToBuffer buf bufSize value
  | addInt16 value => afRpcAddInt16ToBuffer buf bufSize value
  | addInt32 value => afRpcAddInt32ToBuffer buf bufSize value
  | addBlob blob blobSize => afRpcAddBlobToBuffer mem buf bufSize blob blobSize
  | create params => afRpcCreateBufferWithParams mem buf bufSize params

/-- The bytes that are as before when the call reports an error: all of them, or
    for the batch builder the length prefix. -/
def Builder.kept : Builder → List Byte → List Byte
  | create _, buf => buf.take lengthSize
  | _, buf => buf

/-- The outcome of a builder on `buf`: no access outside it, its length, and after
    an error the bytes that are kept. -/
def Clean (kept : List Byte → List Byte) (buf : List Byte)
    (out : Except Trap (Int × List Byte)) : Prop :=
  ∃ ret buf', out = .ok (ret, buf') ∧ buf'.length = buf.length ∧ (ret < 0 → kept buf' = kept buf)

section Builders

variable {kept : List Byte → List Byte} {buf : List Byte}

theorem Clean.error (ret : Int) : Clean kept buf (.ok (ret, buf)) :=
  ⟨ret, buf, rfl, rfl, fun _ => rfl⟩

theorem Clean.done {buf' : List Byte} (hlen : buf'.length = buf.length) (n : Nat) :
    Clean kept buf (.ok ((n : Int), buf')) :=
  ⟨n, buf', rfl, hlen, fun h => absurd h (by omega)⟩

theorem setlen_ok {pos : Nat} (len : BitVec 16) (h : pos + 2 ≤ buf.length) :
    ∃ buf', setlen buf pos len = .ok buf' ∧ buf'.length = buf.length :=
  store_ok (by rw [toBe_length]; exact h)

-- ============================================================================
-- The incremental builders
-- ============================================================================

theorem addInt_clean (type : BitVec 16) (value : List Byte) {bufSize : Int}
    (hbuf : buf.length = bufSize.toNat) :
    Clean kept buf (addIntToBuffer type value buf bufSize) := by
  unfold addIntToBuffer
  by_cases hpos : bufSize ≤ 0
  · rw [if_pos hpos]
    exact .error errBadParam
  rw [if_neg hpos]
  by_cases hshort : bufSize < lengthSize
  · rw [if_pos hshort]
    exact .error errBadTlv
  rw [if_neg hshort]
  have htwo : 2 ≤ buf.length := by
    rw [lengthSize] at hshort
    omega
  have hget := @getlen_eq_ok buf 0 (by omega)
  simp only [hget, bind, Except.bind]
  generalize BitVec.ofNat 16 (ofBe ((buf.drop 0).take 2)) = len
  by_cases hover : (len.toNat + typeSize + value.length : Int) > bufSize
  · rw [if_pos hover]
    exact .error errBufferOverflow
  rw [if_neg hover]
  -- whatever the prefix says, the position it gives leaves room for the value
  have hroom : len.toNat + 2 + value.length ≤ buf.length := by
    rw [typeSize] at hover
    omega
  obtain ⟨buf₁, htype, hlen₁⟩ := @setlen_ok buf len.toNat type (by omega)
  have hvalue : len.toNat + typeSize + value.length ≤ buf₁.length := by
    rw [typeSize, hlen₁]
    exact hroom
  obtain ⟨buf₂, hstore, hlen₂⟩ := store_ok hvalue
  obtain ⟨buf₃, hsetlen, hlen₃⟩ := @setlen_ok buf₂ 0
    (BitVec.ofNat 16 (len.toNat + typeSize + value.length)) (by omega)
  simp only [htype, hstore, hsetlen]
  exact .done (by rw [hlen₃, hlen₂, hlen₁]) _

theorem addBlob_clean (mem : Mem) (blob : Word) (blobSize : Int) {bufSize : Int}
    (hbuf : buf.length = bufSize.toNat) :
    Clean kept buf (afRpcAddBlobToBuffer mem buf bufSize blob blobSize) := by
  unfold afRpcAddBlobToBuffer
  by_cases hparam : bufSize ≤ 0 ∨ blobSize < 0 ∨ (blob = 0 ∧ blobSize > 0) ∨ blobSize > maxBlobSize
  · rw [if_pos hparam]
    exact .error errBadParam
  rw [if_neg hparam]
  by_cases hshort : bufSize < lengthSize
  · rw [if_pos hshort]
    exact .error errBadTlv
  rw [if_neg hshort]
  have htwo : 2 ≤ buf.length := by
    rw [lengthSize] at hshort
    omega
  have hget := @getlen_eq_ok buf 0 (by omega)
  simp only [hget, bind, Except.bind]
  generalize BitVec.ofNat 16 (ofBe ((buf.drop 0).take 2)) = len
  by_cases hover : (len.toNat + typeSize + blobSize : Int) > bufSize
  · rw [if_pos hover]
    exact .error errBufferOverflow
  rw [if_neg hover]
  have hroom : len.toNat + 2 + blobSize.toNat ≤ buf.length := by
    rw [typeSize] at hover
    omega
  obtain ⟨buf₁, htype, hlen₁⟩ := @setlen_ok buf len.toNat (typeBlob blobSize) (by omega)
  simp only [htype]
  by_cases hcopy : blobSize ≠ 0
  · have hblob : len.toNat + typeSize + (readMem mem blob blobSize.toNat).length ≤ buf₁.length := by
      rw [readMem_length, hlen₁, typeSize]
      exact hroom
    obtain ⟨buf₂, hstore, hlen₂⟩ := store_ok hblob
    obtain ⟨buf₃, hsetlen, hlen₃⟩ := @setlen_ok buf₂ 0
      (BitVec.ofNat 16 (len.toNat + typeSize + blobSize.toNat)) (by omega)
    rw [if_pos hcopy]
    simp only [hstore, hsetlen]
    refine .done ?_ _
    rw [hlen₃, hlen₂, hlen₁]
  · obtain ⟨buf₃, hsetlen, hlen₃⟩ := @setlen_ok buf₁ 0
      (BitVec.ofNat 16 (len.toNat + typeSize + blobSize.toNat)) (by omega)
    rw [if_neg hcopy]
    simp only [pure, Except.pure, hsetlen]
    refine .done ?_ _
    rw [hlen₃, hlen₁]

/-- A size that is not negative passes the unsigned test as it should. -/
theorem init_clean {bufSize : Int} (hbuf : buf.length = bufSize.toNat) (hsize : 0 ≤ bufSize)
    (hlt : bufSize < 2 ^ 31) : Clean kept buf (afRpcInitBuffer buf bufSize) := by
  have hunsigned : sizeT bufSize = bufSize.toNat := sizeT_of_nonneg hsize (by omega)
  unfold afRpcInitBuffer
  by_cases hshort : sizeT bufSize < lengthSize
  · rw [if_pos hshort]
    exact .error errBadParam
  rw [if_neg hshort]
  rw [hunsigned, lengthSize] at hshort
  obtain ⟨buf', hsetlen, hlen⟩ := @setlen_ok buf 0 (BitVec.ofNat 16 lengthSize) (by omega)
  simp only [hsetlen, bind, Except.bind]
  exact .done hlen _

/-- A negative size is a huge one: the prefix is written to a buffer of no bytes. -/
theorem init_negative {bufSize : Int} (hneg : bufSize < 0) (hlt : -2 ^ 31 ≤ bufSize) :
    afRpcInitBuffer [] bufSize = .error .outOfBounds := by
  have hhuge : sizeT bufSize = (bufSize + 2 ^ 64).toNat := by
    rw [sizeT, ← Int.add_emod_right bufSize (2 ^ 64), Int.emod_eq_of_lt (by omega) (by omega)]
  have hlong : ¬ sizeT bufSize < lengthSize := by
    rw [hhuge, lengthSize]
    omega
  unfold afRpcInitBuffer
  rw [if_neg hlong]
  rfl

-- ============================================================================
-- The batch builder
-- ============================================================================

/-- The loop writes behind the prefix until it succeeds. -/
theorem createBufferLoop_clean (mem : Mem) {bufSize : Int} (params : List AfRpcParam) {pos : Nat}
    (hbuf : buf.length = bufSize.toNat) (hpos : 2 ≤ pos) (hle : pos ≤ buf.length) :
    Clean (List.take lengthSize) buf (createBufferLoop mem bufSize params pos buf) := by
  induction params generalizing buf pos with
  | nil =>
      obtain ⟨buf', hsetlen, hlen⟩ := @setlen_ok buf 0 (BitVec.ofNat 16 pos) (by omega)
      simp only [createBufferLoop, hsetlen, bind, Except.bind]
      exact .done hlen pos
  | cons param params ih =>
      -- what has been written by now is behind the prefix
      have hnext : ∀ {buf₁ : List Byte} {next : Nat}, buf₁.length = buf.length →
          buf₁.take lengthSize = buf.take lengthSize → 2 ≤ next → next ≤ buf.length →
          Clean (List.take lengthSize) buf (createBufferLoop mem bufSize params next buf₁) := by
        intro buf₁ next hlen₁ htake₁ hnext hroom
        obtain ⟨ret, buf', hout, hlen', hkept⟩ := @ih buf₁ next (by omega) hnext (by omega)
        exact ⟨ret, buf', hout, by omega, fun hneg => (hkept hneg).trans htake₁⟩
      have hfail : ∀ {buf₁ : List Byte}, buf₁.length = buf.length →
          buf₁.take lengthSize = buf.take lengthSize → ∀ ret : Int,
          Clean (List.take lengthSize) buf (.ok (ret, buf₁)) :=
        fun hlen₁ htake₁ ret => ⟨ret, _, rfl, hlen₁, fun _ => htake₁⟩
      simp only [createBufferLoop]
      generalize BitVec.setWidth 16 param.type = type
      generalize hsize : afRpcGetSizeOfType type = size
      by_cases hbad : size < 0 ∨ size > maxBlobSize
      · rw [if_pos hbad]
        exact .error errBadType
      rw [if_neg hbad]
      by_cases hover : (pos + typeSize + size : Int) > bufSize
      · rw [if_pos hover]
        exact .error errBufferOverflow
      rw [if_neg hover]
      have hroom : pos + 2 + size.toNat ≤ buf.length := by
        rw [typeSize] at hover
        omega
      obtain ⟨buf₁, htype, hlen₁⟩ := @setlen_ok buf pos type (by omega)
      have htake₁ : buf₁.take lengthSize = buf.take lengthSize := store_take htype hpos
      have hstore : ∀ value : List Byte, value.length ≤ size.toNat →
          ∃ buf₂, store buf₁ (pos + typeSize) value = .ok buf₂ ∧ buf₂.length = buf.length ∧
            buf₂.take lengthSize = buf.take lengthSize := by
        intro value hvalue
        have hfits : pos + typeSize + value.length ≤ buf₁.length := by
          rw [typeSize]
          omega
        obtain ⟨buf₂, hstore, hlen₂⟩ := store_ok hfits
        have hbehind : lengthSize ≤ pos + typeSize := by
          rw [lengthSize, typeSize]
          omega
        exact ⟨buf₂, hstore, hlen₂.trans hlen₁, (store_take hstore hbehind).trans htake₁⟩
      by_cases hint : typeIsInteger type = true
      · rw [if_pos hint]
        by_cases hmask : type &&& typeIntegerTypeMask ≠ type
        · rw [if_pos hmask]
          exact .error errBadType
        rw [if_neg hmask]
        simp only [htype, bind, Except.bind]
        cases hvalue : storedInt type param.base with
        | none => exact hfail hlen₁ htake₁ errBadType
        | some value =>
            have hwidth : (value.length : Int) = size := by
              rw [← hsize]
              exact storedInt_length hvalue
            obtain ⟨buf₂, hstore₂, hlen₂, htake₂⟩ := hstore value (by omega)
            simp only [hstore₂]
            refine hnext hlen₂ htake₂ (by omega) ?_
            rw [typeSize]
            omega
      · rw [if_neg hint]
        simp only [htype, bind, Except.bind]
        by_cases hempty : size > 0
        · rw [if_pos hempty]
          by_cases hnull : param.base = 0
          · rw [if_pos hnull]
            exact hfail hlen₁ htake₁ errBadParam
          rw [if_neg hnull]
          obtain ⟨buf₂, hstore₂, hlen₂, htake₂⟩ := hstore (readMem mem param.base size.toNat)
            (by rw [readMem_length])
          simp only [hstore₂]
          refine hnext hlen₂ htake₂ (by omega) ?_
          rw [typeSize]
          omega
        · rw [if_neg hempty]
          refine hnext hlen₁ htake₁ (by omega) ?_
          rw [typeSize]
          omega

theorem create_clean (mem : Mem) (params : List AfRpcParam) {bufSize : Int}
    (hbuf : buf.length = bufSize.toNat) :
    Clean (List.take lengthSize) buf (afRpcCreateBufferWithParams mem buf bufSize params) := by
  unfold afRpcCreateBufferWithParams
  by_cases hpos : bufSize ≤ 0
  · rw [if_pos hpos]
    exact .error errBadParam
  rw [if_neg hpos]
  by_cases hshort : bufSize < lengthSize
  · rw [if_pos hshort]
    exact .error errBufferOverflow
  rw [if_neg hshort]
  rw [lengthSize] at hshort
  exact createBufferLoop_clean mem params hbuf (Nat.le_refl 2) (by rw [lengthSize]; omega)

end Builders

-- ============================================================================
-- All of them
-- ============================================================================

/-- **The builders stay inside the buffer** and fail cleanly, unless the call
    initializes a buffer of negative size. -/
theorem builders_clean_iff (mem : Mem) (bufSize : BitVec 32) (buf : List Byte)
    (hbuf : buf.length = bufSize.toInt.toNat) (b : Builder) :
    Clean b.kept buf (b.run mem buf bufSize.toInt) ↔ ¬ (b = .initBuffer ∧ bufSize.toInt < 0) := by
  have hlo := bufSize.le_toInt
  have hhi := bufSize.toInt_lt
  refine ⟨?_, ?_⟩
  · rintro hclean ⟨rfl, hneg⟩
    have hempty : buf = [] := by
      apply List.eq_nil_of_length_eq_zero
      omega
    obtain ⟨ret, buf', hout, -⟩ := hclean
    subst hempty
    have htrap : Builder.run mem [] bufSize.toInt .initBuffer = .error .outOfBounds :=
      init_negative hneg (by omega)
    rw [htrap] at hout
    cases hout
  · intro hcond
    cases b with
    | initBuffer =>
        have hsize : 0 ≤ bufSize.toInt := by
          by_contra hneg
          exact hcond ⟨rfl, by omega⟩
        exact init_clean hbuf hsize (by omega)
    | addUint8 value => exact addInt_clean _ _ hbuf
    | addUint16 value => exact addInt_clean _ _ hbuf
    | addUint32 value => exact addInt_clean _ _ hbuf
    | addInt8 value => exact addInt_clean _ _ hbuf
    | addInt16 value => exact addInt_clean _ _ hbuf
    | addInt32 value => exact addInt_clean _ _ hbuf
    | addBlob blob blobSize => exact addBlob_clean mem blob blobSize hbuf
    | create params => exact create_clean mem params hbuf

/-- A `uint32` added behind a prefix of 4 in a buffer of 8 bytes. -/
theorem builders_clean_iff_eight :
    Clean (Builder.addUint32 7).kept [0, 4, 1, 2, 3, 4, 5, 6]
        ((Builder.addUint32 7).run (fun _ => 0) [0, 4, 1, 2, 3, 4, 5, 6] (8#32).toInt) ↔
      ¬ (Builder.addUint32 7 = .initBuffer ∧ (8#32).toInt < 0) :=
  builders_clean_iff (fun _ => 0) 8 [0, 4, 1, 2, 3, 4, 5, 6] rfl (.addUint32 7)

/-- `af_rpc_init_buffer(buf, -1)`. -/
theorem not_clean_init_negative :
    ¬ ∀ (mem : Mem) (bufSize : BitVec 32) (buf : List Byte), buf.length = bufSize.toInt.toNat →
      ∀ b : Builder, Clean b.kept buf (b.run mem buf bufSize.toInt) := by
  intro hall
  obtain ⟨ret, buf', hout, -⟩ := hall (fun _ => 0) (-1) [] rfl .initBuffer
  have htrap : Builder.run (fun _ => 0) [] (-1 : BitVec 32).toInt .initBuffer =
      .error .outOfBounds := init_negative (by decide) (by decide)
  rw [htrap] at hout
  cases hout

end AfIpc.Rpc
