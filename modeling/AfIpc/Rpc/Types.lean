/-
  AfIpc.Rpc.Types

  The parameter type field of the RPC layer and the constants around it
  (`af_rpc.h`), with the accessors every builder and decoder goes through:
  `setlen` / `getlen` and `af_rpc_get_size_of_type` (`af_rpc.c`).

  A buffer is the list of bytes the pointer argument points to, so the NULL
  tests on buffers and parameter arrays have no counterpart; a NULL `base` is
  data and stays.  Pointers into memory outside the buffer are 64-bit words.
-/

import AfIpc.Lib.Bytes

namespace AfIpc.Rpc

open AfIpc.Lib

/-- A `void *`: an address, or an integer value kept in its place. -/
abbrev Word := BitVec 64

/-- The memory blobs are read from. -/
abbrev Mem := Word → Byte

/-- The `n` bytes at address `a`. -/
def readMem (mem : Mem) (a : Word) (n : Nat) : List Byte :=
  (List.range n).map (fun i => mem (a + BitVec.ofNat 64 i))

@[simp] theorem readMem_length (mem : Mem) (a : Word) (n : Nat) :
    (readMem mem a n).length = n := by
  simp [readMem]

/-! ## The type field -/

def typeFlagInteger : BitVec 16 := 0x8000
def typeIntegerTypeMask : BitVec 16 := 0xF000
def typeFlagBlobIsString : BitVec 16 := 0x4000

def typeUint8 : BitVec 16 := typeFlagInteger ||| 0x1 <<< 12
def typeUint16 : BitVec 16 := typeFlagInteger ||| 0x2 <<< 12
def typeUint32 : BitVec 16 := typeFlagInteger ||| 0x3 <<< 12
def typeInt8 : BitVec 16 := typeFlagInteger ||| 0x5 <<< 12
def typeInt16 : BitVec 16 := typeFlagInteger ||| 0x6 <<< 12
def typeInt32 : BitVec 16 := typeFlagInteger ||| 0x7 <<< 12

def typeIsInteger (x : BitVec 16) : Bool := x &&& typeFlagInteger != 0
def typeIsBlob (x : BitVec 16) : Bool := x &&& typeFlagInteger == 0

def typeBlob (size : Int) : BitVec 16 := BitVec.ofInt 16 size &&& 0x3fff
def blobSize (type : BitVec 16) : BitVec 16 := type &&& 0x3fff

def maxBlobSize : Int := 16383

/-! ## Error codes -/

def errBufferOverflow : Int := -1
def errBadParam : Int := -2
def errBadType : Int := -3
def errBadTlv : Int := -4
def errWrongNumParams : Int := -6

/-! ## Parameters -/

/-- `af_rpc_param_t`.  The type is kept in 32 bits and stored as 16. -/
structure AfRpcParam where
  base : Word
  type : BitVec 32
  deriving DecidableEq, Repr

/-- The macros `AF_RPC_SET_PARAM_AS_UINT8` to `AF_RPC_SET_PARAM_AS_INT32` apart
    from the type they name: the value goes through `ptrdiff_t`. -/
def setParamAs (type : BitVec 16) (value : Int) : AfRpcParam :=
  { base := BitVec.ofInt 64 value, type := type.setWidth 32 }

/-- `AF_RPC_SET_PARAM_AS_BLOB`. -/
def setParamAsBlob (blob : Word) (len : Int) : AfRpcParam :=
  { base := blob, type := BitVec.ofInt 32 len &&& 0x3fff }

/-- The macros `AF_RPC_GET_UINT8_PARAM` to `AF_RPC_GET_INT32_PARAM` cast the
    base to a type of `width` bits; the sign is a matter of reading them. -/
def getParam (width : Nat) (p : AfRpcParam) : BitVec width := p.base.setWidth width

/-! ## Lengths and sizes -/

/-- `LENGTH_SIZE`. -/
def lengthSize : Nat := 2

/-- `TYPE_SIZE`. -/
def typeSize : Nat := 2

/-- Store a 16-bit field at `pos`, big endian. -/
def setlen (buf : List Byte) (pos : Nat) (len : BitVec 16) : Except Trap (List Byte) :=
  store buf pos (toBe 2 len.toNat)

/-- Load the 16-bit field at `pos`. -/
def getlen (buf : List Byte) (pos : Nat) : Except Trap (BitVec 16) := do
  let bs ← load buf pos 2
  return BitVec.ofNat 16 (ofBe bs)

/-- `af_rpc_get_size_of_type`. -/
def afRpcGetSizeOfType (type : BitVec 16) : Int :=
  if typeIsInteger type then
    [-1, 1, 2, 4, -1, 1, 2, 4].getD ((type &&& 0x7000) >>> 12).toNat 0
  else
    ((type &&& 0x3fff).toNat : Int)

/-! ## The two field accessors on a concatenation -/

theorem toNat_ofNat_length {n : Nat} (h : n < 2 ^ 16) : (BitVec.ofNat 16 n).toNat = n := by
  rw [BitVec.toNat_ofNat, Nat.mod_eq_of_lt h]

theorem ofNat_ofBe_toBe (x : BitVec 16) : BitVec.ofNat 16 (ofBe (toBe 2 x.toNat)) = x := by
  rw [ofBe_toBe_of_lt x.isLt, BitVec.ofNat_toNat, BitVec.setWidth_eq]

theorem getlen_append (pre post : List Byte) (x : BitVec 16) :
    getlen (pre ++ (toBe 2 x.toNat ++ post)) pre.length = .ok x := by
  have h := load_append pre (toBe 2 x.toNat) post
  rw [toBe_length] at h
  simp only [getlen, h, bind, Except.bind, pure, Except.pure]
  rw [ofNat_ofBe_toBe]

theorem getlen_zero (post : List Byte) (x : BitVec 16) :
    getlen (toBe 2 x.toNat ++ post) 0 = .ok x := getlen_append [] post x

theorem setlen_append (pre post : List Byte) (x : BitVec 16) (h : 2 ≤ post.length) :
    setlen (pre ++ post) pre.length x = .ok (pre ++ (toBe 2 x.toNat ++ post.drop 2)) := by
  have hs := store_append pre post (toBe 2 x.toNat) (by rw [toBe_length]; exact h)
  rw [toBe_length] at hs
  exact hs

theorem setlen_zero (pre post : List Byte) (x : BitVec 16) (h : pre.length = 2) :
    setlen (pre ++ post) 0 x = .ok (toBe 2 x.toNat ++ post) :=
  store_zero pre post (toBe 2 x.toNat) (by rw [toBe_length, h])

theorem getlen_eq_ok {buf : List Byte} {pos : Nat} (h : pos + 2 ≤ buf.length) :
    getlen buf pos = .ok (BitVec.ofNat 16 (ofBe ((buf.drop pos).take 2))) := by
  have hl := (load_eq_ok_iff (n := 2)).mpr ⟨h, rfl⟩
  simp only [getlen, hl, bind, Except.bind, pure, Except.pure]

end AfIpc.Rpc
