/-
  AfIpc.Rpc.Builders

  The encoders of `af_rpc.c`: `af_rpc_init_buffer`, the seven
  `af_rpc_add_*_to_buffer` functions, which keep their position in the length
  prefix of the buffer, and `af_rpc_create_buffer_with_params`, which keeps it
  in a local.  Each returns the C return value and the buffer, or traps where
  the C code would write outside the buffer.
-/

import AfIpc.Rpc.Types

namespace AfIpc.Rpc

open AfIpc.Lib

/-! ## The incremental builders -/

/-- `af_rpc_init_buffer`. -/
def afRpcInitBuffer (txBuffer : List Byte) (bufSize : Int) :
    Except Trap (Int × List Byte) := do
  if sizeT bufSize < lengthSize then
    return (errBadParam, txBuffer)
  let txBuffer ← setlen txBuffer 0 (BitVec.ofNat 16 lengthSize)
  return (lengthSize, txBuffer)

/-- The body shared by the six integer builders: `value` is the value as the
    member stores it. -/
def addIntToBuffer (type : BitVec 16) (value : List Byte) (buf : List Byte) (bufSize : Int) :
    Except Trap (Int × List Byte) := do
  if bufSize ≤ 0 then
    return (errBadParam, buf)
  if bufSize < lengthSize then
    return (errBadTlv, buf)
  let len ← getlen buf 0
  let pos := len.toNat
  if (pos + typeSize + value.length : Int) > bufSize then
    return (errBufferOverflow, buf)
  let buf ← setlen buf pos type
  let pos := pos + typeSize
  let buf ← store buf pos value
  let pos := pos + value.length
  -- the prefix is 16 bits wide: a larger position is cut
  let buf ← setlen buf 0 (BitVec.ofNat 16 pos)
  return (pos, buf)

def afRpcAddUint8ToBuffer (buf : List Byte) (bufSize : Int) (value : BitVec 8) :
    Except Trap (Int × List Byte) :=
  addIntToBuffer typeUint8 (toBe 1 value.toNat) buf bufSize

def afRpcAddUint16ToBuffer (buf : List Byte) (bufSize : Int) (value : BitVec 16) :
    Except Trap (Int × List Byte) :=
  addIntToBuffer typeUint16 (toBe 2 value.toNat) buf bufSize

def afRpcAddUint32ToBuffer (buf : List Byte) (bufSize : Int) (value : BitVec 32) :
    Except Trap (Int × List Byte) :=
  addIntToBuffer typeUint32 (toBe 4 value.toNat) buf bufSize

def afRpcAddInt8ToBuffer (buf : List Byte) (bufSize : Int) (value : BitVec 8) :
    Except Trap (Int × List Byte) :=
  addIntToBuffer typeInt8 (toBe 1 value.toNat) buf bufSize

def afRpcAddInt16ToBuffer (buf : List Byte) (bufSize : Int) (value : BitVec 16) :
    Except Trap (Int × List Byte) :=
  addIntToBuffer typeInt16 (toBe 2 value.toNat) buf bufSize

def afRpcAddInt32ToBuffer (buf : List Byte) (bufSize : Int) (value : BitVec 32) :
    Except Trap (Int × List Byte) :=
  addIntToBuffer typeInt32 (toBe 4 value.toNat) buf bufSize

/-- `af_rpc_add_blob_to_buffer`. -/
def afRpcAddBlobToBuffer (mem : Mem) (buf : List Byte) (bufSize : Int) (blob : Word)
    (blobSize : Int) : Except Trap (Int × List Byte) := do
  if bufSize ≤ 0 ∨ blobSize < 0 ∨ (blob = 0 ∧ blobSize > 0) ∨ blobSize > maxBlobSize then
    return (errBadParam, buf)
  if bufSize < lengthSize then
    return (errBadTlv, buf)
  let len ← getlen buf 0
  let pos := len.toNat
  if (pos + typeSize + blobSize : Int) > bufSize then
    return (errBufferOverflow, buf)
  let buf ← setlen buf pos (typeBlob blobSize)
  let pos := pos + typeSize
  -- with `blobSize` 0 nothing is copied and the position stays
  let buf ← if blobSize ≠ 0 then store buf pos (readMem mem blob blobSize.toNat) else pure buf
  let pos := pos + blobSize.toNat
  let buf ← setlen buf 0 (BitVec.ofNat 16 pos)
  return (pos, buf)

/-! ## The batch builder -/

/-- The `switch` over the integer types: the bytes stored for `base`, or none
    for a type that is not one of the six. -/
def storedInt (type : BitVec 16) (base : Word) : Option (List Byte) :=
  if type = typeInt8 ∨ type = typeUint8 then some (toBe 1 (base.setWidth 8).toNat)
  else if type = typeInt16 ∨ type = typeUint16 then some (toBe 2 (base.setWidth 16).toNat)
  else if type = typeInt32 ∨ type = typeUint32 then some (toBe 4 (base.setWidth 32).toNat)
  else none

/-- The loop of `af_rpc_create_buffer_with_params` from parameter `i` on, with
    `params` the parameters that remain. -/
def createBufferLoop (mem : Mem) (bufSize : Int) :
    List AfRpcParam → Nat → List Byte → Except Trap (Int × List Byte)
  | [], pos, buf => do
    let buf ← setlen buf 0 (BitVec.ofNat 16 pos)
    return (pos, buf)
  | param :: params, pos, buf => do
    let type : BitVec 16 := param.type.setWidth 16
    let size := afRpcGetSizeOfType type
    if size < 0 ∨ size > maxBlobSize then
      return (errBadType, buf)
    if (pos + typeSize + size : Int) > bufSize then
      return (errBufferOverflow, buf)
    if typeIsInteger type then
      -- no bits other than the integer type
      if type &&& typeIntegerTypeMask ≠ type then
        return (errBadType, buf)
      let buf ← setlen buf pos type
      let pos := pos + typeSize
      match storedInt type param.base with
      | some value =>
        let buf ← store buf pos value
        createBufferLoop mem bufSize params (pos + value.length) buf
      | none => return (errBadType, buf)
    else
      let buf ← setlen buf pos type
      let pos := pos + typeSize
      if size > 0 then
        if param.base = 0 then
          return (errBadParam, buf)
        let buf ← store buf pos (readMem mem param.base size.toNat)
        createBufferLoop mem bufSize params (pos + size.toNat) buf
      else
        createBufferLoop mem bufSize params (pos + size.toNat) buf

/-- `af_rpc_create_buffer_with_params`. -/
def afRpcCreateBufferWithParams (mem : Mem) (buf : List Byte) (bufSize : Int)
    (params : List AfRpcParam) : Except Trap (Int × List Byte) := do
  if bufSize ≤ 0 then
    return (errBadParam, buf)
  if bufSize < lengthSize then
    return (errBufferOverflow, buf)
  createBufferLoop mem bufSize params lengthSize buf

end AfIpc.Rpc
