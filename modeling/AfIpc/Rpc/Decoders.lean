/-
  AfIpc.Rpc.Decoders

  The decoders of `af_rpc.c`: `af_rpc_get_params_from_buffer`, which walks the
  whole buffer into a parameter array, and the seven `*_from_buffer_at_pos`
  getters, which read one parameter at a position the caller carries.

  The batch decoder's positions never go below zero, so they are natural
  numbers.  The getters take the caller's `int`, which may be a negative error
  code, through the conversions to `size_t` that C makes.
-/

import AfIpc.Rpc.Types

namespace AfIpc.Rpc

open AfIpc.Lib

/-! ## The batch decoder -/

/-- The `switch` over the integer types of the decoder: how many bytes are read
    and the pointer-sized base they become.  `int8` is sign-extended to the full
    word, `int16` only to 32 bits, and `int32` not at all. -/
def loadedInt (type : BitVec 16) : Option (Nat × (List Byte → Word)) :=
  if type = typeInt8 then some (1, fun bs => (BitVec.ofNat 8 (ofBe bs)).signExtend 64)
  else if type = typeUint8 then some (1, fun bs => (BitVec.ofNat 8 (ofBe bs)).setWidth 64)
  else if type = typeInt16 then
    some (2, fun bs => ((BitVec.ofNat 16 (ofBe bs)).signExtend 32).setWidth 64)
  else if type = typeUint16 then some (2, fun bs => (BitVec.ofNat 16 (ofBe bs)).setWidth 64)
  else if type = typeInt32 ∨ type = typeUint32 then
    some (4, fun bs => (BitVec.ofNat 32 (ofBe bs)).setWidth 64)
  else none

/-- The parameter array entry `param`. -/
def readParam (params : List AfRpcParam) (param : Nat) : Except Trap AfRpcParam :=
  match params[param]? with
  | some p => .ok p
  | none => .error .outOfBounds

/-- Set the parameter array entry `param`. -/
def writeParam (params : List AfRpcParam) (param : Nat) (p : AfRpcParam) :
    Except Trap (List AfRpcParam) :=
  if param < params.length then .ok (params.set param p) else .error .outOfBounds

/-- What `af_rpc_get_params_from_buffer` does after the last parameter. -/
def getParamsEnd (numParams bufSize : Int) (permissive : Bool) (params : List AfRpcParam)
    (param pos : Nat) : Int × List AfRpcParam :=
  if permissive = false ∧ (param : Int) ≠ numParams then (errWrongNumParams, params)
  else if (pos : Int) ≠ bufSize then (errBadTlv, params)
  else (param, params)

/-- The loop of `af_rpc_get_params_from_buffer`.  `addr` is the address of the
    buffer, which the blobs' bases point into; `fuel` bounds the iterations, each
    of which advances `pos`. -/
def getParamsLoop (addr : Word) (buf : List Byte) (numParams bufSize : Int) (permissive : Bool)
    (len : Nat) : Nat → List AfRpcParam → Nat → Nat → Except Trap (Int × List AfRpcParam)
  | 0, _, _, _ => .error .outOfFuel
  | fuel + 1, params, param, pos => do
    if ¬ pos < len then
      return getParamsEnd numParams bufSize permissive params param pos
    -- a full array leaves with the initial `retVal`
    if (param : Int) ≥ numParams then
      return (0, params)
    if ¬ pos + 2 ≤ len then
      return (errBadTlv, params)
    let type ← getlen buf pos
    let pos := pos + 2
    let size := afRpcGetSizeOfType type
    if (pos : Int) + size > len then
      return (errBadTlv, params)
    let entry ← readParam params param
    let expType := entry.type
    if typeIsInteger type then
      if type &&& typeIntegerTypeMask ≠ type then
        return (errBadType, params)
      if permissive = false ∧ expType ≠ type.setWidth 32 then
        return (errBadType, params)
      -- the type is stored before the value, and also when the type is reserved
      let params ← writeParam params param { entry with type := type.setWidth 32 }
      match loadedInt type with
      | some (n, toBase) =>
        let bs ← load buf pos n
        let params ← writeParam params param { base := toBase bs, type := type.setWidth 32 }
        getParamsLoop addr buf numParams bufSize permissive len fuel params (param + 1) (pos + n)
      | none => return (errBadType, params)
    else
      if permissive = false ∧ ¬ typeIsBlob (expType.setWidth 16) then
        return (errBadType, params)
      let params ← writeParam params param
        { base := addr + BitVec.ofNat 64 pos, type := type.setWidth 32 }
      getParamsLoop addr buf numParams bufSize permissive len fuel params (param + 1)
        (pos + size.toNat)

/-- `af_rpc_get_params_from_buffer`. -/
def afRpcGetParamsFromBuffer (params : List AfRpcParam) (numParams : Int) (addr : Word)
    (buf : List Byte) (bufSize : Int) (permissive : Bool) :
    Except Trap (Int × List AfRpcParam) := do
  if numParams < 0 ∨ bufSize ≤ 0 then
    return (errBadParam, params)
  if bufSize < lengthSize then
    return (errBadTlv, params)
  let len ← getlen buf 0
  if (len.toNat : Int) > bufSize then
    return (errBadTlv, params)
  getParamsLoop addr buf numParams bufSize permissive len.toNat (len.toNat + 1) params 0
    lengthSize

/-! ## The getters -/

/-- A load at an `int` index. -/
def loadAt (buf : List Byte) (pos : Int) (n : Nat) : Except Trap (List Byte) :=
  if pos < 0 then .error .outOfBounds else load buf pos.toNat n

/-- The 16-bit field at an `int` index. -/
def getlenAt (buf : List Byte) (pos : Int) : Except Trap (BitVec 16) := do
  let bs ← loadAt buf pos 2
  return BitVec.ofNat 16 (ofBe bs)

/-- The body shared by the six integer getters: the return value, and what is
    stored through `value` if anything is. -/
def getIntFromBufferAtPos (type : BitVec 16) (width : Nat) (buf : List Byte)
    (bufSize pos : Int) : Except Trap (Int × Option (BitVec (8 * width))) := do
  if sizeT bufSize ≤ lengthSize then
    return (errBadParam, none)
  let len ← getlen buf 0
  if (len.toNat : Int) > bufSize then
    return (errBadTlv, none)
  let pos : Int := if pos = 0 then lengthSize else pos
  if pos > len.toNat then
    return (errBadParam, none)
  -- the sum is a `size_t`, and a negative `pos` wraps
  if sizeT (pos + typeSize + width) > len.toNat then
    return (errBadTlv, none)
  let found ← getlenAt buf pos
  if found ≠ type then
    return (errBadType, none)
  let pos := pos + typeSize
  let bs ← loadAt buf pos width
  return (pos + width, some (BitVec.ofNat (8 * width) (ofBe bs)))

def afRpcGetUint8FromBufferAtPos (buf : List Byte) (bufSize pos : Int) :
    Except Trap (Int × Option (BitVec 8)) :=
  getIntFromBufferAtPos typeUint8 1 buf bufSize pos

def afRpcGetUint16FromBufferAtPos (buf : List Byte) (bufSize pos : Int) :
    Except Trap (Int × Option (BitVec 16)) :=
  getIntFromBufferAtPos typeUint16 2 buf bufSize pos

def afRpcGetUint32FromBufferAtPos (buf : List Byte) (bufSize pos : Int) :
    Except Trap (Int × Option (BitVec 32)) :=
  getIntFromBufferAtPos typeUint32 4 buf bufSize pos

def afRpcGetInt8FromBufferAtPos (buf : List Byte) (bufSize pos : Int) :
    Except Trap (Int × Option (BitVec 8)) :=
  getIntFromBufferAtPos typeInt8 1 buf bufSize pos

def afRpcGetInt16FromBufferAtPos (buf : List Byte) (bufSize pos : Int) :
    Except Trap (Int × Option (BitVec 16)) :=
  getIntFromBufferAtPos typeInt16 2 buf bufSize pos

def afRpcGetInt32FromBufferAtPos (buf : List Byte) (bufSize pos : Int) :
    Except Trap (Int × Option (BitVec 32)) :=
  getIntFromBufferAtPos typeInt32 4 buf bufSize pos

/-- `af_rpc_get_blob_with_length_from_buffer_at_pos`.  `room` is `*blobSize` on
    entry; on success the bytes copied are returned, and their number is what
    `*blobSize` becomes.  Unlike the integer getters it does not check that the
    type field lies inside the message. -/
def afRpcGetBlobWithLengthFromBufferAtPos (room : Int) (buf : List Byte) (bufSize pos : Int) :
    Except Trap (Int × Option (List Byte)) := do
  if sizeT bufSize ≤ lengthSize ∨ room ≤ 0 then
    return (errBadParam, none)
  let len ← getlen buf 0
  if (len.toNat : Int) > bufSize then
    return (errBadTlv, none)
  let pos : Int := if pos = 0 then lengthSize else pos
  if pos > len.toNat then
    return (errBadParam, none)
  let type ← getlenAt buf pos
  if ¬ typeIsBlob type then
    return (errBadType, none)
  let pos := pos + typeSize
  let size := (blobSize type).toNat
  if pos + size > len.toNat then
    return (errBadTlv, none)
  if (size : Int) > room then
    return (errBufferOverflow, none)
  let bs ← if size ≠ 0 then loadAt buf pos size else pure []
  return (pos + size, some bs)

end AfIpc.Rpc
