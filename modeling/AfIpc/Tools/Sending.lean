/-
  AfIpc.Tools.Sending

  The sending half of `ipc_send` (`ipc_send.c`): `param_parser`, which makes the
  parameters of the arguments, and `ipc_send_wrapper`, which encodes them, dumps
  the message at debug level 4 and sends it.

  Strings and hex values are copied into memory from `malloc`.  The heap is the
  memory and the blocks that are in use; which block `malloc` finds for a size is
  a parameter, and `Fresh` is what is known of it.
-/

import AfIpc.Tools.Integers
import AfIpc.Tools.Reply

namespace AfIpc.Tools

open AfIpc.Lib AfIpc.Rpc

-- ============================================================================
-- The heap
-- ============================================================================

/-- A block that `malloc` has returned. -/
structure Block where
  base : Word
  size : Nat
  deriving DecidableEq, Repr

structure Heap where
  mem : Mem
  blocks : List Block

/-- `malloc`: the address of a new block, or NULL. -/
abbrev Malloc := Heap → Nat → Option Word

/-- A block is inside the address space, is not at NULL and does not overlap with
    the blocks in use. -/
def Fresh (malloc : Malloc) : Prop :=
  ∀ heap n base, malloc heap n = some base →
    base ≠ 0 ∧ base.toNat + n ≤ 2 ^ 64 ∧
      ∀ b ∈ heap.blocks, base.toNat + n ≤ b.base.toNat ∨ b.base.toNat + b.size ≤ base.toNat

/-- Bytes stored at an address. -/
def writeMem (mem : Mem) (a : Word) (bytes : List Byte) : Mem := fun x =>
  if a.toNat ≤ x.toNat ∧ x.toNat < a.toNat + bytes.length then bytes.getD (x.toNat - a.toNat) 0
  else mem x

/-- A new block, and the bytes that are stored in it. -/
def Heap.fill (heap : Heap) (base : Word) (size : Nat) (bytes : List Byte) : Heap where
  mem := writeMem heap.mem base bytes
  blocks := ⟨base, size⟩ :: heap.blocks

-- ============================================================================
-- param_parser
-- ============================================================================

/-- `is_xdigits`. -/
def isXdigits (s : List Byte) : Bool := s.all isXDigit

/-- `hexnybble`. -/
def hexnybble (c : Byte) : Byte :=
  if 48 ≤ c.toNat ∧ c.toNat ≤ 57 then c - 48
  else if 97 ≤ c.toNat ∧ c.toNat ≤ 102 then c - 97 + 10
  else if 65 ≤ c.toNat ∧ c.toNat ≤ 70 then c - 65 + 10
  else 0

/-- `AF_RPC_SET_PARAM_AS_STRING`. -/
def setParamAsString (string : Word) (len : Int) : AfRpcParam :=
  { base := string, type := typeFlagBlobIsString.setWidth 32 ||| (BitVec.ofInt 32 len &&& 0x3fff) }

/-- A `size_t` as an `int`. -/
def toInt32 (n : Nat) : Int := (BitVec.ofNat 32 n).toInt

/-- What the parser has found: `name`, the entries of `cmd_params` set so far, and
    the heap. -/
structure Parser where
  name : Option CString
  params : List AfRpcParam
  heap : Heap

/-- The bytes that a hex argument is taken for. -/
def hexBytes (tmp : List Byte) (len : Nat) : List Byte :=
  (List.range len).map (fun i =>
    hexnybble (tmp.getD (i * 2) 0) * 16 + hexnybble (tmp.getD (i * 2 + 1) 0))

/-- The branch for `-s`. -/
def stringOption (malloc : Malloc) (value : CString) (st : Parser) : Option Parser :=
  let len := toInt32 (value.bytes.length + 1)
  if len ≤ 0 ∨ len > instrMaxLen then none
  else if st.params.length < maxParams then
    match malloc st.heap len.toNat with
    | none => none
    | some base => some { st with
        params := st.params ++ [setParamAsString base len]
        heap := st.heap.fill base len.toNat ((value.bytes ++ [0]).take len.toNat) }
  else none

/-- The branch for `-h`. -/
def hexOption (malloc : Malloc) (tmp : CString) (st : Parser) : Option Parser :=
  let l := toInt32 tmp.bytes.length
  if l = 0 ∨ l.tmod 2 ≠ 0 then none
  else if isXdigits tmp.bytes = false then none
  else
    let len := l.tdiv 2
    if st.params.length < maxParams then
      match malloc st.heap (sizeT len) with
      | none => none
      | some base => some { st with
          params := st.params ++ [setParamAsBlob base len]
          heap := st.heap.fill base (sizeT len) (hexBytes tmp.bytes len.toNat) }
    else none

/-- The branches for `-u` and `-i`. -/
def intOption (format : Int → Option CString → Option AfRpcParam) (size : CString)
    (value : Option CString) (st : Parser) : Option Parser :=
  if st.params.length < maxParams then
    match format (atoi size) value with
    | none => none
    | some p => some { st with params := st.params ++ [p] }
  else none

/-- One option with the argument behind it, which is NULL behind the last; none is
    `IPC_SEND_ERR`. -/
def parseOption (malloc : Malloc) (s : CString) (value : Option CString) (st : Parser) :
    Except Trap (Option Parser) :=
  match s.bytes with
  | c :: letter :: _ =>
    if c ≠ minus then .ok none
    -- 'd'
    else if letter = 100 then .ok (some { st with name := value })
    -- 'u'
    else if letter = 117 then .ok (intOption formatUintParam (s.drop 2) value st)
    -- 'i'
    else if letter = 105 then .ok (intOption formatIntParam (s.drop 2) value st)
    -- 's'
    else if letter = 115 then
      match value with
      | none => .error .outOfBounds
      | some value => .ok (stringOption malloc value st)
    -- 'h'
    else if letter = 104 then
      match value with
      | none => .error .outOfBounds
      | some value => .ok (hexOption malloc value st)
    else .ok none
  | _ => .ok none

/-- The loop of `param_parser`, over the arguments that remain. -/
def paramParserLoop (malloc : Malloc) : List CString → Parser → Except Trap (Option Parser)
  | [], st => .ok (some st)
  | [s], st => parseOption malloc s none st
  | s :: value :: args, st => do
    match ← parseOption malloc s (some value) st with
    | none => return none
    | some st => paramParserLoop malloc args st

/-- `param_parser`. -/
def paramParser (malloc : Malloc) (argv : List CString) (heap : Heap) :
    Except Trap (Option Parser) := do
  if argv.length % 2 ≠ 0 then
    return none
  match ← paramParserLoop malloc (argv.drop 2) ⟨argv[1]?, [], heap⟩ with
  | none => return none
  | some st => return if st.name.isNone then none else some st

-- ============================================================================
-- ipc_send_wrapper
-- ============================================================================

/-- The loop of the hex dump. -/
def hexDumpLoop : List Byte → Nat → Nat → List Byte → Except Trap (Nat × List Byte)
  | [], _, pos, buffer => .ok (pos, buffer)
  | b :: bs, i, pos, buffer => do
    let text := if i = 0 then hexByte b else space :: hexByte b
    let buffer ← store buffer pos (text ++ [0])
    hexDumpLoop bs (i + 1) (pos + text.length) buffer

/-- The dump of the first `size` bytes into `buffer`, whatever it held before. -/
def hexDump (buffer txBuffer : List Byte) (size : Int) : Except Trap (List Byte) := do
  let (pos, buffer) ← hexDumpLoop (txBuffer.take size.toNat) 0 0 buffer
  let buffer ← store buffer pos [10]
  store buffer (pos + 1) [0]

/-- `ipc_send_wrapper`: the bytes that are sent, if any are.  `debug4` is the test of
    `g_debugLevel`. -/
def ipcSendWrapper (mem : Mem) (debug4 : Bool) (inParams : List AfRpcParam) :
    Except Trap (Option (List Byte)) := do
  let (size, txBuffer) ← afRpcCreateBufferWithParams mem (List.replicate instrMaxLen 0) instrMaxLen
    inParams
  if debug4 then
    let _ ← hexDump (List.replicate (instrMaxLen * 3) 0) txBuffer size
  return if size > 0 then some (txBuffer.take size.toNat) else none

end AfIpc.Tools
