/-
  AfIpc.Tools.Reply

  What `ipc_send` and `ipc_wait` do with the message they have waited for: the
  callback copies it into `outBuffer`, and `main` decodes it and prints its
  parameters.  The code for it is in both programs, word for word.

  Every write goes through a store that fails outside its array.  A parameter
  decoded from a TLV is a `Piece` of the reply: `Shows` says what the loop finds
  in it, and one lemma for each kind of piece says what the loop does with it.
-/

import AfIpc.Lib.CString
import AfIpc.Rpc.RoundTrip

namespace AfIpc.Tools

open AfIpc.Lib AfIpc.Rpc

-- ============================================================================
-- The source
-- ============================================================================

/-- `IPC_SEND_INSTR_MAX_LEN` and `IPC_WAIT_INSTR_MAX_LEN`. -/
def instrMaxLen : Nat := 256

/-- `IPC_SEND_MAX_PARAMS` and `IPC_WAIT_MAX_PARAMS`. -/
def maxParams : Nat := 16

/-- `sizeof(ret_string)`. -/
def retStringSize : Nat := 256

/-- `sizeof(tmp)`. -/
def tmpSize : Nat := 11

def space : Byte := 32
def quote : Byte := 34

/-- The text that is printed into `tmp`, unless the type is a reserved one. -/
def intText (p : AfRpcParam) : Option (List Byte) :=
  if p.type = typeUint8.setWidth 32 ∨ p.type = typeUint16.setWidth 32 ∨
      p.type = typeUint32.setWidth 32 then
    some (decimal (p.base.setWidth 32).toNat)
  else if p.type = typeInt8.setWidth 32 ∨ p.type = typeInt16.setWidth 32 ∨
      p.type = typeInt32.setWidth 32 then
    some (decimalInt (p.base.setWidth 32).toInt)
  else none

/-- The loop over the bytes of a blob. -/
def hexLoop : List Byte → Nat → List Byte → Except Trap (Nat × List Byte)
  | [], pos, retString => .ok (pos, retString)
  | b :: bs, pos, retString => do
    let retString ← store retString pos (hexByte b ++ [0])
    hexLoop bs (pos + 2) retString

/-- The loop over the parameters, from parameter `i` on: `ret_string` as it is
    printed, or none where the loop gives up. -/
def renderLoop (mem : Mem) :
    List AfRpcParam → Nat → Nat → List Byte → Except Trap (Option (List Byte))
  | [], _, _, retString => .ok (some retString)
  | p :: params, i, pos, retString => do
    if i ≠ 0 ∧ ¬ pos + 1 < retStringSize - 1 then
      return none
    let retString ← if i ≠ 0 then store retString pos [space] else pure retString
    let pos := if i ≠ 0 then pos + 1 else pos
    if p.type &&& typeFlagInteger.setWidth 32 ≠ 0 then
      match intText p with
      | none => return none
      | some text =>
        let _ ← store (List.replicate tmpSize 0) 0 (text ++ [0])
        if pos + text.length < retStringSize - 1 then
          -- `strcpy` to the start of `ret_string`, not to `pos`
          let retString ← store retString 0 (text ++ [0])
          renderLoop mem params (i + 1) (pos + text.length) retString
        else return none
    else
      let len := (p.type &&& 0x3fff).toNat
      if p.type &&& typeFlagBlobIsString.setWidth 32 ≠ 0 then
        if pos + len + 2 < retStringSize - 1 then
          let retString ← store retString pos [quote]
          let pos := pos + 1
          let retString ← store retString pos (readMem mem p.base len)
          let retString ← store retString (pos + len - 1) [quote]
          let retString ← store retString (pos + len) [0]
          -- the `break` behind a string ends the loop
          return some retString
        else return none
      else if pos + len * 2 < retStringSize - 1 then
        let (pos, retString) ← hexLoop (readMem mem p.base len) pos retString
        renderLoop mem params (i + 1) pos retString
      else return none

/-- What `%s` prints. -/
def printed (retString : List Byte) : List Byte := retString.takeWhile (fun b => b ≠ 0)

/-- `main` behind the event loop: what is printed on success. -/
def renderReply (mem : Mem) (addr : Word) (outBuffer : List Byte) (outBufferSize : Int) :
    Except Trap (Option (List Byte)) := do
  let (numRetParams, retParams) ← afRpcGetParamsFromBuffer (List.replicate maxParams ⟨0, 0⟩)
    maxParams addr outBuffer outBufferSize true
  if numRetParams < 0 then
    return none
  let retString ← renderLoop mem (retParams.take numRetParams.toNat) 0 0
    (List.replicate retStringSize 0)
  return retString.map printed

/-- The reply rendering of `ipc_send`. -/
def ipcSendReply := renderReply

/-- The reply rendering of `ipc_wait`. -/
def ipcWaitReply := renderReply

-- ============================================================================
-- Pieces
-- ============================================================================

/-- A parameter as it is to be printed: an integer by its text, a blob and a
    string by their bytes. -/
inductive Piece where
  | int (text : List Byte)
  | blob (bytes : List Byte)
  | string (bytes : List Byte)
  deriving DecidableEq, Repr

/-- The text of a piece; the last byte of a string is its NUL. -/
def Piece.text : Piece → List Byte
  | .int text => text
  | .blob bytes => bytes.flatMap hexByte
  | .string bytes => quote :: (bytes.dropLast ++ [quote])

/-- What the loop finds in a parameter. -/
inductive Shows (mem : Mem) (p : AfRpcParam) : Piece → Prop
  | int {text : List Byte} (htype : p.type &&& typeFlagInteger.setWidth 32 ≠ 0)
      (htext : intText p = some text) : Shows mem p (.int text)
  | blob {bytes : List Byte} (htype : p.type &&& typeFlagInteger.setWidth 32 = 0)
      (hstring : p.type &&& typeFlagBlobIsString.setWidth 32 = 0)
      (hlen : (p.type &&& 0x3fff).toNat = bytes.length)
      (hbytes : readMem mem p.base bytes.length = bytes) : Shows mem p (.blob bytes)
  | string {bytes : List Byte} (htype : p.type &&& typeFlagInteger.setWidth 32 = 0)
      (hstring : p.type &&& typeFlagBlobIsString.setWidth 32 ≠ 0)
      (hlen : (p.type &&& 0x3fff).toNat = bytes.length)
      (hbytes : readMem mem p.base bytes.length = bytes) : Shows mem p (.string bytes)

/-- The number an integer TLV holds. -/
def numberOf (t : Tlv) (k : IntKind) : Int := k.value (BitVec.ofNat (8 * k.width) (ofBe t.payload))

/-- The piece of a TLV. -/
def pieceOf (t : Tlv) : Piece :=
  match IntKind.ofType t.type with
  | some k => .int (decimalInt (numberOf t k))
  | none =>
    if t.type &&& typeFlagBlobIsString ≠ 0 then .string t.payload else .blob t.payload

/-- The reply to be printed: the texts of the TLVs, with spaces between them. -/
def replyText (ts : List Tlv) : List Byte :=
  List.intercalate [space] (ts.map (fun t => (pieceOf t).text))

-- ============================================================================
-- Decoded parameters show the pieces of their TLVs
-- ============================================================================

/-- A mask of the 16-bit type on the 32-bit one. -/
theorem mask_eq_zero_iff (t m : BitVec 16) :
    t.setWidth 32 &&& m.setWidth 32 = 0 ↔ t &&& m = 0 := by
  rw [← BitVec.setWidth_and]
  refine ⟨?_, ?_⟩
  · intro h
    have hcut : ((t &&& m).setWidth 32).setWidth 16 = (0 : BitVec 32).setWidth 16 := by rw [h]
    rw [setWidth_setWidth_self _ (by omega)] at hcut
    exact hcut
  · intro h
    rw [h]
    rfl

theorem decimalInt_natCast (n : Nat) : decimalInt n = decimal n := by
  rw [decimalInt, if_neg (by omega), Int.natAbs_natCast]

/-- An extended number behind the cast to 32 bits. -/
theorem toNat_castExtended {w : Nat} (x : BitVec w) (h : w ≤ 32) :
    ((x.setWidth 64).setWidth 32).toNat = x.toNat := by
  rw [BitVec.setWidth_setWidth_of_le _ (by omega), BitVec.toNat_setWidth_of_le h]

theorem toInt_castExtended {w : Nat} (x : BitVec w) (h : w ≤ 32) :
    (((x.signExtend 32).setWidth 64).setWidth 32).toInt = x.toInt := by
  rw [setWidth_setWidth_self _ (by omega), BitVec.toInt_signExtend_of_le h]

/-- A sign extension to the full word has the shorter ones in it. -/
theorem setWidth_signExtend_word {w : Nat} (x : BitVec w) :
    (x.signExtend 64).setWidth 32 = ((x.signExtend 32).setWidth 64).setWidth 32 := by
  rw [setWidth_setWidth_self _ (by omega)]
  apply BitVec.eq_of_getLsbD_eq
  intro i hi
  have hlt : i < 64 := by omega
  rw [BitVec.getLsbD_setWidth, BitVec.getLsbD_signExtend, BitVec.getLsbD_signExtend]
  simp only [hi, hlt, decide_true, Bool.true_and]

/-- The number of an integer parameter goes through the casts of the code. -/
theorem intText_decodedParam (addr : Word) (pos : Nat) {t : Tlv} {k : IntKind}
    (h : t.type = k.type) :
    intText (decodedParam addr pos t) = some (decimalInt (numberOf t k)) := by
  have hbase := decodedParam_base addr pos t
  have htype : (decodedParam addr pos t).type = t.type.setWidth 32 := rfl
  rw [h] at hbase htype
  cases k with
  | uint8 =>
      have hcast := toNat_castExtended (BitVec.ofNat 8 (ofBe t.payload)) (by omega)
      rw [intText, htype, if_pos (.inl rfl), hbase]
      exact congrArg some ((congrArg decimal hcast).trans (decimalInt_natCast _).symm)
  | uint16 =>
      have hcast := toNat_castExtended (BitVec.ofNat 16 (ofBe t.payload)) (by omega)
      rw [intText, htype, if_pos (.inr (.inl rfl)), hbase]
      exact congrArg some ((congrArg decimal hcast).trans (decimalInt_natCast _).symm)
  | uint32 =>
      have hcast := toNat_castExtended (BitVec.ofNat 32 (ofBe t.payload)) (by omega)
      rw [intText, htype, if_pos (.inr (.inr rfl)), hbase]
      exact congrArg some ((congrArg decimal hcast).trans (decimalInt_natCast _).symm)
  | int8 =>
      have hcast := toInt_castExtended (BitVec.ofNat 8 (ofBe t.payload)) (by omega)
      rw [← setWidth_signExtend_word] at hcast
      rw [intText, htype, if_neg (by decide), if_pos (.inl rfl), hbase]
      exact congrArg some (congrArg decimalInt hcast)
  | int16 =>
      have hcast := toInt_castExtended (BitVec.ofNat 16 (ofBe t.payload)) (by omega)
      rw [intText, htype, if_neg (by decide), if_pos (.inr (.inl rfl)), hbase]
      exact congrArg some (congrArg decimalInt hcast)
  | int32 =>
      have hcast : (((BitVec.ofNat 32 (ofBe t.payload)).setWidth 64).setWidth 32).toInt =
          (BitVec.ofNat 32 (ofBe t.payload)).toInt := by
        rw [setWidth_setWidth_self _ (by omega)]
      rw [intText, htype, if_neg (by decide), if_pos (.inr (.inr rfl)), hbase]
      exact congrArg some (congrArg decimalInt hcast)

/-- In memory that holds the message, a decoded parameter shows the piece of its TLV. -/
theorem shows_decodedParam {mem : Mem} {addr : Word} {t : Tlv} {pre post : List Byte}
    (h : readMem mem addr (pre ++ (t.encode ++ post)).length = pre ++ (t.encode ++ post)) :
    Shows mem (decodedParam addr pre.length t) (pieceOf t) := by
  have htype : (decodedParam addr pre.length t).type = t.type.setWidth 32 := rfl
  rcases payloadSize_eq_some t.wf with ⟨k, hk, _⟩ | ⟨hblob, hsize⟩
  · have hpiece : pieceOf t = .int (decimalInt (numberOf t k)) := by
      rw [pieceOf, hk, IntKind.ofType_type]
    have hint := isInteger_type k
    rw [← hk, typeIsInteger, bne_iff_ne] at hint
    rw [hpiece]
    refine .int ?_ (intText_decodedParam addr pre.length hk)
    rw [htype]
    exact fun hzero => hint ((mask_eq_zero_iff _ _).mp hzero)
  · have hint : (decodedParam addr pre.length t).type &&& typeFlagInteger.setWidth 32 = 0 := by
      rw [htype]
      rw [typeIsBlob, beq_iff_eq] at hblob
      exact (mask_eq_zero_iff _ _).mpr hblob
    have hlen : ((decodedParam addr pre.length t).type &&& 0x3fff).toNat = t.payload.length := by
      rw [htype, hsize]
      show (t.type.setWidth 32 &&& (0x3fff : BitVec 16).setWidth 32).toNat = _
      rw [← BitVec.setWidth_and, BitVec.toNat_setWidth_of_le (by omega)]
    have hbytes := readMem_decodedParam hblob h
    by_cases hstring : t.type &&& typeFlagBlobIsString ≠ 0
    · have hpiece : pieceOf t = .string t.payload := by
        rw [pieceOf, ofType_of_isBlob hblob]
        exact if_pos hstring
      rw [hpiece]
      refine .string hint ?_ hlen hbytes
      rw [htype]
      exact fun hzero => hstring ((mask_eq_zero_iff _ _).mp hzero)
    · have hpiece : pieceOf t = .blob t.payload := by
        rw [pieceOf, ofType_of_isBlob hblob]
        exact if_neg hstring
      rw [hpiece]
      refine .blob hint ?_ hlen hbytes
      rw [htype]
      exact (mask_eq_zero_iff _ _).mpr (not_not.mp hstring)

theorem shows_decodedParams {mem : Mem} {addr : Word} (ts : List Tlv) (pre : List Byte)
    (h : readMem mem addr (pre ++ ts.flatMap Tlv.encode).length = pre ++ ts.flatMap Tlv.encode) :
    List.Forall₂ (Shows mem) (decodedParams addr pre.length ts) (ts.map pieceOf) := by
  induction ts generalizing pre with
  | nil => exact .nil
  | cons t ts ih =>
      have hpre : (pre ++ t.encode).length = pre.length + t.size := by
        rw [List.length_append, Tlv.encode_length]
      rw [List.flatMap_cons] at h
      rw [decodedParams, List.map_cons, ← hpre]
      refine .cons (shows_decodedParam h) (ih (pre ++ t.encode) ?_)
      rw [List.append_assoc]
      exact h

-- ============================================================================
-- One piece
-- ============================================================================

/-- The step of the loop for a parameter, behind the test for the space. -/
def pieceStep (mem : Mem) (params : List AfRpcParam) (i pos : Nat) (retString : List Byte) :
    Piece → Except Trap (Option (List Byte))
  | .int text =>
    if tmpSize < text.length + 1 then .error .outOfBounds
    else if pos + text.length < retStringSize - 1 then do
      let retString ← store retString 0 (text ++ [0])
      renderLoop mem params (i + 1) (pos + text.length) retString
    else .ok none
  | .blob bytes =>
    if pos + bytes.length * 2 < retStringSize - 1 then do
      let (pos, retString) ← hexLoop bytes pos retString
      renderLoop mem params (i + 1) pos retString
    else .ok none
  | .string bytes =>
    if pos + bytes.length + 2 < retStringSize - 1 then do
      let retString ← store retString pos [quote]
      let retString ← store retString (pos + 1) bytes
      let retString ← store retString (pos + 1 + bytes.length - 1) [quote]
      let retString ← store retString (pos + 1 + bytes.length) [0]
      return some retString
    else .ok none

/-- The test for the space, and what comes behind it. -/
def spaced (i pos : Nat) (retString : List Byte)
    (next : Nat → List Byte → Except Trap (Option (List Byte))) :
    Except Trap (Option (List Byte)) :=
  if i = 0 then next pos retString
  else if pos + 1 < retStringSize - 1 then do
    let retString ← store retString pos [space]
    next (pos + 1) retString
  else .ok none

/-- One turn of the loop. -/
theorem renderLoop_cons {mem : Mem} {p : AfRpcParam} {piece : Piece} (h : Shows mem p piece)
    (params : List AfRpcParam) (i pos : Nat) (retString : List Byte) :
    renderLoop mem (p :: params) i pos retString =
      spaced i pos retString (fun pos retString => pieceStep mem params i pos retString piece) := by
  have hbody : ∀ pos retString,
      (if p.type &&& typeFlagInteger.setWidth 32 ≠ 0 then
        match intText p with
        | none => .ok none
        | some text => do
          let _ ← store (List.replicate tmpSize 0) 0 (text ++ [0])
          if pos + text.length < retStringSize - 1 then
            let retString ← store retString 0 (text ++ [0])
            renderLoop mem params (i + 1) (pos + text.length) retString
          else return none
      else
        let len := (p.type &&& 0x3fff).toNat
        if p.type &&& typeFlagBlobIsString.setWidth 32 ≠ 0 then
          if pos + len + 2 < retStringSize - 1 then do
            let retString ← store retString pos [quote]
            let pos := pos + 1
            let retString ← store retString pos (readMem mem p.base len)
            let retString ← store retString (pos + len - 1) [quote]
            let retString ← store retString (pos + len) [0]
            return some retString
          else return none
        else if pos + len * 2 < retStringSize - 1 then do
          let (pos, retString) ← hexLoop (readMem mem p.base len) pos retString
          renderLoop mem params (i + 1) pos retString
        else return none) = pieceStep mem params i pos retString piece := by
    intro pos retString
    cases h with
    | @int text htype htext =>
        rw [if_pos htype, htext]
        simp only [pieceStep]
        by_cases hlong : tmpSize < text.length + 1
        · have htmp : store (List.replicate tmpSize 0) 0 (text ++ [0]) = .error .outOfBounds := by
            refine if_neg ?_
            rw [List.length_append, List.length_replicate, List.length_singleton]
            omega
          rw [if_pos hlong, htmp]
          rfl
        · obtain ⟨tmp, htmp, _⟩ := @store_ok (List.replicate tmpSize 0) 0 (text ++ [0])
            (by rw [List.length_append, List.length_replicate, List.length_singleton]; omega)
          rw [if_neg hlong, htmp]
          rfl
    | @blob bytes htype hstring hlen hbytes =>
        rw [if_neg (not_not.mpr htype)]
        dsimp only
        rw [if_neg (not_not.mpr hstring), hlen, hbytes]
        rfl
    | @string bytes htype hstring hlen hbytes =>
        rw [if_neg (not_not.mpr htype)]
        dsimp only
        rw [if_pos hstring, hlen, hbytes]
        rfl
  by_cases hfirst : i = 0
  · have hnospace : ¬ (i ≠ 0 ∧ ¬ pos + 1 < retStringSize - 1) := fun hc => hc.1 hfirst
    rw [renderLoop, spaced, if_pos hfirst, ← hbody, if_neg hnospace]
    simp only [if_neg (not_not.mpr hfirst)]
    rfl
  · by_cases hroom : pos + 1 < retStringSize - 1
    · have hspace : ¬ (i ≠ 0 ∧ ¬ pos + 1 < retStringSize - 1) := fun hc => hc.2 hroom
      rw [renderLoop, spaced, if_neg hfirst, if_pos hroom, if_neg hspace]
      simp only [if_pos hfirst]
      cases hstore : store retString pos [space] with
      | error e => rfl
      | ok retString' => exact hbody (pos + 1) retString'
    · rw [renderLoop, spaced, if_neg hfirst, if_neg hroom, if_pos ⟨hfirst, hroom⟩]
      rfl

/-- The text of a run of pieces, with a space in front of each but the first of all. -/
def joined : Bool → List Piece → List Byte
  | _, [] => []
  | first, p :: ps => (if first then [] else [space]) ++ (p.text ++ joined false ps)

theorem replyText_eq (ts : List Tlv) : replyText ts = joined true (ts.map pieceOf) := by
  have hrest : ∀ ps : List Piece, joined false ps =
      (ps.map (fun p => space :: p.text)).flatten := by
    intro ps
    induction ps with
    | nil => rfl
    | cons p ps ih =>
        rw [joined, ih]
        rfl
  have hjoin : ∀ ps : List Piece, joined true ps =
      List.intercalate [space] (ps.map Piece.text) := by
    intro ps
    induction ps with
    | nil => rfl
    | cons p ps ih =>
        cases ps with
        | nil =>
            rw [joined]
            simp [joined, List.intercalate]
        | cons q ps =>
            rw [joined, hrest]
            simp only [joined, hrest, if_true, List.nil_append] at ih
            simp only [List.map_cons, List.intercalate, List.intersperse_cons_cons, List.flatten_cons,
              if_true, List.nil_append] at ih ⊢
            rw [← ih]
            rfl
  rw [hjoin, List.map_map]
  rfl

end AfIpc.Tools
