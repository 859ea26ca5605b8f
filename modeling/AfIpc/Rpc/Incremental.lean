/-
  AfIpc.Rpc.Incremental

  The incremental builders refine the batch builder.  A sequence of
  `af_rpc_add_*_to_buffer` calls after `af_rpc_init_buffer` keeps the buffer a
  message of the TLVs of the calls that succeeded (`addAll_spec`, by induction
  on the sequence), and `af_rpc_create_buffer_with_params` gives that same
  message for the parameters of those calls.
-/

import AfIpc.Rpc.BuilderSpec

namespace AfIpc.Rpc

open AfIpc.Lib

-- ============================================================================
-- Calls
-- ============================================================================

/-- A call of one of the seven builders.  A blob has at most `AF_RPC_MAX_BLOB_SIZE`
    bytes and is not NULL unless it is empty. -/
inductive AddCall where
  | uint8 (value : BitVec 8)
  | uint16 (value : BitVec 16)
  | uint32 (value : BitVec 32)
  | int8 (value : BitVec 8)
  | int16 (value : BitVec 16)
  | int32 (value : BitVec 32)
  | blob (ptr : Word) (size : Nat) (hsize : size ≤ 16383) (hptr : size ≠ 0 → ptr ≠ 0)

namespace AddCall

/-- Make the call. -/
def run (mem : Mem) (buf : List Byte) (bufSize : Int) : AddCall → Except Trap (Int × List Byte)
  | uint8 v => afRpcAddUint8ToBuffer buf bufSize v
  | uint16 v => afRpcAddUint16ToBuffer buf bufSize v
  | uint32 v => afRpcAddUint32ToBuffer buf bufSize v
  | int8 v => afRpcAddInt8ToBuffer buf bufSize v
  | int16 v => afRpcAddInt16ToBuffer buf bufSize v
  | int32 v => afRpcAddInt32ToBuffer buf bufSize v
  | blob ptr size _ _ => afRpcAddBlobToBuffer mem buf bufSize ptr size

/-- The parameter the `AF_RPC_SET_PARAM_AS_*` macro makes of the same value. -/
def param : AddCall → AfRpcParam
  | uint8 v => setParamAs typeUint8 v.toNat
  | uint16 v => setParamAs typeUint16 v.toNat
  | uint32 v => setParamAs typeUint32 v.toNat
  | int8 v => setParamAs typeInt8 v.toInt
  | int16 v => setParamAs typeInt16 v.toInt
  | int32 v => setParamAs typeInt32 v.toInt
  | blob ptr size _ _ => setParamAsBlob ptr size

/-- Payload bytes of the value. -/
def size : AddCall → Nat
  | uint8 _ | int8 _ => 1
  | uint16 _ | int16 _ => 2
  | uint32 _ | int32 _ => 4
  | blob _ size _ _ => size

end AddCall

/-- Make the calls in turn, keeping those that did not return an error. -/
def addAll (mem : Mem) (bufSize : Int) :
    List AddCall → List Byte → Except Trap (List AddCall × List Byte)
  | [], buf => .ok ([], buf)
  | c :: cs, buf => do
    let (ret, buf) ← c.run mem buf bufSize
    let (succeeded, buf) ← addAll mem bufSize cs buf
    return (if ret < 0 then succeeded else c :: succeeded, buf)

/-- `af_rpc_init_buffer` and then the calls. -/
def buildIncrementally (mem : Mem) (buf : List Byte) (bufSize : Int) (cs : List AddCall) :
    Except Trap (List AddCall × List Byte) := do
  let (_, buf) ← afRpcInitBuffer buf bufSize
  addAll mem bufSize cs buf

/-- The length of the message of `cs`. -/
def builtLength (cs : List AddCall) : Nat :=
  lengthSize + (cs.map (fun c => typeSize + c.size)).sum

-- ============================================================================
-- Calls and TLVs
-- ============================================================================

theorem setWidth_ofInt_toInt {w : Nat} (v : BitVec w) (hw : w ≤ 64) :
    (BitVec.ofInt 64 v.toInt).setWidth w = v := by
  show (v.signExtend 64).setWidth w = v
  ext i hi
  simp only [BitVec.getElem_setWidth, BitVec.getLsbD_signExtend]
  rw [if_pos hi, BitVec.getLsbD_eq_getElem hi]
  simp
  omega

theorem setWidth_ofInt_toNat {w : Nat} (v : BitVec w) (hw : w ≤ 64) :
    (BitVec.ofInt 64 (v.toNat : Int)).setWidth w = v := by
  apply BitVec.eq_of_toNat_eq
  have hle : 2 ^ w ≤ 2 ^ 64 := Nat.pow_le_pow_right (by decide) hw
  have hv := v.isLt
  rw [BitVec.ofInt_natCast, BitVec.toNat_setWidth, BitVec.toNat_ofNat,
    Nat.mod_eq_of_lt (show v.toNat < 2 ^ 64 by omega), Nat.mod_eq_of_lt hv]

/-- The stored bytes depend on the low bits of the base only. -/
theorem toBe_of_setWidth {n : Nat} {base : Word} {v : BitVec (8 * n)}
    (h : base.setWidth (8 * n) = v) : toBe n base.toNat = toBe n v.toNat := by
  rw [← h, BitVec.toNat_setWidth, Nat.pow_mul]
  exact (toBe_mod n base.toNat).symm

theorem typeBlob_isBlob (n : Nat) : typeIsBlob (typeBlob n) = true := by
  simp only [typeIsBlob, typeBlob, typeFlagInteger, BitVec.and_assoc]
  have hdisj : (0x3fff : BitVec 16) &&& 0x8000 = 0#16 := by decide
  rw [hdisj, BitVec.and_zero]
  rfl

/-- The type has 14 bits for the size. -/
theorem blobSize_typeBlob_mod (n : Nat) : (blobSize (typeBlob n)).toNat = n % 2 ^ 14 := by
  have hmask : (0x3fff : BitVec 16).toNat = 2 ^ 14 - 1 := by decide
  rw [blobSize, typeBlob, BitVec.and_assoc, BitVec.and_self, BitVec.toNat_and, hmask,
    Nat.and_two_pow_sub_one_eq_mod, BitVec.ofInt_natCast, BitVec.toNat_ofNat]
  omega

theorem blobSize_typeBlob {n : Nat} (hn : n ≤ 16383) : (blobSize (typeBlob n)).toNat = n := by
  rw [blobSize_typeBlob_mod]
  exact Nat.mod_eq_of_lt (by omega)

theorem setParamAsBlob_type (ptr : Word) (n : Nat) :
    (setParamAsBlob ptr n).type.setWidth 16 = typeBlob n := by
  simp only [setParamAsBlob, typeBlob, BitVec.setWidth_and, BitVec.ofInt_natCast]
  congr 1
  apply BitVec.eq_of_toNat_eq
  simp only [BitVec.toNat_setWidth, BitVec.toNat_ofNat]
  omega

theorem setParamAs_type (t : BitVec 16) (value : Int) :
    (setParamAs t value).type.setWidth 16 = t := by
  simp [setParamAs]

namespace AddCall

/-- The parameter of a call is one the batch builder accepts. -/
def validParam (c : AddCall) : ValidParam where
  param := c.param
  valid := by
    cases c with
    | uint8 v => exact Or.inl ⟨.uint8, setParamAs_type _ _⟩
    | uint16 v => exact Or.inl ⟨.uint16, setParamAs_type _ _⟩
    | uint32 v => exact Or.inl ⟨.uint32, setParamAs_type _ _⟩
    | int8 v => exact Or.inl ⟨.int8, setParamAs_type _ _⟩
    | int16 v => exact Or.inl ⟨.int16, setParamAs_type _ _⟩
    | int32 v => exact Or.inl ⟨.int32, setParamAs_type _ _⟩
    | blob ptr n hn hptr =>
        right
        show typeIsBlob ((setParamAsBlob ptr n).type.setWidth 16) = true ∧
          (blobSize ((setParamAsBlob ptr n).type.setWidth 16) ≠ 0 → ptr ≠ 0)
        rw [setParamAsBlob_type]
        refine ⟨typeBlob_isBlob n, ?_⟩
        intro hne
        apply hptr
        intro hn0
        exact hne (BitVec.eq_of_toNat_eq (by rw [blobSize_typeBlob hn, hn0]; rfl))

theorem param_validParam (c : AddCall) : c.validParam.param = c.param := rfl

/-- The TLV a call adds. -/
def tlv (mem : Mem) (c : AddCall) : Tlv := c.validParam.tlv mem

theorem tlv_size (mem : Mem) (c : AddCall) : (c.tlv mem).size = typeSize + c.size := by
  have hint : ∀ (k : IntKind) (value : Int),
      payloadSize ((setParamAs k.type value).type.setWidth 16) = some k.width := by
    intro k value
    rw [setParamAs_type, payloadSize_type]
  show 2 + (c.validParam.payload mem).length = 2 + c.size
  have hwf := c.validParam.payload_wf mem
  cases c with
  | uint8 v => rw [← Option.some.inj ((hint .uint8 v.toNat).symm.trans hwf)]; rfl
  | uint16 v => rw [← Option.some.inj ((hint .uint16 v.toNat).symm.trans hwf)]; rfl
  | uint32 v => rw [← Option.some.inj ((hint .uint32 v.toNat).symm.trans hwf)]; rfl
  | int8 v => rw [← Option.some.inj ((hint .int8 v.toInt).symm.trans hwf)]; rfl
  | int16 v => rw [← Option.some.inj ((hint .int16 v.toInt).symm.trans hwf)]; rfl
  | int32 v => rw [← Option.some.inj ((hint .int32 v.toInt).symm.trans hwf)]; rfl
  | blob ptr n hn hptr =>
      have htype := setParamAsBlob_type ptr n
      have hsize : payloadSize ((setParamAsBlob ptr n).type.setWidth 16) = some n := by
        rw [htype, payloadSize_of_isBlob (typeBlob_isBlob n)]
        exact congrArg some (blobSize_typeBlob hn)
      rw [← Option.some.inj (hsize.symm.trans hwf)]
      rfl

/-- An integer call is the shared body on the bytes of its TLV. -/
theorem run_int (mem : Mem) (c : AddCall) (buf : List Byte) (bufSize : Int) :
    (∃ k : IntKind, (c.tlv mem).type = k.type ∧
      c.run mem buf bufSize = addIntToBuffer k.type (c.tlv mem).payload buf bufSize) ∨
    (∃ (ptr : Word) (n : Nat), n ≤ 16383 ∧ (n ≠ 0 → ptr ≠ 0) ∧ (c.tlv mem).type = typeBlob n ∧
      (c.tlv mem).payload = readMem mem ptr n ∧
      c.run mem buf bufSize = afRpcAddBlobToBuffer mem buf bufSize ptr n) := by
  -- the payload of an integer parameter, from the low bits of its base
  have hint : ∀ (k : IntKind) (value : Int) (c : AddCall), c.param = setParamAs k.type value →
      ∀ v : BitVec (8 * k.width), (BitVec.ofInt 64 value).setWidth (8 * k.width) = v →
      (c.tlv mem).type = k.type ∧ (c.tlv mem).payload = toBe k.width v.toNat := by
    intro k value c hparam v hv
    have htype : c.validParam.type = k.type := by
      show c.param.type.setWidth 16 = k.type
      rw [hparam, setParamAs_type]
    refine ⟨htype, ?_⟩
    show c.validParam.payload mem = _
    rw [ValidParam.payload_int htype, param_validParam, hparam]
    exact toBe_of_setWidth hv
  cases c with
  | uint8 v =>
      obtain ⟨ht, hp⟩ := hint .uint8 v.toNat (.uint8 v) rfl v (setWidth_ofInt_toNat v (by decide))
      exact Or.inl ⟨.uint8, ht, by rw [hp]; rfl⟩
  | uint16 v =>
      obtain ⟨ht, hp⟩ := hint .uint16 v.toNat (.uint16 v) rfl v (setWidth_ofInt_toNat v (by decide))
      exact Or.inl ⟨.uint16, ht, by rw [hp]; rfl⟩
  | uint32 v =>
      obtain ⟨ht, hp⟩ := hint .uint32 v.toNat (.uint32 v) rfl v (setWidth_ofInt_toNat v (by decide))
      exact Or.inl ⟨.uint32, ht, by rw [hp]; rfl⟩
  | int8 v =>
      obtain ⟨ht, hp⟩ := hint .int8 v.toInt (.int8 v) rfl v (setWidth_ofInt_toInt v (by decide))
      exact Or.inl ⟨.int8, ht, by rw [hp]; rfl⟩
  | int16 v =>
      obtain ⟨ht, hp⟩ := hint .int16 v.toInt (.int16 v) rfl v (setWidth_ofInt_toInt v (by decide))
      exact Or.inl ⟨.int16, ht, by rw [hp]; rfl⟩
  | int32 v =>
      obtain ⟨ht, hp⟩ := hint .int32 v.toInt (.int32 v) rfl v (setWidth_ofInt_toInt v (by decide))
      exact Or.inl ⟨.int32, ht, by rw [hp]; rfl⟩
  | blob ptr n hn hptr =>
      right
      have htype : (blob ptr n hn hptr).validParam.type = typeBlob n := setParamAsBlob_type ptr n
      refine ⟨ptr, n, hn, hptr, htype, ?_, rfl⟩
      have hblob : typeIsBlob (blob ptr n hn hptr).validParam.type = true := by
        rw [htype]
        exact typeBlob_isBlob n
      show (blob ptr n hn hptr).validParam.payload mem = _
      rw [ValidParam.payload_blob hblob, htype, blobSize_typeBlob hn]
      rfl

/-- A call that does not fit returns the error and leaves the buffer alone. -/
theorem run_overflow (mem : Mem) (c : AddCall) (ts : List Tlv) (post : List Byte)
    (bufSize : Int) (hmsg : messageSize ts < 2 ^ 16)
    (hbuf : (messageSize ts + post.length : Int) = bufSize)
    (hover : post.length < (c.tlv mem).size) :
    c.run mem (encodeMessage ts ++ post) bufSize =
      .ok (errBufferOverflow, encodeMessage ts ++ post) := by
  rcases c.run_int mem (encodeMessage ts ++ post) bufSize with
    ⟨k, ht, hrun⟩ | ⟨ptr, n, hn, hptr, _, hpay, hrun⟩
  · rw [hrun]
    exact addInt_overflow ts (c.tlv mem) post bufSize hmsg hbuf k hover
  · rw [hrun]
    have hsize : (c.tlv mem).size = 2 + n := by rw [Tlv.size, hpay, readMem_length]
    exact addBlob_overflow ts post bufSize hmsg hbuf mem ptr n hn hptr (by omega)

/-- A call that fits appends its TLV to the message. -/
theorem run_fit (mem : Mem) (c : AddCall) (ts : List Tlv) (post : List Byte)
    (bufSize : Int) (hmsg : messageSize ts < 2 ^ 16)
    (hbuf : (messageSize ts + post.length : Int) = bufSize)
    (hfit : (c.tlv mem).size ≤ post.length) :
    c.run mem (encodeMessage ts ++ post) bufSize =
      .ok ((messageSize (ts ++ [c.tlv mem]) : Int),
        encodeMessage (ts ++ [c.tlv mem]) ++ post.drop (c.tlv mem).size) := by
  rcases c.run_int mem (encodeMessage ts ++ post) bufSize with
    ⟨k, ht, hrun⟩ | ⟨ptr, n, hn, hptr, ht, hpay, hrun⟩
  · rw [hrun]
    exact addInt_fit ts (c.tlv mem) post bufSize hmsg hbuf ht hfit
  · rw [hrun]
    exact addBlob_fit ts (c.tlv mem) post bufSize hmsg hbuf mem ptr n hn hptr ht hpay hfit

end AddCall

-- ============================================================================
-- Sequences of calls
-- ============================================================================

/-- The TLVs of a list of calls. -/
def callTlvs (mem : Mem) (cs : List AddCall) : List Tlv := cs.map (AddCall.tlv mem)

theorem messageSize_callTlvs (mem : Mem) (cs : List AddCall) :
    messageSize (callTlvs mem cs) = builtLength cs := by
  simp only [messageSize, builtLength, callTlvs, List.map_map]
  congr 2
  exact List.map_congr_left (fun c _ => c.tlv_size mem)

theorem callTlvs_validParams (mem : Mem) (cs : List AddCall) :
    (cs.map AddCall.validParam).map (ValidParam.tlv mem) = callTlvs mem cs := by
  rw [List.map_map]
  rfl

theorem params_validParams (cs : List AddCall) :
    (cs.map AddCall.validParam).map ValidParam.param = cs.map AddCall.param := by
  rw [List.map_map]
  rfl

/-- What one call does to a buffer that holds the message of `done`. -/
theorem AddCall.run_cases (mem : Mem) (c : AddCall) (done : List AddCall) (post : List Byte)
    (bufSize : Int) (hbuf : (builtLength done + post.length : Int) = bufSize)
    (hdone : builtLength done < 2 ^ 16) :
    (bufSize < builtLength done + (typeSize + c.size : Nat) ∧
      c.run mem (encodeMessage (callTlvs mem done) ++ post) bufSize =
        .ok (errBufferOverflow, encodeMessage (callTlvs mem done) ++ post)) ∨
    (typeSize + c.size ≤ post.length ∧
      c.run mem (encodeMessage (callTlvs mem done) ++ post) bufSize =
        .ok ((builtLength (done ++ [c]) : Int),
          encodeMessage (callTlvs mem (done ++ [c])) ++ post.drop (typeSize + c.size))) := by
  have hsize := messageSize_callTlvs mem done
  have htlv := c.tlv_size mem
  have hmsg : messageSize (callTlvs mem done) < 2 ^ 16 := by omega
  have hcalls : callTlvs mem (done ++ [c]) = callTlvs mem done ++ [c.tlv mem] := by
    simp [callTlvs]
  by_cases hfit : typeSize + c.size ≤ post.length
  · right
    refine ⟨hfit, ?_⟩
    rw [AddCall.run_fit mem c (callTlvs mem done) post bufSize hmsg (by omega)
      (by rw [htlv]; exact hfit), ← messageSize_callTlvs mem (done ++ [c]), hcalls, htlv]
  · left
    refine ⟨by omega, ?_⟩
    exact AddCall.run_overflow mem c (callTlvs mem done) post bufSize hmsg (by omega)
      (by rw [htlv]; omega)

/-- The buffer stays the message of the calls that succeeded. -/
theorem addAll_spec (mem : Mem) (bufSize : Int) (hsmall : bufSize < 2 ^ 16) (cs done : List AddCall)
    (post : List Byte) (hbuf : (builtLength done + post.length : Int) = bufSize) :
    ∃ succeeded dropped, addAll mem bufSize cs (encodeMessage (callTlvs mem done) ++ post) =
        .ok (succeeded, encodeMessage (callTlvs mem (done ++ succeeded)) ++ post.drop dropped) ∧
      dropped ≤ post.length ∧ builtLength (done ++ succeeded) = builtLength done + dropped := by
  induction cs generalizing done post with
  | nil => exact ⟨[], 0, by simp [addAll], Nat.zero_le _, by simp⟩
  | cons c cs ih =>
      have happend : builtLength (done ++ [c]) = builtLength done + (typeSize + c.size) := by
        simp [builtLength, Nat.add_assoc]
      rcases c.run_cases mem done post bufSize hbuf (by omega) with ⟨_, hrun⟩ | ⟨hfit, hrun⟩
      · obtain ⟨succeeded, dropped, hall, hle, hlen⟩ := ih done post hbuf
        refine ⟨succeeded, dropped, ?_, hle, hlen⟩
        simp only [addAll, hrun, hall, bind, Except.bind, pure, Except.pure]
        rfl
      · have hdrop : (post.drop (typeSize + c.size)).length = post.length - (typeSize + c.size) :=
          List.length_drop
        obtain ⟨succeeded, dropped, hall, hle, hlen⟩ :=
          ih (done ++ [c]) (post.drop (typeSize + c.size)) (by rw [happend, hdrop]; omega)
        have hret : ¬ ((builtLength (done ++ [c]) : Int) < 0) := by omega
        refine ⟨c :: succeeded, typeSize + c.size + dropped, ?_, by omega, ?_⟩
        · simp only [addAll, hrun, hall, bind, Except.bind, pure, Except.pure]
          rw [if_neg hret, List.drop_drop, List.append_assoc]
          rfl
        · rw [List.append_assoc] at hlen
          have hcons : done ++ c :: succeeded = done ++ ([c] ++ succeeded) := rfl
          rw [hcons, hlen, happend]
          omega

/-- The buffer after `af_rpc_init_buffer` and a sequence of calls: the message of
    the calls that succeeded and, behind it, the bytes from before. -/
theorem buildIncrementally_eq (mem : Mem) (buf : List Byte) (cs : List AddCall)
    (hmin : 2 ≤ buf.length) (hmax : buf.length ≤ 65535) :
    ∃ succeeded, buildIncrementally mem buf buf.length cs =
        .ok (succeeded, encodeMessage (callTlvs mem succeeded) ++ buf.drop (builtLength succeeded)) ∧
      builtLength succeeded ≤ buf.length := by
  have hdrop : (buf.drop 2).length = buf.length - 2 := List.length_drop
  have hnil : builtLength [] = 2 := rfl
  obtain ⟨succeeded, dropped, hall, hle, hlen⟩ := addAll_spec mem buf.length (by omega) cs []
    (buf.drop 2) (by rw [hnil, hdrop]; omega)
  rw [List.nil_append, hnil] at hlen
  refine ⟨succeeded, ?_, by omega⟩
  simp only [buildIncrementally, init_eq buf hmin (by omega), bind, Except.bind]
  have hcalls : callTlvs mem [] = [] := rfl
  rw [hcalls] at hall
  rw [hall, List.nil_append, List.drop_drop, ← hlen]

/-- The batch builder on the parameters of calls whose message fits. -/
theorem create_calls (mem : Mem) (out : List Byte) (cs : List AddCall)
    (hfit : builtLength cs ≤ out.length) (hmax : out.length ≤ 65535) :
    afRpcCreateBufferWithParams mem out out.length (cs.map AddCall.param) =
      .ok ((builtLength cs : Int),
        encodeMessage (callTlvs mem cs) ++ out.drop (builtLength cs)) := by
  have hsize := messageSize_callTlvs mem cs
  rw [← callTlvs_validParams] at hsize
  have h := create_eq_encodeMessage mem (cs.map AddCall.validParam) out (by omega) (by omega)
  rw [hsize, params_validParams, callTlvs_validParams] at h
  exact h

/-- **The incremental builders refine the batch builder.**  After
    `af_rpc_init_buffer` and any calls on a buffer of 2 to 65535 bytes:

    * the next call, whatever it is, returns the overflow error and changes no
      byte if it does not fit, and returns the new length if it fits;
    * the message is, byte for byte, what `af_rpc_create_buffer_with_params`
      makes in any buffer of that size of the calls that succeeded, its prefix
      is its length, and the bytes behind it are those from before;
    * if every call succeeded the batch builder succeeds on all of them, and up
      to the first call that overflows it overflows too. -/
theorem incremental_refines_batch (mem : Mem) (buf : List Byte) (cs : List AddCall)
    (hmin : 2 ≤ buf.length) (hmax : buf.length ≤ 65535) :
    ∃ succeeded built, buildIncrementally mem buf buf.length cs = .ok (succeeded, built) ∧
      built.length = buf.length ∧
      (∀ c : AddCall,
        (buf.length < builtLength succeeded + (typeSize + c.size) →
          c.run mem built buf.length = .ok (errBufferOverflow, built)) ∧
        (builtLength succeeded + (typeSize + c.size) ≤ buf.length →
          ∃ built', c.run mem built buf.length =
            .ok ((builtLength succeeded + (typeSize + c.size) : Nat), built'))) ∧
      (∀ out, out.length = buf.length → ∃ created,
        afRpcCreateBufferWithParams mem out buf.length (succeeded.map AddCall.param) =
          .ok ((builtLength succeeded : Int), created) ∧
        built.take (builtLength succeeded) = created.take (builtLength succeeded)) ∧
      (∃ len, getlen built 0 = .ok len ∧ len.toNat = builtLength succeeded) ∧
      built.drop (builtLength succeeded) = buf.drop (builtLength succeeded) ∧
      (succeeded = cs → ∀ out, out.length = buf.length → ∃ created,
        afRpcCreateBufferWithParams mem out buf.length (cs.map AddCall.param) =
          .ok ((builtLength cs : Int), created)) ∧
      (∀ before c after built₁, cs = before ++ c :: after →
        buildIncrementally mem buf buf.length before = .ok (before, built₁) →
        c.run mem built₁ buf.length = .ok (errBufferOverflow, built₁) →
        ∀ out, out.length = buf.length → ∃ created,
          afRpcCreateBufferWithParams mem out buf.length ((before ++ [c]).map AddCall.param) =
            .ok (errBufferOverflow, created)) := by
  obtain ⟨succeeded, hbuild, hle⟩ := buildIncrementally_eq mem buf cs hmin hmax
  have hmsg : (encodeMessage (callTlvs mem succeeded)).length = builtLength succeeded := by
    rw [encodeMessage_length, messageSize_callTlvs]
  have hdrop : (buf.drop (builtLength succeeded)).length = buf.length - builtLength succeeded :=
    List.length_drop
  refine ⟨succeeded, _, hbuild, ?_, ?_, ?_, ?_, ?_, ?_, ?_⟩
  · rw [List.length_append, hmsg, hdrop]
    omega
  · intro c
    rcases c.run_cases mem succeeded (buf.drop (builtLength succeeded)) buf.length
      (by rw [hdrop]; omega) (by omega) with ⟨hover, hrun⟩ | ⟨hfit, hrun⟩
    · exact ⟨fun _ => hrun, fun h => absurd h (by omega)⟩
    · rw [hdrop] at hfit
      have happend : builtLength (succeeded ++ [c])
          = builtLength succeeded + (typeSize + c.size) := by
        simp [builtLength, Nat.add_assoc]
      rw [happend] at hrun
      exact ⟨fun h => absurd h (by omega), fun _ => ⟨_, hrun⟩⟩
  · intro out hout
    have hcreate := create_calls mem out succeeded (by omega) (by omega)
    rw [hout] at hcreate
    refine ⟨_, hcreate, ?_⟩
    rw [← hmsg, List.take_left, List.take_left]
  · have hsmall : messageSize (callTlvs mem succeeded) < 2 ^ 16 := by
      rw [messageSize_callTlvs]
      omega
    refine ⟨_, getlen_encodeMessage _ _ hsmall, ?_⟩
    rw [toNat_ofNat_length hsmall, messageSize_callTlvs]
  · conv_lhs => rw [← hmsg]
    rw [List.drop_left, hmsg]
  · rintro rfl out hout
    have hcreate := create_calls mem out succeeded (by omega) (by omega)
    rw [hout] at hcreate
    exact ⟨_, hcreate⟩
  · intro before c after built₁ _ hbefore hover out hout
    obtain ⟨succeeded₁, hbuild₁, hle₁⟩ := buildIncrementally_eq mem buf before hmin hmax
    rw [hbefore, Except.ok.injEq, Prod.mk.injEq] at hbuild₁
    obtain ⟨rfl, rfl⟩ := hbuild₁
    have hdrop₁ : (buf.drop (builtLength before)).length = buf.length - builtLength before :=
      List.length_drop
    rcases c.run_cases mem before (buf.drop (builtLength before)) buf.length
      (by rw [hdrop₁]; omega) (by omega) with ⟨hlt, _⟩ | ⟨_, hrun⟩
    · have hsize := messageSize_callTlvs mem before
      rw [← callTlvs_validParams] at hsize
      have htlv : (c.validParam.tlv mem).size = typeSize + c.size := c.tlv_size mem
      obtain ⟨created, hcreate⟩ := create_overflow mem (before.map AddCall.validParam)
        c.validParam [] out (by omega) (by omega)
      rw [hout, params_validParams, AddCall.param_validParam] at hcreate
      exact ⟨created, by rw [List.map_append]; exact hcreate⟩
    · -- a call that fits does not return the error
      rw [hrun, Except.ok.injEq, Prod.mk.injEq, errBufferOverflow] at hover
      omega

/-- A one-byte and a four-byte integer in eight bytes: the second does not fit. -/
theorem incremental_refines_batch_eight :
    ∃ succeeded built, buildIncrementally (fun _ => 0) (List.replicate 8 0) 8
        [.uint8 7, .int32 5, .int8 1] = .ok (succeeded, built) ∧
      built.length = 8 ∧ built.drop (builtLength succeeded) = [] := by
  obtain ⟨succeeded, built, hbuild, hlen, _, _, _, htail, _⟩ :=
    incremental_refines_batch (fun _ => 0) (List.replicate 8 0) [.uint8 7, .int32 5, .int8 1]
      (by decide) (by decide)
  have hrun : buildIncrementally (fun _ => 0) (List.replicate 8 0) 8
      [.uint8 7, .int32 5, .int8 1] = .ok ([.uint8 7, .int8 1], [0, 8, 0x90, 0, 7, 0xD0, 0, 1]) := by
    rfl
  have heq : succeeded = [.uint8 7, .int8 1] := by
    have h := hbuild.symm.trans hrun
    simp only [Except.ok.injEq, Prod.mk.injEq] at h
    exact h.1
  refine ⟨succeeded, built, hbuild, hlen, ?_⟩
  rw [htail, heq]
  rfl

end AfIpc.Rpc
