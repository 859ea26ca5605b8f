/-
  AfIpc.Rpc.BuilderSpec

  The builders against the grammar.  Both keep one invariant: the buffer is the
  message of the TLVs added so far, followed by what was there before.  The
  batch loop has written all of it but the length prefix (`createBufferLoop`
  keeps the position in a local); an incremental call starts and ends with the
  prefix in place.

  For each builder there is one lemma for a parameter that fits and one for a
  parameter that does not; everything later is assembled from those.
-/

import AfIpc.Rpc.Grammar

namespace AfIpc.Rpc

open AfIpc.Lib

/-! ## Parameters the builder accepts -/

/-- A parameter of a valid type: one of the six integer types with any base, or a
    blob or string whose base is not NULL unless it is empty. -/
structure ValidParam where
  param : AfRpcParam
  valid : (∃ k : IntKind, param.type.setWidth 16 = k.type) ∨
    (typeIsBlob (param.type.setWidth 16) = true ∧
      (blobSize (param.type.setWidth 16) ≠ 0 → param.base ≠ 0))

namespace ValidParam

/-- The 16-bit type that is stored. -/
def type (p : ValidParam) : BitVec 16 := p.param.type.setWidth 16

/-- The bytes that are stored: the low bytes of the base, or those it points to. -/
def payload (mem : Mem) (p : ValidParam) : List Byte :=
  match IntKind.ofType p.type with
  | some k => toBe k.width p.param.base.toNat
  | none => readMem mem p.param.base (blobSize p.type).toNat

theorem payload_wf (mem : Mem) (p : ValidParam) :
    payloadSize p.type = some (p.payload mem).length := by
  rcases p.valid with ⟨k, hk⟩ | ⟨hb, _⟩
  · have htype : p.type = k.type := hk
    simp [payload, htype, IntKind.ofType_type, payloadSize_type]
  · have htype : typeIsBlob p.type = true := hb
    simp [payload, ofType_of_isBlob htype, payloadSize_of_isBlob htype, blobSize]

/-- The TLV of a parameter. -/
def tlv (mem : Mem) (p : ValidParam) : Tlv := ⟨p.type, p.payload mem, p.payload_wf mem⟩

theorem tlv_type (mem : Mem) (p : ValidParam) : (p.tlv mem).type = p.param.type.setWidth 16 := rfl

theorem payload_int {mem : Mem} {p : ValidParam} {k : IntKind} (h : p.type = k.type) :
    p.payload mem = toBe k.width p.param.base.toNat := by
  simp [payload, h, IntKind.ofType_type]

theorem payload_blob {mem : Mem} {p : ValidParam} (h : typeIsBlob p.type = true) :
    p.payload mem = readMem mem p.param.base (blobSize p.type).toNat := by
  simp [payload, ofType_of_isBlob h]

end ValidParam

theorem storedInt_type (k : IntKind) (base : Word) :
    storedInt k.type base = some (toBe k.width base.toNat) := by
  have h1 : toBe 1 (base.setWidth 8).toNat = toBe 1 base.toNat := by
    rw [BitVec.toNat_setWidth]
    exact toBe_mod 1 base.toNat
  have h2 : toBe 2 (base.setWidth 16).toNat = toBe 2 base.toNat := by
    rw [BitVec.toNat_setWidth]
    exact toBe_mod 2 base.toNat
  have h4 : toBe 4 (base.setWidth 32).toNat = toBe 4 base.toNat := by
    rw [BitVec.toNat_setWidth]
    exact toBe_mod 4 base.toNat
  cases k with
  | uint8 => exact congrArg some h1
  | uint16 => exact congrArg some h2
  | uint32 => exact congrArg some h4
  | int8 => exact congrArg some h1
  | int16 => exact congrArg some h2
  | int32 => exact congrArg some h4

theorem storedInt_eq_some {type : BitVec 16} {base : Word} {value : List Byte}
    (h : storedInt type base = some value) : ∃ k : IntKind, type = k.type := by
  unfold storedInt at h
  split_ifs at h with h1 h2 h3
  · rcases h1 with h1 | h1
    · exact ⟨.int8, h1⟩
    · exact ⟨.uint8, h1⟩
  · rcases h2 with h2 | h2
    · exact ⟨.int16, h2⟩
    · exact ⟨.uint16, h2⟩
  · rcases h3 with h3 | h3
    · exact ⟨.int32, h3⟩
    · exact ⟨.uint32, h3⟩

/-- The bytes stored for an integer are as many as its type says. -/
theorem storedInt_length {type : BitVec 16} {base : Word} {value : List Byte}
    (h : storedInt type base = some value) : (value.length : Int) = afRpcGetSizeOfType type := by
  obtain ⟨k, rfl⟩ := storedInt_eq_some h
  rw [storedInt_type] at h
  obtain rfl := Option.some.inj h
  rw [toBe_length, sizeOfType_type]

/-! ## Writing one TLV -/

/-- A type and a payload stored one after the other. -/
theorem store_tlv (t : Tlv) (pre post : List Byte) (h : t.size ≤ post.length) :
    ∃ buf, setlen (pre ++ post) pre.length t.type = .ok buf ∧
      store buf (pre.length + 2) t.payload = .ok ((pre ++ t.encode) ++ post.drop t.size) := by
  have hsize : t.size = 2 + t.payload.length := rfl
  have h2 : 2 ≤ post.length := by omega
  have hlen : (pre ++ toBe 2 t.type.toNat).length = pre.length + 2 := by
    rw [List.length_append, toBe_length]
  have hpay : t.payload.length ≤ (post.drop 2).length := by
    rw [List.length_drop]
    omega
  have hs := store_append (pre ++ toBe 2 t.type.toNat) (post.drop 2) t.payload hpay
  rw [hlen] at hs
  refine ⟨_, setlen_append pre post t.type h2, ?_⟩
  rw [← List.append_assoc, hs, List.drop_drop, ← hsize]
  simp [Tlv.encode, List.append_assoc]

/-! ## The batch builder -/

section Create

variable (mem : Mem) (p : ValidParam) (params : List AfRpcParam) (pre post : List Byte)
  (bufSize : Int)

theorem sizeOfType_param : afRpcGetSizeOfType p.type = (p.payload mem).length :=
  sizeOfType_of_payloadSize (p.payload_wf mem)

theorem payload_length_le : (p.payload mem).length ≤ 16383 :=
  payloadSize_le (p.payload_wf mem)

/-- A parameter that does not fit ends the loop before anything is written. -/
theorem createBufferLoop_overflow
    (h : (pre.length + (p.tlv mem).size : Int) > bufSize) (buf : List Byte) :
    createBufferLoop mem bufSize (p.param :: params) pre.length buf =
      .ok (errBufferOverflow, buf) := by
  have hsize := sizeOfType_param mem p
  have hle := payload_length_le mem p
  have htlv : (p.tlv mem).size = 2 + (p.payload mem).length := rfl
  rw [ValidParam.type] at hsize
  have hok : ¬ ((afRpcGetSizeOfType (p.param.type.setWidth 16) < 0) ∨
      afRpcGetSizeOfType (p.param.type.setWidth 16) > maxBlobSize) := by
    rw [hsize, maxBlobSize]
    omega
  have hover : (pre.length + typeSize + afRpcGetSizeOfType (p.param.type.setWidth 16) : Int)
      > bufSize := by
    rw [hsize, typeSize]
    omega
  simp only [createBufferLoop]
  rw [if_neg hok, if_pos hover]
  rfl

/-- A parameter that fits is appended to what has been written. -/
theorem createBufferLoop_fit (hbuf : (pre.length + post.length : Int) = bufSize)
    (h : (p.tlv mem).size ≤ post.length) :
    createBufferLoop mem bufSize (p.param :: params) pre.length (pre ++ post) =
      createBufferLoop mem bufSize params (pre ++ (p.tlv mem).encode).length
        ((pre ++ (p.tlv mem).encode) ++ post.drop (p.tlv mem).size) := by
  have hsize := sizeOfType_param mem p
  have hle := payload_length_le mem p
  have htlv : (p.tlv mem).size = 2 + (p.payload mem).length := rfl
  obtain ⟨buf, hset, hstore⟩ := store_tlv (p.tlv mem) pre post h
  have hlen : (pre ++ (p.tlv mem).encode).length = pre.length + 2 + (p.payload mem).length := by
    rw [List.length_append, Tlv.encode_length, htlv, Nat.add_assoc]
  have hok : ¬ ((afRpcGetSizeOfType (p.param.type.setWidth 16) < 0) ∨
      afRpcGetSizeOfType (p.param.type.setWidth 16) > maxBlobSize) := by
    rw [← ValidParam.type, hsize, maxBlobSize]
    omega
  have hfit : ¬ (pre.length + typeSize + afRpcGetSizeOfType (p.param.type.setWidth 16) : Int)
      > bufSize := by
    rw [← ValidParam.type, hsize, typeSize]
    omega
  simp only [createBufferLoop]
  rw [if_neg hok, if_neg hfit]
  rcases p.valid with ⟨k, hk⟩ | ⟨hb, hbase⟩
  · -- an integer: the mask test passes and the `switch` finds the kind
    have hint : typeIsInteger (p.param.type.setWidth 16) = true := by rw [hk]; exact isInteger_type k
    have hmask : ¬ (BitVec.setWidth 16 p.param.type &&& typeIntegerTypeMask
        ≠ BitVec.setWidth 16 p.param.type) := by
      rw [hk, mask_type]
      exact fun hne => hne rfl
    have hpay : (p.tlv mem).payload = toBe k.width p.param.base.toNat :=
      ValidParam.payload_int hk
    rw [if_pos hint, if_neg hmask]
    rw [ValidParam.tlv_type, hk] at hset
    rw [hpay] at hstore
    rw [hk, storedInt_type]
    simp only [hset, hstore, bind, Except.bind, typeSize]
    rw [hlen, ← hpay]
    rfl
  · -- a blob: its bytes are copied unless there are none
    have hint : ¬ typeIsInteger (p.param.type.setWidth 16) = true :=
      fun h => isInteger_iff.mp h hb
    have hpay : (p.tlv mem).payload = readMem mem p.param.base (p.payload mem).length := by
      have hlen' := p.payload_wf mem
      rw [payloadSize_of_isBlob (t := p.type) hb, Option.some.injEq] at hlen'
      show p.payload mem = _
      rw [← hlen']
      exact ValidParam.payload_blob hb
    rw [if_neg hint]
    rw [ValidParam.type] at hsize
    rw [hsize, Int.toNat_natCast]
    rw [ValidParam.tlv_type] at hset
    rw [hpay] at hstore
    simp only [hset, bind, Except.bind, typeSize]
    by_cases hpos : ((p.payload mem).length : Int) > 0
    · have hnz : p.param.base ≠ 0 := by
        apply hbase
        intro hzero
        have hlen' := p.payload_wf mem
        rw [payloadSize_of_isBlob (t := p.type) hb, Option.some.injEq] at hlen'
        have : (p.payload mem).length = 0 := by
          rw [← hlen']
          exact congrArg BitVec.toNat hzero
        omega
      rw [if_pos hpos, if_neg hnz, hlen]
      simp only [hstore]
    · have hzero : (p.payload mem).length = 0 := by omega
      rw [if_neg hpos, hlen]
      -- storing no bytes changes nothing
      rw [hzero] at hstore ⊢
      have hnil : store buf (pre.length + 2) (readMem mem p.param.base 0) = .ok buf := by
        unfold store at hstore ⊢
        split_ifs at hstore ⊢
        simp [readMem]
      rw [hnil, Except.ok.injEq] at hstore
      rw [hstore]

end Create

/-- The bytes the TLVs of a parameter list take. -/
def tlvsSize (mem : Mem) (ps : List ValidParam) : Nat :=
  ((ps.map (ValidParam.tlv mem)).map Tlv.size).sum

/-- The bytes of the TLVs of a parameter list. -/
def tlvsBytes (mem : Mem) (ps : List ValidParam) : List Byte :=
  (ps.map (ValidParam.tlv mem)).flatMap Tlv.encode

@[simp] theorem tlvsBytes_length (mem : Mem) (ps : List ValidParam) :
    (tlvsBytes mem ps).length = tlvsSize mem ps :=
  flatMap_encode_length _

/-- The loop writes the parameters that fit one after the other. -/
theorem createBufferLoop_append (mem : Mem) (bufSize : Int) (ps : List ValidParam)
    (rest : List AfRpcParam) (pre post : List Byte)
    (hbuf : (pre.length + post.length : Int) = bufSize) (hfit : tlvsSize mem ps ≤ post.length) :
    createBufferLoop mem bufSize (ps.map ValidParam.param ++ rest) pre.length (pre ++ post) =
      createBufferLoop mem bufSize rest (pre ++ tlvsBytes mem ps).length
        ((pre ++ tlvsBytes mem ps) ++ post.drop (tlvsSize mem ps)) := by
  induction ps generalizing pre post with
  | nil => simp [tlvsSize, tlvsBytes]
  | cons p ps ih =>
      have hcons : tlvsSize mem (p :: ps) = (p.tlv mem).size + tlvsSize mem ps := by
        simp [tlvsSize]
      have hbytes : tlvsBytes mem (p :: ps) = (p.tlv mem).encode ++ tlvsBytes mem ps := by
        simp [tlvsBytes]
      have hp : (p.tlv mem).size ≤ post.length := by omega
      have hstep := createBufferLoop_fit mem p (ps.map ValidParam.param ++ rest) pre post bufSize
        hbuf hp
      have hdrop : (post.drop (p.tlv mem).size).length = post.length - (p.tlv mem).size :=
        List.length_drop
      have hpre : (pre ++ (p.tlv mem).encode).length = pre.length + (p.tlv mem).size := by
        rw [List.length_append, Tlv.encode_length]
      rw [List.map_cons, List.cons_append, hstep,
        ih (pre ++ (p.tlv mem).encode) (post.drop (p.tlv mem).size)
          (by rw [hpre, hdrop]; omega) (by rw [hdrop]; omega)]
      rw [hbytes, hcons, List.drop_drop, List.append_assoc pre]

/-- **The batch builder encodes.**  Parameters whose message fits the buffer and
    the prefix give that message, with the bytes behind it untouched. -/
theorem create_eq_encodeMessage (mem : Mem) (ps : List ValidParam) (buf : List Byte)
    (hfit : messageSize (ps.map (ValidParam.tlv mem)) ≤ buf.length)
    (hpfx : messageSize (ps.map (ValidParam.tlv mem)) < 2 ^ 16) :
    afRpcCreateBufferWithParams mem buf buf.length (ps.map ValidParam.param) =
      .ok ((messageSize (ps.map (ValidParam.tlv mem)) : Int),
        encodeMessage (ps.map (ValidParam.tlv mem))
          ++ buf.drop (messageSize (ps.map (ValidParam.tlv mem)))) := by
  have hmsg : messageSize (ps.map (ValidParam.tlv mem)) = 2 + tlvsSize mem ps := rfl
  have htake : (buf.take 2).length = 2 := by rw [List.length_take]; omega
  have hsplit : buf = buf.take 2 ++ buf.drop 2 := (List.take_append_drop 2 buf).symm
  have hdrop : (buf.drop 2).length = buf.length - 2 := List.length_drop
  have hloop := createBufferLoop_append mem buf.length ps [] (buf.take 2) (buf.drop 2)
    (by rw [htake, hdrop]; omega) (by rw [hdrop]; omega)
  rw [List.append_nil, htake, ← hsplit] at hloop
  have hpos : ¬ ((buf.length : Int) ≤ 0) := by omega
  have hlen : ¬ ((buf.length : Int) < lengthSize) := by rw [lengthSize]; omega
  simp only [afRpcCreateBufferWithParams]
  rw [if_neg hpos, if_neg hlen]
  show createBufferLoop mem buf.length (ps.map ValidParam.param) 2 buf = _
  rw [hloop, createBufferLoop, List.length_append, htake, tlvsBytes_length, ← hmsg,
    List.append_assoc, setlen_zero (buf.take 2) _ _ htake, toNat_ofNat_length hpfx,
    List.drop_drop, ← hmsg]
  simp [bind, Except.bind, pure, Except.pure, encodeMessage, tlvsBytes]

/-- The batch builder reports the first parameter that does not fit. -/
theorem create_overflow (mem : Mem) (ps : List ValidParam) (p : ValidParam)
    (rest : List AfRpcParam) (buf : List Byte)
    (hfit : messageSize (ps.map (ValidParam.tlv mem)) ≤ buf.length)
    (hover : buf.length < messageSize (ps.map (ValidParam.tlv mem)) + (p.tlv mem).size) :
    ∃ buf', afRpcCreateBufferWithParams mem buf buf.length
      (ps.map ValidParam.param ++ p.param :: rest) = .ok (errBufferOverflow, buf') := by
  have hmsg : messageSize (ps.map (ValidParam.tlv mem)) = 2 + tlvsSize mem ps := rfl
  have htake : (buf.take 2).length = 2 := by rw [List.length_take]; omega
  have hsplit : buf = buf.take 2 ++ buf.drop 2 := (List.take_append_drop 2 buf).symm
  have hdrop : (buf.drop 2).length = buf.length - 2 := List.length_drop
  have hloop := createBufferLoop_append mem buf.length ps (p.param :: rest) (buf.take 2)
    (buf.drop 2) (by rw [htake, hdrop]; omega) (by rw [hdrop]; omega)
  rw [htake, ← hsplit] at hloop
  have hpos : ¬ ((buf.length : Int) ≤ 0) := by omega
  have hlen : ¬ ((buf.length : Int) < lengthSize) := by rw [lengthSize]; omega
  have hpre : (buf.take 2 ++ tlvsBytes mem ps).length = 2 + tlvsSize mem ps := by
    rw [List.length_append, htake, tlvsBytes_length]
  simp only [afRpcCreateBufferWithParams]
  rw [if_neg hpos, if_neg hlen]
  show ∃ buf', createBufferLoop mem buf.length (ps.map ValidParam.param ++ p.param :: rest) 2 buf
    = _
  rw [hloop, createBufferLoop_overflow mem p rest _ buf.length (by rw [hpre]; omega)]
  exact ⟨_, rfl⟩

/-! ## The incremental builders -/

theorem init_eq (buf : List Byte) (h : 2 ≤ buf.length) (hlt : (buf.length : Int) < 2 ^ 64) :
    afRpcInitBuffer buf buf.length = .ok (2, encodeMessage [] ++ buf.drop 2) := by
  have htake : (buf.take 2).length = 2 := by rw [List.length_take]; omega
  have hsize : ¬ sizeT buf.length < lengthSize := by
    rw [sizeT_of_nonneg (by omega) hlt, lengthSize]
    omega
  have hset := setlen_zero (buf.take 2) (buf.drop 2) (BitVec.ofNat 16 lengthSize) htake
  rw [List.take_append_drop] at hset
  simp only [afRpcInitBuffer]
  rw [if_neg hsize]
  simp only [hset, bind, Except.bind, pure, Except.pure]
  rfl

/-- The argument test of the blob builder passes. -/
theorem blob_param_ok (bufSize : Int) (blob : Word) (n : Nat) (hbuf : 0 < bufSize)
    (hn : n ≤ 16383) (hnull : n ≠ 0 → blob ≠ 0) :
    ¬ (bufSize ≤ 0 ∨ (n : Int) < 0 ∨ (blob = 0 ∧ (n : Int) > 0) ∨ (n : Int) > maxBlobSize) := by
  rw [maxBlobSize]
  rintro (h | h | ⟨hz, h⟩ | h)
  · omega
  · omega
  · exact hnull (by omega) hz
  · omega

section Add

variable (ts : List Tlv) (t : Tlv) (post : List Byte) (bufSize : Int)

/-- The prefix of a buffer that starts with a message. -/
theorem getlen_encodeMessage (h : messageSize ts < 2 ^ 16) :
    getlen (encodeMessage ts ++ post) 0 = .ok (BitVec.ofNat 16 (messageSize ts)) := by
  have hg := getlen_zero (ts.flatMap Tlv.encode ++ post) (BitVec.ofNat 16 (messageSize ts))
  rw [toNat_ofNat_length h] at hg
  rw [encodeMessage, List.append_assoc]
  exact hg

theorem encodeMessage_append_encode :
    (encodeMessage ts ++ t.encode).drop 2 = (encodeMessage (ts ++ [t])).drop 2 := by
  simp [encodeMessage, List.append_assoc]

theorem messageSize_append : messageSize (ts ++ [t]) = messageSize ts + t.size := by
  simp [messageSize, Nat.add_assoc]

/-- What an incremental builder does once its checks have passed: the TLV is
    stored behind the message and the prefix is moved past it, cut to 16 bits. -/
theorem add_tlv (h : t.size ≤ post.length) :
    ∃ buf buf', setlen (encodeMessage ts ++ post) (messageSize ts) t.type = .ok buf ∧
      store buf (messageSize ts + 2) t.payload = .ok buf' ∧
      setlen buf' 0 (BitVec.ofNat 16 (messageSize ts + t.size)) =
        .ok (encodeMessage (ts ++ [t]) ++ post.drop t.size) := by
  obtain ⟨buf, hset, hstore⟩ := store_tlv t (encodeMessage ts) post h
  rw [encodeMessage_length] at hset hstore
  refine ⟨buf, _, hset, hstore, ?_⟩
  have hsplit : encodeMessage ts ++ t.encode
      = toBe 2 (messageSize ts) ++ (encodeMessage (ts ++ [t])).drop 2 := by
    rw [← encodeMessage_append_encode]
    simp [encodeMessage]
  have hlen2 : (toBe 2 (messageSize ts)).length = 2 := toBe_length 2 _
  have hcut : toBe 2 (BitVec.ofNat 16 (messageSize ts + t.size)).toNat =
      toBe 2 (messageSize ts + t.size) := toBe_mod 2 _
  rw [hsplit, List.append_assoc, setlen_zero _ _ _ hlen2, hcut, ← List.append_assoc,
    ← messageSize_append]
  simp [encodeMessage]

variable (hmsg : messageSize ts < 2 ^ 16)
  (hbuf : (messageSize ts + post.length : Int) = bufSize)

include hmsg hbuf

/-- An integer builder on an integer that does not fit. -/
theorem addInt_overflow (k : IntKind) (hover : post.length < t.size) :
    addIntToBuffer k.type t.payload (encodeMessage ts ++ post) bufSize =
      .ok (errBufferOverflow, encodeMessage ts ++ post) := by
  have hsize : t.size = 2 + t.payload.length := rfl
  have hm2 : 2 ≤ messageSize ts := Nat.le_add_right _ _
  have hpos : ¬ bufSize ≤ 0 := by omega
  have hlen : ¬ bufSize < lengthSize := by rw [lengthSize]; omega
  have hfull : (messageSize ts + typeSize + t.payload.length : Int) > bufSize := by
    rw [typeSize]
    omega
  simp only [addIntToBuffer, getlen_encodeMessage ts post hmsg, bind, Except.bind,
    toNat_ofNat_length hmsg]
  rw [if_neg hpos, if_neg hlen, if_pos hfull]
  rfl

/-- An integer builder on an integer that fits. -/
theorem addInt_fit {k : IntKind} (ht : t.type = k.type) (hfit : t.size ≤ post.length) :
    addIntToBuffer k.type t.payload (encodeMessage ts ++ post) bufSize =
      .ok ((messageSize (ts ++ [t]) : Int), encodeMessage (ts ++ [t]) ++ post.drop t.size) := by
  have hsize : t.size = 2 + t.payload.length := rfl
  have hm2 : 2 ≤ messageSize ts := Nat.le_add_right _ _
  have hpos : ¬ bufSize ≤ 0 := by omega
  have hlen : ¬ bufSize < lengthSize := by rw [lengthSize]; omega
  have hroom : ¬ (messageSize ts + typeSize + t.payload.length : Int) > bufSize := by
    rw [typeSize]
    omega
  have hend : messageSize ts + 2 + t.payload.length = messageSize ts + t.size := by omega
  obtain ⟨buf, buf', hset, hstore, hlast⟩ := add_tlv ts t post hfit
  rw [ht] at hset
  simp only [addIntToBuffer, getlen_encodeMessage ts post hmsg, bind, Except.bind,
    toNat_ofNat_length hmsg]
  rw [if_neg hpos, if_neg hlen, if_neg hroom]
  simp only [typeSize, hset, hstore, pure, Except.pure, hend, hlast]
  rw [messageSize_append]

/-- The blob builder on a blob that does not fit. -/
theorem addBlob_overflow (mem : Mem) (blob : Word) (n : Nat) (hn : n ≤ 16383)
    (hnull : n ≠ 0 → blob ≠ 0) (hover : post.length < 2 + n) :
    afRpcAddBlobToBuffer mem (encodeMessage ts ++ post) bufSize blob n =
      .ok (errBufferOverflow, encodeMessage ts ++ post) := by
  have hm2 : 2 ≤ messageSize ts := Nat.le_add_right _ _
  have hparam := blob_param_ok bufSize blob n (by omega) hn hnull
  have hlen : ¬ bufSize < lengthSize := by rw [lengthSize]; omega
  have hfull : (messageSize ts + typeSize + n : Int) > bufSize := by
    rw [typeSize]
    omega
  simp only [afRpcAddBlobToBuffer, getlen_encodeMessage ts post hmsg, bind, Except.bind,
    toNat_ofNat_length hmsg]
  rw [if_neg hparam, if_neg hlen, if_pos hfull]
  rfl

/-- The blob builder on a blob that fits. -/
theorem addBlob_fit (mem : Mem) (blob : Word) (n : Nat) (hn : n ≤ 16383)
    (hnull : n ≠ 0 → blob ≠ 0) (htype : t.type = typeBlob n)
    (hpay : t.payload = readMem mem blob n) (hfit : t.size ≤ post.length) :
    afRpcAddBlobToBuffer mem (encodeMessage ts ++ post) bufSize blob n =
      .ok ((messageSize (ts ++ [t]) : Int), encodeMessage (ts ++ [t]) ++ post.drop t.size) := by
  have hsize : t.size = 2 + n := by rw [Tlv.size, hpay, readMem_length]
  have hm2 : 2 ≤ messageSize ts := Nat.le_add_right _ _
  have hparam := blob_param_ok bufSize blob n (by omega) hn hnull
  have hlen : ¬ bufSize < lengthSize := by rw [lengthSize]; omega
  have hroom : ¬ (messageSize ts + typeSize + n : Int) > bufSize := by
    rw [typeSize]
    omega
  have hend : messageSize ts + 2 + n = messageSize ts + t.size := by omega
  obtain ⟨buf, buf', hset, hstore, hlast⟩ := add_tlv ts t post hfit
  rw [htype] at hset
  rw [hpay] at hstore
  simp only [afRpcAddBlobToBuffer, getlen_encodeMessage ts post hmsg, bind, Except.bind,
    toNat_ofNat_length hmsg]
  rw [if_neg hparam, if_neg hlen, if_neg hroom]
  simp only [typeSize, hset, Int.toNat_natCast, hend, pure, Except.pure]
  by_cases hz : (n : Int) ≠ 0
  · rw [if_pos hz]
    simp only [hstore, hlast]
    rw [messageSize_append]
  · -- an empty copy leaves the buffer as it is
    have hn0 : n = 0 := by omega
    have hsame : buf' = buf := by
      rw [hn0] at hstore
      unfold store at hstore
      split_ifs at hstore
      simpa [readMem] using hstore.symm
    rw [hsame] at hlast
    rw [if_neg hz]
    simp only [hlast]
    rw [messageSize_append]

end Add

/-! ## The batch builder on too many parameters -/

/-- Parameters whose message is larger than the buffer are refused. -/
theorem create_too_large (mem : Mem) (ps : List ValidParam) (buf : List Byte)
    (h2 : 2 ≤ buf.length) (hlarge : buf.length < messageSize (ps.map (ValidParam.tlv mem))) :
    ∃ buf', afRpcCreateBufferWithParams mem buf buf.length (ps.map ValidParam.param) =
      .ok (errBufferOverflow, buf') := by
  -- the first parameter that does not fit
  have hsplit : ∀ qs rest : List ValidParam, ps = qs ++ rest →
      messageSize (qs.map (ValidParam.tlv mem)) ≤ buf.length →
      ∃ qs' p rest', ps = qs' ++ p :: rest' ∧
        messageSize (qs'.map (ValidParam.tlv mem)) ≤ buf.length ∧
        buf.length < messageSize (qs'.map (ValidParam.tlv mem)) + (p.tlv mem).size := by
    intro qs rest hps hfit
    induction rest generalizing qs with
    | nil =>
        rw [List.append_nil] at hps
        subst hps
        omega
    | cons p rest ih =>
        have hsize := messageSize_append (qs.map (ValidParam.tlv mem)) (p.tlv mem)
        have hmap : (qs ++ [p]).map (ValidParam.tlv mem) =
            qs.map (ValidParam.tlv mem) ++ [p.tlv mem] := List.map_append
        rw [← hmap] at hsize
        by_cases hnext : messageSize ((qs ++ [p]).map (ValidParam.tlv mem)) ≤ buf.length
        · exact ih (qs ++ [p]) (by rw [hps, List.append_assoc]; rfl) hnext
        · exact ⟨qs, p, rest, hps, hfit, by omega⟩
  obtain ⟨qs, p, rest, rfl, hfit, hover⟩ := hsplit [] ps rfl h2
  obtain ⟨buf', hrun⟩ := create_overflow mem qs p (rest.map ValidParam.param) buf hfit hover
  rw [List.map_append, List.map_cons]
  exact ⟨buf', hrun⟩

end AfIpc.Rpc
