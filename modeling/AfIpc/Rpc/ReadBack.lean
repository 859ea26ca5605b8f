/-
  AfIpc.Rpc.ReadBack

  What has been added to a buffer is read back from it: the getters give the
  values of the `af_rpc_add_*_to_buffer` calls that succeeded, in their order, out
  of the buffer they were added to, whatever is behind the message and whatever the
  arguments of the other calls were.

  A TLV in a message that may be shorter than its buffer is read by its own getter
  (`getAt_tlv`), and no other getter stores anything there (`getAt_refused`).
-/

import AfIpc.Rpc.GetterWalk
import AfIpc.Rpc.Incremental
import AfIpc.Rpc.PrefixWidth

namespace AfIpc.Rpc

open AfIpc.Lib

-- ============================================================================
-- Reading by kind
-- ============================================================================

/-- The getter of an integer kind, or the one for blobs; `room` is `*blobSize`. -/
def getAt (kind : Option IntKind) (room : Int) (buf : List Byte) (bufSize pos : Int) :
    Except Trap (Int × Option Value) :=
  match kind with
  | some k => do
    let (ret, bits) ← getIntOfKind k buf bufSize pos
    return (ret, bits.map (Value.int k))
  | none => do
    let (ret, bytes) ← afRpcGetBlobWithLengthFromBufferAtPos room buf bufSize pos
    return (ret, bytes.map Value.blob)

/-- Read values of known kinds one behind the other: the values, and the last position,
    if every getter gives one. -/
def readAll (room : Int) (buf : List Byte) (bufSize : Int) :
    List (Option IntKind) → Int → Except Trap (Option (List Value × Int))
  | [], pos => .ok (some ([], pos))
  | kind :: kinds, pos => do
    match ← getAt kind room buf bufSize pos with
    | (_, none) => return none
    | (ret, some value) => do
      match ← readAll room buf bufSize kinds ret with
      | none => return none
      | some (values, last) => return some (value :: values, last)

namespace BuilderCall

/-- Make the calls in turn, keeping those that did not return an error. -/
def addAll (mem : Mem) (bufSize : Int) :
    List BuilderCall → List Byte → Except Trap (List BuilderCall × List Byte)
  | [], buf => .ok ([], buf)
  | c :: cs, buf => do
    let (ret, buf) ← c.run mem buf bufSize
    let (succeeded, buf) ← addAll mem bufSize cs buf
    return (if ret < 0 then succeeded else c :: succeeded, buf)

/-- `af_rpc_init_buffer` and then the calls. -/
def build (mem : Mem) (buf : List Byte) (bufSize : Int) (cs : List BuilderCall) :
    Except Trap (List BuilderCall × List Byte) := do
  let (_, buf) ← afRpcInitBuffer buf bufSize
  addAll mem bufSize cs buf

/-- The call, if its arguments are not refused. -/
def addCall : BuilderCall → Option AddCall
  | add c => some c
  | badBlob _ _ _ => none

/-- The blobs that are refused make no difference. -/
theorem addAll_eq (mem : Mem) (bufSize : Int) (cs : List BuilderCall) (buf : List Byte) :
    addAll mem bufSize cs buf = (Rpc.addAll mem bufSize (cs.filterMap addCall) buf).map
      (fun out => (out.1.map add, out.2)) := by
  induction cs generalizing buf with
  | nil => rfl
  | cons c cs ih =>
      cases c with
      | badBlob ptr size hbad =>
          have hskip : (badBlob ptr size hbad :: cs).filterMap addCall = cs.filterMap addCall := rfl
          have hneg : errBadParam < 0 := by decide
          simp only [addAll, run_badBlob, bind, Except.bind, hskip, ih]
          cases Rpc.addAll mem bufSize (cs.filterMap addCall) buf with
          | error e => rfl
          | ok out =>
              dsimp only [Except.map]
              rw [if_pos hneg]
              rfl
      | add c =>
          have htake : (add c :: cs).filterMap addCall = c :: cs.filterMap addCall := rfl
          simp only [addAll, Rpc.addAll, run, bind, Except.bind, htake, ih]
          cases c.run mem buf bufSize with
          | error e => rfl
          | ok out =>
              dsimp only
              cases Rpc.addAll mem bufSize (cs.filterMap addCall) out.2 with
              | error e => rfl
              | ok rest =>
                  dsimp only [Except.map]
                  split_ifs <;> rfl

theorem build_eq {mem : Mem} {bufSize : Int} {cs : List BuilderCall} {buf built : List Byte}
    {succeeded : List AddCall}
    (h : buildIncrementally mem buf bufSize (cs.filterMap addCall) = .ok (succeeded, built)) :
    build mem buf bufSize cs = .ok (succeeded.map add, built) := by
  simp only [buildIncrementally, build, bind, Except.bind] at h ⊢
  cases hinit : afRpcInitBuffer buf bufSize with
  | error e =>
      rw [hinit] at h
      cases h
  | ok out =>
      rw [hinit] at h
      dsimp only at h ⊢
      rw [addAll_eq, h]
      rfl

end BuilderCall

namespace AddCall

/-- What a call adds. -/
def kind : AddCall → Option IntKind
  | uint8 _ => some .uint8
  | uint16 _ => some .uint16
  | uint32 _ => some .uint32
  | int8 _ => some .int8
  | int16 _ => some .int16
  | int32 _ => some .int32
  | blob _ _ _ _ => none

/-- The value a call adds. -/
def value (mem : Mem) : AddCall → Value
  | uint8 v => .int .uint8 v
  | uint16 v => .int .uint16 v
  | uint32 v => .int .uint32 v
  | int8 v => .int .int8 v
  | int16 v => .int .int16 v
  | int32 v => .int .int32 v
  | blob ptr size _ _ => .blob (readMem mem ptr size)

end AddCall

-- ============================================================================
-- One TLV in a message
-- ============================================================================

/-- The size in the type of a blob. -/
theorem blobSize_toNat {t : Tlv} (h : typeIsBlob t.type = true) :
    (blobSize t.type).toNat = t.payload.length := by
  have hwf := t.wf
  rw [payloadSize_of_isBlob h, Option.some.injEq] at hwf
  exact hwf

section Tlv

variable {buf pre ys : List Byte} {t : Tlv} {pos : Int} (hbuf : buf = pre ++ (t.encode ++ ys))
  (hin : pre.length + t.size ≤ lengthPrefix buf) (hle : lengthPrefix buf ≤ buf.length)
  (hsmall : buf.length < 2 ^ 31) (hpre : 2 ≤ pre.length) (hpos : StandsAt pos pre.length)

include hin hle hsmall hpre in
/-- The checks on the buffer pass. -/
theorem message_checks : ¬ sizeT buf.length ≤ lengthSize ∧
    ∃ len : BitVec 16, getlen buf 0 = .ok len ∧ len.toNat = lengthPrefix buf := by
  have hsize : t.size = 2 + t.payload.length := rfl
  refine ⟨?_, getlen_lengthPrefix (by omega)⟩
  rw [sizeT_of_nonneg (by omega) (by omega), lengthSize]
  omega

include hbuf hin hle hsmall hpre hpos in
/-- An integer getter, up to the test of the type. -/
theorem getInt_found (type : BitVec 16) {width : Nat} (hwidth : width ≤ 4) :
    getIntFromBufferAtPos type width buf buf.length pos =
      if pre.length + 2 + width > lengthPrefix buf then .ok (errBadTlv, none)
      else if t.type ≠ type then .ok (errBadType, none)
      else do
        let bs ← loadAt buf ((pre.length : Int) + (typeSize : Nat)) width
        return ((pre.length : Int) + (typeSize : Nat) + width,
          some (BitVec.ofNat (8 * width) (ofBe bs))) := by
  obtain ⟨hsize, len, hlen, hprefix⟩ := message_checks hin hle hsmall hpre
  have hfound := getlenAt_tlv pre t ys
  rw [← hbuf] at hfound
  unfold StandsAt at hpos
  simp only [getIntFromBufferAtPos, hlen, hprefix, bind, Except.bind, hpos]
  rw [if_neg hsize, if_neg (by omega), if_neg (by omega), sizeT_of_nonneg (by omega)
    (by rw [typeSize]; omega)]
  have hsum : ((pre.length : Int) + (typeSize : Nat) + (width : Nat)).toNat =
      pre.length + 2 + width := by
    rw [typeSize]
    omega
  rw [hsum]
  simp only [hfound]
  rfl

include hbuf hin hle hsmall hpre hpos in
/-- The blob getter, up to the test of the type. -/
theorem getBlob_found {room : Int} (hroom : 0 < room) :
    afRpcGetBlobWithLengthFromBufferAtPos room buf buf.length pos =
      if ¬ typeIsBlob t.type then .ok (errBadType, none)
      else if pre.length + 2 + (blobSize t.type).toNat > lengthPrefix buf then
        .ok (errBadTlv, none)
      else if ((blobSize t.type).toNat : Int) > room then .ok (errBufferOverflow, none)
      else if (blobSize t.type).toNat ≠ 0 then do
        let bs ← loadAt buf ((pre.length : Int) + (typeSize : Nat)) (blobSize t.type).toNat
        return ((pre.length : Int) + (typeSize : Nat) + (blobSize t.type).toNat, some bs)
      else .ok ((pre.length : Int) + (typeSize : Nat) + (blobSize t.type).toNat, some []) := by
  obtain ⟨hsize, len, hlen, hprefix⟩ := message_checks hin hle hsmall hpre
  have hfound := getlenAt_tlv pre t ys
  rw [← hbuf] at hfound
  unfold StandsAt at hpos
  simp only [afRpcGetBlobWithLengthFromBufferAtPos, hlen, hprefix, bind, Except.bind, hpos]
  rw [if_neg (by omega), if_neg (by omega), if_neg (by omega)]
  simp only [hfound]
  have hover : (pre.length : Int) + (typeSize : Nat) + (blobSize t.type).toNat > lengthPrefix buf ↔
      pre.length + 2 + (blobSize t.type).toNat > lengthPrefix buf := by
    rw [typeSize]
    omega
  simp only [hover]
  rfl

include hbuf hin hle hsmall hpre hpos in
/-- **A TLV is read by its getter**, if there is room for it. -/
theorem getAt_tlv {room : Int} (hroom : IntKind.ofType t.type = none →
    0 < room ∧ (t.payload.length : Int) ≤ room) :
    getAt (IntKind.ofType t.type) room buf buf.length pos =
      .ok (((pre.length + t.size : Nat) : Int), some t.value) := by
  have hload := loadAt_tlv pre t ys
  rw [← hbuf] at hload
  have hsize : t.size = 2 + t.payload.length := rfl
  have hwf := t.wf
  have hnext : (pre.length : Int) + (typeSize : Nat) + (t.payload.length : Nat) =
      ((pre.length + t.size : Nat) : Int) := by
    rw [hsize, typeSize]
    omega
  cases hk : IntKind.ofType t.type with
  | some k =>
      have htype := IntKind.type_of_ofType hk
      rw [htype, payloadSize_type, Option.some.injEq] at hwf
      rw [← hwf] at hload hnext hsize
      have hle4 : k.width ≤ 4 := by cases k <;> decide
      have hint := getInt_found hbuf hin hle hsmall hpre hpos k.type hle4
      rw [if_neg (by omega), if_neg (not_not.mpr htype), hload] at hint
      simp only [getAt, getIntOfKind_eq, hint, bind, Except.bind, pure, Except.pure, Tlv.value, hk]
      rw [hnext]
      rfl
  | none =>
      have hb : typeIsBlob t.type = true := by
        rcases payloadSize_eq_some t.wf with ⟨k, hkind, _⟩ | ⟨hb, _⟩
        · rw [hkind, IntKind.ofType_type] at hk
          cases hk
        · exact hb
      obtain ⟨hpos', hfit⟩ := hroom hk
      have hwidth := blobSize_toNat hb
      have hblob := getBlob_found hbuf hin hle hsmall hpre hpos hpos'
      rw [if_neg (not_not.mpr hb), hwidth, if_neg (by omega), if_neg (by omega), hload] at hblob
      simp only [getAt, hblob, bind, Except.bind, pure, Except.pure, Tlv.value, hk]
      by_cases hz : t.payload.length ≠ 0
      · rw [if_pos hz, hnext]
        rfl
      · rw [if_neg hz, hnext, List.length_eq_zero_iff.mp (not_not.mp hz)]
        rfl

include hbuf hin hle hsmall hpre hpos in
/-- **No other getter reads it**, nor the blob getter without the room: an error is
    returned and nothing stored. -/
theorem getAt_refused {kind : Option IntKind} {room : Int}
    (hother : kind = IntKind.ofType t.type → kind = none ∧ room < t.payload.length) :
    ∃ ret, getAt kind room buf buf.length pos = .ok (ret, none) ∧ ret < 0 := by
  cases kind with
  | some k =>
      have hne : t.type ≠ k.type := by
        intro h
        rw [h, IntKind.ofType_type] at hother
        cases (hother rfl).1
      have hle4 : k.width ≤ 4 := by cases k <;> decide
      have hint := getInt_found hbuf hin hle hsmall hpre hpos k.type hle4
      rw [if_pos hne] at hint
      simp only [getAt, getIntOfKind_eq, hint, bind, Except.bind]
      split_ifs
      · exact ⟨errBadTlv, rfl, by decide⟩
      · exact ⟨errBadType, rfl, by decide⟩
  | none =>
      by_cases hroom : 0 < room
      · have hblob := getBlob_found hbuf hin hle hsmall hpre hpos hroom
        simp only [getAt, hblob, bind, Except.bind]
        by_cases hb : typeIsBlob t.type = true
        · have hshort := (hother (ofType_of_isBlob hb).symm).2
          rw [if_neg (not_not.mpr hb), blobSize_toNat hb,
            if_pos (show (t.payload.length : Int) > room by omega)]
          split_ifs
          · exact ⟨errBadTlv, rfl, by decide⟩
          · exact ⟨errBufferOverflow, rfl, by decide⟩
        · rw [if_pos hb]
          exact ⟨_, rfl, by decide⟩
      · simp only [getAt, afRpcGetBlobWithLengthFromBufferAtPos, bind, Except.bind]
        rw [if_pos (.inr (by omega))]
        exact ⟨_, rfl, by decide⟩

end Tlv

-- ============================================================================
-- What has been added
-- ============================================================================

/-- An integer parameter is stored as the bits of its value. -/
theorem tlv_value_int {mem : Mem} {c : AddCall} {k : IntKind} {value : Int}
    {v : BitVec (8 * k.width)} (hparam : c.param = setParamAs k.type value)
    (hv : (BitVec.ofInt 64 value).setWidth (8 * k.width) = v) :
    IntKind.ofType (c.tlv mem).type = some k ∧ (c.tlv mem).value = .int k v := by
  have htype : c.validParam.type = k.type := by
    show c.param.type.setWidth 16 = k.type
    rw [hparam, setParamAs_type]
  have hkind : IntKind.ofType (c.tlv mem).type = some k := by
    show IntKind.ofType c.validParam.type = some k
    rw [htype, IntKind.ofType_type]
  have hpayload : (c.tlv mem).payload = toBe k.width v.toNat := by
    show c.validParam.payload mem = _
    rw [ValidParam.payload_int htype, AddCall.param_validParam, hparam]
    exact toBe_of_setWidth hv
  refine ⟨hkind, ?_⟩
  have hlt : v.toNat < 256 ^ k.width := by
    have hpow : 2 ^ (8 * k.width) = 256 ^ k.width := by rw [Nat.pow_mul]
    rw [← hpow]
    exact v.isLt
  simp only [Tlv.value, hkind, hpayload]
  rw [ofBe_toBe_of_lt hlt, BitVec.ofNat_toNat, BitVec.setWidth_eq]

/-- The TLV of a call holds its value, for the getter of its kind. -/
theorem tlv_value (mem : Mem) (c : AddCall) :
    IntKind.ofType (c.tlv mem).type = c.kind ∧ (c.tlv mem).value = c.value mem := by
  cases c with
  | uint8 v => exact tlv_value_int rfl (setWidth_ofInt_toNat v (by decide))
  | uint16 v => exact tlv_value_int rfl (setWidth_ofInt_toNat v (by decide))
  | uint32 v => exact tlv_value_int rfl (setWidth_ofInt_toNat v (by decide))
  | int8 v => exact tlv_value_int rfl (setWidth_ofInt_toInt v (by decide))
  | int16 v => exact tlv_value_int rfl (setWidth_ofInt_toInt v (by decide))
  | int32 v => exact tlv_value_int rfl (setWidth_ofInt_toInt v (by decide))
  | blob ptr n hn hptr =>
      have htype : (AddCall.blob ptr n hn hptr).validParam.type = typeBlob n :=
        setParamAsBlob_type ptr n
      have hblob : typeIsBlob (AddCall.blob ptr n hn hptr).validParam.type = true := by
        rw [htype]
        exact typeBlob_isBlob n
      have hkind : IntKind.ofType ((AddCall.blob ptr n hn hptr).tlv mem).type = none :=
        ofType_of_isBlob hblob
      have hpayload : ((AddCall.blob ptr n hn hptr).tlv mem).payload = readMem mem ptr n := by
        show (AddCall.blob ptr n hn hptr).validParam.payload mem = _
        rw [ValidParam.payload_blob hblob, htype, blobSize_typeBlob hn]
        rfl
      refine ⟨hkind, ?_⟩
      simp only [Tlv.value, hkind, hpayload]
      rfl

/-- TLVs are read by their getters, one behind the other. -/
theorem readAll_tlvs {buf : List Byte} (room : Int) (hle : lengthPrefix buf ≤ buf.length)
    (hsmall : buf.length < 2 ^ 31) (ts : List Tlv)
    (hroom : ∀ t ∈ ts, IntKind.ofType t.type = none → 0 < room ∧ (t.payload.length : Int) ≤ room)
    {pre ys : List Byte} {pos : Int} (hbuf : buf = pre ++ (ts.flatMap Tlv.encode ++ ys))
    (hin : pre.length + (ts.map Tlv.size).sum ≤ lengthPrefix buf) (hpre : 2 ≤ pre.length)
    (hpos : StandsAt pos pre.length) :
    readAll room buf buf.length (ts.map (fun t => IntKind.ofType t.type)) pos =
      .ok (some (ts.map Tlv.value,
        if ts = [] then pos else ((pre.length + (ts.map Tlv.size).sum : Nat) : Int))) := by
  induction ts generalizing pre pos with
  | nil => rfl
  | cons t ts ih =>
      rw [List.flatMap_cons, List.append_assoc] at hbuf
      rw [List.map_cons, List.sum_cons] at hin
      have hnext : (pre ++ t.encode).length = pre.length + t.size := by
        rw [List.length_append, Tlv.encode_length]
      have hstand : StandsAt ((pre.length + t.size : Nat) : Int) (pre ++ t.encode).length := by
        rw [StandsAt, if_neg (by omega), hnext]
      have hread := getAt_tlv hbuf (by omega) hle hsmall hpre hpos (hroom t List.mem_cons_self)
      have hrest := ih (fun u hu => hroom u (List.mem_cons_of_mem t hu))
        (by rw [List.append_assoc]; exact hbuf) (by omega) (by omega) hstand
      have hlast : (if ts = [] then ((pre.length + t.size : Nat) : Int)
          else (((pre ++ t.encode).length + (ts.map Tlv.size).sum : Nat) : Int)) =
          ((pre.length + (t.size + (ts.map Tlv.size).sum) : Nat) : Int) := by
        split_ifs with hnil
        · rw [hnil]
          rfl
        · rw [hnext, Nat.add_assoc]
      rw [hlast] at hrest
      simp only [List.map_cons, readAll, hread, hrest, bind, Except.bind, pure, Except.pure]
      rw [if_neg (List.cons_ne_nil t ts)]
      rfl

/-- The getter and the values of the calls, by their TLVs. -/
theorem callTlvs_values (mem : Mem) (cs : List AddCall) :
    (callTlvs mem cs).map (fun t => IntKind.ofType t.type) = cs.map AddCall.kind ∧
      (callTlvs mem cs).map Tlv.value = cs.map (AddCall.value mem) := by
  rw [callTlvs, List.map_map, List.map_map]
  exact ⟨List.map_congr_left (fun c _ => (tlv_value mem c).1),
    List.map_congr_left (fun c _ => (tlv_value mem c).2)⟩

/-- **What has been added is read back.**  After `af_rpc_init_buffer` and any calls on
    a buffer of 2 to 65535 bytes, whether they succeed or not:

    * the getters of the calls that have succeeded, in their order, give their values
      and end where the message ends, with room for its blobs;
    * at the position of a value every other getter, and the blob getter without the
      room, returns an error and stores nothing. -/
theorem added_read_back (mem : Mem) (buf : List Byte) (cs : List BuilderCall)
    (hmin : 2 ≤ buf.length) (hmax : buf.length ≤ 65535) :
    ∃ (succeeded : List AddCall) (built : List Byte), BuilderCall.build mem buf buf.length cs =
        .ok (succeeded.map BuilderCall.add, built) ∧
      (∀ room : Int, (∀ c ∈ succeeded, c.kind = none → 0 < room ∧ (c.size : Int) ≤ room) →
        readAll room built built.length (succeeded.map AddCall.kind) 0 =
          .ok (some (succeeded.map (AddCall.value mem),
            if succeeded = [] then 0 else (builtLength succeeded : Int)))) ∧
      ∀ before c after, succeeded = before ++ c :: after →
        ∀ kind room pos, StandsAt pos (builtLength before) →
          (kind = c.kind → kind = none ∧ room < (c.size : Int)) →
            ∃ ret, getAt kind room built built.length pos = .ok (ret, none) ∧ ret < 0 := by
  obtain ⟨succeeded, hbuild, hlen⟩ := buildIncrementally_eq mem buf
    (cs.filterMap BuilderCall.addCall) hmin hmax
  have hmessage := messageSize_callTlvs mem succeeded
  generalize hbuilt : encodeMessage (callTlvs mem succeeded) ++ buf.drop (builtLength succeeded) =
    built at hbuild
  have hlength : built.length = buf.length := by
    rw [← hbuilt, List.length_append, encodeMessage_length, hmessage, List.length_drop]
    omega
  have hprefix : lengthPrefix built = builtLength succeeded := by
    rw [← hbuilt, lengthPrefix_encodeMessage, hmessage]
    omega
  have hsplit : built = toBe 2 (builtLength succeeded) ++
      ((callTlvs mem succeeded).flatMap Tlv.encode ++ buf.drop (builtLength succeeded)) := by
    rw [← hbuilt, encodeMessage, hmessage, List.append_assoc]
  have hsum : ((callTlvs mem succeeded).map Tlv.size).sum + 2 = builtLength succeeded := by
    rw [← hmessage, messageSize, lengthSize, Nat.add_comm]
  have hsize : ∀ c : AddCall, (c.tlv mem).payload.length = c.size := by
    intro c
    have htlv := c.tlv_size mem
    rw [Tlv.size, typeSize] at htlv
    omega
  obtain ⟨hkinds, hvalues⟩ := callTlvs_values mem succeeded
  refine ⟨succeeded, built, BuilderCall.build_eq hbuild, ?_, ?_⟩
  · intro room hroom
    have hread := readAll_tlvs room (by omega) (by omega) (callTlvs mem succeeded)
      (fun t ht hkind => ?_) hsplit (by rw [toBe_length]; omega)
      (by rw [toBe_length]) (show StandsAt 0 (toBe 2 (builtLength succeeded)).length from
        by rw [toBe_length]; rfl)
    · rw [hkinds, hvalues] at hread
      rw [hread, toBe_length, Nat.add_comm, hsum]
      simp only [callTlvs, List.map_eq_nil_iff]
    · obtain ⟨c, hc, rfl⟩ := List.mem_map.mp ht
      rw [(tlv_value mem c).1] at hkind
      rw [hsize]
      exact hroom c hc hkind
  · rintro before c after rfl kind room pos hstand hother
    rw [callTlvs, List.map_append, List.map_cons, List.flatMap_append, List.flatMap_cons,
      List.append_assoc, List.append_assoc] at hsplit
    have hbefore := messageSize_callTlvs mem before
    have hpre : (toBe 2 (builtLength (before ++ c :: after)) ++
        (before.map (AddCall.tlv mem)).flatMap Tlv.encode).length = builtLength before := by
      rw [List.length_append, toBe_length, flatMap_encode_length, ← hbefore]
      rfl
    have hin : builtLength before + (c.tlv mem).size ≤ builtLength (before ++ c :: after) := by
      simp only [builtLength, List.map_append, List.map_cons, List.sum_append, List.sum_cons,
        c.tlv_size mem]
      omega
    rw [← List.append_assoc] at hsplit
    refine getAt_refused hsplit (by rw [hpre, hprefix]; exact hin) (by omega) (by omega)
      (by rw [hpre, builtLength, lengthSize]; omega) (by rw [hpre]; exact hstand) (fun hkind => ?_)
    rw [(tlv_value mem c).1] at hkind
    rw [hsize]
    exact hother hkind

/-- A `uint8_t`, an `int32_t` there is no room for, a blob of 3 bytes at NULL, and an
    empty blob. -/
def mixedCalls : List BuilderCall :=
  [.add (.uint8 7), .add (.int32 5), .badBlob 0 3 (by decide),
    .add (.blob 0 0 (by decide) (by decide))]

theorem added_read_back_eight :
    ∃ (succeeded : List AddCall) (built : List Byte),
      BuilderCall.build (fun _ => 0) (List.replicate 8 9) 8 mixedCalls =
        .ok (succeeded.map BuilderCall.add, built) ∧
      readAll 1 built built.length (succeeded.map AddCall.kind) 0 =
        .ok (some (succeeded.map (AddCall.value fun _ => 0), 7)) := by
  obtain ⟨succeeded, built, hbuild, hread, _⟩ := added_read_back (fun _ => 0) (List.replicate 8 9)
    mixedCalls (by decide) (by decide)
  have hrun : BuilderCall.build (fun _ => 0) (List.replicate 8 9) 8 mixedCalls =
      .ok ([.add (.uint8 7), .add (.blob 0 0 (by decide) (by decide))],
        [0, 7, 0x90, 0, 7, 0, 0, 9]) := by
    rfl
  have heq : succeeded = [.uint8 7, .blob 0 0 (by decide) (by decide)] := by
    have h := hbuild.symm.trans hrun
    simp only [Except.ok.injEq, Prod.mk.injEq] at h
    have hinj : Function.Injective BuilderCall.add := fun a b hab => by cases hab; rfl
    exact List.map_injective_iff.mpr hinj h.1
  refine ⟨succeeded, built, hbuild, ?_⟩
  rw [hread 1 (by rw [heq]; decide), heq]
  rfl

end AfIpc.Rpc
