/-
  AfIpc.Rpc.GetterWalk

  The getters against the batch decoder.  A caller walks a message by looking at
  the type at its position, calling the getter for that type and going on at the
  position it returns.  One step of the walk consumes the TLV at the position or
  fails (`walkStep_tlv`, `walkStep_bad`), so the walk follows the same chain of
  TLVs as the decoder's loop (`walk_eq`).
-/

import AfIpc.Rpc.Acceptance

namespace AfIpc.Rpc

open AfIpc.Lib

-- ============================================================================
-- The walk
-- ============================================================================

/-- What a getter stores through its `value` or `blob` argument. -/
inductive Value where
  | int (k : IntKind) (bits : BitVec (8 * k.width))
  | blob (bytes : List Byte)

/-- The type field at the position a getter would read from, if it is there. -/
def typeAt (buf : List Byte) (pos : Int) : Option (BitVec 16) :=
  match getlenAt buf (if pos = 0 then lengthSize else pos) with
  | .ok type => some type
  | .error _ => none

/-- The getter of an integer kind. -/
def getIntOfKind (k : IntKind) (buf : List Byte) (bufSize pos : Int) :
    Except Trap (Int × Option (BitVec (8 * k.width))) :=
  match k with
  | .uint8 => afRpcGetUint8FromBufferAtPos buf bufSize pos
  | .uint16 => afRpcGetUint16FromBufferAtPos buf bufSize pos
  | .uint32 => afRpcGetUint32FromBufferAtPos buf bufSize pos
  | .int8 => afRpcGetInt8FromBufferAtPos buf bufSize pos
  | .int16 => afRpcGetInt16FromBufferAtPos buf bufSize pos
  | .int32 => afRpcGetInt32FromBufferAtPos buf bufSize pos

/-- One step: the getter for the type at `pos`, and where it leaves the walk.
    `room pos` is the size of the buffer a blob at `pos` is copied to. -/
def walkStep (room : Int → Int) (buf : List Byte) (bufSize pos : Int) :
    Except Trap (Option (Value × Int)) :=
  match typeAt buf pos with
  | none => return none
  | some type =>
    match IntKind.ofType type with
    | some k => do
      let (ret, value) ← getIntOfKind k buf bufSize pos
      return if ret < 0 then none else value.map (fun bits => (.int k bits, ret))
    | none =>
      if typeIsBlob type then do
        let (ret, bytes) ← afRpcGetBlobWithLengthFromBufferAtPos (room pos) buf bufSize pos
        return if ret < 0 then none else bytes.map (fun bs => (.blob bs, ret))
      else return none

/-- `n` steps from `pos`: the values and the last position, if all succeed. -/
def walk (room : Int → Int) (buf : List Byte) (bufSize : Int) :
    Nat → Int → Except Trap (Option (List Value × Int))
  | 0, pos => return some ([], pos)
  | n + 1, pos => do
    match ← walkStep room buf bufSize pos with
    | none => return none
    | some (v, next) => do
      match ← walk room buf bufSize n next with
      | none => return none
      | some (vs, last) => return some (v :: vs, last)

/-- The caller has room for any blob it finds. -/
def EnoughRoom (room : Int → Int) (buf : List Byte) : Prop :=
  ∀ pos type, typeAt buf pos = some type → 0 < room pos ∧ ((blobSize type).toNat : Int) ≤ room pos

/-- The value of a TLV. -/
def Tlv.value (t : Tlv) : Value :=
  match IntKind.ofType t.type with
  | some k => .int k (BitVec.ofNat (8 * k.width) (ofBe t.payload))
  | none => .blob t.payload

theorem getIntOfKind_eq (k : IntKind) (buf : List Byte) (bufSize pos : Int) :
    getIntOfKind k buf bufSize pos = getIntFromBufferAtPos k.type k.width buf bufSize pos := by
  cases k <;> rfl

-- ============================================================================
-- One step
-- ============================================================================

/-- `pos` is where a walk stands behind `n` bytes: 0 stands for the first TLV. -/
def StandsAt (pos : Int) (n : Nat) : Prop :=
  (if pos = 0 then ((lengthSize : Nat) : Int) else pos) = (n : Int)

theorem getlenAt_tlv (pre : List Byte) (t : Tlv) (ys : List Byte) :
    getlenAt (pre ++ (t.encode ++ ys)) (pre.length : Int) = .ok t.type := by
  have hget := getlen_append pre (t.payload ++ ys) t.type
  rw [Tlv.encode, List.append_assoc]
  simp only [getlenAt, loadAt]
  rw [if_neg (by omega), Int.toNat_natCast]
  exact hget

theorem loadAt_tlv (pre : List Byte) (t : Tlv) (ys : List Byte) :
    loadAt (pre ++ (t.encode ++ ys)) ((pre.length : Int) + (typeSize : Nat)) t.payload.length =
      .ok t.payload := by
  have h := load_append (pre ++ toBe 2 t.type.toNat) t.payload ys
  rw [List.length_append, toBe_length] at h
  have htoNat : ((pre.length : Int) + (typeSize : Nat)).toNat = pre.length + 2 := by
    rw [typeSize]
    omega
  simp only [loadAt]
  rw [if_neg (by omega), htoNat, Tlv.encode, List.append_assoc, ← List.append_assoc pre]
  exact h

section Step

variable {room : Int → Int} {pos : Int} {pre body : List Byte}
  (hpfx : lengthPrefix (pre ++ body) = (pre ++ body).length)
  (h2 : 2 < (pre ++ body).length) (hpre : 2 ≤ pre.length) (hpos : StandsAt pos pre.length)

include hpos in
/-- What the walk finds at its position. -/
theorem typeAt_append : typeAt (pre ++ body) pos =
    if 2 ≤ body.length then some (BitVec.ofNat 16 (ofBe (body.take 2))) else none := by
  unfold StandsAt at hpos
  simp only [typeAt, getlenAt, loadAt, hpos]
  rw [if_neg (by omega), Int.toNat_natCast]
  by_cases hb : 2 ≤ body.length
  · have hload : load (pre ++ body) pre.length 2 = .ok _ :=
      load_eq_ok_iff.mpr ⟨by rw [List.length_append]; omega, rfl⟩
    rw [List.drop_left] at hload
    rw [if_pos hb, hload]
    rfl
  · rw [if_neg hb]
    cases hload : load (pre ++ body) pre.length 2 with
    | error e => rfl
    | ok bs =>
        have hin := (load_eq_ok_iff.mp hload).1
        rw [List.length_append] at hin
        omega

include hpfx h2 in
theorem buffer_small :
    (pre ++ body).length < 2 ^ 16 ∧ ¬ sizeT (pre ++ body).length ≤ lengthSize ∧
      getlen (pre ++ body) 0 = .ok (BitVec.ofNat 16 (pre ++ body).length) := by
  have h2' : 2 ≤ (pre ++ body).length := by omega
  obtain ⟨len, hlen, hlenp⟩ := getlen_lengthPrefix h2'
  have hlt := len.isLt
  refine ⟨by omega, ?_, ?_⟩
  · rw [sizeT_of_nonneg (by omega) (by omega), lengthSize]
    omega
  · rw [hlen, ← hpfx, ← hlenp, BitVec.ofNat_toNat, BitVec.setWidth_eq]

include hpfx h2 hpre hpos in
/-- An integer getter on a TLV of its kind. -/
theorem getInt_tlv {t : Tlv} {ys : List Byte} {k : IntKind} (hbody : body = t.encode ++ ys)
    (hk : t.type = k.type) :
    getIntFromBufferAtPos k.type k.width (pre ++ body) (pre ++ body).length pos =
      .ok (((pre.length + t.size : Nat) : Int),
        some (BitVec.ofNat (8 * k.width) (ofBe t.payload))) := by
  obtain ⟨hsmall, hsize, hlen⟩ := buffer_small hpfx h2
  have hwidth : t.payload.length = k.width := by
    have hwf := t.wf
    rw [hk, payloadSize_type, Option.some.injEq] at hwf
    exact hwf.symm
  have hend : (pre ++ body).length = pre.length + t.size + ys.length := by
    rw [hbody, List.length_append, List.length_append, Tlv.encode_length, Nat.add_assoc]
  have htsize : t.size = 2 + k.width := by rw [Tlv.size, hwidth]
  have hfound := getlenAt_tlv pre t ys
  have hload := loadAt_tlv pre t ys
  rw [← hbody, hk] at hfound
  rw [← hbody, hwidth] at hload
  unfold StandsAt at hpos
  simp only [getIntFromBufferAtPos, hlen, bind, Except.bind, toNat_ofNat_length hsmall, hpos]
  rw [if_neg hsize, if_neg (by omega), if_neg (by omega), sizeT_of_nonneg (by omega)
    (by rw [typeSize]; omega), if_neg (by rw [typeSize]; omega)]
  simp only [hfound, hload, ne_eq, not_true_eq_false, if_false, pure, Except.pure]
  rw [htsize, typeSize]
  push_cast
  rw [Int.add_assoc]

include hpfx h2 hpos in
/-- The blob getter on a blob there is room for. -/
theorem getBlob_tlv {t : Tlv} {ys : List Byte} {capacity : Int} (hbody : body = t.encode ++ ys)
    (hb : typeIsBlob t.type = true) (hcap : 0 < capacity)
    (hfit : ((blobSize t.type).toNat : Int) ≤ capacity) :
    afRpcGetBlobWithLengthFromBufferAtPos capacity (pre ++ body) (pre ++ body).length pos =
      .ok (((pre.length + t.size : Nat) : Int), some t.payload) := by
  obtain ⟨hsmall, hsize, hlen⟩ := buffer_small hpfx h2
  have hwidth : (blobSize t.type).toNat = t.payload.length := by
    have hwf := t.wf
    rw [payloadSize_of_isBlob hb, Option.some.injEq] at hwf
    exact hwf
  have hend : (pre ++ body).length = pre.length + t.size + ys.length := by
    rw [hbody, List.length_append, List.length_append, Tlv.encode_length, Nat.add_assoc]
  have htsize : t.size = 2 + t.payload.length := rfl
  have hfound := getlenAt_tlv pre t ys
  have hload := loadAt_tlv pre t ys
  rw [← hbody] at hfound hload
  unfold StandsAt at hpos
  simp only [afRpcGetBlobWithLengthFromBufferAtPos, hlen, bind, Except.bind,
    toNat_ofNat_length hsmall, hpos]
  rw [if_neg (by omega), if_neg (by omega), if_neg (by omega)]
  simp only [hfound, hwidth]
  rw [if_neg (not_not.mpr hb), if_neg (by rw [typeSize]; omega), if_neg (by omega)]
  have hret : (pre.length : Int) + (typeSize : Nat) + (t.payload.length : Nat) =
      ((pre.length + t.size : Nat) : Int) := by
    rw [htsize, typeSize]
    omega
  by_cases hz : t.payload.length ≠ 0
  · rw [if_pos hz]
    simp only [hload, pure, Except.pure]
    rw [hret]
  · rw [if_neg hz]
    simp only [pure, Except.pure]
    rw [hret, List.length_eq_zero_iff.mp (not_not.mp hz)]

include hpfx h2 hpre hpos in
/-- The step consumes the TLV at its position. -/
theorem walkStep_tlv {t : Tlv} {ys : List Byte} (hbody : body = t.encode ++ ys)
    (hroom : EnoughRoom room (pre ++ body)) :
    walkStep room (pre ++ body) (pre ++ body).length pos =
      .ok (some (t.value, ((pre.length + t.size : Nat) : Int))) := by
  have htype : typeAt (pre ++ body) pos = some t.type := by
    have hlen : 2 ≤ body.length := by
      rw [hbody, List.length_append, Tlv.encode_length, Tlv.size]
      omega
    rw [typeAt_append hpos, if_pos hlen, hbody, Tlv.take_encode, ofNat_ofBe_toBe]
  have hpositive : ¬ (((pre.length + t.size : Nat) : Int) < 0) := by omega
  simp only [walkStep, htype, Tlv.value]
  cases hk : IntKind.ofType t.type with
  | some k =>
      simp only
      rw [getIntOfKind_eq,
        getInt_tlv hpfx h2 hpre hpos hbody (IntKind.type_of_ofType hk)]
      simp only [bind, Except.bind, pure, Except.pure]
      rw [if_neg hpositive]
      rfl
  | none =>
      have hb : typeIsBlob t.type = true := by
        rcases payloadSize_eq_some t.wf with ⟨k, hkind, _⟩ | ⟨hb, _⟩
        · rw [hkind, IntKind.ofType_type] at hk
          cases hk
        · exact hb
      obtain ⟨hcap, hfit⟩ := hroom pos t.type htype
      simp only
      rw [if_pos hb, getBlob_tlv hpfx h2 hpos hbody hb hcap hfit]
      simp only [bind, Except.bind, pure, Except.pure]
      rw [if_neg hpositive]
      rfl

include hpfx h2 hpre hpos in
/-- The step fails on bytes that do not start with a TLV. -/
theorem walkStep_bad (hbad : Tlv.head body = none) :
    (walkStep room (pre ++ body) (pre ++ body).length pos) = .ok none := by
  obtain ⟨hsmall, hsize, hlen⟩ := buffer_small hpfx h2
  have hlength : (pre ++ body).length = pre.length + body.length := List.length_append
  have hshort := fun n => Tlv.length_lt_of_head_eq_none (n := n) hbad
  by_cases hb2 : 2 ≤ body.length
  · have htype : typeAt (pre ++ body) pos = some (BitVec.ofNat 16 (ofBe (body.take 2))) := by
      rw [typeAt_append hpos, if_pos hb2]
    have hfound : getlenAt (pre ++ body) (pre.length : Int) =
        .ok (BitVec.ofNat 16 (ofBe (body.take 2))) := by
      have hget : getlen (pre ++ body) pre.length = _ := getlen_eq_ok (by omega)
      rw [List.drop_left] at hget
      simp only [getlenAt, loadAt]
      rw [if_neg (by omega), Int.toNat_natCast]
      exact hget
    unfold StandsAt at hpos
    simp only [walkStep, htype]
    generalize BitVec.ofNat 16 (ofBe (body.take 2)) = type at hshort hfound ⊢
    cases hk : IntKind.ofType type with
    | some k =>
        -- the payload of an integer would end behind the message
        have hover := hshort k.width (by rw [IntKind.type_of_ofType hk, payloadSize_type])
        have hwide : k.width ≤ 4 := by cases k <;> decide
        simp only
        rw [getIntOfKind_eq]
        simp only [getIntFromBufferAtPos, hlen, bind, Except.bind, toNat_ofNat_length hsmall, hpos]
        rw [if_neg hsize, if_neg (by omega), if_neg (by omega), sizeT_of_nonneg (by omega)
          (by rw [typeSize]; omega), if_pos (by rw [typeSize]; omega)]
        rfl
    | none =>
        by_cases hb : typeIsBlob type = true
        · have hover := hshort _ (payloadSize_of_isBlob hb)
          simp only
          rw [if_pos hb]
          simp only [afRpcGetBlobWithLengthFromBufferAtPos, hlen, bind, Except.bind,
            toNat_ofNat_length hsmall, hpos]
          by_cases hcap : room pos ≤ 0
          · rw [if_pos (.inr hcap)]
            rfl
          · rw [if_neg (by omega), if_neg (by omega), if_neg (by omega)]
            simp only [hfound]
            rw [if_neg (not_not.mpr hb), if_pos (by rw [typeSize, blobSize]; omega)]
            rfl
        · simp only
          rw [if_neg hb]
          rfl
  · have htype : typeAt (pre ++ body) pos = none := by
      rw [typeAt_append hpos, if_neg hb2]
    simp only [walkStep, htype]
    rfl

end Step

-- ============================================================================
-- The whole walk
-- ============================================================================

/-- The walk takes the first `n` TLVs of the chain, or fails where there are
    fewer. -/
theorem walk_eq {room : Int → Int} (n : Nat) {pos : Int} {pre body : List Byte}
    (hpfx : lengthPrefix (pre ++ body) = (pre ++ body).length)
    (h2 : 2 < (pre ++ body).length) (hpre : 2 ≤ pre.length) (hpos : StandsAt pos pre.length)
    (hroom : EnoughRoom room (pre ++ body)) :
    walk room (pre ++ body) (pre ++ body).length n pos =
      .ok (if n ≤ (tlvs.items body).length then
        some (((tlvs.items body).take n).map Tlv.value,
          if n = 0 then pos
          else ((pre.length + (((tlvs.items body).take n).map Tlv.size).sum : Nat) : Int))
      else none) := by
  induction n generalizing pos pre body with
  | zero => simp [walk, pure, Except.pure]
  | succ n ih =>
      simp only [walk]
      cases hhead : tlvs.head body with
      | none =>
          rw [walkStep_bad hpfx h2 hpre hpos hhead, tlvs.items_of_none hhead]
          rfl
      | some t =>
          obtain ⟨ys, hbody⟩ := Tlv.head_eq_some_iff.mp hhead
          have hdrop : body.drop (tlvs.size t) = ys := by
            rw [hbody, show tlvs.size t = t.encode.length from t.encode_length.symm,
              List.drop_left]
          rw [walkStep_tlv hpfx h2 hpre hpos hbody hroom, tlvs.items_of_some hhead, hdrop]
          -- go on behind the TLV
          have hsplit : pre ++ body = (pre ++ t.encode) ++ ys := by
            rw [hbody, List.append_assoc]
          have hnext : (pre ++ t.encode).length = pre.length + t.size := by
            rw [List.length_append, Tlv.encode_length]
          have hstand : StandsAt ((pre.length + t.size : Nat) : Int) (pre ++ t.encode).length := by
            rw [StandsAt, if_neg (by omega), hnext]
          rw [hsplit] at hpfx h2 hroom ⊢
          have hrest := ih hpfx h2 (by omega) hstand hroom
          have hlast : (if n = 0 then ((pre.length + t.size : Nat) : Int)
              else ((pre.length + t.size
                + (((tlvs.items ys).take n).map Tlv.size).sum : Nat) : Int)) =
              ((pre.length + (t.size + (((tlvs.items ys).take n).map Tlv.size).sum) : Nat) : Int) := by
            split_ifs with hz
            · subst hz
              rfl
            · rw [Nat.add_assoc]
          rw [hnext, hlast] at hrest
          simp only [bind, Except.bind, hrest, List.length_cons, List.take_succ_cons,
            List.map_cons, List.sum_cons, Nat.add_le_add_iff_right]
          by_cases hn : n ≤ (tlvs.items ys).length
          · rw [if_pos hn, if_pos hn]
            rfl
          · rw [if_neg hn, if_neg hn]
            rfl

/-- The walk from position 0 takes `n` steps to the end of the message exactly if
    the chain has `n` TLVs and covers it. -/
theorem walk_end_iff {room : Int → Int} {buf : List Byte} {n : Nat} {values : List Value}
    (hpfx : lengthPrefix buf = buf.length) (h2 : 2 < buf.length) (hn : 1 ≤ n)
    (hroom : EnoughRoom room buf) :
    walk room buf buf.length n 0 = .ok (some (values, (buf.length : Int))) ↔
      (tlvs.items (buf.drop 2)).length = n ∧ tlvs.leftover (buf.drop 2) = [] ∧
        values = (tlvs.items (buf.drop 2)).map Tlv.value := by
  have htake : (buf.take 2).length = 2 := by rw [List.length_take]; omega
  have hsplit : buf.take 2 ++ buf.drop 2 = buf := List.take_append_drop 2 buf
  have hstand : StandsAt 0 (buf.take 2).length := by rw [htake]; rfl
  have hwalk := walk_eq n (by rw [hsplit]; exact hpfx) (by rw [hsplit]; exact h2) (by omega)
    hstand (by rw [hsplit]; exact hroom)
  have h2' : 2 ≤ lengthPrefix buf := by omega
  have hsize := messageSize_items h2' (by omega)
  rw [hsplit, htake, if_neg (show ¬ n = 0 by omega)] at hwalk
  rw [messageBody_eq hpfx, messageSize, lengthSize] at hsize
  rw [hwalk, Except.ok.injEq]
  generalize tlvs.items (buf.drop 2) = ts at hsize ⊢
  generalize tlvs.leftover (buf.drop 2) = ys at hsize ⊢
  have hsum : (ts.map Tlv.size).sum = ((ts.take n).map Tlv.size).sum
      + ((ts.drop n).map Tlv.size).sum := by
    rw [← List.sum_append, ← List.map_append, List.take_append_drop]
  refine ⟨?_, ?_⟩
  · intro h
    split_ifs at h with hle
    simp only [Option.some.injEq, Prod.mk.injEq] at h
    obtain ⟨hvalues, hend⟩ := h
    have hys : ys = [] := List.eq_nil_of_length_eq_zero (by omega)
    -- a further TLV would take bytes
    have hdrop : ts.drop n = [] := by
      cases hrest : ts.drop n with
      | nil => rfl
      | cons t rest =>
          rw [hrest, List.map_cons, List.sum_cons, Tlv.size] at hsum
          omega
    have hlen : ts.length = n := by
      have := List.drop_eq_nil_iff.mp hdrop
      omega
    refine ⟨hlen, hys, ?_⟩
    rw [← hvalues, ← hlen, List.take_length]
  · rintro ⟨hlen, hys, hvalues⟩
    rw [if_pos (by omega), ← hlen, List.take_length, hvalues]
    rw [hys, List.length_nil] at hsize
    congr 2
    omega

-- ============================================================================
-- Agreement
-- ============================================================================

/-- A value of the walk and a decoded parameter: the same integer by the macro of
    its kind, or the same bytes and length in memory. -/
def Value.Agrees (mem : Mem) : Value → AfRpcParam → Prop
  | .int k bits, d => d.type.setWidth 16 = k.type ∧ getParam (8 * k.width) d = bits
  | .blob bytes, d => typeIsBlob (d.type.setWidth 16) = true ∧
      (blobSize (d.type.setWidth 16)).toNat = bytes.length ∧
      readMem mem d.base bytes.length = bytes

theorem agrees_decodedParam {mem : Mem} {addr : Word} {t : Tlv} {pre post : List Byte}
    (h : readMem mem addr (pre ++ (t.encode ++ post)).length = pre ++ (t.encode ++ post)) :
    t.value.Agrees mem (decodedParam addr pre.length t) := by
  have htype : (decodedParam addr pre.length t).type.setWidth 16 = t.type :=
    setWidth_setWidth_self t.type (by decide)
  unfold Tlv.value
  cases hk : IntKind.ofType t.type with
  | some k =>
      have hkind := IntKind.type_of_ofType hk
      exact ⟨by rw [htype, hkind], getParam_decodedParam addr pre.length hkind⟩
  | none =>
      rcases payloadSize_eq_some t.wf with ⟨k, hkind, _⟩ | ⟨hb, hsize⟩
      · rw [hkind, IntKind.ofType_type] at hk
        cases hk
      · exact ⟨by rw [htype, hb], by rw [htype, hsize, blobSize], readMem_decodedParam hb h⟩

theorem agrees_decodedParams {mem : Mem} {addr : Word} (ts : List Tlv) (pre : List Byte)
    (h : readMem mem addr (pre ++ ts.flatMap Tlv.encode).length =
      pre ++ ts.flatMap Tlv.encode) :
    List.Forall₂ (Value.Agrees mem) (ts.map Tlv.value) (decodedParams addr pre.length ts) := by
  induction ts generalizing pre with
  | nil => exact List.Forall₂.nil
  | cons t ts ih =>
      have hpre : (pre ++ t.encode).length = pre.length + t.size := by
        rw [List.length_append, Tlv.encode_length]
      rw [List.flatMap_cons] at h
      rw [List.map_cons, decodedParams, ← hpre]
      refine List.Forall₂.cons (agrees_decodedParam h) (ih (pre ++ t.encode) ?_)
      rw [List.append_assoc]
      exact h

/-- The batch decoder counts the TLVs of a chain that covers the message, and only
    of such a one. -/
theorem getParams_count_iff {params : List AfRpcParam} {numParams : Int} {addr : Word}
    {buf : List Byte} {n : Nat} {out : List AfRpcParam}
    (hpfx : lengthPrefix buf = buf.length) (h2 : 2 < buf.length) (hn : 1 ≤ n)
    (hnum : (n : Int) ≤ numParams) (hroom : numParams ≤ params.length) :
    afRpcGetParamsFromBuffer params numParams addr buf buf.length true = .ok ((n : Int), out) ↔
      (tlvs.items (buf.drop 2)).length = n ∧ tlvs.leftover (buf.drop 2) = [] ∧
        out = storeParams addr params 0 2 (tlvs.items (buf.drop 2)) := by
  obtain ⟨ret, out', hret, hstuck, hfull, hend⟩ :=
    getParams_chain addr params numParams buf (by omega) (by omega) (by omega) hroom
  rw [messageBody_eq hpfx] at hstuck hfull hend
  have hcovered : getParamsEnd numParams buf.length true
      (storeParams addr params 0 2 (tlvs.items (buf.drop 2)))
      (tlvs.items (buf.drop 2)).length (lengthPrefix buf) =
        (((tlvs.items (buf.drop 2)).length : Int),
          storeParams addr params 0 2 (tlvs.items (buf.drop 2))) := by
    rw [getParamsEnd, if_neg (by simp), if_neg (by omega)]
  rw [hcovered] at hend
  rw [hret, Except.ok.injEq, Prod.mk.injEq]
  refine ⟨?_, ?_⟩
  · rintro ⟨rfl, rfl⟩
    -- the two other ends of the chain return at most 0
    have hleft : tlvs.leftover (buf.drop 2) = [] := by
      by_contra hne
      rcases lt_or_ge ((tlvs.items (buf.drop 2)).length : Int) numParams with hlt | hge
      · have := hstuck hlt hne
        omega
      · have := hfull hge (.inr hne)
        omega
    have hcount : ((tlvs.items (buf.drop 2)).length : Int) ≤ numParams := by
      by_contra hgt
      have := hfull (by omega) (.inl (by omega))
      omega
    have hpair := hend hcount hleft
    rw [Prod.mk.injEq] at hpair
    exact ⟨by omega, hleft, hpair.2⟩
  · rintro ⟨hlen, hleft, rfl⟩
    have hpair := hend (by omega) hleft
    rw [Prod.mk.injEq, hlen] at hpair
    exact hpair

/-- **The getters agree with the batch decoder.**  On a message that is the whole
    buffer, the permissive decoder returns `n` exactly if a walk of `n` getter calls
    from position 0 succeeds and ends at the end of the buffer, and then both give
    the same values. -/
theorem walk_agrees_getParams (params : List AfRpcParam) (numParams : Int) (addr : Word)
    (mem : Mem) (buf : List Byte) (room : Int → Int) (n : Nat)
    (hpfx : lengthPrefix buf = buf.length) (h2 : 2 < buf.length) (hn : 1 ≤ n)
    (hnum : (n : Int) ≤ numParams) (hparams : numParams ≤ params.length)
    (hroom : EnoughRoom room buf) (hmem : readMem mem addr buf.length = buf) :
    ((∃ out, afRpcGetParamsFromBuffer params numParams addr buf buf.length true =
        .ok ((n : Int), out)) ↔
      ∃ values, walk room buf buf.length n 0 = .ok (some (values, (buf.length : Int)))) ∧
    ∀ out values,
      afRpcGetParamsFromBuffer params numParams addr buf buf.length true = .ok ((n : Int), out) →
      walk room buf buf.length n 0 = .ok (some (values, (buf.length : Int))) →
      List.Forall₂ (Value.Agrees mem) values (out.take n) := by
  refine ⟨?_, ?_⟩
  · refine ⟨?_, ?_⟩
    · rintro ⟨out, hret⟩
      obtain ⟨hlen, hleft, _⟩ := (getParams_count_iff hpfx h2 hn hnum hparams).mp hret
      exact ⟨_, (walk_end_iff hpfx h2 hn hroom).mpr ⟨hlen, hleft, rfl⟩⟩
    · rintro ⟨values, hwalk⟩
      obtain ⟨hlen, hleft, _⟩ := (walk_end_iff hpfx h2 hn hroom).mp hwalk
      exact ⟨_, (getParams_count_iff hpfx h2 hn hnum hparams).mpr ⟨hlen, hleft, rfl⟩⟩
  · intro out values hret hwalk
    obtain ⟨hlen, hleft, rfl⟩ := (getParams_count_iff hpfx h2 hn hnum hparams).mp hret
    obtain ⟨_, _, rfl⟩ := (walk_end_iff hpfx h2 hn hroom).mp hwalk
    have htake : (buf.take 2).length = 2 := by rw [List.length_take]; omega
    have hbody := tlvs_canonical.eq_append (buf.drop 2)
    rw [hleft, List.append_nil] at hbody
    have hsplit : buf.take 2 ++ (tlvs.items (buf.drop 2)).flatMap Tlv.encode = buf := by
      rw [← hbody, List.take_append_drop]
    have hheld : readMem mem addr
        (buf.take 2 ++ (tlvs.items (buf.drop 2)).flatMap Tlv.encode).length =
          buf.take 2 ++ (tlvs.items (buf.drop 2)).flatMap Tlv.encode := by
      rw [hsplit]
      exact hmem
    have hagree := agrees_decodedParams _ _ hheld
    rw [htake] at hagree
    rw [storeParams_eq _ _ _ _ _ (by omega), List.take_zero, List.nil_append,
      List.take_left' (by rw [decodedParams_length, hlen])]
    exact hagree

/-- A signed byte and an empty blob, with one parameter more than needed. -/
theorem walk_agrees_getParams_int8 :
    let buf : List Byte := [0, 7, 0xD0, 0, 0xFF, 0, 0]
    ((∃ out, afRpcGetParamsFromBuffer (List.replicate 3 ⟨0, 0⟩) 3 64 buf 7 true = .ok (2, out)) ↔
      ∃ values, walk (fun _ => 16383) buf 7 2 0 = .ok (some (values, 7))) ∧
    ∀ out values,
      afRpcGetParamsFromBuffer (List.replicate 3 ⟨0, 0⟩) 3 64 buf 7 true = .ok (2, out) →
      walk (fun _ => 16383) buf 7 2 0 = .ok (some (values, 7)) →
      List.Forall₂ (Value.Agrees (fun a => buf.getD (a.toNat - 64) 0)) values (out.take 2) := by
  intro buf
  have hroom : EnoughRoom (fun _ => 16383) buf := by
    intro pos type _
    have hle := blobSize_lt type
    show (0 : Int) < 16383 ∧ (((type &&& 0x3fff).toNat : Nat) : Int) ≤ 16383
    omega
  exact walk_agrees_getParams (List.replicate 3 ⟨0, 0⟩) 3 64 (fun a => buf.getD (a.toNat - 64) 0)
    buf (fun _ => 16383) 2 (by decide) (by decide) (by decide) (by decide) (by decide) hroom
    (by decide)

end AfIpc.Rpc
