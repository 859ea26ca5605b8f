/-
  AfIpc.Rpc.Canonical

  The wire format is canonical.  A buffer that the permissive decoder counts
  parameters in is the message of its own TLVs, and the parameters decoded from
  it are encoded to the same TLVs: an integer through the low bytes of its base,
  a blob or string through the bytes its base points at.
-/

import AfIpc.Rpc.Acceptance
import AfIpc.Rpc.BuilderSpec

namespace AfIpc.Rpc

open AfIpc.Lib

-- ============================================================================
-- What is accepted
-- ============================================================================

/-- The permissive decoder comes to an end on any bytes. -/
theorem getParams_permissive {params : List AfRpcParam} {numParams : Int} (addr : Word)
    (buf : List Byte) (hparams : numParams = params.length) :
    ∃ n decoded, afRpcGetParamsFromBuffer params numParams addr buf buf.length true =
      .ok (n, decoded) := by
  by_cases h2 : 2 ≤ buf.length
  · obtain ⟨len, hget, hlen⟩ := getlen_lengthPrefix h2
    by_cases hle : lengthPrefix buf ≤ buf.length
    · by_cases hlow : 2 ≤ lengthPrefix buf
      · obtain ⟨ret, out, hrun, _⟩ :=
          getParams_chain addr params numParams buf hlow hle (by omega) (by omega)
        exact ⟨ret, out, hrun⟩
      · have hrun := getParams_short addr params numParams buf true h2 (by omega) hget (by omega)
        exact ⟨_, _, hrun⟩
    · have hrun := getParams_long addr params numParams buf true h2 (by omega) hget (by omega)
      exact ⟨_, _, hrun⟩
  · simp only [afRpcGetParamsFromBuffer]
    by_cases hbad : numParams < 0 ∨ (buf.length : Int) ≤ 0
    · rw [if_pos hbad]
      exact ⟨_, _, rfl⟩
    · rw [if_neg hbad, if_pos (by rw [lengthSize]; omega)]
      exact ⟨_, _, rfl⟩

/-- A buffer whose parameters are counted is the message of its TLVs. -/
theorem accepted_message {params decoded : List AfRpcParam} {numParams n : Int} {addr : Word}
    {buf : List Byte} (hparams : numParams = params.length)
    (hdec : afRpcGetParamsFromBuffer params numParams addr buf buf.length true = .ok (n, decoded))
    (hn : 1 ≤ n) :
    ∃ ts : List Tlv, buf = encodeMessage ts ∧ n = ts.length ∧ messageSize ts < 2 ^ 16 ∧
      decoded.take n.toNat = decodedParams addr 2 ts ∧ (ts.length : Int) ≤ numParams := by
  have h2 : 2 ≤ buf.length := by
    by_contra hshort
    simp only [afRpcGetParamsFromBuffer] at hdec
    by_cases hbad : numParams < 0 ∨ (buf.length : Int) ≤ 0
    · rw [if_pos hbad] at hdec
      obtain ⟨rfl, _⟩ := Prod.mk.inj (Except.ok.inj hdec)
      rw [errBadParam] at hn
      omega
    · rw [if_neg hbad, if_pos (by rw [lengthSize]; omega)] at hdec
      obtain ⟨rfl, _⟩ := Prod.mk.inj (Except.ok.inj hdec)
      rw [errBadTlv] at hn
      omega
  have hnum : 0 ≤ numParams := by omega
  obtain ⟨len, hget, hlen⟩ := getlen_lengthPrefix h2
  have hle : lengthPrefix buf ≤ buf.length := by
    by_contra hlong
    rw [getParams_long addr params numParams buf true h2 hnum hget (by omega)] at hdec
    obtain ⟨rfl, _⟩ := Prod.mk.inj (Except.ok.inj hdec)
    rw [errBadTlv] at hn
    omega
  have hlow : 2 ≤ lengthPrefix buf := by
    by_contra hshort
    rw [getParams_short addr params numParams buf true h2 hnum hget (by omega)] at hdec
    have hend := Except.ok.inj hdec
    rw [getParamsEnd, if_neg (fun h => by cases h.1)] at hend
    split_ifs at hend
    · obtain ⟨rfl, _⟩ := Prod.mk.inj hend
      rw [errBadTlv] at hn
      omega
    · obtain ⟨rfl, _⟩ := Prod.mk.inj hend
      omega
  obtain ⟨ret, out, hrun, hstuck, hfull, hwhole⟩ :=
    getParams_chain addr params numParams buf hlow hle hnum (by omega)
  rw [hrun] at hdec
  obtain ⟨rfl, rfl⟩ := Prod.mk.inj (Except.ok.inj hdec)
  -- the chain covers the message, and the array has room for it
  have hfits : ((tlvs.items (messageBody buf)).length : Int) ≤ numParams := by
    by_contra hmore
    have hzero := hfull (by omega) (.inl (by omega))
    omega
  have hcovered : tlvs.leftover (messageBody buf) = [] := by
    by_contra hrest
    by_cases hroom : ((tlvs.items (messageBody buf)).length : Int) < numParams
    · have hneg := hstuck hroom hrest
      omega
    · have hzero := hfull (by omega) (.inr hrest)
      omega
  have hend := hwhole hfits hcovered
  have hsize := messageSize_items hlow hle
  have hchain := tlvs_canonical.eq_append (messageBody buf)
  have hlt : lengthPrefix buf < 2 ^ 16 := by
    rw [← hlen]
    exact len.isLt
  rw [hcovered, List.append_nil] at hchain
  rw [hcovered, List.length_nil, Nat.add_zero] at hsize
  rw [getParamsEnd, if_neg (fun h => by cases h.1)] at hend
  split_ifs at hend with hbehind
  · obtain ⟨rfl, _⟩ := Prod.mk.inj hend
    rw [errBadTlv] at hn
    omega
  · rw [not_not] at hbehind
    obtain ⟨rfl, rfl⟩ := Prod.mk.inj hend
    have hall : lengthPrefix buf = buf.length := by omega
    refine ⟨tlvs.items (messageBody buf), ?_, rfl, by omega, ?_, hfits⟩
    · have htake : (buf.take 2).length = 2 := by
        rw [List.length_take]
        omega
      have hpre : buf.take 2 = toBe 2 (lengthPrefix buf) := by
        have hround := toBe_ofBe (buf.take 2)
        rw [htake] at hround
        exact hround.symm
      rw [encodeMessage, hsize, ← hchain, messageBody_eq hall, ← hpre, List.take_append_drop]
    · rw [storeParams_eq addr params 0 2 _ (by omega), List.take_zero, List.nil_append,
        Int.toNat_natCast]
      exact List.take_left' (decodedParams_length addr 2 _)

-- ============================================================================
-- Encoding what was decoded
-- ============================================================================

/-- No bit of an accepted integer is lost in its base. -/
theorem toBe_decodedParam {t : Tlv} {k : IntKind} (h : t.type = k.type) (addr : Word) (pos : Nat) :
    toBe k.width (decodedParam addr pos t).base.toNat = t.payload := by
  have hwidth : t.payload.length = k.width := by
    have hwf := t.wf
    rw [h, payloadSize_type, Option.some.injEq] at hwf
    exact hwf.symm
  have hbits := getParam_decodedParam addr pos h
  have hmod : (decodedParam addr pos t).base.toNat % 256 ^ k.width = ofBe t.payload := by
    have hlt := ofBe_lt t.payload
    have hpow : (2 : Nat) ^ (8 * k.width) = 256 ^ k.width := by
      rw [Nat.pow_mul]
    have hnat := congrArg BitVec.toNat hbits
    rw [getParam, BitVec.toNat_setWidth, BitVec.toNat_ofNat, hpow, ← hwidth,
      Nat.mod_eq_of_lt hlt] at hnat
    rw [← hwidth]
    exact hnat
  rw [← toBe_mod, hmod, ← hwidth, toBe_ofBe]

/-- A blob inside a buffer that does not wrap around has no NULL base. -/
theorem decodedParam_base_ne_zero {addr : Word} {pos : Nat} {t : Tlv}
    (hblob : typeIsBlob t.type = true) (hpos : addr.toNat + (pos + 2) < 2 ^ 64) :
    (decodedParam addr pos t).base ≠ 0 := by
  rw [decodedParam_base_of_isBlob addr pos hblob]
  intro hzero
  have hnat := congrArg BitVec.toNat hzero
  have hz : (0 : Word).toNat = 0 := rfl
  rw [BitVec.toNat_add, BitVec.toNat_ofNat, hz] at hnat
  omega

/-- A decoded parameter is one the builder takes. -/
def ValidParam.ofTlv (addr : Word) (pos : Nat) (t : Tlv)
    (hpos : t.payload ≠ [] → addr.toNat + (pos + 2) < 2 ^ 64) : ValidParam where
  param := decodedParam addr pos t
  valid := by
    have htype : (decodedParam addr pos t).type.setWidth 16 = t.type :=
      setWidth_setWidth_self t.type (by omega)
    rw [htype]
    rcases payloadSize_eq_some t.wf with ⟨k, hk, _⟩ | ⟨hblob, hsize⟩
    · exact .inl ⟨k, hk⟩
    · refine .inr ⟨hblob, fun hne => decodedParam_base_ne_zero hblob (hpos ?_)⟩
      intro hnil
      rw [hnil, List.length_nil] at hsize
      exact hne (BitVec.eq_of_toNat_eq hsize.symm)

/-- Its TLV is the one it was decoded from. -/
theorem tlv_ofTlv {mem : Mem} {addr : Word} {t : Tlv} {pre post : List Byte}
    (hpos : t.payload ≠ [] → addr.toNat + (pre.length + 2) < 2 ^ 64)
    (h : readMem mem addr (pre ++ (t.encode ++ post)).length = pre ++ (t.encode ++ post)) :
    (ValidParam.ofTlv addr pre.length t hpos).tlv mem = t := by
  have htype : (ValidParam.ofTlv addr pre.length t hpos).type = t.type :=
    setWidth_setWidth_self t.type (by omega)
  apply Tlv.ext
  · exact htype
  · show (ValidParam.ofTlv addr pre.length t hpos).payload mem = t.payload
    rcases payloadSize_eq_some t.wf with ⟨k, hk, _⟩ | ⟨hblob, hsize⟩
    · rw [ValidParam.payload_int (htype.trans hk)]
      exact toBe_decodedParam hk addr pre.length
    · have hread := readMem_decodedParam hblob h
      rw [ValidParam.payload_blob (by rw [htype]; exact hblob), htype, blobSize, ← hsize]
      exact hread

/-- The parameters decoded from consecutive TLVs encode to them. -/
theorem exists_validParams {mem : Mem} {addr : Word} (ts : List Tlv) (pre : List Byte)
    (hwrap : addr.toNat + (pre ++ ts.flatMap Tlv.encode).length ≤ 2 ^ 64)
    (h : readMem mem addr (pre ++ ts.flatMap Tlv.encode).length = pre ++ ts.flatMap Tlv.encode) :
    ∃ ps : List ValidParam, ps.map ValidParam.param = decodedParams addr pre.length ts ∧
      ps.map (ValidParam.tlv mem) = ts := by
  induction ts generalizing pre with
  | nil => exact ⟨[], rfl, rfl⟩
  | cons t ts ih =>
      have hpre : (pre ++ t.encode).length = pre.length + t.size := by
        rw [List.length_append, Tlv.encode_length]
      have hsplit : pre ++ (t :: ts).flatMap Tlv.encode = (pre ++ t.encode) ++ ts.flatMap Tlv.encode := by
        rw [List.flatMap_cons, List.append_assoc]
      have hpos : t.payload ≠ [] → addr.toNat + (pre.length + 2) < 2 ^ 64 := by
        intro hne
        have hlen := List.length_pos_iff.mpr hne
        have hsize : t.size = 2 + t.payload.length := rfl
        rw [hsplit, List.length_append, hpre] at hwrap
        omega
      obtain ⟨ps, hparams, htlvs⟩ := ih (pre ++ t.encode) (by rw [← hsplit]; exact hwrap)
        (by rw [← hsplit]; exact h)
      refine ⟨ValidParam.ofTlv addr pre.length t hpos :: ps, ?_, ?_⟩
      · rw [List.map_cons, hparams, hpre]
        rfl
      · rw [List.flatMap_cons] at h
        rw [List.map_cons, htlvs, tlv_ofTlv hpos h]

/-- **Encoding undoes decoding.**  A buffer whose parameters the permissive decoder
    counts is what the builder makes of them, in another buffer of its size.  The
    memory holds the decoded buffer, which does not wrap around. -/
theorem create_of_getParams (mem : Mem) (params : List AfRpcParam) (numParams : Int) (addr : Word)
    (buf out : List Byte) (n : Int) (decoded : List AfRpcParam) (hparams : numParams = params.length)
    (hwrap : addr.toNat + buf.length ≤ 2 ^ 64) (hmem : readMem mem addr buf.length = buf)
    (hout : out.length = buf.length)
    (hdec : afRpcGetParamsFromBuffer params numParams addr buf buf.length true = .ok (n, decoded))
    (hn : 1 ≤ n) :
    afRpcCreateBufferWithParams mem out buf.length (decoded.take n.toNat) =
      .ok ((buf.length : Int), buf) := by
  obtain ⟨ts, hbuf, _, hpfx, htake, _⟩ := accepted_message hparams hdec hn
  have hlen : buf.length = messageSize ts := by rw [hbuf, encodeMessage_length]
  have hsplit : buf = toBe 2 (messageSize ts) ++ ts.flatMap Tlv.encode := hbuf
  obtain ⟨ps, hps, htlvs⟩ := exists_validParams ts (toBe 2 (messageSize ts))
    (by rw [← hsplit]; exact hwrap) (by rw [← hsplit]; exact hmem)
  rw [toBe_length] at hps
  have hcreate := create_eq_encodeMessage mem ps out (by rw [htlvs]; omega) (by rw [htlvs]; exact hpfx)
  rw [htlvs, hps, hout, ← hbuf, List.drop_eq_nil_of_le (by omega), List.append_nil, ← hlen,
    ← htake] at hcreate
  exact hcreate

/-- A byte of -1, a string of two bytes and an empty blob, held at address 64. -/
theorem create_of_getParams_string :
    afRpcCreateBufferWithParams
        (fun a => [(0 : Byte), 11, 0xD0, 0, 0xFF, 0x40, 2, 5, 6, 0, 0].getD (a.toNat - 64) 0)
        (List.replicate 11 0) 11
        ([⟨BitVec.allOnes 64, 0xD000⟩, ⟨71, 0x4002⟩, ⟨75, 0⟩, ⟨0, 0⟩].take 3) =
      .ok (11, [0, 11, 0xD0, 0, 0xFF, 0x40, 2, 5, 6, 0, 0]) :=
  create_of_getParams
    (fun a => [(0 : Byte), 11, 0xD0, 0, 0xFF, 0x40, 2, 5, 6, 0, 0].getD (a.toNat - 64) 0)
    (List.replicate 4 ⟨0, 0⟩) 4 64 [0, 11, 0xD0, 0, 0xFF, 0x40, 2, 5, 6, 0, 0] (List.replicate 11 0) 3
    _ rfl (by decide) (by decide) rfl rfl (by decide)

end AfIpc.Rpc
