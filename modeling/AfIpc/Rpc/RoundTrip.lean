/-
  AfIpc.Rpc.RoundTrip

  Decoding undoes encoding.  The batch builder writes `encodeMessage` of the
  parameters' TLVs and the batch decoder stores `decodedParams` for such a
  message; what is left is that each stored parameter reads back as the one it
  came from.  Blobs are read back from memory, where the decoder's base points
  into the message.
-/

import AfIpc.Rpc.BuilderSpec
import AfIpc.Rpc.DecoderSpec

namespace AfIpc.Rpc

open AfIpc.Lib

-- ============================================================================
-- Values
-- ============================================================================

/-- A base reduced to the width and signedness of an integer kind. -/
def IntKind.reduce (k : IntKind) (base : Word) : Int :=
  if k.isSigned then Int.bmod base.toNat (2 ^ (8 * k.width))
  else (base.toNat : Int) % 2 ^ (8 * k.width)

theorem IntKind.value_setWidth (k : IntKind) (base : Word) :
    k.value (base.setWidth (8 * k.width)) = k.reduce base := by
  unfold IntKind.value IntKind.reduce
  by_cases hs : k.isSigned = true
  · rw [if_pos hs, if_pos hs, BitVec.toInt_setWidth]
  · rw [if_neg hs, if_neg hs, BitVec.toNat_setWidth]
    push_cast
    rfl

/-- The `AF_RPC_SET_PARAM_AS_*` macro of a kind keeps a value of that kind. -/
theorem IntKind.reduce_setParamAs (k : IntKind) (bits : BitVec (8 * k.width)) :
    k.reduce (setParamAs k.type (k.value bits)).base = k.value bits := by
  rw [← IntKind.value_setWidth]
  congr 1
  have hw : 8 * k.width ≤ 64 := by cases k <;> decide
  show (BitVec.ofInt 64 (k.value bits)).setWidth (8 * k.width) = bits
  unfold IntKind.value
  split_ifs
  · exact setWidth_signExtend bits hw
  · rw [BitVec.ofInt_natCast, BitVec.ofNat_toNat]
    exact setWidth_setWidth_self bits hw

/-- The number an integer's bytes hold is the reduced base. -/
theorem value_toBe (k : IntKind) (base : Word) :
    k.value (BitVec.ofNat (8 * k.width) (ofBe (toBe k.width base.toNat))) = k.reduce base := by
  have hpow : 256 ^ k.width = 2 ^ (8 * k.width) := by
    rw [Nat.pow_mul]
  have hbits : BitVec.ofNat (8 * k.width) (ofBe (toBe k.width base.toNat)) =
      base.setWidth (8 * k.width) := by
    apply BitVec.eq_of_toNat_eq
    rw [ofBe_toBe, BitVec.toNat_ofNat, BitVec.toNat_setWidth, hpow, Nat.mod_mod]
  rw [hbits, IntKind.value_setWidth]

-- ============================================================================
-- The decoded array
-- ============================================================================

/-- The decoded parameter `d` is `p`: the same 16-bit type, the same integer up to
    its kind, the same bytes.  `mem` is the memory `p` points into, `mem'` the one
    `d` does. -/
structure SameParam (mem mem' : Mem) (p : ValidParam) (d : AfRpcParam) : Prop where
  type : d.type = p.type.setWidth 32
  int : ∀ k : IntKind, p.type = k.type →
    k.value (getParam (8 * k.width) d) = k.reduce p.param.base
  blob : typeIsBlob p.type = true →
    readMem mem' d.base (blobSize (d.type.setWidth 16)).toNat =
      readMem mem p.param.base (blobSize p.type).toNat

theorem sameParam_decodedParam {mem mem' : Mem} {addr : Word} {p : ValidParam}
    {pre post : List Byte}
    (h : readMem mem' addr (pre ++ ((p.tlv mem).encode ++ post)).length =
      pre ++ ((p.tlv mem).encode ++ post)) :
    SameParam mem mem' p (decodedParam addr pre.length (p.tlv mem)) where
  type := rfl
  int := by
    intro k hk
    have hpay : (p.tlv mem).payload = toBe k.width p.param.base.toNat :=
      ValidParam.payload_int hk
    rw [getParam_decodedParam addr pre.length (t := p.tlv mem) hk, hpay, value_toBe]
  blob := by
    intro hb
    have htype : (decodedParam addr pre.length (p.tlv mem)).type.setWidth 16 = p.type := by
      show (p.type.setWidth 32).setWidth 16 = p.type
      exact setWidth_setWidth_self p.type (by decide)
    have hlen : (blobSize p.type).toNat = (p.payload mem).length := by
      have hwf := p.payload_wf mem
      rw [payloadSize_of_isBlob hb, Option.some.injEq] at hwf
      exact hwf
    rw [htype, ← ValidParam.payload_blob hb, hlen]
    exact readMem_decodedParam (t := p.tlv mem) hb h

theorem sameParam_decodedParams {mem mem' : Mem} {addr : Word} (ps : List ValidParam)
    (pre post : List Byte)
    (h : readMem mem' addr (pre ++ (tlvsBytes mem ps ++ post)).length =
      pre ++ (tlvsBytes mem ps ++ post)) :
    List.Forall₂ (SameParam mem mem') ps
      (decodedParams addr pre.length (ps.map (ValidParam.tlv mem))) := by
  induction ps generalizing pre with
  | nil => exact List.Forall₂.nil
  | cons p ps ih =>
      have hsplit : tlvsBytes mem (p :: ps) = (p.tlv mem).encode ++ tlvsBytes mem ps := by
        simp [tlvsBytes]
      have hpre : (pre ++ (p.tlv mem).encode).length = pre.length + (p.tlv mem).size := by
        rw [List.length_append, Tlv.encode_length]
      rw [hsplit, List.append_assoc] at h
      rw [List.map_cons, decodedParams, ← hpre]
      refine List.Forall₂.cons (sameParam_decodedParam h) (ih (pre ++ (p.tlv mem).encode) ?_)
      rw [List.append_assoc]
      exact h

-- ============================================================================
-- The round trip
-- ============================================================================

/-- What the encoding of a parameter list takes, by the code's own sizes. -/
def encodedSize (ps : List ValidParam) : Int :=
  2 + (ps.map (fun p => 2 + afRpcGetSizeOfType p.type)).sum

theorem encodedSize_eq (mem : Mem) (ps : List ValidParam) :
    encodedSize ps = messageSize (ps.map (ValidParam.tlv mem)) := by
  have hsum : (ps.map (fun p => 2 + afRpcGetSizeOfType p.type)).sum = tlvsSize mem ps := by
    unfold tlvsSize
    induction ps with
    | nil => rfl
    | cons p ps ih =>
        have hsize := sizeOfType_param mem p
        have htlv : (p.tlv mem).size = 2 + (p.payload mem).length := rfl
        rw [List.map_cons, List.map_cons, List.map_cons, List.sum_cons, List.sum_cons, ih, hsize,
          htlv]
        push_cast
        rfl
  rw [encodedSize, hsum]
  rfl

/-- A parameter array the decoder may be given for `ps`: of the same length, and
    of matching kinds in strict mode. -/
def Template (permissive : Bool) (template : List AfRpcParam) (ps : List ValidParam) : Prop :=
  List.Forall₂ (fun entry p => permissive = true ∨ TypeMatches entry.type p.type) template ps

theorem Template.entry {mem : Mem} {permissive : Bool} {template : List AfRpcParam}
    {ps : List ValidParam} (h : Template permissive template ps) (i : Nat)
    (hi : i < (ps.map (ValidParam.tlv mem)).length) :
    ∃ entry, template[i]? = some entry ∧
      (permissive = true ∨ TypeMatches entry.type (ps.map (ValidParam.tlv mem))[i].type) := by
  rw [List.length_map] at hi
  have hin : i < template.length := by
    rw [List.Forall₂.length_eq h]
    exact hi
  have hget := (List.forall₂_iff_get.mp h).2 i hin hi
  refine ⟨template[i], List.getElem?_eq_getElem hin, ?_⟩
  rw [List.getElem_map]
  exact hget

/-- The prefix of what the builder wrote, once cut to its length. -/
theorem getlen_message {ts : List Tlv} (h : messageSize ts < 2 ^ 16) :
    getlen (encodeMessage ts) 0 = .ok (BitVec.ofNat 16 (messageSize ts)) := by
  have hget := getlen_encodeMessage ts [] h
  rw [List.append_nil] at hget
  exact hget

/-- The decoder on the encoding of `ps`. -/
theorem getParams_encodeMessage (mem : Mem) (ps : List ValidParam) (addr : Word)
    (template : List AfRpcParam) (permissive : Bool) (htemplate : Template permissive template ps)
    (hpfx : messageSize (ps.map (ValidParam.tlv mem)) < 2 ^ 16) :
    afRpcGetParamsFromBuffer template ps.length addr
        (encodeMessage (ps.map (ValidParam.tlv mem)))
        (messageSize (ps.map (ValidParam.tlv mem))) permissive =
      .ok ((ps.length : Int), decodedParams addr 2 (ps.map (ValidParam.tlv mem))) := by
  have hlen := getlen_message hpfx
  have hn := toNat_ofNat_length hpfx
  have hbody : (encodeMessage (ps.map (ValidParam.tlv mem))).drop 2 =
      (ps.map (ValidParam.tlv mem)).flatMap Tlv.encode ++ [] := by
    simp [encodeMessage]
  have hcount : (ps.map (ValidParam.tlv mem)).length = ps.length := List.length_map _
  have hwhole := getParams_whole addr template ps.length _ permissive hbody hlen
    (by rw [hn, encodeMessage_length]) hn.symm (by rw [hcount]) htemplate.entry
  rw [encodeMessage_length, hn, hcount] at hwhole
  rw [hwhole, storeParams_all _ _ _ _ (by rw [hcount, htemplate.length_eq]), getParamsEnd,
    if_neg (fun h => h.2 rfl), if_neg (fun h => h rfl)]

/-- The permissive decoder on a message, with an array that may be larger. -/
theorem getParams_message (addr : Word) {template : List AfRpcParam} {ts : List Tlv}
    (hroom : ts.length ≤ template.length) (hpfx : messageSize ts < 2 ^ 16) :
    ∃ decoded, afRpcGetParamsFromBuffer template template.length addr (encodeMessage ts)
        (messageSize ts) true = .ok ((ts.length : Int), decoded) ∧
      decoded.take ts.length = decodedParams addr 2 ts := by
  have hlen := getlen_message hpfx
  have hn := toNat_ofNat_length hpfx
  have hbody : (encodeMessage ts).drop 2 = ts.flatMap Tlv.encode ++ [] := by simp [encodeMessage]
  have hwhole := getParams_whole addr template template.length _ true hbody hlen
    (by rw [hn, encodeMessage_length]) hn.symm (by omega)
    (fun i hi => ⟨_, List.getElem?_eq_getElem (show i < template.length by omega), .inl rfl⟩)
  rw [encodeMessage_length, hn, getParamsEnd, if_neg (fun h => by cases h.1),
    if_neg (fun h => h rfl)] at hwhole
  refine ⟨_, hwhole, ?_⟩
  rw [storeParams_eq _ _ _ _ _ (by omega), List.take_zero, List.nil_append]
  exact List.take_left' (decodedParams_length addr 2 ts)

/-- **Round trip.**  Parameters of valid types that fit a buffer are encoded in
    `encodedSize` bytes, and these bytes decode, permissively or against a template
    of matching kinds, to the same parameters. -/
theorem create_getParams_round_trip (mem : Mem) (ps : List ValidParam) (buf : List Byte)
    (hfit : encodedSize ps ≤ buf.length) (hbuf : buf.length ≤ 65535) :
    ∃ out, afRpcCreateBufferWithParams mem buf buf.length (ps.map ValidParam.param) =
        .ok (encodedSize ps, out) ∧
      ∀ (addr : Word) (mem' : Mem) (template : List AfRpcParam) (permissive : Bool),
        readMem mem' addr (encodedSize ps).toNat = out.take (encodedSize ps).toNat →
        Template permissive template ps →
        ∃ decoded, afRpcGetParamsFromBuffer template ps.length addr
            (out.take (encodedSize ps).toNat) (encodedSize ps) permissive =
            .ok ((ps.length : Int), decoded) ∧
          List.Forall₂ (SameParam mem mem') ps decoded := by
  rw [encodedSize_eq mem] at hfit ⊢
  have hpfx : messageSize (ps.map (ValidParam.tlv mem)) < 2 ^ 16 := by omega
  refine ⟨_, create_eq_encodeMessage mem ps buf (by omega) hpfx, ?_⟩
  intro addr mem' template permissive hmem htemplate
  have htake : ∀ rest, (encodeMessage (ps.map (ValidParam.tlv mem)) ++ rest).take
      (messageSize (ps.map (ValidParam.tlv mem))) =
        encodeMessage (ps.map (ValidParam.tlv mem)) := by
    intro rest
    rw [← encodeMessage_length, List.take_left]
  rw [Int.toNat_natCast, htake] at hmem ⊢
  refine ⟨_, getParams_encodeMessage mem ps addr template permissive htemplate hpfx, ?_⟩
  have hsplit : encodeMessage (ps.map (ValidParam.tlv mem)) =
      toBe 2 (messageSize (ps.map (ValidParam.tlv mem))) ++ (tlvsBytes mem ps ++ []) := by
    rw [List.append_nil]
    rfl
  rw [← encodeMessage_length, hsplit] at hmem
  have hsame := sameParam_decodedParams ps _ [] hmem
  rw [toBe_length] at hsame
  exact hsame

/-- A byte of -1, a string of two bytes at address 5 and an empty blob, decoded
    in strict mode from a message held at address 64. -/
theorem create_getParams_round_trip_string :
    let mem : Mem := fun a => a.setWidth 8
    let ps : List ValidParam :=
      [⟨⟨BitVec.allOnes 64, 0xD000⟩, .inl ⟨.int8, by decide⟩⟩,
        ⟨⟨5, 0x4002⟩, .inr ⟨by decide, fun _ => by decide⟩⟩,
        ⟨⟨0, 0⟩, .inr ⟨by decide, fun h => absurd rfl h⟩⟩]
    let message : List Byte := [0, 11, 0xD0, 0, 0xFF, 0x40, 2, 5, 6, 0, 0]
    ∃ decoded, afRpcGetParamsFromBuffer [⟨0, 0xD000⟩, ⟨0, 0⟩, ⟨0, 0⟩] 3 64 message 11 false =
        .ok (3, decoded) ∧
      List.Forall₂ (SameParam mem (fun a => message.getD (a.toNat - 64) 0)) ps decoded := by
  intro mem ps message
  obtain ⟨out, hcreate, hdecode⟩ :=
    create_getParams_round_trip mem ps (List.replicate 12 0) (by decide) (by decide)
  have hrun : afRpcCreateBufferWithParams mem (List.replicate 12 0) 12
      (ps.map ValidParam.param) = .ok (11, message ++ [0]) := by
    rfl
  have hout : out = message ++ [0] := by
    have h := hcreate.symm.trans hrun
    simp only [Except.ok.injEq, Prod.mk.injEq] at h
    exact h.2
  subst hout
  have htemplate : Template false [⟨0, 0xD000⟩, ⟨0, 0⟩, ⟨0, 0⟩] ps :=
    .cons (.inr (by decide)) (.cons (.inr (by decide)) (.cons (.inr (by decide)) .nil))
  obtain ⟨decoded, hget, hsame⟩ := hdecode 64 (fun a => message.getD (a.toNat - 64) 0)
    [⟨0, 0xD000⟩, ⟨0, 0⟩, ⟨0, 0⟩] false (by decide) htemplate
  exact ⟨decoded, hget, hsame⟩

end AfIpc.Rpc
