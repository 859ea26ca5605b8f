/-
  AfIpc.Rpc.DecoderSpec

  The batch decoder against the grammar.  One iteration of its loop consumes the
  TLV at the position (`getParamsLoop_step`), fails on anything that is not one
  (`getParamsLoop_bad`), or leaves early because the array is full
  (`getParamsLoop_full`).  `getParamsLoop_run` iterates the first over a list of
  TLVs, by induction on the list.
-/

import AfIpc.Rpc.Grammar

namespace AfIpc.Rpc

open AfIpc.Lib

-- ============================================================================
-- What is stored for a TLV
-- ============================================================================

/-- The parameter stored for the TLV `t` found at `pos`. -/
def decodedParam (addr : Word) (pos : Nat) (t : Tlv) : AfRpcParam where
  base :=
    match loadedInt t.type with
    | some (_, toBase) => toBase t.payload
    | none => addr + BitVec.ofNat 64 (pos + 2)
  type := t.type.setWidth 32

theorem decodedParam_base (addr : Word) (pos : Nat) (t : Tlv) :
    (decodedParam addr pos t).base =
      match loadedInt t.type with
      | some (_, toBase) => toBase t.payload
      | none => addr + BitVec.ofNat 64 (pos + 2) := rfl

/-- The entries from `param` on, overwritten by the TLVs from `pos` on. -/
def storeParams (addr : Word) :
    List AfRpcParam → Nat → Nat → List Tlv → List AfRpcParam
  | params, _, _, [] => params
  | params, param, pos, t :: ts =>
    storeParams addr (params.set param (decodedParam addr pos t)) (param + 1) (pos + t.size) ts

@[simp] theorem storeParams_length (addr : Word) (params : List AfRpcParam) (param pos : Nat)
    (ts : List Tlv) : (storeParams addr params param pos ts).length = params.length := by
  induction ts generalizing params param pos with
  | nil => rfl
  | cons t ts ih => rw [storeParams, ih, List.length_set]

/-- The parameters stored for consecutive TLVs, the first of them at `pos`. -/
def decodedParams (addr : Word) : Nat → List Tlv → List AfRpcParam
  | _, [] => []
  | pos, t :: ts => decodedParam addr pos t :: decodedParams addr (pos + t.size) ts

@[simp] theorem decodedParams_length (addr : Word) (pos : Nat) (ts : List Tlv) :
    (decodedParams addr pos ts).length = ts.length := by
  induction ts generalizing pos with
  | nil => rfl
  | cons t ts ih => rw [decodedParams, List.length_cons, List.length_cons, ih]

/-- Entries before the first and behind the last TLV are not written. -/
theorem storeParams_eq (addr : Word) (params : List AfRpcParam) (param pos : Nat)
    (ts : List Tlv) (h : param + ts.length ≤ params.length) :
    storeParams addr params param pos ts =
      params.take param ++ (decodedParams addr pos ts ++ params.drop (param + ts.length)) := by
  induction ts generalizing params param pos with
  | nil => simp [storeParams, decodedParams]
  | cons t ts ih =>
      rw [List.length_cons] at h ⊢
      have hset : (params.set param (decodedParam addr pos t)).take (param + 1) =
          params.take param ++ [decodedParam addr pos t] := by
        rw [List.set_eq_take_append_cons_drop, if_pos (by omega),
          List.take_append, List.take_take]
        simp [Nat.min_eq_left (show param ≤ params.length by omega)]
      rw [storeParams, decodedParams, ih _ _ _ (by rw [List.length_set]; omega), hset,
        List.drop_set_of_lt (by omega), List.append_assoc]
      have hidx : param + 1 + ts.length = param + (ts.length + 1) := by omega
      rw [hidx]
      rfl

/-- An array of exactly as many entries is overwritten completely. -/
theorem storeParams_all (addr : Word) (params : List AfRpcParam) (pos : Nat) (ts : List Tlv)
    (h : ts.length = params.length) :
    storeParams addr params 0 pos ts = decodedParams addr pos ts := by
  rw [storeParams_eq addr params 0 pos ts (by omega), h, List.take_zero, Nat.zero_add,
    List.drop_length, List.nil_append, List.append_nil]

/-- The decoder's `switch` on an integer kind reads its width. -/
theorem loadedInt_type (k : IntKind) : ∃ toBase, loadedInt k.type = some (k.width, toBase) := by
  cases k <;> exact ⟨_, rfl⟩

/-- The types the decoder loads are those of the integer kinds, with their widths. -/
theorem loadedInt_eq_some {type : BitVec 16} {n : Nat} {toBase : List Byte → Word}
    (h : loadedInt type = some (n, toBase)) : afRpcGetSizeOfType type = n := by
  cases hkind : IntKind.ofType type with
  | none =>
      rw [loadedInt_eq_none_iff.mpr hkind] at h
      cases h
  | some k =>
      obtain rfl := IntKind.type_of_ofType hkind
      obtain ⟨toBase', hload⟩ := loadedInt_type k
      rw [hload] at h
      obtain ⟨rfl, _⟩ := Prod.mk.inj (Option.some.inj h)
      exact sizeOfType_type k

theorem loadedInt_of_isBlob {t : BitVec 16} (h : typeIsBlob t = true) : loadedInt t = none :=
  loadedInt_eq_none_iff.mpr (ofType_of_isBlob h)

/-- Cutting off a sign extension gives back the number. -/
theorem setWidth_signExtend {w v : Nat} (x : BitVec w) (h : w ≤ v) :
    (x.signExtend v).setWidth w = x := by
  ext i hi
  simp only [BitVec.getElem_setWidth, BitVec.getLsbD_signExtend]
  simp [hi]
  omega

/-- Cutting off a zero extension gives back the number. -/
theorem setWidth_setWidth_self {w v : Nat} (x : BitVec w) (h : w ≤ v) :
    (x.setWidth v).setWidth w = x := by
  rw [BitVec.setWidth_setWidth_of_le _ h, BitVec.setWidth_eq]

/-- Whatever extension the decoder applies, the matching macro cuts it off. -/
theorem setWidth_loadedInt {k : IntKind} {toBase : List Byte → Word} {n : Nat}
    (h : loadedInt k.type = some (n, toBase)) (bs : List Byte) :
    (toBase bs).setWidth (8 * k.width) = BitVec.ofNat (8 * k.width) (ofBe bs) := by
  cases k with
  | uint8 =>
      obtain ⟨_, rfl⟩ := Option.some.inj h
      exact setWidth_setWidth_self (BitVec.ofNat 8 (ofBe bs)) (by decide)
  | uint16 =>
      obtain ⟨_, rfl⟩ := Option.some.inj h
      exact setWidth_setWidth_self (BitVec.ofNat 16 (ofBe bs)) (by decide)
  | uint32 =>
      obtain ⟨_, rfl⟩ := Option.some.inj h
      exact setWidth_setWidth_self (BitVec.ofNat 32 (ofBe bs)) (by decide)
  | int8 =>
      obtain ⟨_, rfl⟩ := Option.some.inj h
      exact setWidth_signExtend (BitVec.ofNat 8 (ofBe bs)) (by decide)
  | int16 =>
      obtain ⟨_, rfl⟩ := Option.some.inj h
      show (((BitVec.ofNat 16 (ofBe bs)).signExtend 32).setWidth 64).setWidth 16 = _
      rw [BitVec.setWidth_setWidth_of_le _ (by decide), setWidth_signExtend _ (by decide)]
      rfl
  | int32 =>
      obtain ⟨_, rfl⟩ := Option.some.inj h
      exact setWidth_setWidth_self (BitVec.ofNat 32 (ofBe bs)) (by decide)

/-- The matching macro on a decoded integer gives the number in its payload. -/
theorem getParam_decodedParam (addr : Word) (pos : Nat) {t : Tlv} {k : IntKind}
    (h : t.type = k.type) :
    getParam (8 * k.width) (decodedParam addr pos t) =
      BitVec.ofNat (8 * k.width) (ofBe t.payload) := by
  obtain ⟨toBase, htoBase⟩ := loadedInt_type k
  have hload : loadedInt t.type = some (k.width, toBase) := by rw [h, htoBase]
  simp only [getParam, decodedParam, hload]
  exact setWidth_loadedInt htoBase t.payload

/-- The base of a decoded blob points at its payload. -/
theorem decodedParam_base_of_isBlob (addr : Word) (pos : Nat) {t : Tlv}
    (h : typeIsBlob t.type = true) :
    (decodedParam addr pos t).base = addr + BitVec.ofNat 64 (pos + 2) := by
  simp [decodedParam, loadedInt_of_isBlob h]

/-- Bytes of a region that memory is known to hold. -/
theorem readMem_slice {mem : Mem} {a : Word} {pre mid post : List Byte}
    (h : readMem mem a (pre ++ (mid ++ post)).length = pre ++ (mid ++ post)) :
    readMem mem (a + BitVec.ofNat 64 pre.length) mid.length = mid := by
  apply List.ext_getElem
  · exact readMem_length mem _ _
  · intro i _ hmid
    have hget : (readMem mem a (pre ++ (mid ++ post)).length)[pre.length + i]? =
        (pre ++ (mid ++ post))[pre.length + i]? := by rw [h]
    have hin : pre.length + i < (pre ++ (mid ++ post)).length := by
      rw [List.length_append, List.length_append]
      omega
    rw [List.getElem?_append_right (by omega), Nat.add_sub_cancel_left,
      List.getElem?_append_left hmid, List.getElem?_eq_getElem hmid] at hget
    simp only [readMem, List.getElem?_map, List.getElem?_range hin, Option.map_some,
      Option.some.injEq] at hget
    simp only [readMem, List.getElem_map, List.getElem_range]
    rw [← hget, BitVec.add_assoc, ← BitVec.ofNat_add]

/-- In memory that holds the buffer, a decoded blob reads back as its payload. -/
theorem readMem_decodedParam {mem : Mem} {addr : Word} {t : Tlv} {pre post : List Byte}
    (hb : typeIsBlob t.type = true)
    (h : readMem mem addr (pre ++ (t.encode ++ post)).length = pre ++ (t.encode ++ post)) :
    readMem mem (decodedParam addr pre.length t).base t.payload.length = t.payload := by
  -- the payload starts behind the type field
  have hsplit : pre ++ (t.encode ++ post) = (pre ++ toBe 2 t.type.toNat) ++ (t.payload ++ post) := by
    simp [Tlv.encode]
  rw [hsplit] at h
  have hslice := readMem_slice h
  rw [List.length_append, toBe_length] at hslice
  rw [decodedParam_base_of_isBlob addr pre.length hb]
  exact hslice

-- ============================================================================
-- One iteration
-- ============================================================================

/-- The type test of strict mode: the expected type of an integer is its exact
    type, and a blob only asks for some blob or string. -/
def TypeMatches (expType : BitVec 32) (type : BitVec 16) : Prop :=
  if typeIsInteger type then expType = type.setWidth 32
  else typeIsBlob (expType.setWidth 16) = true

instance (expType : BitVec 32) (type : BitVec 16) : Decidable (TypeMatches expType type) :=
  inferInstanceAs (Decidable (if typeIsInteger type then expType = type.setWidth 32
    else typeIsBlob (expType.setWidth 16) = true))

section Step

variable (addr : Word) (buf : List Byte) (numParams bufSize : Int) (permissive : Bool)
  (len fuel : Nat) (params : List AfRpcParam) (param pos : Nat)

/-- The loop leaves with 0 when TLVs remain and the array is full. -/
theorem getParamsLoop_full (hpos : pos < len) (hfull : numParams ≤ param) :
    getParamsLoop addr buf numParams bufSize permissive len (fuel + 1) params param pos =
      .ok (0, params) := by
  simp only [getParamsLoop]
  rw [if_neg (not_not.mpr hpos), if_pos hfull]
  rfl

/-- The loop ends when it has reached the length. -/
theorem getParamsLoop_end (hpos : len ≤ pos) :
    getParamsLoop addr buf numParams bufSize permissive len (fuel + 1) params param pos =
      .ok (getParamsEnd numParams bufSize permissive params param pos) := by
  simp only [getParamsLoop]
  rw [if_pos (by omega)]
  rfl

/-- The loop stores a TLV of a type the mode allows and goes on behind it. -/
theorem getParamsLoop_step (t : Tlv) (pre ys : List Byte) (entry : AfRpcParam)
    (hbuf : buf = pre ++ (t.encode ++ ys)) (hlen : pre.length + t.size ≤ len)
    (hnum : (param : Int) < numParams) (hentry : params[param]? = some entry)
    (hmatch : permissive = true ∨ TypeMatches entry.type t.type) :
    getParamsLoop addr buf numParams bufSize permissive len (fuel + 1) params param pre.length =
      getParamsLoop addr buf numParams bufSize permissive len fuel
        (params.set param (decodedParam addr pre.length t)) (param + 1) (pre.length + t.size) := by
  have hsize : t.size = 2 + t.payload.length := rfl
  have hget : getlen buf pre.length = .ok t.type := by
    rw [hbuf, Tlv.encode, List.append_assoc]
    exact getlen_append pre (t.payload ++ ys) t.type
  have hload : load buf (pre.length + 2) t.payload.length = .ok t.payload := by
    have h := load_append (pre ++ toBe 2 t.type.toNat) t.payload ys
    rw [List.length_append, toBe_length] at h
    rw [hbuf, Tlv.encode, List.append_assoc, ← List.append_assoc pre]
    exact h
  have hsz : afRpcGetSizeOfType t.type = t.payload.length := sizeOfType_of_payloadSize t.wf
  have hin : param < params.length := by
    by_contra hout
    rw [List.getElem?_eq_none (by omega)] at hentry
    cases hentry
  have hread : readParam params param = .ok entry := by simp [readParam, hentry]
  simp only [getParamsLoop]
  rw [if_neg (by omega), if_neg (by omega), if_neg (by omega)]
  simp only [hget, hread, bind, Except.bind]
  rw [hsz, if_neg (by push_cast; omega)]
  rcases payloadSize_eq_some t.wf with ⟨k, hk, hwidth⟩ | ⟨hb, _⟩
  · -- an integer
    have hint : typeIsInteger t.type = true := by rw [hk]; exact isInteger_type k
    have hmask : ¬ (t.type &&& typeIntegerTypeMask ≠ t.type) := by
      rw [hk, mask_type]
      exact fun hne => hne rfl
    have hmode : ¬ (permissive = false ∧ entry.type ≠ t.type.setWidth 32) := by
      rintro ⟨hp, hne⟩
      rcases hmatch with hp' | hm
      · rw [hp] at hp'
        cases hp'
      · rw [TypeMatches, if_pos hint] at hm
        exact hne hm
    obtain ⟨toBase, htoBase⟩ := loadedInt_type k
    have hloaded : loadedInt t.type = some (t.payload.length, toBase) := by
      rw [hk, htoBase, hwidth]
    rw [if_pos hint, if_neg hmask, if_neg hmode]
    -- the entry is written twice: its type, then its value
    have hin' : param < (params.set param ⟨entry.base, t.type.setWidth 32⟩).length := by
      rw [List.length_set]
      exact hin
    simp only [writeParam, if_pos hin, if_pos hin', hloaded, hload]
    rw [List.set_set, hsize, ← Nat.add_assoc]
    simp [decodedParam, hloaded]
  · -- a blob
    have hint : ¬ typeIsInteger t.type = true := fun h => isInteger_iff.mp h hb
    have hmode : ¬ (permissive = false ∧ ¬ typeIsBlob (entry.type.setWidth 16) = true) := by
      rintro ⟨hp, hne⟩
      rcases hmatch with hp' | hm
      · rw [hp] at hp'
        cases hp'
      · rw [TypeMatches, if_neg hint] at hm
        exact hne hm
    rw [if_neg hint, if_neg hmode]
    simp only [writeParam, if_pos hin, Int.toNat_natCast]
    rw [hsize, ← Nat.add_assoc]
    simp [decodedParam, loadedInt_of_isBlob hb]

/-- The loop fails on bytes that do not start with a TLV, in either mode. -/
theorem getParamsLoop_bad (hlen : len ≤ buf.length) (hpos : pos < len)
    (hnum : (param : Int) < numParams) (hin : param < params.length)
    (hbad : Tlv.head ((buf.take len).drop pos) = none) :
    ∃ code params', getParamsLoop addr buf numParams bufSize permissive len (fuel + 1)
      params param pos = .ok (code, params') ∧ code < 0 := by
  have hbody : ((buf.take len).drop pos).length = len - pos := by
    rw [List.length_drop, List.length_take]
    omega
  simp only [getParamsLoop]
  rw [if_neg (by omega), if_neg (by omega)]
  by_cases h2 : pos + 2 ≤ len
  · rw [if_neg (not_not.mpr h2)]
    have htake : (((buf.take len).drop pos).take 2) = (buf.drop pos).take 2 := by
      rw [List.drop_take, List.take_take]
      congr 1
      omega
    have hget : getlen buf pos = .ok (BitVec.ofNat 16 (ofBe ((buf.drop pos).take 2))) :=
      getlen_eq_ok (by omega)
    rw [← htake] at hget
    have hread : readParam params param = .ok params[param] := by
      simp [readParam, List.getElem?_eq_getElem hin]
    simp only [hget, hread, bind, Except.bind]
    -- `type` as the grammar reads it off the rest of the message
    have hshort := fun n => Tlv.length_lt_of_head_eq_none (n := n) hbad
    generalize BitVec.ofNat 16 (ofBe (((buf.take len).drop pos).take 2)) = type at hshort ⊢
    by_cases hover : ((pos + 2 : Nat) : Int) + afRpcGetSizeOfType type > len
    · rw [if_pos hover]
      exact ⟨_, _, rfl, by decide⟩
    · rw [if_neg hover]
      -- a type the grammar knows would have been a TLV
      have hnone : payloadSize type = none := by
        cases hps : payloadSize type with
        | none => rfl
        | some n =>
            exfalso
            have hsz := sizeOfType_of_payloadSize hps
            have hlt := hshort n hps
            rw [hbody] at hlt
            omega
      have hkind : IntKind.ofType type = none := by
        cases hk : IntKind.ofType type with
        | none => rfl
        | some k => simp [payloadSize, hk] at hnone
      have hint : typeIsInteger type = true := by
        refine isInteger_iff.mpr (fun hb => ?_)
        rw [payloadSize_of_isBlob hb] at hnone
        cases hnone
      rw [if_pos hint]
      by_cases hmask : type &&& typeIntegerTypeMask ≠ type
      · rw [if_pos hmask]
        exact ⟨_, _, rfl, by decide⟩
      · rw [if_neg hmask]
        by_cases hmode : permissive = false ∧ params[param].type ≠ type.setWidth 32
        · rw [if_pos hmode]
          exact ⟨_, _, rfl, by decide⟩
        · rw [if_neg hmode]
          simp only [writeParam, if_pos hin, loadedInt_eq_none_iff.mpr hkind]
          exact ⟨_, _, rfl, by decide⟩
  · rw [if_pos h2]
    exact ⟨_, _, rfl, by decide⟩

end Step

-- ============================================================================
-- Iterations
-- ============================================================================

/-- The loop over a list of TLVs whose types the mode allows. -/
theorem getParamsLoop_run (addr : Word) (buf : List Byte) (numParams bufSize : Int)
    (permissive : Bool) (len fuel : Nat) (params : List AfRpcParam) (param : Nat) (ts : List Tlv)
    (pre ys : List Byte) (hbuf : buf = pre ++ (ts.flatMap Tlv.encode ++ ys))
    (hlen : pre.length + (ts.map Tlv.size).sum ≤ len)
    (hnum : (param + ts.length : Int) ≤ numParams)
    (hmatch : ∀ i (hi : i < ts.length), ∃ entry, params[param + i]? = some entry ∧
      (permissive = true ∨ TypeMatches entry.type ts[i].type)) :
    getParamsLoop addr buf numParams bufSize permissive len (fuel + ts.length) params param
        pre.length =
      getParamsLoop addr buf numParams bufSize permissive len fuel
        (storeParams addr params param pre.length ts) (param + ts.length)
        (pre.length + (ts.map Tlv.size).sum) := by
  induction ts generalizing params param pre with
  | nil => simp [storeParams]
  | cons t ts ih =>
      rw [List.map_cons, List.sum_cons] at hlen ⊢
      rw [List.length_cons] at hnum ⊢
      rw [List.flatMap_cons, List.append_assoc] at hbuf
      obtain ⟨entry, hentry, hm⟩ := hmatch 0 (by simp)
      rw [Nat.add_zero] at hentry
      have hstep := getParamsLoop_step addr buf numParams bufSize permissive len
        (fuel + ts.length) params param t pre (ts.flatMap Tlv.encode ++ ys) entry hbuf (by omega)
        (by push_cast at hnum; omega) hentry hm
      have hpre : (pre ++ t.encode).length = pre.length + t.size := by
        rw [List.length_append, Tlv.encode_length]
      rw [← Nat.add_assoc, hstep, ← hpre]
      -- the remaining entries are those of the original array
      have hrest : ∀ i (hi : i < ts.length), ∃ entry',
          (params.set param (decodedParam addr pre.length t))[param + 1 + i]? = some entry' ∧
          (permissive = true ∨ TypeMatches entry'.type ts[i].type) := by
        intro i hi
        obtain ⟨entry', hentry', hm'⟩ := hmatch (i + 1) (by simpa using hi)
        refine ⟨entry', ?_, by simpa using hm'⟩
        rw [List.getElem?_set_ne (by omega), ← hentry']
        congr 1
        omega
      rw [ih (params.set param (decodedParam addr pre.length t)) (param + 1) (pre ++ t.encode)
        (by rw [hbuf]; simp [List.append_assoc]) (by rw [hpre]; omega)
        (by push_cast at hnum; omega) hrest]
      rw [hpre, storeParams]
      congr 1
      · omega
      · omega

-- ============================================================================
-- Whole calls
-- ============================================================================

section Calls

variable (addr : Word) (params : List AfRpcParam) (numParams : Int) (buf : List Byte)
  (permissive : Bool)

/-- A prefix beyond the buffer is refused. -/
theorem getParams_long (h2 : 2 ≤ buf.length) (hnum : 0 ≤ numParams) {len : BitVec 16}
    (hlen : getlen buf 0 = .ok len) (hlong : buf.length < len.toNat) :
    afRpcGetParamsFromBuffer params numParams addr buf buf.length permissive =
      .ok (errBadTlv, params) := by
  simp only [afRpcGetParamsFromBuffer, hlen, bind, Except.bind, lengthSize]
  rw [if_neg (by omega), if_neg (by push_cast; omega), if_pos (by omega)]
  rfl

/-- A prefix below its own size goes through to the final checks. -/
theorem getParams_short (h2 : 2 ≤ buf.length) (hnum : 0 ≤ numParams) {len : BitVec 16}
    (hlen : getlen buf 0 = .ok len) (hshort : len.toNat < 2) :
    afRpcGetParamsFromBuffer params numParams addr buf buf.length permissive =
      .ok (getParamsEnd numParams buf.length permissive params 0 2) := by
  simp only [afRpcGetParamsFromBuffer, hlen, bind, Except.bind, lengthSize]
  rw [if_neg (by omega), if_neg (by push_cast; omega), if_neg (by omega)]
  exact getParamsLoop_end addr buf numParams buf.length permissive len.toNat len.toNat params 0 2
    (by omega)

variable {ts : List Tlv} {ys : List Byte} {len : BitVec 16}

/-- The call behind the TLVs `ts` of a message, at an iteration of its loop. -/
theorem getParams_run (hbuf : buf.drop 2 = ts.flatMap Tlv.encode ++ ys)
    (hlen : getlen buf 0 = .ok len) (hle : len.toNat ≤ buf.length)
    (hsum : messageSize ts ≤ len.toNat) (hnum : (ts.length : Int) ≤ numParams)
    (hmatch : ∀ i (hi : i < ts.length), ∃ entry, params[i]? = some entry ∧
      (permissive = true ∨ TypeMatches entry.type ts[i].type)) :
    ∃ fuel, afRpcGetParamsFromBuffer params numParams addr buf buf.length permissive =
      getParamsLoop addr buf numParams buf.length permissive len.toNat (fuel + 1)
        (storeParams addr params 0 2 ts) ts.length (messageSize ts) := by
  have hmsg : messageSize ts = 2 + (ts.map Tlv.size).sum := rfl
  have hcount : ts.length ≤ (ts.map Tlv.size).sum := by
    clear hbuf hsum hnum hmatch hmsg
    induction ts with
    | nil => exact Nat.le_refl 0
    | cons t ts ih =>
        have ht : t.size = 2 + t.payload.length := rfl
        rw [List.map_cons, List.sum_cons, List.length_cons]
        omega
  have htake : (buf.take 2).length = 2 := by rw [List.length_take]; omega
  have hsplit : buf = buf.take 2 ++ (ts.flatMap Tlv.encode ++ ys) := by
    rw [← hbuf, List.take_append_drop]
  have hrun := getParamsLoop_run addr buf numParams buf.length permissive len.toNat
    (len.toNat - ts.length + 1) params 0 ts (buf.take 2) ys hsplit (by rw [htake]; omega)
    (by push_cast; omega) (by simpa using hmatch)
  rw [htake, ← hmsg, Nat.zero_add] at hrun
  have hfuel : len.toNat - ts.length + 1 + ts.length = len.toNat + 1 := by omega
  rw [hfuel] at hrun
  refine ⟨len.toNat - ts.length, ?_⟩
  rw [← hrun]
  simp only [afRpcGetParamsFromBuffer, hlen, bind, Except.bind, lengthSize]
  rw [if_neg (by omega), if_neg (by push_cast; omega), if_neg (by omega)]

/-- A message that the prefix ends behind its last TLV. -/
theorem getParams_whole (hbuf : buf.drop 2 = ts.flatMap Tlv.encode ++ ys)
    (hlen : getlen buf 0 = .ok len) (hle : len.toNat ≤ buf.length)
    (hsum : messageSize ts = len.toNat) (hnum : (ts.length : Int) ≤ numParams)
    (hmatch : ∀ i (hi : i < ts.length), ∃ entry, params[i]? = some entry ∧
      (permissive = true ∨ TypeMatches entry.type ts[i].type)) :
    afRpcGetParamsFromBuffer params numParams addr buf buf.length permissive =
      .ok (getParamsEnd numParams buf.length permissive (storeParams addr params 0 2 ts)
        ts.length len.toNat) := by
  obtain ⟨fuel, hrun⟩ := getParams_run addr params numParams buf permissive hbuf hlen hle
    (by omega) hnum hmatch
  rw [hrun, getParamsLoop_end _ _ _ _ _ _ _ _ _ _ (by omega), hsum]

/-- Bytes behind as many TLVs as the array has room for are not looked at. -/
theorem getParams_full (hbuf : buf.drop 2 = ts.flatMap Tlv.encode ++ ys)
    (hlen : getlen buf 0 = .ok len) (hle : len.toNat ≤ buf.length)
    (hsum : messageSize ts < len.toNat) (hnum : numParams = ts.length)
    (hmatch : ∀ i (hi : i < ts.length), ∃ entry, params[i]? = some entry ∧
      (permissive = true ∨ TypeMatches entry.type ts[i].type)) :
    ∃ out, afRpcGetParamsFromBuffer params numParams addr buf buf.length permissive =
      .ok (0, out) := by
  obtain ⟨fuel, hrun⟩ := getParams_run addr params numParams buf permissive hbuf hlen hle
    (by omega) (by omega) hmatch
  rw [hrun, getParamsLoop_full _ _ _ _ _ _ _ _ _ _ hsum (by omega)]
  exact ⟨_, rfl⟩

/-- Bytes behind the TLVs that are not one are an error if the array has room. -/
theorem getParams_stuck (hbuf : buf.drop 2 = ts.flatMap Tlv.encode ++ ys)
    (hlen : getlen buf 0 = .ok len) (hle : len.toNat ≤ buf.length)
    (hsum : messageSize ts < len.toNat) (hnum : (ts.length : Int) < numParams)
    (hroom : ts.length < params.length)
    (hmatch : ∀ i (hi : i < ts.length), ∃ entry, params[i]? = some entry ∧
      (permissive = true ∨ TypeMatches entry.type ts[i].type))
    (hbad : Tlv.head ((buf.take len.toNat).drop (messageSize ts)) = none) :
    ∃ code out, afRpcGetParamsFromBuffer params numParams addr buf buf.length permissive =
      .ok (code, out) ∧ code < 0 := by
  obtain ⟨fuel, hrun⟩ := getParams_run addr params numParams buf permissive hbuf hlen hle
    (by omega) (by omega) hmatch
  rw [hrun]
  exact getParamsLoop_bad addr buf numParams buf.length permissive len.toNat fuel _ ts.length
    (messageSize ts) hle hsum hnum (by rw [storeParams_length]; exact hroom) hbad

end Calls

end AfIpc.Rpc
