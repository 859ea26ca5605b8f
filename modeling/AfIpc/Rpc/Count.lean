/-
  AfIpc.Rpc.Count

  What a non-negative result of `af_rpc_get_params_from_buffer` says about the
  buffer, in both modes.  The loop ends in one of three ways: with an error, at
  the end of the body with every TLV stored, or where the array is full and bytes
  remain.  The last exit leaves `retVal` as it was set up, so its result 0 is
  taken for a message without parameters.
-/

import AfIpc.Rpc.Acceptance

namespace AfIpc.Rpc

open AfIpc.Lib

-- ============================================================================
-- Strict mode
-- ============================================================================

/-- In strict mode a TLV of another type than expected is an error. -/
theorem getParamsLoop_mismatch (addr : Word) (buf : List Byte) (numParams bufSize : Int)
    (len fuel : Nat) (params : List AfRpcParam) (param : Nat) (t : Tlv) (pre ys : List Byte)
    (entry : AfRpcParam) (hbuf : buf = pre ++ (t.encode ++ ys)) (hlen : pre.length + t.size ≤ len)
    (hnum : (param : Int) < numParams) (hentry : params[param]? = some entry)
    (hmatch : ¬ TypeMatches entry.type t.type) :
    getParamsLoop addr buf numParams bufSize false len (fuel + 1) params param pre.length =
      .ok (errBadType, params) := by
  have hsize : t.size = 2 + t.payload.length := rfl
  have hget : getlen buf pre.length = .ok t.type := by
    rw [hbuf, Tlv.encode, List.append_assoc]
    exact getlen_append pre (t.payload ++ ys) t.type
  have hsz : afRpcGetSizeOfType t.type = t.payload.length := sizeOfType_of_payloadSize t.wf
  have hread : readParam params param = .ok entry := by simp [readParam, hentry]
  simp only [getParamsLoop]
  rw [if_neg (by omega), if_neg (by omega), if_neg (by omega)]
  simp only [hget, hread, bind, Except.bind]
  rw [hsz, if_neg (by push_cast; omega)]
  by_cases hint : typeIsInteger t.type = true
  · rw [TypeMatches, if_pos hint] at hmatch
    rw [if_pos hint]
    -- the mask test comes first, with the same code
    by_cases hmask : t.type &&& typeIntegerTypeMask ≠ t.type
    · rw [if_pos hmask]
      rfl
    · rw [if_neg hmask, if_pos ⟨trivial, hmatch⟩]
      rfl
  · rw [TypeMatches, if_neg hint] at hmatch
    rw [if_neg hint, if_pos ⟨trivial, hmatch⟩]
    rfl

-- ============================================================================
-- The three ends of the loop
-- ============================================================================

section Ends

variable (addr : Word) (numParams : Int) (permissive : Bool)

/-- The rest of the message is a list of TLVs, all of them stored and counted. -/
def Counted (params : List AfRpcParam) (param pos : Nat) (body : List Byte) (ret : Int)
    (out : List AfRpcParam) : Prop :=
  ∃ ts : List Tlv, body = ts.flatMap Tlv.encode ∧ ret = param + ts.length ∧ ret ≤ numParams ∧
    out = storeParams addr params param pos ts ∧ (permissive = false → ret = numParams)

/-- The array is full behind TLVs that the mode allows, and bytes remain. -/
def Overruns (params : List AfRpcParam) (param : Nat) (body : List Byte) : Prop :=
  ∃ (ts : List Tlv) (rest : List Byte), body = ts.flatMap Tlv.encode ++ rest ∧ rest ≠ [] ∧
    (param + ts.length : Int) = numParams ∧
    ∀ i (hi : i < ts.length), ∃ entry, params[param + i]? = some entry ∧
      (permissive = true ∨ TypeMatches entry.type ts[i].type)

variable {addr numParams permissive}

/-- One more TLV in front. -/
theorem Counted.cons {params : List AfRpcParam} {param pos : Nat} {ys : List Byte} {ret : Int}
    {out : List AfRpcParam} (t : Tlv)
    (h : Counted addr numParams permissive (params.set param (decodedParam addr pos t)) (param + 1)
      (pos + t.size) ys ret out) :
    Counted addr numParams permissive params param pos (t.encode ++ ys) ret out := by
  obtain ⟨ts, hbody, hret, hle, hout, hstrict⟩ := h
  refine ⟨t :: ts, ?_, ?_, hle, hout, hstrict⟩
  · rw [List.flatMap_cons, hbody]
  · rw [hret, List.length_cons]
    push_cast
    omega

theorem Overruns.cons {params : List AfRpcParam} {param : Nat} {ys : List Byte} {t : Tlv}
    {entry p : AfRpcParam} (hentry : params[param]? = some entry)
    (hmatch : permissive = true ∨ TypeMatches entry.type t.type)
    (h : Overruns numParams permissive (params.set param p) (param + 1) ys) :
    Overruns numParams permissive params param (t.encode ++ ys) := by
  obtain ⟨ts, rest, hbody, hrest, hcount, hall⟩ := h
  refine ⟨t :: ts, rest, ?_, hrest, ?_, ?_⟩
  · rw [List.flatMap_cons, hbody, List.append_assoc]
  · rw [List.length_cons, ← hcount]
    push_cast
    omega
  · intro i hi
    cases i with
    | zero => exact ⟨entry, hentry, hmatch⟩
    | succ i =>
        obtain ⟨e, he, hm⟩ := hall i (by simpa using hi)
        refine ⟨e, ?_, hm⟩
        rw [List.getElem?_set_ne (by omega)] at he
        rw [← he]
        congr 1
        omega

/-- **The loop** ends in one of the three ways. -/
theorem getParamsLoop_ends {buf : List Byte} {len : Nat} (hlen : len ≤ buf.length) (fuel : Nat)
    (params : List AfRpcParam) (param pos : Nat) (hpos : pos ≤ len) (hfuel : len - pos < fuel)
    (hparam : (param : Int) ≤ numParams) (hroom : numParams ≤ params.length) :
    ∃ ret out, getParamsLoop addr buf numParams buf.length permissive len fuel params param pos =
        .ok (ret, out) ∧
      (ret < 0 ∨ ret = 0 ∧ Overruns numParams permissive params param ((buf.take len).drop pos) ∨
        len = buf.length ∧
          Counted addr numParams permissive params param pos ((buf.take len).drop pos) ret out) := by
  induction fuel generalizing params param pos with
  | zero => omega
  | succ fuel ih =>
      have hbody : ((buf.take len).drop pos).length = len - pos := by
        rw [List.length_drop, List.length_take]
        omega
      by_cases hend : len ≤ pos
      · -- the end of the message
        have hnil : (buf.take len).drop pos = [] := List.eq_nil_of_length_eq_zero (by omega)
        rw [getParamsLoop_end _ _ _ _ _ _ _ _ _ _ hend, hnil]
        simp only [getParamsEnd]
        by_cases hwrong : permissive = false ∧ (param : Int) ≠ numParams
        · rw [if_pos hwrong]
          exact ⟨_, _, rfl, .inl (by decide)⟩
        rw [if_neg hwrong]
        by_cases hlong : (pos : Int) ≠ buf.length
        · rw [if_pos hlong]
          exact ⟨_, _, rfl, .inl (by decide)⟩
        rw [if_neg hlong]
        refine ⟨_, _, rfl, .inr (.inr ⟨by omega, [], rfl, by simp, hparam, rfl, fun hstrict => ?_⟩)⟩
        by_contra hne
        exact hwrong ⟨hstrict, hne⟩
      by_cases hfull : numParams ≤ param
      · -- the array is full
        rw [getParamsLoop_full _ _ _ _ _ _ _ _ _ _ (by omega) hfull]
        refine ⟨_, _, rfl, .inr (.inl ⟨rfl, [], (buf.take len).drop pos, rfl, ?_, ?_, ?_⟩)⟩
        · intro hnil
          rw [hnil, List.length_nil] at hbody
          omega
        · simp only [List.length_nil]
          omega
        · intro i hi
          cases hi
      have hin : param < params.length := by omega
      cases hhead : Tlv.head ((buf.take len).drop pos) with
      | none =>
          obtain ⟨code, out, hbad, hneg⟩ := getParamsLoop_bad addr buf numParams buf.length permissive
            len fuel params param pos hlen (by omega) (by omega) hin hhead
          exact ⟨code, out, hbad, .inl hneg⟩
      | some t =>
          obtain ⟨ys, hys⟩ := Tlv.head_eq_some_iff.mp hhead
          have hpre : (buf.take pos).length = pos := by rw [List.length_take]; omega
          have hsplit : buf = buf.take pos ++ (t.encode ++ (ys ++ buf.drop len)) := by
            rw [← List.append_assoc t.encode, ← hys]
            have hdrop : (buf.take len).drop pos ++ buf.drop len = buf.drop pos := by
              conv_rhs => rw [← List.take_append_drop len buf]
              rw [List.drop_append_of_le_length (by rw [List.length_take]; omega)]
            rw [hdrop, List.take_append_drop]
          have hsize : t.size + ys.length = len - pos := by
            rw [← hbody, hys, List.length_append, Tlv.encode_length]
          have hentry : params[param]? = some params[param] := List.getElem?_eq_getElem hin
          by_cases hmatch : permissive = true ∨ TypeMatches params[param].type t.type
          · have hstep := getParamsLoop_step addr buf numParams buf.length permissive len fuel params
              param t (buf.take pos) (ys ++ buf.drop len) params[param] hsplit (by omega) (by omega)
              hentry hmatch
            rw [hpre] at hstep
            have hrest : (buf.take len).drop (pos + t.size) = ys := by
              rw [← List.drop_drop, hys, ← Tlv.encode_length, List.drop_left]
            have ht : t.size = 2 + t.payload.length := rfl
            obtain ⟨ret, out, hloop, hcases⟩ := ih (params.set param (decodedParam addr pos t))
              (param + 1) (pos + t.size) (by omega) (by omega) (by push_cast; omega)
              (by rw [List.length_set]; exact hroom)
            rw [hrest] at hcases
            rw [hstep, hys]
            refine ⟨ret, out, hloop, ?_⟩
            rcases hcases with hneg | ⟨hzero, hover⟩ | ⟨hwhole, hcounted⟩
            · exact .inl hneg
            · exact .inr (.inl ⟨hzero, hover.cons hentry hmatch⟩)
            · exact .inr (.inr ⟨hwhole, hcounted.cons t⟩)
          · -- a type that strict mode refuses
            rw [not_or, Bool.not_eq_true] at hmatch
            obtain ⟨rfl, hmatch⟩ := hmatch
            have hbad := getParamsLoop_mismatch addr buf numParams buf.length len fuel params param t
              (buf.take pos) (ys ++ buf.drop len) params[param] hsplit (by omega) (by omega) hentry
              hmatch
            rw [hpre] at hbad
            exact ⟨_, _, hbad, .inl (by decide)⟩

end Ends

-- ============================================================================
-- The count
-- ============================================================================

/-- A non-negative result counts the TLVs of the body, all of them stored, and in
    strict mode it is the number expected.  A body with more TLVs than the array has
    room for is an error. -/
def TrueCount (params : List AfRpcParam) (numParams : Int) (addr : Word) (buf : List Byte)
    (permissive : Bool) : Prop :=
  ∃ ret out, afRpcGetParamsFromBuffer params numParams addr buf buf.length permissive =
      .ok (ret, out) ∧
    (∀ n : Nat, ret = n → ∃ ts : List Tlv, ts.length = n ∧ buf.drop 2 = ts.flatMap Tlv.encode ∧
      out = decodedParams addr 2 ts ++ params.drop n ∧ (permissive = false → (n : Int) = numParams)) ∧
    (∀ ts : List Tlv, buf.drop 2 = ts.flatMap Tlv.encode → numParams < ts.length → ret < 0)

/-- The message, as its prefix delimits it, goes on behind `numParams` TLVs that the
    mode allows. -/
def TooMany (params : List AfRpcParam) (numParams : Int) (buf : List Byte) (permissive : Bool) :
    Prop :=
  lengthPrefix buf ≤ buf.length ∧ Overruns numParams permissive params 0 (messageBody buf)

section Count

variable {params : List AfRpcParam} {numParams : Int} {addr : Word} {buf : List Byte}
  {permissive : Bool} {ret : Int} {out : List AfRpcParam}

theorem trueCount_of_error (hret : afRpcGetParamsFromBuffer params numParams addr buf buf.length
    permissive = .ok (ret, out)) (hneg : ret < 0) :
    TrueCount params numParams addr buf permissive :=
  ⟨ret, out, hret, fun n hn => by omega, fun _ _ _ => hneg⟩

theorem trueCount_of_counted (hret : afRpcGetParamsFromBuffer params numParams addr buf buf.length
    permissive = .ok (ret, out)) (hroom : numParams ≤ params.length)
    (h : Counted addr numParams permissive params 0 2 (buf.drop 2) ret out) :
    TrueCount params numParams addr buf permissive := by
  obtain ⟨ts, hbody, hcount, hle, hout, hstrict⟩ := h
  have hlen : ret = ts.length := by
    rw [hcount]
    simp
  refine ⟨ret, out, hret, fun n hn => ⟨ts, by omega, hbody, ?_, fun hs => ?_⟩, fun us hus hmany => ?_⟩
  · rw [hout, storeParams_eq addr params 0 2 ts (by omega), List.take_zero, List.nil_append,
      Nat.zero_add]
    congr 2
    omega
  · rw [← hn]
    exact hstrict hs
  · -- the TLVs of a body are unique
    have hitems := congrArg tlvs.items (hus.symm.trans hbody)
    have hback : ∀ ts : List Tlv, tlvs.items (ts.flatMap Tlv.encode) = ts :=
      fun ts => tlvs_encodes.items_flatMap (fun _ _ => trivial)
    rw [hback us, hback ts] at hitems
    rw [hitems] at hmany
    omega

/-- Where the array is full before the end of the message the result is 0. -/
theorem getParams_tooMany (hmany : TooMany params numParams buf permissive) :
    ∃ out, afRpcGetParamsFromBuffer params numParams addr buf buf.length permissive =
      .ok (0, out) := by
  obtain ⟨hle, ts, rest, hbody, hrest, hcount, hmatch⟩ := hmany
  have hpos := List.length_pos_iff.mpr hrest
  have hsize : (messageBody buf).length = lengthPrefix buf - 2 := by
    rw [messageBody, List.length_drop, List.length_take]
    omega
  rw [hbody, List.length_append, flatMap_encode_length] at hsize
  have hmsg : messageSize ts = 2 + (ts.map Tlv.size).sum := rfl
  have h2' : 2 ≤ buf.length := by omega
  obtain ⟨len, hlen, hlenp⟩ := getlen_lengthPrefix h2'
  obtain ⟨tail, htail⟩ := drop_eq_messageBody buf
  rw [hbody, List.append_assoc] at htail
  refine getParams_full addr params numParams buf permissive htail hlen (by omega) (by omega)
    (by push_cast at hcount; omega) (fun i hi => ?_)
  obtain ⟨entry, hentry, hm⟩ := hmatch i hi
  rw [Nat.zero_add] at hentry
  exact ⟨entry, hentry, hm⟩

/-- **The decoder counts truly** unless the message goes on behind a full array: then
    it returns 0, in either mode, whatever it has stored. -/
theorem trueCount_iff (params : List AfRpcParam) (numParams : Int) (addr : Word)
    (buf : List Byte) (permissive : Bool) (hnum : 0 ≤ numParams)
    (hroom : numParams ≤ params.length) :
    TrueCount params numParams addr buf permissive ↔ ¬ TooMany params numParams buf permissive := by
  refine ⟨?_, ?_⟩
  · rintro ⟨ret, out, hret, hcount, _⟩ hmany
    obtain ⟨out', hzero⟩ : ∃ out', afRpcGetParamsFromBuffer params numParams addr buf buf.length
        permissive = .ok (0, out') := getParams_tooMany hmany
    rw [hzero, Except.ok.injEq, Prod.mk.injEq] at hret
    obtain ⟨ts, hts, hbody, _⟩ := hcount 0 (by rw [← hret.1]; rfl)
    -- the body of the message is not empty
    obtain ⟨_, us, rest, hmsg, hrest, _⟩ := hmany
    obtain ⟨tail, htail⟩ := drop_eq_messageBody buf
    rw [List.eq_nil_of_length_eq_zero hts, List.flatMap_nil] at hbody
    rw [hbody, hmsg] at htail
    have hnil : rest = [] := by
      have hlen := congrArg List.length htail
      simp only [List.length_nil, List.length_append] at hlen
      exact List.eq_nil_of_length_eq_zero (by omega)
    exact hrest hnil
  · intro hfits
    by_cases h2 : buf.length < 2
    · -- no room for the prefix
      rcases Nat.eq_zero_or_pos buf.length with h0 | h1
      · have hret : afRpcGetParamsFromBuffer params numParams addr buf buf.length permissive =
            .ok (errBadParam, params) := by
          simp only [afRpcGetParamsFromBuffer]
          rw [if_pos (by omega)]
          rfl
        exact trueCount_of_error hret (by decide)
      · have hret : afRpcGetParamsFromBuffer params numParams addr buf buf.length permissive =
            .ok (errBadTlv, params) := by
          have htwo : ((lengthSize : Nat) : Int) = 2 := rfl
          simp only [afRpcGetParamsFromBuffer]
          rw [if_neg (by omega), if_pos (by omega)]
          rfl
        exact trueCount_of_error hret (by decide)
    have h2' : 2 ≤ buf.length := by omega
    obtain ⟨len, hlen, hlenp⟩ := getlen_lengthPrefix h2'
    by_cases hlong : buf.length < len.toNat
    · exact trueCount_of_error (getParams_long addr params numParams buf permissive (by omega) hnum
        hlen hlong) (by decide)
    by_cases hshort : len.toNat < 2
    · -- the prefix counts less than itself
      have hret := getParams_short addr params numParams buf permissive (by omega) hnum hlen hshort
      simp only [getParamsEnd] at hret
      by_cases hwrong : permissive = false ∧ ((0 : Nat) : Int) ≠ numParams
      · rw [if_pos hwrong] at hret
        exact trueCount_of_error hret (by decide)
      rw [if_neg hwrong] at hret
      by_cases hmore : ((2 : Nat) : Int) ≠ buf.length
      · rw [if_pos hmore] at hret
        exact trueCount_of_error hret (by decide)
      rw [if_neg hmore] at hret
      refine trueCount_of_counted hret hroom ⟨[], ?_, rfl, hnum, rfl, fun hstrict => ?_⟩
      · exact List.drop_eq_nil_of_le (by omega)
      · by_contra hne
        exact hwrong ⟨hstrict, hne⟩
    · obtain ⟨ret, out, hloop, hends⟩ := @getParamsLoop_ends addr numParams permissive buf
        len.toNat (by omega) (len.toNat + 1) params 0 2 (by omega) (by omega) hnum hroom
      have hret : afRpcGetParamsFromBuffer params numParams addr buf buf.length permissive =
          .ok (ret, out) := by
        simp only [afRpcGetParamsFromBuffer, hlen, bind, Except.bind, lengthSize]
        rw [if_neg (by omega), if_neg (by push_cast; omega), if_neg (by omega)]
        exact hloop
      have hbody : (buf.take len.toNat).drop 2 = messageBody buf := by rw [hlenp]; rfl
      rw [hbody] at hends
      rcases hends with hneg | ⟨_, hover⟩ | ⟨hwhole, hcounted⟩
      · exact trueCount_of_error hret hneg
      · exact absurd ⟨by omega, hover⟩ hfits
      · rw [messageBody_eq (by omega)] at hcounted
        exact trueCount_of_counted hret hroom hcounted

/-- A message of one byte-sized integer, decoded strictly into one entry. -/
theorem trueCount_iff_uint8 :
    TrueCount [⟨0, 0x9000⟩] 1 0 [0, 5, 0x90, 0, 7] false ↔
      ¬ TooMany [⟨0, 0x9000⟩] 1 [0, 5, 0x90, 0, 7] false :=
  trueCount_iff [⟨0, 0x9000⟩] 1 0 [0, 5, 0x90, 0, 7] false (by decide) (by decide)

/-- Two integers where one is expected: the decoder returns 0 in both modes. -/
theorem not_trueCount_two :
    ¬ TrueCount [⟨0, 0x9000⟩] 1 0 [0, 8, 0x90, 0, 7, 0x90, 0, 8] true ∧
      ¬ TrueCount [⟨0, 0x9000⟩] 1 0 [0, 8, 0x90, 0, 7, 0x90, 0, 8] false := by
  have hzero : ∀ permissive, afRpcGetParamsFromBuffer [⟨0, 0x9000⟩] 1 0
      [0, 8, 0x90, 0, 7, 0x90, 0, 8] 8 permissive = .ok (0, [⟨7, 0x9000⟩]) := by
    intro permissive
    cases permissive <;> rfl
  have hnot : ∀ permissive, ¬ TrueCount [⟨0, 0x9000⟩] 1 0 [0, 8, 0x90, 0, 7, 0x90, 0, 8]
      permissive := by
    rintro permissive ⟨ret, out, hret, hcount, _⟩
    have hret' := (hzero permissive).symm.trans hret
    rw [Except.ok.injEq, Prod.mk.injEq] at hret'
    obtain ⟨ts, hts, hbody, _⟩ := hcount 0 (by rw [← hret'.1]; rfl)
    rw [List.eq_nil_of_length_eq_zero hts] at hbody
    cases hbody
  exact ⟨hnot true, hnot false⟩

end Count

end AfIpc.Rpc
