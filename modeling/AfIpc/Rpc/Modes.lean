/-
  AfIpc.Rpc.Modes

  The two modes of `af_rpc_get_params_from_buffer`.  Strict mode makes two tests
  that permissive mode does not make: of each type against the expected one, and
  of the number of parameters.

  The loop is followed in both modes at once (`getParamsLoop_modes`, by induction
  on the fuel): up to the first type that is not the expected one the two have
  stored the same entries, and they end alike but for the second test.  `EndsAs`
  says where strict mode ends otherwise, and what it has found there.  Nothing is
  assumed of the buffer, so this covers what is refused and what reads outside the
  buffer as well.
-/

import AfIpc.Rpc.DecoderSpec

namespace AfIpc.Rpc

open AfIpc.Lib

-- ============================================================================
-- What the modes share
-- ============================================================================

/-- From `param` on, the decoded types are the expected ones. -/
def MatchesFrom (param : Nat) (params : List AfRpcParam) (numParams : Int)
    (out : List AfRpcParam) : Prop :=
  ∀ i p q, param ≤ i → (i : Int) < numParams → params[i]? = some p → out[i]? = some q →
    TypeMatches p.type (q.type.setWidth 16)

/-- The message length that the buffer begins with. -/
def messageLen (buf : List Byte) : Nat :=
  match getlen buf 0 with
  | .ok len => len.toNat
  | .error _ => 0

/-- The loop gets from `param` and `pos` to `n` and `pos'`, and `params` becomes `out`:
    each parameter between them is of the type that its entry expects. -/
inductive Passes (buf : List Byte) (numParams : Int) (len : Nat) :
    List AfRpcParam → Nat → Nat → List AfRpcParam → Nat → Nat → Prop
  | refl (params : List AfRpcParam) (param pos : Nat) :
      Passes buf numParams len params param pos params param pos
  | step {params out : List AfRpcParam} {param pos n pos' : Nat} {entry p : AfRpcParam}
      {type : BitVec 16} (hpos : pos < len) (hroom : (param : Int) < numParams)
      (hget : getlen buf pos = .ok type) (hentry : params[param]? = some entry)
      (hmatch : TypeMatches entry.type type) (htype : p.type = type.setWidth 32)
      (hrest : Passes buf numParams len (params.set param p) (param + 1)
        (pos + 2 + (afRpcGetSizeOfType type).toNat) out n pos') :
      Passes buf numParams len params param pos out n pos'

/-- How a strict decoding ends from a state of the loop, where a permissive one ends as it
    does: alike; at a parameter whose type is not the one that its entry expects; or at the
    end of the message with a number of parameters other than `numParams`, where permissive
    mode returns this number, or finds bytes behind the message. -/
inductive EndsAs (buf : List Byte) (numParams bufSize : Int) (len : Nat) (params : List AfRpcParam)
    (param pos : Nat) (permissive strict : Except Trap (Int × List AfRpcParam)) : Prop
  | same (hstrict : strict = permissive)
  | mismatch {out : List AfRpcParam} {n pos' : Nat} {entry : AfRpcParam} {type : BitVec 16}
      (hpasses : Passes buf numParams len params param pos out n pos') (hpos : pos' < len)
      (hroom : (n : Int) < numParams) (hget : getlen buf pos' = .ok type)
      (hentry : out[n]? = some entry) (hdiffers : ¬ TypeMatches entry.type type)
      (hstrict : strict = .ok (errBadType, out))
  | wrongNumber {out : List AfRpcParam} {n pos' : Nat}
      (hpasses : Passes buf numParams len params param pos out n pos') (hend : len ≤ pos')
      (hcount : (n : Int) ≠ numParams)
      (hpermissive : permissive =
        .ok (if (pos' : Int) = bufSize then (n : Int) else errBadTlv, out))
      (hstrict : strict = .ok (errWrongNumParams, out))

/-- A strict decoding has all parameters exactly if a permissive one has, and the
    types are the expected ones. -/
def AcceptsMatching (param : Nat) (params : List AfRpcParam) (numParams : Int)
    (permissive strict : Except Trap (Int × List AfRpcParam)) : Prop :=
  ∀ out, strict = .ok (numParams, out) ↔
    permissive = .ok (numParams, out) ∧ MatchesFrom param params numParams out

section Loop

variable {addr : Word} {buf : List Byte} {numParams bufSize : Int} {len : Nat}
  {params : List AfRpcParam} {param pos : Nat}

theorem acceptsMatching_of_ne {permissive strict : Except Trap (Int × List AfRpcParam)}
    (hpermissive : ∀ out, permissive ≠ .ok (numParams, out))
    (hstrict : ∀ out, strict ≠ .ok (numParams, out)) :
    AcceptsMatching param params numParams permissive strict :=
  fun out => iff_of_false (hstrict out) (fun h => hpermissive out h.1)

theorem ok_ne_of_neg {ret : Int} {out : List AfRpcParam} (hnum : 0 ≤ numParams) (hneg : ret < 0)
    (out' : List AfRpcParam) :
    (.ok (ret, out) : Except Trap (Int × List AfRpcParam)) ≠ .ok (numParams, out') := by
  intro h
  rw [Except.ok.injEq, Prod.mk.injEq] at h
  omega

variable (addr buf numParams bufSize len params param pos) in
/-- One turn of the loop, in both modes: the message or the array is at its end, both
    leave with an error, or a TLV of some type is stored as `p`, in strict mode only if
    the type is the expected one. -/
inductive Turn : Prop
  | ends (hend : len ≤ pos)
  | full (hpos : pos < len) (hfull : numParams ≤ param)
  | fails (r : Except Trap (Int × List AfRpcParam)) (hr : ∀ out, r ≠ .ok (numParams, out))
      (hpermissive : ∀ fuel, getParamsLoop addr buf numParams bufSize true len (fuel + 1) params
        param pos = r)
      (hstrict : (∀ fuel, getParamsLoop addr buf numParams bufSize false len (fuel + 1) params param
          pos = r) ∨
        ∃ entry type, (param : Int) < numParams ∧ pos < len ∧ getlen buf pos = .ok type ∧
          params[param]? = some entry ∧ ¬ TypeMatches entry.type type ∧
          ∀ fuel, getParamsLoop addr buf numParams bufSize false len (fuel + 1) params param pos =
            .ok (errBadType, params))
  | stores (entry p : AfRpcParam) (type : BitVec 16) (pos' : Nat) (hpos : pos < len)
      (hroom : (param : Int) < numParams) (hget : getlen buf pos = .ok type)
      (hentry : params[param]? = some entry) (htype : p.type = type.setWidth 32)
      (hnext : pos' = pos + 2 + (afRpcGetSizeOfType type).toNat)
      (hpermissive : ∀ fuel, getParamsLoop addr buf numParams bufSize true len (fuel + 1) params param
        pos = getParamsLoop addr buf numParams bufSize true len fuel (params.set param p) (param + 1)
          pos')
      (hmatches : TypeMatches entry.type type → ∀ fuel, getParamsLoop addr buf numParams bufSize false
        len (fuel + 1) params param pos = getParamsLoop addr buf numParams bufSize false len fuel
          (params.set param p) (param + 1) pos')
      (hdiffers : ¬ TypeMatches entry.type type → ∀ fuel, getParamsLoop addr buf numParams bufSize
        false len (fuel + 1) params param pos = .ok (errBadType, params))

/-- Both modes leave with the same. -/
theorem turn_of_fails {r : Except Trap (Int × List AfRpcParam)} (hr : ∀ out, r ≠ .ok (numParams, out))
    (h : ∀ permissive fuel, getParamsLoop addr buf numParams bufSize permissive len (fuel + 1) params
      param pos = r) : Turn addr buf numParams bufSize len params param pos :=
  .fails r hr (h true) (.inl (h false))

/-- The turn for an integer type. -/
theorem turn_integer {type : BitVec 16} {entry : AfRpcParam} (hpos : pos < len)
    (hfull : ¬ (param : Int) ≥ numParams) (h2 : pos + 2 ≤ len) (hget : getlen buf pos = .ok type)
    (hsize : ¬ ((pos + 2 : Nat) : Int) + afRpcGetSizeOfType type > len)
    (hentry : params[param]? = some entry) (hin : param < params.length)
    (hint : typeIsInteger type = true) (hnum : 0 ≤ numParams) :
    Turn addr buf numParams bufSize len params param pos := by
  -- what is behind the tests of the length
  have hbody : ∀ permissive fuel, getParamsLoop addr buf numParams bufSize permissive len (fuel + 1)
      params param pos =
        if type &&& typeIntegerTypeMask ≠ type then .ok (errBadType, params)
        else if permissive = false ∧ entry.type ≠ type.setWidth 32 then .ok (errBadType, params)
        else (loadedInt type).elim (.ok (errBadType, params.set param ⟨entry.base, type.setWidth 32⟩))
          (fun found => do
            let bs ← load buf (pos + 2) found.1
            getParamsLoop addr buf numParams bufSize permissive len fuel
              (params.set param ⟨found.2 bs, type.setWidth 32⟩) (param + 1) (pos + 2 + found.1)) := by
    intro permissive fuel
    have hin' : param < (params.set param ⟨entry.base, type.setWidth 32⟩).length := by
      rw [List.length_set]
      exact hin
    simp only [getParamsLoop]
    rw [if_neg (not_not.mpr hpos), if_neg hfull, if_neg (not_not.mpr h2), hget]
    simp only [bind, Except.bind, readParam, hentry]
    rw [if_neg hsize, if_pos hint]
    simp only [writeParam, if_pos hin, if_pos hin', List.set_set]
    cases loadedInt type <;> rfl
  have hrefused : ∀ out out', (.ok (errBadType, out) : Except Trap (Int × List AfRpcParam)) ≠
      .ok (numParams, out') := fun out => ok_ne_of_neg hnum (by decide)
  have hpermissive : ¬ (true = false ∧ entry.type ≠ type.setWidth 32) := fun h => by cases h.1
  by_cases hmask : type &&& typeIntegerTypeMask ≠ type
  · refine turn_of_fails (hrefused params) (fun permissive fuel => ?_)
    rw [hbody, if_pos hmask]
  have hdiffers : ¬ TypeMatches entry.type type → ∀ fuel, getParamsLoop addr buf numParams bufSize
      false len (fuel + 1) params param pos = .ok (errBadType, params) := by
    intro hmatch fuel
    rw [TypeMatches, if_pos hint] at hmatch
    rw [hbody, if_neg hmask, if_pos ⟨rfl, hmatch⟩]
  -- what fails behind the comparison of the types fails in both modes, or strict mode has
  -- left before
  have hstrict : ∀ r : Except Trap (Int × List AfRpcParam),
      (entry.type = type.setWidth 32 → ∀ fuel, getParamsLoop addr buf numParams bufSize false len
        (fuel + 1) params param pos = r) →
      (∀ fuel, getParamsLoop addr buf numParams bufSize false len (fuel + 1) params param pos = r) ∨
        ∃ entry type, (param : Int) < numParams ∧ pos < len ∧ getlen buf pos = .ok type ∧
          params[param]? = some entry ∧ ¬ TypeMatches entry.type type ∧
          ∀ fuel, getParamsLoop addr buf numParams bufSize false len (fuel + 1) params param pos =
            .ok (errBadType, params) := by
    intro r hsame
    by_cases hmatch : entry.type = type.setWidth 32
    · exact .inl (hsame hmatch)
    · have hno : ¬ TypeMatches entry.type type := by
        rw [TypeMatches, if_pos hint]
        exact hmatch
      exact .inr ⟨entry, type, by omega, hpos, hget, hentry, hno, hdiffers hno⟩
  cases hloaded : loadedInt type with
  | none =>
      -- a reserved type
      refine .fails _ (hrefused (params.set param ⟨entry.base, type.setWidth 32⟩)) (fun fuel => ?_)
        (hstrict _ (fun hmatch fuel => ?_))
      · rw [hbody, if_neg hmask, if_neg hpermissive, hloaded, Option.elim_none]
      · rw [hbody, if_neg hmask, if_neg (fun h => h.2 hmatch), hloaded, Option.elim_none]
  | some found =>
      obtain ⟨n, toBase⟩ := found
      cases hload : load buf (pos + 2) n with
      | error e =>
          refine .fails (.error e) (fun _ h => by cases h) (fun fuel => ?_)
            (hstrict _ (fun hmatch fuel => ?_))
          · rw [hbody, if_neg hmask, if_neg hpermissive, hloaded, Option.elim_some]
            simp only [hload, bind, Except.bind]
          · rw [hbody, if_neg hmask, if_neg (fun h => h.2 hmatch), hloaded, Option.elim_some]
            simp only [hload, bind, Except.bind]
      | ok bs =>
          have hnext : pos + 2 + n = pos + 2 + (afRpcGetSizeOfType type).toNat := by
            rw [loadedInt_eq_some hloaded, Int.toNat_natCast]
          refine .stores entry ⟨toBase bs, type.setWidth 32⟩ type (pos + 2 + n) hpos (by omega) hget
            hentry rfl hnext (fun fuel => ?_) (fun hmatch fuel => ?_) hdiffers
          · rw [hbody, if_neg hmask, if_neg hpermissive, hloaded, Option.elim_some]
            simp only [hload, bind, Except.bind]
          · rw [TypeMatches, if_pos hint] at hmatch
            rw [hbody, if_neg hmask, if_neg (fun h => h.2 hmatch), hloaded, Option.elim_some]
            simp only [hload, bind, Except.bind]

/-- The turn for a blob type. -/
theorem turn_blob {type : BitVec 16} {entry : AfRpcParam} (hpos : pos < len)
    (hfull : ¬ (param : Int) ≥ numParams) (h2 : pos + 2 ≤ len) (hget : getlen buf pos = .ok type)
    (hsize : ¬ ((pos + 2 : Nat) : Int) + afRpcGetSizeOfType type > len)
    (hentry : params[param]? = some entry) (hin : param < params.length)
    (hint : ¬ typeIsInteger type = true) :
    Turn addr buf numParams bufSize len params param pos := by
  -- what is behind the tests of the length
  have hbody : ∀ permissive fuel, getParamsLoop addr buf numParams bufSize permissive len (fuel + 1)
      params param pos =
        if permissive = false ∧ ¬ typeIsBlob (entry.type.setWidth 16) = true then
          .ok (errBadType, params)
        else getParamsLoop addr buf numParams bufSize permissive len fuel
          (params.set param ⟨addr + BitVec.ofNat 64 (pos + 2), type.setWidth 32⟩) (param + 1)
          (pos + 2 + (afRpcGetSizeOfType type).toNat) := by
    intro permissive fuel
    simp only [getParamsLoop]
    rw [if_neg (not_not.mpr hpos), if_neg hfull, if_neg (not_not.mpr h2), hget]
    simp only [bind, Except.bind, readParam, hentry]
    rw [if_neg hsize, if_neg hint]
    simp only [writeParam, if_pos hin]
    rfl
  refine .stores entry ⟨addr + BitVec.ofNat 64 (pos + 2), type.setWidth 32⟩ type
    (pos + 2 + (afRpcGetSizeOfType type).toNat) hpos (by omega) hget hentry rfl rfl
    (fun fuel => ?_) (fun hmatch fuel => ?_) (fun hmatch fuel => ?_)
  · rw [hbody, if_neg (fun h => by cases h.1)]
  · rw [TypeMatches, if_neg hint] at hmatch
    rw [hbody, if_neg (fun h => h.2 hmatch)]
  · rw [TypeMatches, if_neg hint] at hmatch
    rw [hbody, if_pos ⟨rfl, hmatch⟩]

theorem turn_cases (hnum : 0 ≤ numParams) :
    Turn addr buf numParams bufSize len params param pos := by
  by_cases hpos : pos < len
  swap
  · exact .ends (by omega)
  by_cases hfull : numParams ≤ param
  · exact .full hpos hfull
  have hfull' : ¬ (param : Int) ≥ numParams := hfull
  have hbad : ∀ out, (.ok (errBadTlv, params) : Except Trap (Int × List AfRpcParam)) ≠
      .ok (numParams, out) := ok_ne_of_neg hnum (by decide)
  by_cases h2 : pos + 2 ≤ len
  swap
  · refine turn_of_fails hbad (fun permissive fuel => ?_)
    simp only [getParamsLoop]
    rw [if_neg (not_not.mpr hpos), if_neg hfull', if_pos h2]
    rfl
  cases hget : getlen buf pos with
  | error e =>
      refine turn_of_fails (r := .error e) (fun _ h => by cases h) (fun permissive fuel => ?_)
      simp only [getParamsLoop]
      rw [if_neg (not_not.mpr hpos), if_neg hfull', if_neg (not_not.mpr h2), hget]
      rfl
  | ok type =>
      by_cases hsize : ((pos + 2 : Nat) : Int) + afRpcGetSizeOfType type > len
      · refine turn_of_fails hbad (fun permissive fuel => ?_)
        simp only [getParamsLoop]
        rw [if_neg (not_not.mpr hpos), if_neg hfull', if_neg (not_not.mpr h2), hget]
        simp only [bind, Except.bind]
        rw [if_pos hsize]
        rfl
      cases hentry : params[param]? with
      | none =>
          refine turn_of_fails (r := .error .outOfBounds) (fun _ h => by cases h)
            (fun permissive fuel => ?_)
          simp only [getParamsLoop]
          rw [if_neg (not_not.mpr hpos), if_neg hfull', if_neg (not_not.mpr h2), hget]
          simp only [bind, Except.bind, readParam, hentry]
          rw [if_neg hsize]
      | some entry =>
          have hin : param < params.length := (List.getElem?_eq_some_iff.mp hentry).1
          by_cases hint : typeIsInteger type = true
          · exact turn_integer hpos hfull' h2 hget hsize hentry hin hint hnum
          · exact turn_blob hpos hfull' h2 hget hsize hentry hin hint

/-- What is behind a parameter of the expected type ends the decoding as it did. -/
theorem EndsAs.step {permissive strict : Except Trap (Int × List AfRpcParam)} {entry p : AfRpcParam}
    {type : BitVec 16} (hpos : pos < len) (hroom : (param : Int) < numParams)
    (hget : getlen buf pos = .ok type) (hentry : params[param]? = some entry)
    (hmatch : TypeMatches entry.type type) (htype : p.type = type.setWidth 32)
    (h : EndsAs buf numParams bufSize len (params.set param p) (param + 1)
      (pos + 2 + (afRpcGetSizeOfType type).toNat) permissive strict) :
    EndsAs buf numParams bufSize len params param pos permissive strict := by
  cases h with
  | same hstrict => exact .same hstrict
  | mismatch hpasses hpos' hroom' hget' hentry' hdiffers hstrict =>
      exact .mismatch (.step hpos hroom hget hentry hmatch htype hpasses) hpos' hroom' hget' hentry'
        hdiffers hstrict
  | wrongNumber hpasses hend hcount hpermissive hstrict =>
      exact .wrongNumber (.step hpos hroom hget hentry hmatch htype hpasses) hend hcount hpermissive
        hstrict

theorem getParamsEnd_snd (permissive : Bool) :
    (getParamsEnd numParams bufSize permissive params param pos).2 = params := by
  rw [getParamsEnd]
  split_ifs
  · rfl
  · rfl
  · rfl

/-- Permissive mode does not write the entries before `param`. -/
theorem getParamsLoop_before (hnum : 0 ≤ numParams) (fuel : Nat) {out : List AfRpcParam}
    (h : getParamsLoop addr buf numParams bufSize true len fuel params param pos =
      .ok (numParams, out)) {i : Nat} (hi : i < param) : out[i]? = params[i]? := by
  induction fuel generalizing params param pos with
  | zero => cases h
  | succ fuel ih =>
      have hturn : Turn addr buf numParams bufSize len params param pos := turn_cases hnum
      cases hturn with
      | ends hend =>
          rw [getParamsLoop_end _ _ _ _ _ _ _ _ _ _ hend, Except.ok.injEq] at h
          have hout := congrArg Prod.snd h
          rw [getParamsEnd_snd] at hout
          rw [hout]
      | full hpos hfull =>
          rw [getParamsLoop_full _ _ _ _ _ _ _ _ _ _ hpos hfull, Except.ok.injEq,
            Prod.mk.injEq] at h
          rw [h.2]
      | fails r hr hpermissive _ => exact absurd (hpermissive fuel ▸ h) (hr out)
      | stores entry p type pos' hpos hroom hget hentry htype hnext hpermissive _ _ =>
          rw [hpermissive] at h
          rw [ih h (by omega), List.getElem?_set_ne (by omega)]

/-- Both modes of the loop, from the same state. -/
theorem getParamsLoop_modes (hnum : 0 ≤ numParams) (fuel : Nat) (params : List AfRpcParam)
    (param pos : Nat) :
    EndsAs buf numParams bufSize len params param pos
        (getParamsLoop addr buf numParams bufSize true len fuel params param pos)
        (getParamsLoop addr buf numParams bufSize false len fuel params param pos) ∧
      AcceptsMatching param params numParams
        (getParamsLoop addr buf numParams bufSize true len fuel params param pos)
        (getParamsLoop addr buf numParams bufSize false len fuel params param pos) := by
  induction fuel generalizing params param pos with
  | zero => exact ⟨.same rfl, acceptsMatching_of_ne (fun _ h => by cases h) (fun _ h => by cases h)⟩
  | succ fuel ih =>
      have hvacuous : numParams ≤ param → ∀ out, MatchesFrom param params numParams out := by
        intro hle out i p q hi hlt
        omega
      have hturn : Turn addr buf numParams bufSize len params param pos := turn_cases hnum
      cases hturn with
      | ends hend =>
          rw [getParamsLoop_end _ _ _ _ _ _ _ _ _ _ hend, getParamsLoop_end _ _ _ _ _ _ _ _ _ _ hend]
          by_cases hcount : (param : Int) = numParams
          · have hsame : getParamsEnd numParams bufSize false params param pos =
                getParamsEnd numParams bufSize true params param pos := by
              simp only [getParamsEnd, ne_eq, hcount, not_true_eq_false, and_false, if_false]
            rw [hsame]
            exact ⟨.same rfl, fun out => (and_iff_left (hvacuous (by omega) out)).symm⟩
          · have hwrong : getParamsEnd numParams bufSize false params param pos =
                (errWrongNumParams, params) := if_pos ⟨rfl, hcount⟩
            have hends : getParamsEnd numParams bufSize true params param pos =
                (if (pos : Int) = bufSize then (param : Int) else errBadTlv, params) := by
              rw [getParamsEnd, if_neg (by rintro ⟨h, _⟩; cases h), ite_not]
              split_ifs <;> rfl
            rw [hwrong, hends]
            refine ⟨.wrongNumber (.refl params param pos) hend hcount rfl rfl,
              acceptsMatching_of_ne ?_ (ok_ne_of_neg hnum (by decide))⟩
            intro out h
            rw [Except.ok.injEq, Prod.mk.injEq] at h
            have hneg : errBadTlv < 0 := by decide
            have hret := h.1
            split_ifs at hret
            · exact hcount hret
            · omega
      | full hpos hfull =>
          rw [getParamsLoop_full _ _ _ _ _ _ _ _ _ _ hpos hfull,
            getParamsLoop_full _ _ _ _ _ _ _ _ _ _ hpos hfull]
          exact ⟨.same rfl, fun out => (and_iff_left (hvacuous hfull out)).symm⟩
      | fails r hr hpermissive hstrict =>
          rw [hpermissive]
          rcases hstrict with hsame | ⟨entry, type, hroom, hpos, hget, hentry, hdiffers, hbad⟩
          · rw [hsame]
            exact ⟨.same rfl, acceptsMatching_of_ne hr hr⟩
          · rw [hbad]
            exact ⟨.mismatch (.refl params param pos) hpos hroom hget hentry hdiffers rfl,
              acceptsMatching_of_ne hr (ok_ne_of_neg hnum (by decide))⟩
      | stores entry p type pos' hpos hroom hget hentry htype hnext hpermissive hmatches hdiffers =>
          subst hnext
          have hin : param < params.length := (List.getElem?_eq_some_iff.mp hentry).1
          obtain ⟨hends, haccepts⟩ := ih (params.set param p) (param + 1)
            (pos + 2 + (afRpcGetSizeOfType type).toNat)
          -- what a complete permissive decoding leaves at `param`
          have hstored : ∀ out, getParamsLoop addr buf numParams bufSize true len fuel
              (params.set param p) (param + 1) (pos + 2 + (afRpcGetSizeOfType type).toNat) =
                .ok (numParams, out) → out[param]? = some p := by
            intro out h
            rw [getParamsLoop_before hnum fuel h (by omega), List.getElem?_set_self hin]
          have hcut : p.type.setWidth 16 = type := by
            rw [htype, setWidth_setWidth_self type (by decide)]
          rw [hpermissive]
          by_cases hmatch : TypeMatches entry.type type
          · rw [hmatches hmatch]
            refine ⟨hends.step hpos hroom hget hentry hmatch htype,
              fun out => (haccepts out).trans (and_congr_right fun hout => ?_)⟩
            refine ⟨fun hrest => ?_, fun hall => ?_⟩
            · intro i e q hi hlt he hq
              rcases Nat.eq_or_lt_of_le hi with rfl | hgt
              · rw [hentry] at he
                rw [hstored out hout] at hq
                cases he
                cases hq
                rw [hcut]
                exact hmatch
              · exact hrest i e q (by omega) hlt (by rw [List.getElem?_set_ne (by omega), he]) hq
            · intro i e q hi hlt he hq
              rw [List.getElem?_set_ne (by omega)] at he
              exact hall i e q (by omega) hlt he hq
          · rw [hdiffers hmatch]
            refine ⟨.mismatch (.refl params param pos) hpos hroom hget hentry hmatch rfl,
              fun out => iff_of_false (ok_ne_of_neg hnum (by decide) out) ?_⟩
            rintro ⟨hout, hall⟩
            have htype' := hall param entry p (Nat.le_refl _) hroom hentry (hstored out hout)
            rw [hcut] at htype'
            exact hmatch htype'

end Loop

-- ============================================================================
-- The whole call
-- ============================================================================

/-- **Strict mode refines permissive mode.**  Whatever the buffer, the number and the
    array are: strict mode decodes all `numParams` parameters exactly if permissive
    mode does and every type is the expected one of its entry, and then it stores the
    same.  Otherwise it ends as permissive mode does, except that it stops at the first
    type that is not the expected one, and that at the end of the message it reports the
    number of parameters, if that is wrong, in the place of what permissive mode returns
    there. -/
theorem strict_refines_permissive (params : List AfRpcParam) (numParams : Int) (addr : Word)
    (buf : List Byte) (bufSize : Int) :
    EndsAs buf numParams bufSize (messageLen buf) params 0 lengthSize
        (afRpcGetParamsFromBuffer params numParams addr buf bufSize true)
        (afRpcGetParamsFromBuffer params numParams addr buf bufSize false) ∧
      AcceptsMatching 0 params numParams
        (afRpcGetParamsFromBuffer params numParams addr buf bufSize true)
        (afRpcGetParamsFromBuffer params numParams addr buf bufSize false) := by
  -- a call that fails before the loop does so in both modes
  have hearly : ∀ r : Except Trap (Int × List AfRpcParam),
      (∀ out, r = .ok (numParams, out) → MatchesFrom 0 params numParams out) →
      EndsAs buf numParams bufSize (messageLen buf) params 0 lengthSize r r ∧
        AcceptsMatching 0 params numParams r r :=
    fun r hr => ⟨.same rfl, fun out => (and_iff_left_of_imp (hr out)).symm⟩
  simp only [afRpcGetParamsFromBuffer]
  by_cases hparam : numParams < 0 ∨ bufSize ≤ 0
  · simp only [if_pos hparam]
    refine hearly (.ok (errBadParam, params)) (fun out h i p q _ hlt => ?_)
    rw [Except.ok.injEq, Prod.mk.injEq] at h
    have hneg : errBadParam < 0 := by decide
    omega
  have hnum : 0 ≤ numParams := by omega
  have hbad : ∀ out, (.ok (errBadTlv, params) : Except Trap (Int × List AfRpcParam)) =
      .ok (numParams, out) → MatchesFrom 0 params numParams out :=
    fun out h => absurd h (ok_ne_of_neg hnum (by decide) out)
  simp only [if_neg hparam]
  by_cases hshort : bufSize < lengthSize
  · simp only [if_pos hshort]
    exact hearly _ hbad
  simp only [if_neg hshort]
  cases hget : getlen buf 0 with
  | error e => exact hearly (.error e) (fun _ h => by cases h)
  | ok len =>
      simp only [bind, Except.bind]
      by_cases hlong : (len.toNat : Int) > bufSize
      · simp only [if_pos hlong]
        exact hearly _ hbad
      · simp only [if_neg hlong]
        have hlen : messageLen buf = len.toNat := by
          rw [messageLen, hget]
        rw [hlen]
        exact getParamsLoop_modes hnum (len.toNat + 1) params 0 lengthSize

end AfIpc.Rpc
