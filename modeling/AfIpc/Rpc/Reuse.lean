/-
  AfIpc.Rpc.Reuse

  A parameter array that strict decodes have been run on before.  The array holds
  the expected types and takes the results, and an entry is overwritten before
  later checks can fail.  `slot` is what strict mode keeps of an entry through
  that: a blob stays a blob, of any size and string or not; an integer keeps its
  type and loses its value; and an entry of any other type is never changed.  What
  a strict decode does depends on the slots alone.
-/

import AfIpc.Rpc.DecoderBounds

namespace AfIpc.Rpc

open AfIpc.Lib

-- ============================================================================
-- Slots
-- ============================================================================

/-- What a strict decode keeps of an entry, whatever it decodes. -/
inductive Slot where
  | blob
  | integer (type : BitVec 32)
  | kept (entry : AfRpcParam)
  deriving DecidableEq, Repr

def AfRpcParam.slot (entry : AfRpcParam) : Slot :=
  if typeIsBlob (entry.type.setWidth 16) then .blob
  else
    match loadedInt (entry.type.setWidth 16) with
    | some _ => .integer entry.type
    | none => .kept entry

section Slots

variable {e e' : AfRpcParam} {type : BitVec 16}

theorem setWidth_type (type : BitVec 16) : (type.setWidth 32).setWidth 16 = type :=
  setWidth_setWidth_self type (by omega)

theorem slot_of_blob (h : typeIsBlob (e.type.setWidth 16) = true) : e.slot = .blob := by
  rw [AfRpcParam.slot, if_pos h]

theorem blob_of_slot (h : e.slot = .blob) : typeIsBlob (e.type.setWidth 16) = true := by
  by_contra hb
  rw [AfRpcParam.slot, if_neg hb] at h
  cases hload : loadedInt (e.type.setWidth 16) <;> rw [hload] at h <;> cases h

/-- An entry that is not a blob keeps its type. -/
theorem type_of_slot (h : e.slot = e'.slot) (hb : ¬ typeIsBlob (e.type.setWidth 16) = true) :
    e.type = e'.type := by
  have hb' : ¬ typeIsBlob (e'.type.setWidth 16) = true := by
    intro hblob
    rw [slot_of_blob hblob] at h
    exact hb (blob_of_slot h)
  rw [AfRpcParam.slot, AfRpcParam.slot, if_neg hb, if_neg hb'] at h
  cases hload : loadedInt (e.type.setWidth 16) with
  | none =>
      rw [hload] at h
      cases hload' : loadedInt (e'.type.setWidth 16) with
      | none =>
          rw [hload'] at h
          rw [Slot.kept.inj h]
      | some _ =>
          rw [hload'] at h
          cases h
  | some _ =>
      rw [hload] at h
      cases hload' : loadedInt (e'.type.setWidth 16) with
      | none =>
          rw [hload'] at h
          cases h
      | some _ =>
          rw [hload'] at h
          exact Slot.integer.inj h

/-- **The type test of strict mode** depends on the slot alone. -/
theorem typeMatches_of_slot (h : e.slot = e'.slot) (hm : TypeMatches e.type type) :
    TypeMatches e'.type type := by
  by_cases hint : typeIsInteger type = true
  · rw [TypeMatches, if_pos hint] at hm ⊢
    rw [← hm]
    refine (type_of_slot h ?_).symm
    rw [hm, setWidth_type]
    exact isInteger_iff.mp hint
  · rw [TypeMatches, if_neg hint] at hm ⊢
    apply blob_of_slot
    rw [← h]
    exact slot_of_blob hm

theorem typeMatches_iff_of_slot (h : e.slot = e'.slot) :
    TypeMatches e.type type ↔ TypeMatches e'.type type :=
  ⟨typeMatches_of_slot h, typeMatches_of_slot h.symm⟩

theorem slot_integer {x : Nat × (List Byte → Word)} (hint : typeIsInteger type = true)
    (hload : loadedInt type = some x) (he : e.type = type.setWidth 32) :
    e.slot = .integer (type.setWidth 32) := by
  rw [AfRpcParam.slot, he, setWidth_type, if_neg (isInteger_iff.mp hint), hload]

theorem eq_of_slot_kept (h : e.slot = .kept e') : e = e' := by
  unfold AfRpcParam.slot at h
  split_ifs at h
  split at h
  · cases h
  · exact Slot.kept.inj h

theorem slot_kept (hint : typeIsInteger type = true) (hload : loadedInt type = none)
    (he : e.type = type.setWidth 32) : e.slot = .kept e := by
  rw [AfRpcParam.slot, he, setWidth_type, if_neg (isInteger_iff.mp hint), hload]

end Slots

-- ============================================================================
-- One iteration
-- ============================================================================

/-- An iteration of strict mode at the entry `param` and the position `pos`, for any
    entry with the slot: it stops and leaves the array, or it stores an entry that
    has the slot again and goes on.  Where it stops at an entry that it has written,
    the entry is one that is never changed. -/
inductive Iterates (addr : Word) (buf : List Byte) (numParams bufSize : Int)
    (len param pos : Nat) (slot : Slot) : Prop
  | stops (code : Int) (touched : List Touch)
      (hwrites : ∀ i ∈ writesOf touched, i = param ∧ ∃ entry, slot = .kept entry)
      (hrun : ∀ fuel params log entry, params[param]? = some entry → entry.slot = slot →
        getParamsLoopTraced addr buf numParams bufSize false len (fuel + 1) params param pos log =
          .ok ((code, params), log ++ touched))
  | goes (stored : AfRpcParam) (pos' : Nat) (touched : List Touch) (hslot : stored.slot = slot)
      (hpos : pos < pos') (hwrites : ∀ i ∈ writesOf touched, i = param)
      (hrun : ∀ fuel params log entry, params[param]? = some entry → entry.slot = slot →
        getParamsLoopTraced addr buf numParams bufSize false len (fuel + 1) params param pos log =
          getParamsLoopTraced addr buf numParams bufSize false len fuel (params.set param stored)
            (param + 1) pos' (log ++ touched))

section Iteration

variable {addr : Word} {buf : List Byte} {numParams bufSize : Int} {len param pos : Nat}

theorem writeParam_eq {params : List AfRpcParam} {entry : AfRpcParam}
    (h : params[param]? = some entry) (p : AfRpcParam) :
    writeParam params param p = .ok (params.set param p) := by
  obtain ⟨hin, -⟩ := List.getElem?_eq_some_iff.mp h
  rw [writeParam, if_pos hin]

theorem writeParam_same {params : List AfRpcParam} {entry : AfRpcParam}
    (h : params[param]? = some entry) : writeParam params param entry = .ok params := by
  rw [writeParam_eq h]
  obtain ⟨hin, rfl⟩ := List.getElem?_eq_some_iff.mp h
  rw [List.set_getElem_self hin]

/-- **One iteration** depends on the slot of its entry alone, and keeps it. -/
theorem iterates (hlen : len ≤ buf.length) (hmore : pos < len) (hnum : (param : Int) < numParams)
    (e : AfRpcParam) : Iterates addr buf numParams bufSize len param pos e.slot := by
  have hroom : ¬ (param : Int) ≥ numParams := by omega
  by_cases htype : pos + 2 ≤ len
  · have hget : getlen buf pos = .ok (BitVec.ofNat 16 (ofBe ((buf.drop pos).take 2))) :=
      getlen_eq_ok (by omega)
    generalize BitVec.ofNat 16 (ofBe ((buf.drop pos).take 2)) = type at hget
    have hread : ∀ {params : List AfRpcParam} {entry : AfRpcParam}, params[param]? = some entry →
        readParam params param = .ok entry := by
      intro params entry hentry
      rw [readParam, hentry]
    by_cases hover : ((pos + 2 : Nat) : Int) + afRpcGetSizeOfType type > len
    · refine .stops errBadTlv [.read pos 2] (by simp [writesOf]) ?_
      intro fuel params log entry hentry hslot
      simp only [getParamsLoopTraced, hget, bind, Except.bind]
      rw [if_neg (not_not.mpr hmore), if_neg hroom, if_neg (not_not.mpr htype), if_pos hover]
      rfl
    by_cases hint : typeIsInteger type = true
    · -- an integer
      have hmode : ∀ {entry : AfRpcParam}, entry.slot = e.slot →
          (entry.type = type.setWidth 32 ↔ e.type = type.setWidth 32) := by
        intro entry hslot
        have htest := @typeMatches_iff_of_slot entry e type hslot
        rw [TypeMatches, TypeMatches, if_pos hint, if_pos hint] at htest
        exact htest
      by_cases hmask : type &&& typeIntegerTypeMask ≠ type
      · refine .stops errBadType [.read pos 2] (by simp [writesOf]) ?_
        intro fuel params log entry hentry hslot
        simp only [getParamsLoopTraced, hget, hread hentry, bind, Except.bind]
        rw [if_neg (not_not.mpr hmore), if_neg hroom, if_neg (not_not.mpr htype), if_neg hover,
          if_pos hint, if_pos hmask]
        rfl
      by_cases he : e.type = type.setWidth 32
      · cases hload : loadedInt type with
        | none =>
            -- the type is stored, and only then found to be reserved
            refine .stops errBadType [.read pos 2, .write param] ?_ ?_
            · intro i hi
              exact ⟨by simpa [writesOf] using hi, e, slot_kept hint hload he⟩
            · intro fuel params log entry hentry hslot
              have hexp : entry.type = type.setWidth 32 := (hmode hslot).mpr he
              have hwrite : writeParam params param ⟨entry.base, type.setWidth 32⟩ = .ok params := by
                rw [← hexp]
                exact writeParam_same hentry
              simp only [getParamsLoopTraced, hget, hread hentry, hwrite, hload, bind, Except.bind]
              rw [if_neg (not_not.mpr hmore), if_neg hroom, if_neg (not_not.mpr htype),
                if_neg hover, if_pos hint, if_neg hmask, if_neg (fun h => h.2 hexp),
                List.append_assoc]
              rfl
        | some found =>
            obtain ⟨n, toBase⟩ := found
            have hbytes : load buf (pos + 2) n = .ok ((buf.drop (pos + 2)).take n) := by
              have hsize := loadedInt_eq_some hload
              exact load_eq_ok_iff.mpr ⟨by omega, rfl⟩
            refine .goes ⟨toBase ((buf.drop (pos + 2)).take n), type.setWidth 32⟩ (pos + 2 + n)
              [.read pos 2, .write param, .read (pos + 2) n, .write param] ?_ (by omega) ?_ ?_
            · rw [slot_integer hint hload rfl, slot_integer hint hload he]
            · simp [writesOf]
            · intro fuel params log entry hentry hslot
              have hexp : entry.type = type.setWidth 32 := (hmode hslot).mpr he
              have hwrite : writeParam params param ⟨entry.base, type.setWidth 32⟩ = .ok params := by
                rw [← hexp]
                exact writeParam_same hentry
              simp only [getParamsLoopTraced, hget, hread hentry, hwrite, hload, hbytes,
                writeParam_eq hentry, bind, Except.bind]
              rw [if_neg (not_not.mpr hmore), if_neg hroom, if_neg (not_not.mpr htype),
                if_neg hover, if_pos hint, if_neg hmask, if_neg (fun h => h.2 hexp),
                List.append_assoc, List.append_assoc]
              rfl
      · refine .stops errBadType [.read pos 2] (by simp [writesOf]) ?_
        intro fuel params log entry hentry hslot
        have hexp : ¬ entry.type = type.setWidth 32 := fun heq => he ((hmode hslot).mp heq)
        simp only [getParamsLoopTraced, hget, hread hentry, bind, Except.bind]
        rw [if_neg (not_not.mpr hmore), if_neg hroom, if_neg (not_not.mpr htype), if_neg hover,
          if_pos hint, if_neg hmask, if_pos ⟨trivial, hexp⟩]
        rfl
    · -- a blob
      have hblob := isBlob_of_not_isInteger hint
      have hmode : ∀ {entry : AfRpcParam}, entry.slot = e.slot →
          (typeIsBlob (entry.type.setWidth 16) = true ↔ typeIsBlob (e.type.setWidth 16) = true) := by
        intro entry hslot
        have htest := @typeMatches_iff_of_slot entry e type hslot
        rw [TypeMatches, TypeMatches, if_neg hint, if_neg hint] at htest
        exact htest
      by_cases he : typeIsBlob (e.type.setWidth 16) = true
      · refine .goes ⟨addr + BitVec.ofNat 64 (pos + 2), type.setWidth 32⟩
          (pos + 2 + (afRpcGetSizeOfType type).toNat)
          [.read pos 2, .point ⟨param, pos + 2, (afRpcGetSizeOfType type).toNat⟩] ?_ (by omega) ?_ ?_
        · rw [slot_of_blob he]
          apply slot_of_blob
          rw [setWidth_type]
          exact hblob
        · simp [writesOf]
        · intro fuel params log entry hentry hslot
          have hexp : typeIsBlob (entry.type.setWidth 16) = true := (hmode hslot).mpr he
          simp only [getParamsLoopTraced, hget, hread hentry, writeParam_eq hentry, bind, Except.bind]
          rw [if_neg (not_not.mpr hmore), if_neg hroom, if_neg (not_not.mpr htype), if_neg hover,
            if_neg hint, if_neg (fun h => h.2 hexp), List.append_assoc]
          rfl
      · refine .stops errBadType [.read pos 2] (by simp [writesOf]) ?_
        intro fuel params log entry hentry hslot
        have hexp : ¬ typeIsBlob (entry.type.setWidth 16) = true := fun heq => he ((hmode hslot).mp heq)
        simp only [getParamsLoopTraced, hget, hread hentry, bind, Except.bind]
        rw [if_neg (not_not.mpr hmore), if_neg hroom, if_neg (not_not.mpr htype), if_neg hover,
          if_neg hint, if_pos ⟨trivial, hexp⟩]
        rfl
  · refine .stops errBadTlv [] (by simp [writesOf]) ?_
    intro fuel params log entry hentry hslot
    simp only [getParamsLoopTraced]
    rw [if_neg (not_not.mpr hmore), if_neg hroom, if_pos htype, List.append_nil]
    rfl

end Iteration

-- ============================================================================
-- Two runs in step
-- ============================================================================

/-- The array has the slots of another. -/
def SameSlots (params params' : List AfRpcParam) : Prop :=
  params.map AfRpcParam.slot = params'.map AfRpcParam.slot

namespace SameSlots

variable {params params' : List AfRpcParam} {param : Nat} {entry : AfRpcParam}

theorem length_eq (h : SameSlots params params') : params.length = params'.length := by
  have hlen := congrArg List.length h
  rw [List.length_map, List.length_map] at hlen
  exact hlen

theorem getElem? (h : SameSlots params params') (hentry : params'[param]? = some entry) :
    ∃ entry', params[param]? = some entry' ∧ entry'.slot = entry.slot := by
  have hat : (params.map AfRpcParam.slot)[param]? = (params'.map AfRpcParam.slot)[param]? := by
    rw [h]
  rw [List.getElem?_map, List.getElem?_map, hentry] at hat
  exact Option.map_eq_some_iff.mp hat

/-- An entry is replaced by one with its slot. -/
theorem set (h : SameSlots params params') (hentry : params'[param]? = some entry)
    {stored : AfRpcParam} (hslot : stored.slot = entry.slot) :
    SameSlots (params.set param stored) params' := by
  obtain ⟨hin, rfl⟩ := List.getElem?_eq_some_iff.mp hentry
  rw [SameSlots, List.map_set, hslot, h, ← List.map_set, List.set_getElem_self hin]

end SameSlots

/-- Two decodes with the log `log` have left `out` and `out'` of arrays with the
    slots of `template`. -/
structure InStep (template : List AfRpcParam) (log : List Touch) (out out' : List AfRpcParam) :
    Prop where
  slots : SameSlots out template
  slots' : SameSlots out' template
  written : ∀ i ∈ writesOf log, out'[i]? = out[i]?

section Lockstep

variable {addr : Word} {buf : List Byte} {numParams bufSize : Int} {len : Nat}
  {template : List AfRpcParam}

theorem getParamsEnd_code (numParams bufSize : Int) (permissive : Bool) (param pos : Nat) :
    ∃ code, ∀ params, getParamsEnd numParams bufSize permissive params param pos = (code, params) := by
  unfold getParamsEnd
  split_ifs
  · exact ⟨_, fun _ => rfl⟩
  · exact ⟨_, fun _ => rfl⟩
  · exact ⟨_, fun _ => rfl⟩

/-- **The loops** of two strict decodes of the same bytes, from arrays with the
    same slots, run in step. -/
theorem getParamsLoopTraced_inStep (hlen : len ≤ buf.length)
    (hnum : numParams ≤ template.length) (fuel : Nat) (params params' : List AfRpcParam)
    (param pos : Nat) (log : List Touch) (hfuel : len - pos < fuel)
    (h : InStep template log params params') :
    ∃ ret out out' log',
      getParamsLoopTraced addr buf numParams bufSize false len fuel params param pos log =
        .ok ((ret, out), log') ∧
      getParamsLoopTraced addr buf numParams bufSize false len fuel params' param pos log =
        .ok ((ret, out'), log') ∧ InStep template log' out out' := by
  induction fuel generalizing params params' param pos log with
  | zero => omega
  | succ fuel ih =>
      by_cases hmore : pos < len
      · by_cases hroom : (param : Int) < numParams
        · have hin : param < template.length := by omega
          obtain ⟨entry, hentry⟩ : ∃ entry, template[param]? = some entry :=
            ⟨_, List.getElem?_eq_getElem hin⟩
          obtain ⟨e, he, hslot⟩ := h.slots.getElem? hentry
          obtain ⟨e', he', hslot'⟩ := h.slots'.getElem? hentry
          rcases @iterates addr buf numParams bufSize len param pos hlen hmore hroom entry with
            ⟨code, touched, hwrites, hrun⟩ | ⟨stored, pos', touched, hkeeps, hpos, hwrites, hrun⟩
          · refine ⟨code, params, params', log ++ touched, hrun fuel params log e he hslot,
              hrun fuel params' log e' he' hslot', h.slots, h.slots', ?_⟩
            intro i hi
            rw [writesOf_append, List.mem_append] at hi
            rcases hi with hi | hi
            · exact h.written i hi
            · obtain ⟨rfl, x, hx⟩ := hwrites i hi
              rw [he, he', eq_of_slot_kept (hslot.trans hx), eq_of_slot_kept (hslot'.trans hx)]
          · rw [hrun fuel params log e he hslot, hrun fuel params' log e' he' hslot']
            refine ih _ _ (param + 1) pos' _ (by omega) ⟨?_, ?_, ?_⟩
            · exact h.slots.set hentry hkeeps
            · exact h.slots'.set hentry hkeeps
            · intro i hi
              by_cases hip : i = param
              · obtain ⟨hin, -⟩ := List.getElem?_eq_some_iff.mp he
                obtain ⟨hin', -⟩ := List.getElem?_eq_some_iff.mp he'
                rw [hip, List.getElem?_set_self hin, List.getElem?_set_self hin']
              · rw [List.getElem?_set_ne (Ne.symm hip), List.getElem?_set_ne (Ne.symm hip)]
                rw [writesOf_append, List.mem_append] at hi
                rcases hi with hi | hi
                · exact h.written i hi
                · exact absurd (hwrites i hi) hip
        · have hfull : (param : Int) ≥ numParams := by omega
          refine ⟨0, params, params', log, ?_, ?_, h⟩
          · simp only [getParamsLoopTraced]
            rw [if_neg (not_not.mpr hmore), if_pos hfull]
            rfl
          · simp only [getParamsLoopTraced]
            rw [if_neg (not_not.mpr hmore), if_pos hfull]
            rfl
      · obtain ⟨code, hcode⟩ := getParamsEnd_code numParams bufSize false param pos
        refine ⟨code, params, params', log, ?_, ?_, h⟩
        · simp only [getParamsLoopTraced, hcode]
          rw [if_pos hmore]
          rfl
        · simp only [getParamsLoopTraced, hcode]
          rw [if_pos hmore]
          rfl

/-- **Two strict decodes** of the same bytes, into arrays with the same slots, return
    the same, read and write the same, and store the same. -/
theorem getParamsTraced_inStep {params params' : List AfRpcParam} (addr : Word) (buf : List Byte)
    (h : SameSlots params' params) :
    ∃ ret out out' log,
      getParamsTraced params params.length addr buf buf.length false = .ok ((ret, out), log) ∧
      getParamsTraced params' params.length addr buf buf.length false = .ok ((ret, out'), log) ∧
      InStep params log out out' := by
  have hstart : ∀ log, writesOf log = [] → InStep params log params params' := by
    intro log hlog
    refine ⟨rfl, h, fun i hi => ?_⟩
    rw [hlog] at hi
    exact absurd hi List.not_mem_nil
  simp only [getParamsTraced]
  by_cases hbad : (params.length : Int) < 0 ∨ (buf.length : Int) ≤ 0
  · rw [if_pos hbad, if_pos hbad]
    exact ⟨_, _, _, _, rfl, rfl, hstart [] rfl⟩
  rw [if_neg hbad, if_neg hbad]
  by_cases hshort : (buf.length : Int) < lengthSize
  · rw [if_pos hshort, if_pos hshort]
    exact ⟨_, _, _, _, rfl, rfl, hstart [] rfl⟩
  rw [if_neg hshort, if_neg hshort]
  have htwo : lengthSize = 2 := rfl
  obtain ⟨len, hget, -⟩ := @getlen_lengthPrefix buf (by omega)
  simp only [hget, bind, Except.bind]
  by_cases hlong : (len.toNat : Int) > buf.length
  · rw [if_pos hlong, if_pos hlong]
    exact ⟨_, _, _, _, rfl, rfl, hstart [.read 0 2] rfl⟩
  rw [if_neg hlong, if_neg hlong]
  exact getParamsLoopTraced_inStep (by omega) (Int.le_refl _) _ params params' 0 lengthSize
    [.read 0 2] (by omega) (hstart [.read 0 2] rfl)

end Lockstep

-- ============================================================================
-- Templates
-- ============================================================================

/-- The strict decode of a message into an array of `params.length` entries. -/
def strictDecode (params : List AfRpcParam) (addr : Word) (buf : List Byte) :
    Except Trap (Int × List AfRpcParam) :=
  afRpcGetParamsFromBuffer params params.length addr buf buf.length false

/-- A strict decode of any bytes does the same in both arrays: it returns the same
    value, makes the same accesses, and leaves the same in the entries it writes. -/
def DecodesAlike (params used : List AfRpcParam) : Prop :=
  ∀ (addr : Word) (buf : List Byte), ∃ ret out out' log,
    strictDecode params addr buf = .ok (ret, out) ∧
    strictDecode used addr buf = .ok (ret, out') ∧
    getParamsTraced params params.length addr buf buf.length false = .ok ((ret, out), log) ∧
    getParamsTraced used used.length addr buf buf.length false = .ok ((ret, out'), log) ∧
    ∀ i ∈ writesOf log, out'[i]? = out[i]?

section Templates

variable {params used : List AfRpcParam}

theorem SameSlots.decodesAlike (h : SameSlots used params) : DecodesAlike params used := by
  intro addr buf
  obtain ⟨ret, out, out', log, htraced, htraced', hstep⟩ := getParamsTraced_inStep addr buf h
  have hplain := getParamsTraced_fst params params.length addr buf buf.length false
  have hplain' := getParamsTraced_fst used params.length addr buf buf.length false
  rw [htraced] at hplain
  rw [htraced'] at hplain'
  refine ⟨ret, out, out', log, hplain.symm, ?_, htraced, ?_, hstep.written⟩
  · rw [strictDecode, h.length_eq]
    exact hplain'.symm
  · rw [h.length_eq]
    exact htraced'

/-- A strict decode keeps the slots, whatever it returns. -/
theorem strictDecode_slots (params : List AfRpcParam) (addr : Word) (buf : List Byte) :
    ∃ ret out, strictDecode params addr buf = .ok (ret, out) ∧ SameSlots out params := by
  obtain ⟨ret, out, _, log, htraced, -, hstep⟩ :=
    @getParamsTraced_inStep params params addr buf rfl
  have hplain := getParamsTraced_fst params params.length addr buf buf.length false
  rw [htraced] at hplain
  exact ⟨ret, out, hplain.symm, hstep.slots⟩

/-- **A strict template can be reused.**  Whatever a strict decode of `buf` into the
    array returns, a strict decode of any bytes after it returns what it returns with
    the original array, and leaves the same in every entry it writes. -/
theorem template_reusable (params : List AfRpcParam) (addr : Word) (buf : List Byte) :
    ∃ ret used, strictDecode params addr buf = .ok (ret, used) ∧ DecodesAlike params used := by
  obtain ⟨ret, used, hdecode, hslots⟩ := strictDecode_slots params addr buf
  exact ⟨ret, used, hdecode, hslots.decodesAlike⟩

end Templates

end AfIpc.Rpc
