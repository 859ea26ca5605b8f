/-
  AfIpc.Rpc.DecoderBounds

  What the batch decoder touches, on any bytes.  `getParamsTraced` is the decoder
  with a log of its reads and writes, and gives the same result.  `Tame` is the
  invariant of its loop: reads stay in the message, writes go up through the
  parameter array, and the blobs stored so far lie behind each other, up to the
  position reached.  It holds at every exit, the error exits included.
-/

import AfIpc.Rpc.DecoderSpec

namespace AfIpc.Rpc

open AfIpc.Lib

-- ============================================================================
-- The decoder with a log
-- ============================================================================

/-- The bytes from `pos` on that the entry `param` is made to point at. -/
structure Slice where
  param : Nat
  pos : Nat
  size : Nat
  deriving DecidableEq, Repr

/-- What the decoder does to the buffer and to the parameter array. -/
inductive Touch where
  | read (pos n : Nat)
  | write (param : Nat)
  | point (slice : Slice)
  deriving DecidableEq, Repr

/-- The entries written, in order. -/
def writesOf (log : List Touch) : List Nat :=
  log.filterMap (fun t => match t with
    | .read _ _ => none
    | .write param => some param
    | .point slice => some slice.param)

/-- The slices stored, in order. -/
def slicesOf (log : List Touch) : List Slice :=
  log.filterMap (fun t => match t with
    | .point slice => some slice
    | _ => none)

/-- `getParamsLoop` with a log. -/
def getParamsLoopTraced (addr : Word) (buf : List Byte) (numParams bufSize : Int)
    (permissive : Bool) (len : Nat) : Nat → List AfRpcParam → Nat → Nat → List Touch →
    Except Trap ((Int × List AfRpcParam) × List Touch)
  | 0, _, _, _, _ => .error .outOfFuel
  | fuel + 1, params, param, pos, log => do
    if ¬ pos < len then
      return (getParamsEnd numParams bufSize permissive params param pos, log)
    if (param : Int) ≥ numParams then
      return ((0, params), log)
    if ¬ pos + 2 ≤ len then
      return ((errBadTlv, params), log)
    let type ← getlen buf pos
    let log := log ++ [.read pos 2]
    let pos := pos + 2
    let size := afRpcGetSizeOfType type
    if (pos : Int) + size > len then
      return ((errBadTlv, params), log)
    let entry ← readParam params param
    let expType := entry.type
    if typeIsInteger type then
      if type &&& typeIntegerTypeMask ≠ type then
        return ((errBadType, params), log)
      if permissive = false ∧ expType ≠ type.setWidth 32 then
        return ((errBadType, params), log)
      let params ← writeParam params param { entry with type := type.setWidth 32 }
      let log := log ++ [.write param]
      match loadedInt type with
      | some (n, toBase) =>
        let bs ← load buf pos n
        let params ← writeParam params param { base := toBase bs, type := type.setWidth 32 }
        let log := log ++ [.read pos n, .write param]
        getParamsLoopTraced addr buf numParams bufSize permissive len fuel params (param + 1)
          (pos + n) log
      | none => return ((errBadType, params), log)
    else
      if permissive = false ∧ ¬ typeIsBlob (expType.setWidth 16) then
        return ((errBadType, params), log)
      let params ← writeParam params param
        { base := addr + BitVec.ofNat 64 pos, type := type.setWidth 32 }
      let log := log ++ [.point ⟨param, pos, size.toNat⟩]
      getParamsLoopTraced addr buf numParams bufSize permissive len fuel params (param + 1)
        (pos + size.toNat) log

/-- `afRpcGetParamsFromBuffer` with a log. -/
def getParamsTraced (params : List AfRpcParam) (numParams : Int) (addr : Word)
    (buf : List Byte) (bufSize : Int) (permissive : Bool) :
    Except Trap ((Int × List AfRpcParam) × List Touch) := do
  if numParams < 0 ∨ bufSize ≤ 0 then
    return ((errBadParam, params), [])
  if bufSize < lengthSize then
    return ((errBadTlv, params), [])
  let len ← getlen buf 0
  let log := [.read 0 2]
  if (len.toNat : Int) > bufSize then
    return ((errBadTlv, params), log)
  getParamsLoopTraced addr buf numParams bufSize permissive len.toNat (len.toNat + 1) params 0
    lengthSize log

/-- The log has no influence on the loop. -/
theorem getParamsLoopTraced_fst (addr : Word) (buf : List Byte) (numParams bufSize : Int)
    (permissive : Bool) (len fuel : Nat) (params : List AfRpcParam) (param pos : Nat)
    (log : List Touch) :
    (getParamsLoopTraced addr buf numParams bufSize permissive len fuel params param pos log).map
        Prod.fst =
      getParamsLoop addr buf numParams bufSize permissive len fuel params param pos := by
  induction fuel generalizing params param pos log with
  | zero => rfl
  | succ fuel ih =>
      simp only [getParamsLoop, getParamsLoopTraced]
      by_cases hmore : ¬ pos < len
      · rw [if_pos hmore, if_pos hmore]
        rfl
      rw [if_neg hmore, if_neg hmore]
      by_cases hfull : (param : Int) ≥ numParams
      · rw [if_pos hfull, if_pos hfull]
        rfl
      rw [if_neg hfull, if_neg hfull]
      by_cases htype : ¬ pos + 2 ≤ len
      · rw [if_pos htype, if_pos htype]
        rfl
      rw [if_neg htype, if_neg htype]
      cases getlen buf pos with
      | error trap => rfl
      | ok type =>
          simp only [bind, Except.bind]
          by_cases hover : ((pos + 2 : Nat) : Int) + afRpcGetSizeOfType type > len
          · rw [if_pos hover, if_pos hover]
            rfl
          rw [if_neg hover, if_neg hover]
          cases readParam params param with
          | error trap => rfl
          | ok entry =>
              dsimp only
              by_cases hint : typeIsInteger type = true
              · rw [if_pos hint, if_pos hint]
                by_cases hmask : type &&& typeIntegerTypeMask ≠ type
                · rw [if_pos hmask, if_pos hmask]
                  rfl
                rw [if_neg hmask, if_neg hmask]
                by_cases hmode : permissive = false ∧ entry.type ≠ type.setWidth 32
                · rw [if_pos hmode, if_pos hmode]
                  rfl
                rw [if_neg hmode, if_neg hmode]
                cases writeParam params param { entry with type := type.setWidth 32 } with
                | error trap => rfl
                | ok params =>
                    cases loadedInt type with
                    | none => rfl
                    | some found =>
                        obtain ⟨n, toBase⟩ := found
                        dsimp only
                        cases load buf (pos + 2) n with
                        | error trap => rfl
                        | ok bs =>
                            dsimp only
                            cases writeParam params param ⟨toBase bs, type.setWidth 32⟩ with
                            | error trap => rfl
                            | ok params => exact ih _ _ _ _
              · rw [if_neg hint, if_neg hint]
                by_cases hmode : permissive = false ∧
                    ¬ typeIsBlob (entry.type.setWidth 16) = true
                · rw [if_pos hmode, if_pos hmode]
                  rfl
                rw [if_neg hmode, if_neg hmode]
                cases writeParam params param
                    ⟨addr + BitVec.ofNat 64 (pos + 2), type.setWidth 32⟩ with
                | error trap => rfl
                | ok params => exact ih _ _ _ _

theorem getParamsTraced_fst (params : List AfRpcParam) (numParams : Int) (addr : Word)
    (buf : List Byte) (bufSize : Int) (permissive : Bool) :
    (getParamsTraced params numParams addr buf bufSize permissive).map Prod.fst =
      afRpcGetParamsFromBuffer params numParams addr buf bufSize permissive := by
  simp only [getParamsTraced, afRpcGetParamsFromBuffer]
  by_cases hbad : numParams < 0 ∨ bufSize ≤ 0
  · rw [if_pos hbad, if_pos hbad]
    rfl
  rw [if_neg hbad, if_neg hbad]
  by_cases hshort : bufSize < lengthSize
  · rw [if_pos hshort, if_pos hshort]
    rfl
  rw [if_neg hshort, if_neg hshort]
  cases getlen buf 0 with
  | error trap => rfl
  | ok len =>
      simp only [bind, Except.bind]
      by_cases hlong : (len.toNat : Int) > bufSize
      · rw [if_pos hlong, if_pos hlong]
        rfl
      rw [if_neg hlong, if_neg hlong]
      exact getParamsLoopTraced_fst addr buf numParams bufSize permissive _ _ params 0 _ _

-- ============================================================================
-- What a log may hold
-- ============================================================================

/-- The entry of a slice points at it, and its type has the size of it. -/
def Stored (addr : Word) (params : List AfRpcParam) (s : Slice) : Prop :=
  ∃ type : BitVec 16, typeIsBlob type = true ∧ (blobSize type).toNat = s.size ∧
    params[s.param]? = some ⟨addr + BitVec.ofNat 64 s.pos, type.setWidth 32⟩

/-- Behind the prefix only bytes below `limit` are read, only the first `numParams`
    entries are written, from the first to the last, and the slices stored lie
    behind the prefix, below `limit` and one behind the other.  `before` is the
    array as the caller passes it. -/
structure Inside (addr : Word) (limit : Nat) (numParams : Int) (before : List AfRpcParam)
    (log : List Touch) (params : List AfRpcParam) : Prop where
  reads : ∀ pos n, .read pos n ∈ log → pos + n ≤ 2 ∨ (2 ≤ pos ∧ pos + n ≤ limit)
  written : ∀ i ∈ writesOf log, (i : Int) < numParams
  ascending : (writesOf log).Pairwise (· ≤ ·)
  kept : ∀ i, i ∉ writesOf log → params[i]? = before[i]?
  inside : ∀ s ∈ slicesOf log, 2 ≤ s.pos ∧ s.pos + s.size ≤ limit
  disjoint : (slicesOf log).Pairwise (fun s s' => s.param < s'.param ∧ s.pos + s.size ≤ s'.pos)
  stored : ∀ s ∈ slicesOf log, Stored addr params s

/-- The invariant of the loop at the entry `param` and the position `pos`. -/
structure Tame (addr : Word) (limit : Nat) (numParams : Int) (before : List AfRpcParam)
    (log : List Touch) (params : List AfRpcParam) (param pos : Nat) : Prop
    extends Inside addr limit numParams before log params where
  reached : ∀ i ∈ writesOf log, i ≤ param
  passed : ∀ s ∈ slicesOf log, s.param < param ∧ s.pos + s.size ≤ pos

section Tame

variable {addr : Word} {limit : Nat} {numParams : Int} {before params : List AfRpcParam}
  {log : List Touch} {param pos : Nat}

theorem writesOf_append (l l' : List Touch) : writesOf (l ++ l') = writesOf l ++ writesOf l' :=
  List.filterMap_append

theorem slicesOf_append (l l' : List Touch) : slicesOf (l ++ l') = slicesOf l ++ slicesOf l' :=
  List.filterMap_append

/-- The writes and slices of a log with one read more. -/
theorem Tame.read (h : Tame addr limit numParams before log params param pos) {p n : Nat}
    (hlow : 2 ≤ p) (hhigh : p + n ≤ limit) :
    Tame addr limit numParams before (log ++ [.read p n]) params param pos := by
  have hwrites : writesOf (log ++ [.read p n]) = writesOf log := by
    rw [writesOf_append]
    exact List.append_nil _
  have hslices : slicesOf (log ++ [.read p n]) = slicesOf log := by
    rw [slicesOf_append]
    exact List.append_nil _
  constructor
  · constructor
    · intro q m hq
      rcases List.mem_append.mp hq with hq | hq
      · exact h.reads q m hq
      · obtain ⟨rfl, rfl⟩ := Touch.read.inj (List.mem_singleton.mp hq)
        exact .inr ⟨hlow, hhigh⟩
    all_goals first | rw [hwrites] | rw [hslices]
    · exact h.written
    · exact h.ascending
    · exact h.kept
    · exact h.inside
    · exact h.disjoint
    · exact h.stored
  · rw [hwrites]
    exact h.reached
  · rw [hslices]
    exact h.passed

/-- An entry that is overwritten at or behind `param` is none of a slice. -/
theorem Stored.set {s : Slice} (h : Stored addr params s) (hs : s.param < param) (p : AfRpcParam) :
    Stored addr (params.set param p) s := by
  obtain ⟨type, hblob, hsize, hentry⟩ := h
  refine ⟨type, hblob, hsize, ?_⟩
  rw [List.getElem?_set_ne (by omega), hentry]

theorem kept_set (hkept : ∀ i, i ∉ writesOf log → params[i]? = before[i]?) {t : Touch}
    (ht : writesOf [t] = [param]) (p : AfRpcParam) :
    ∀ i, i ∉ writesOf (log ++ [t]) → (params.set param p)[i]? = before[i]? := by
  intro i hi
  rw [writesOf_append, ht, List.mem_append, not_or, List.mem_singleton] at hi
  rw [List.getElem?_set_ne (fun h => hi.2 h.symm), hkept i hi.1]

/-- The writes of a log with one write more. -/
theorem written_concat (hnum : (param : Int) < numParams) {t : Touch} (ht : writesOf [t] = [param])
    (hwritten : ∀ i ∈ writesOf log, (i : Int) < numParams)
    (hascending : (writesOf log).Pairwise (· ≤ ·)) (hreached : ∀ i ∈ writesOf log, i ≤ param) :
    (∀ i ∈ writesOf (log ++ [t]), (i : Int) < numParams) ∧
      (writesOf (log ++ [t])).Pairwise (· ≤ ·) ∧ ∀ i ∈ writesOf (log ++ [t]), i ≤ param := by
  rw [writesOf_append, ht]
  refine ⟨?_, ?_, ?_⟩
  · intro i hi
    rcases List.mem_append.mp hi with hi | hi
    · exact hwritten i hi
    · rw [List.mem_singleton.mp hi]
      exact hnum
  · rw [List.pairwise_append]
    refine ⟨hascending, List.pairwise_singleton _ _, ?_⟩
    intro i hi j hj
    rw [List.mem_singleton.mp hj]
    exact hreached i hi
  · intro i hi
    rcases List.mem_append.mp hi with hi | hi
    · exact hreached i hi
    · rw [List.mem_singleton.mp hi]

/-- The current entry is written. -/
theorem Tame.write (h : Tame addr limit numParams before log params param pos)
    (hnum : (param : Int) < numParams) (p : AfRpcParam) :
    Tame addr limit numParams before (log ++ [.write param]) (params.set param p) param pos := by
  have hslices : slicesOf (log ++ [.write param]) = slicesOf log := by
    rw [slicesOf_append]
    exact List.append_nil _
  obtain ⟨hwritten, hascending, hreached⟩ := written_concat hnum (t := .write param) rfl h.written
    h.ascending h.reached
  constructor
  · constructor
    · intro q m hq
      rcases List.mem_append.mp hq with hq | hq
      · exact h.reads q m hq
      · cases List.mem_singleton.mp hq
    · exact hwritten
    · exact hascending
    · exact kept_set h.kept rfl p
    · rw [hslices]
      exact h.inside
    · rw [hslices]
      exact h.disjoint
    · rw [hslices]
      intro s hs
      exact (h.stored s hs).set (h.passed s hs).1 p
  · exact hreached
  · rw [hslices]
    exact h.passed

/-- On to the next entry. -/
theorem Tame.next (h : Tame addr limit numParams before log params param pos) {pos' : Nat}
    (hpos : pos ≤ pos') : Tame addr limit numParams before log params (param + 1) pos' where
  toInside := h.toInside
  reached := fun i hi => Nat.le_succ_of_le (h.reached i hi)
  passed := by
    intro s hs
    obtain ⟨hparam, hend⟩ := h.passed s hs
    exact ⟨by omega, by omega⟩

/-- A blob is stored, from a position behind all the others. -/
theorem Tame.point (h : Tame addr limit numParams before log params param pos)
    (hnum : (param : Int) < numParams) (hin : param < params.length) {type : BitVec 16}
    (hblob : typeIsBlob type = true) {p : Nat} (hlow : 2 ≤ p) (hpos : pos ≤ p)
    (hhigh : p + (blobSize type).toNat ≤ limit) :
    Tame addr limit numParams before (log ++ [.point ⟨param, p, (blobSize type).toNat⟩])
      (params.set param ⟨addr + BitVec.ofNat 64 p, type.setWidth 32⟩) (param + 1)
      (p + (blobSize type).toNat) := by
  have hslices : slicesOf (log ++ [.point ⟨param, p, (blobSize type).toNat⟩]) =
      slicesOf log ++ [⟨param, p, (blobSize type).toNat⟩] := by
    rw [slicesOf_append]
    rfl
  obtain ⟨hwritten, hascending, hreached⟩ := written_concat hnum
    (t := .point ⟨param, p, (blobSize type).toNat⟩) rfl h.written h.ascending h.reached
  constructor
  · constructor
    · intro q m hq
      rcases List.mem_append.mp hq with hq | hq
      · exact h.reads q m hq
      · cases List.mem_singleton.mp hq
    · exact hwritten
    · exact hascending
    · exact kept_set h.kept rfl _
    · rw [hslices]
      intro s hs
      rcases List.mem_append.mp hs with hs | hs
      · exact h.inside s hs
      · rw [List.mem_singleton.mp hs]
        exact ⟨hlow, hhigh⟩
    · rw [hslices, List.pairwise_append]
      refine ⟨h.disjoint, List.pairwise_singleton _ _, ?_⟩
      intro s hs s' hs'
      obtain ⟨hparam, hend⟩ := h.passed s hs
      rw [List.mem_singleton.mp hs']
      exact ⟨hparam, by show s.pos + s.size ≤ p; omega⟩
    · rw [hslices]
      intro s hs
      rcases List.mem_append.mp hs with hs | hs
      · exact (h.stored s hs).set (h.passed s hs).1 _
      · rw [List.mem_singleton.mp hs]
        exact ⟨type, hblob, rfl, List.getElem?_set_self hin⟩
  · exact fun i hi => Nat.le_succ_of_le (hreached i hi)
  · rw [hslices]
    intro s hs
    rcases List.mem_append.mp hs with hs | hs
    · obtain ⟨hparam, hend⟩ := h.passed s hs
      exact ⟨by omega, by omega⟩
    · rw [List.mem_singleton.mp hs]
      exact ⟨Nat.lt_succ_self param, Nat.le_refl _⟩

end Tame

-- ============================================================================
-- The loop
-- ============================================================================

section Loop

variable {addr : Word} {buf : List Byte} {numParams bufSize : Int} {permissive : Bool}
  {len : Nat} {before : List AfRpcParam}

/-- The loop comes to an end without a trap, and what is logged is inside the
    bounds. -/
theorem getParamsLoopTraced_spec (hlen : len ≤ buf.length) (fuel : Nat)
    (params : List AfRpcParam) (param pos : Nat) (log : List Touch) (hfuel : len - pos < fuel)
    (hparams : numParams ≤ params.length) (hpos : 2 ≤ pos)
    (htame : Tame addr len numParams before log params param pos) :
    ∃ result log', getParamsLoopTraced addr buf numParams bufSize permissive len fuel params param
        pos log = .ok (result, log') ∧
      Inside addr len numParams before log' result.2 := by
  induction fuel generalizing params param pos log with
  | zero => omega
  | succ fuel ih =>
      simp only [getParamsLoopTraced]
      by_cases hmore : pos < len
      · rw [if_neg (not_not.mpr hmore)]
        by_cases hfull : (param : Int) ≥ numParams
        · rw [if_pos hfull]
          exact ⟨_, _, rfl, htame.toInside⟩
        · rw [if_neg hfull]
          have hnum : (param : Int) < numParams := by omega
          by_cases htype : pos + 2 ≤ len
          · rw [if_neg (not_not.mpr htype)]
            have hget : getlen buf pos = .ok (BitVec.ofNat 16 (ofBe ((buf.drop pos).take 2))) :=
              getlen_eq_ok (by omega)
            have hin : param < params.length := by omega
            have hread : readParam params param = .ok params[param] := by
              simp [readParam, List.getElem?_eq_getElem hin]
            simp only [hget, hread, bind, Except.bind]
            generalize BitVec.ofNat 16 (ofBe ((buf.drop pos).take 2)) = type
            have hlogged := htame.read hpos htype
            by_cases hover : ((pos + 2 : Nat) : Int) + afRpcGetSizeOfType type > len
            · rw [if_pos hover]
              exact ⟨_, _, rfl, hlogged.toInside⟩
            · rw [if_neg hover]
              by_cases hint : typeIsInteger type = true
              · rw [if_pos hint]
                by_cases hmask : type &&& typeIntegerTypeMask ≠ type
                · rw [if_pos hmask]
                  exact ⟨_, _, rfl, hlogged.toInside⟩
                · rw [if_neg hmask]
                  by_cases hmode : permissive = false ∧ params[param].type ≠ type.setWidth 32
                  · rw [if_pos hmode]
                    exact ⟨_, _, rfl, hlogged.toInside⟩
                  · -- the type is stored first
                    rw [if_neg hmode]
                    simp only [writeParam, if_pos hin]
                    have htyped := hlogged.write hnum ⟨params[param].base, type.setWidth 32⟩
                    cases hload : loadedInt type with
                    | none => exact ⟨_, _, rfl, htyped.toInside⟩
                    | some found =>
                        obtain ⟨n, toBase⟩ := found
                        have hsize := loadedInt_eq_some hload
                        rw [hsize] at hover
                        have hbytes : load buf (pos + 2) n =
                            .ok ((buf.drop (pos + 2)).take n) :=
                          load_eq_ok_iff.mpr ⟨by omega, rfl⟩
                        have hin' : param <
                            (params.set param ⟨params[param].base, type.setWidth 32⟩).length := by
                          rw [List.length_set]
                          exact hin
                        simp only [hbytes, if_pos hin', List.append_assoc, List.cons_append,
                          List.nil_append]
                        have hvalue := (htyped.read (p := pos + 2) (n := n) (by omega) (by omega)).write
                          hnum ⟨toBase ((buf.drop (pos + 2)).take n), type.setWidth 32⟩
                        rw [List.append_assoc, List.append_assoc, List.append_assoc] at hvalue
                        refine ih _ (param + 1) (pos + 2 + n) _ (by omega) ?_ (by omega)
                          (hvalue.next (by omega))
                        rw [List.length_set, List.length_set]
                        exact hparams
              · -- a blob
                rw [if_neg hint]
                by_cases hmode : permissive = false ∧
                    ¬ typeIsBlob (params[param].type.setWidth 16) = true
                · rw [if_pos hmode]
                  exact ⟨_, _, rfl, hlogged.toInside⟩
                · rw [if_neg hmode]
                  have hblob := isBlob_of_not_isInteger hint
                  have hsize : afRpcGetSizeOfType type = (blobSize type).toNat := sizeOfType_blob hblob
                  rw [hsize] at hover ⊢
                  simp only [writeParam, if_pos hin, Int.toNat_natCast]
                  have hpoint := hlogged.point hnum hin hblob (p := pos + 2) (by omega) (by omega)
                    (by omega)
                  refine ih _ (param + 1) (pos + 2 + (blobSize type).toNat) _ (by omega) ?_ (by omega)
                    hpoint
                  rw [List.length_set]
                  exact hparams
          · rw [if_pos htype]
            exact ⟨_, _, rfl, htame.toInside⟩
      · rw [if_pos hmore]
        refine ⟨_, _, rfl, ?_⟩
        have hsame : (getParamsEnd numParams bufSize permissive params param pos).2 = params := by
          unfold getParamsEnd
          split_ifs <;> rfl
        rw [hsame]
        exact htame.toInside

/-- Before anything is written the array is the caller's. -/
theorem Tame.start (limit : Nat) (log : List Touch) (hlog : ∀ t ∈ log, t = .read 0 2) :
    Tame addr limit numParams before log before 0 lengthSize := by
  have hwrites : writesOf log = [] := by
    rw [writesOf, List.filterMap_eq_nil_iff]
    intro t ht
    rw [hlog t ht]
  have hslices : slicesOf log = [] := by
    rw [slicesOf, List.filterMap_eq_nil_iff]
    intro t ht
    rw [hlog t ht]
  constructor
  · constructor
    · intro p n hp
      obtain ⟨rfl, rfl⟩ := Touch.read.inj (hlog _ hp)
      exact .inl (Nat.le_refl _)
    all_goals first | rw [hwrites] | rw [hslices]
    · simp
    · exact List.Pairwise.nil
    · exact fun _ _ => rfl
    · simp
    · exact List.Pairwise.nil
    · simp
  · rw [hwrites]
    simp
  · rw [hslices]
    simp

end Loop

-- ============================================================================
-- A message in a longer buffer
-- ============================================================================

theorem load_left {buf : List Byte} (rest : List Byte) {pos n : Nat} (h : pos + n ≤ buf.length) :
    load (buf ++ rest) pos n = load buf pos n := by
  have htake := @load_take (buf ++ rest) pos n buf.length h (by rw [List.length_append]; omega)
  rw [List.take_left] at htake
  exact htake.symm

theorem getlen_left {buf : List Byte} (rest : List Byte) {pos : Nat} (h : pos + 2 ≤ buf.length) :
    getlen (buf ++ rest) pos = getlen buf pos := by
  simp only [getlen, load_left rest h]

/-- The loop does not look behind the length. -/
theorem getParamsLoop_left {addr : Word} {buf : List Byte} (rest : List Byte)
    {numParams bufSize : Int} {permissive : Bool} {len : Nat} (hlen : len ≤ buf.length)
    (fuel : Nat) (params : List AfRpcParam) (param pos : Nat) :
    getParamsLoop addr (buf ++ rest) numParams bufSize permissive len fuel params param pos =
      getParamsLoop addr buf numParams bufSize permissive len fuel params param pos := by
  induction fuel generalizing params param pos with
  | zero => rfl
  | succ fuel ih =>
      simp only [getParamsLoop]
      by_cases htype : pos + 2 ≤ len
      · rw [getlen_left rest (by omega)]
        cases hget : getlen buf pos with
        | error e => rfl
        | ok type =>
            simp only [bind, Except.bind]
            by_cases hover : ((pos + 2 : Nat) : Int) + afRpcGetSizeOfType type > len
            · simp only [if_pos hover]
            · simp only [if_neg hover]
              cases hload : loadedInt type with
              | none => simp only [ih]
              | some found =>
                  obtain ⟨n, toBase⟩ := found
                  have hsize := loadedInt_eq_some hload
                  rw [hsize] at hover
                  simp only [load_left rest (show pos + 2 + n ≤ buf.length by omega), ih]
      · simp only [if_pos htype]

/-- A message is decoded in a longer buffer as it is alone. -/
theorem getParams_left (params : List AfRpcParam) (numParams : Int) (addr : Word)
    (buf rest : List Byte) (permissive : Bool) :
    afRpcGetParamsFromBuffer params numParams addr (buf ++ rest) buf.length permissive =
      afRpcGetParamsFromBuffer params numParams addr buf buf.length permissive := by
  unfold afRpcGetParamsFromBuffer
  by_cases hbad : numParams < 0 ∨ (buf.length : Int) ≤ 0
  · rw [if_pos hbad, if_pos hbad]
  rw [if_neg hbad, if_neg hbad]
  by_cases hshort : (buf.length : Int) < lengthSize
  · rw [if_pos hshort, if_pos hshort]
  have htwo : lengthSize = 2 := rfl
  rw [if_neg hshort, if_neg hshort, getlen_left rest (by omega)]
  congr 1
  funext len
  by_cases hlong : (len.toNat : Int) > buf.length
  · rw [if_pos hlong, if_pos hlong]
  · rw [if_neg hlong, if_neg hlong, getParamsLoop_left rest (by omega)]

-- ============================================================================
-- The call
-- ============================================================================

/-- **The batch decoder is memory safe.**  On any bytes and any parameter array it
    ends without a trap.  Behind the prefix it reads bytes of the message only, it
    writes entries below `numParams` in order, and the blobs it has stored, on
    whichever exit, are slices of the message that do not overlap. -/
theorem getParams_inside (params : List AfRpcParam) (numParams : Int) (addr : Word)
    (buf : List Byte) (bufSize : Int) (permissive : Bool) (hparams : numParams = params.length)
    (hbuf : bufSize = buf.length) :
    ∃ result log, getParamsTraced params numParams addr buf bufSize permissive = .ok (result, log) ∧
      afRpcGetParamsFromBuffer params numParams addr buf bufSize permissive = .ok result ∧
      Inside addr (min (lengthPrefix buf) buf.length) numParams params log result.2 := by
  have hspec : ∃ result log,
      getParamsTraced params numParams addr buf bufSize permissive = .ok (result, log) ∧
      Inside addr (min (lengthPrefix buf) buf.length) numParams params log result.2 := by
    simp only [getParamsTraced]
    by_cases hbad : numParams < 0 ∨ bufSize ≤ 0
    · rw [if_pos hbad]
      exact ⟨_, _, rfl, (Tame.start _ [] (by simp)).toInside⟩
    rw [if_neg hbad]
    by_cases hshort : bufSize < lengthSize
    · rw [if_pos hshort]
      exact ⟨_, _, rfl, (Tame.start _ [] (by simp)).toInside⟩
    rw [if_neg hshort]
    rw [lengthSize] at hshort
    obtain ⟨len, hget, hlen⟩ := @getlen_lengthPrefix buf (by omega)
    simp only [hget, bind, Except.bind, hlen]
    by_cases hlong : (lengthPrefix buf : Int) > bufSize
    · rw [if_pos hlong]
      exact ⟨_, _, rfl, (Tame.start _ [.read 0 2] (by simp)).toInside⟩
    rw [if_neg hlong]
    have hmin : min (lengthPrefix buf) buf.length = lengthPrefix buf :=
      Nat.min_eq_left (by omega)
    rw [hmin]
    exact getParamsLoopTraced_spec (by omega) _ params 0 lengthSize [.read 0 2] (by omega)
      (by omega) (Nat.le_refl _) (Tame.start _ [.read 0 2] (by simp))
  obtain ⟨result, log, htraced, hinside⟩ := hspec
  have hplain := getParamsTraced_fst params numParams addr buf bufSize permissive
  rw [htraced] at hplain
  exact ⟨result, log, htraced, hplain.symm, hinside⟩

/-- Two blobs are stored before the third, cut short, is found. -/
theorem getParams_inside_cut :
    ∃ result log, getParamsTraced [⟨0, 0⟩, ⟨0, 0⟩, ⟨0, 0⟩] 3 100 [0, 10, 0, 1, 7, 0, 0, 0, 5, 9] 10
        true = .ok (result, log) ∧
      afRpcGetParamsFromBuffer [⟨0, 0⟩, ⟨0, 0⟩, ⟨0, 0⟩] 3 100 [0, 10, 0, 1, 7, 0, 0, 0, 5, 9] 10
        true = .ok result ∧
      Inside 100 (min (lengthPrefix [0, 10, 0, 1, 7, 0, 0, 0, 5, 9]) 10) 3
        [⟨0, 0⟩, ⟨0, 0⟩, ⟨0, 0⟩] log result.2 :=
  getParams_inside [⟨0, 0⟩, ⟨0, 0⟩, ⟨0, 0⟩] 3 100 [0, 10, 0, 1, 7, 0, 0, 0, 5, 9] 10 true rfl rfl

end AfIpc.Rpc
