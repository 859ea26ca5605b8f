/-
  AfIpc.Tools.Dealloc

  The memory of `ipc_send`.  Whether `param_parser` comes to its end or gives up, the
  blocks that it has allocated are those that the strings and blobs of `in_params` point
  to (`Owns`), and `dealloc_params` gives back these and no others.
-/

import AfIpc.Tools.Program

namespace AfIpc.Tools

open AfIpc.Lib AfIpc.Rpc

-- ============================================================================
-- Who owns a block
-- ============================================================================

/-- The test of `dealloc_params`. -/
def freeable (p : AfRpcParam) : Bool := p.base ≠ 0 ∧ p.type &&& typeFlagInteger.setWidth 32 = 0

/-- The blocks in use are those of the entries, and the others. -/
def Owns (others : List Block) (params : List AfRpcParam) (heap : Heap) : Prop :=
  ∃ owned, heap.blocks = owned ++ others ∧
    (owned.map Block.base).Perm ((params.filter freeable).map AfRpcParam.base)

theorem owns_nil (heap : Heap) : Owns heap.blocks [] heap := ⟨[], rfl, .nil⟩

section Owns

variable {others : List Block} {params : List AfRpcParam} {heap : Heap} {p : AfRpcParam}

/-- An integer is added. -/
theorem Owns.plain (h : Owns others params heap) (hp : freeable p = false) :
    Owns others (params ++ [p]) heap := by
  obtain ⟨owned, hblocks, hperm⟩ := h
  refine ⟨owned, hblocks, ?_⟩
  rw [List.filter_append, List.filter_cons_of_neg (by rw [hp]; exact Bool.false_ne_true),
    List.filter_nil, List.append_nil]
  exact hperm

/-- A string or a blob is added, with the block that holds it. -/
theorem Owns.fill (h : Owns others params heap) (hp : freeable p = true) (size : Nat)
    (bytes : List Byte) : Owns others (params ++ [p]) (heap.fill p.base size bytes) := by
  obtain ⟨owned, hblocks, hperm⟩ := h
  refine ⟨⟨p.base, size⟩ :: owned, by rw [Heap.fill, hblocks]; rfl, ?_⟩
  rw [List.filter_append, List.filter_cons_of_pos hp, List.filter_nil, List.map_append]
  exact (List.Perm.cons _ hperm).trans (List.perm_append_singleton _ _).symm

/-- The entries that are not set own nothing. -/
theorem Owns.inParams (h : Owns others params heap) : Owns others (inParams params) heap := by
  obtain ⟨owned, hblocks, hperm⟩ := h
  refine ⟨owned, hblocks, ?_⟩
  have hzero : (List.replicate (maxParams - params.length) (⟨0, 0⟩ : AfRpcParam)).filter freeable =
      [] := by
    rw [List.filter_eq_nil_iff]
    intro q hq
    rw [List.eq_of_mem_replicate hq]
    decide
  rw [Tools.inParams, List.filter_append, hzero, List.append_nil]
  exact hperm

/-- **`dealloc_params`** gives back the blocks of the entries, each once, and leaves no
    entry that points to one. -/
theorem deallocParams_spec (h : Owns others params heap) :
    ∃ params' heap', deallocParams params heap = .ok (params', heap') ∧ heap'.blocks = others ∧
      ∀ p ∈ params', freeable p = false := by
  induction params generalizing heap with
  | nil =>
      obtain ⟨owned, hblocks, hperm⟩ := h
      have hnone : owned = [] := List.map_eq_nil_iff.mp (List.perm_nil.mp hperm)
      refine ⟨[], heap, rfl, ?_, fun p hp => absurd hp List.not_mem_nil⟩
      rw [hblocks, hnone, List.nil_append]
  | cons p params ih =>
      obtain ⟨owned, hblocks, hperm⟩ := h
      by_cases hp : freeable p = true
      · -- the block of the entry is in use
        have hcond : p.base ≠ 0 ∧ p.type &&& typeFlagInteger.setWidth 32 = 0 := of_decide_eq_true hp
        rw [List.filter_cons_of_pos hp, List.map_cons] at hperm
        have hmem : p.base ∈ owned.map Block.base := hperm.symm.subset List.mem_cons_self
        obtain ⟨b, hb, hbase⟩ := List.mem_map.mp hmem
        have hfound : heap.blocks.any (fun b => b.base = p.base) = true := by
          rw [hblocks, List.any_eq_true]
          exact ⟨b, List.mem_append_left _ hb, decide_eq_true hbase⟩
        have hrest : Owns others params
            { heap with blocks := heap.blocks.eraseP (fun b => b.base = p.base) } := by
          refine ⟨owned.eraseP (fun b => b.base = p.base), ?_, ?_⟩
          · show heap.blocks.eraseP _ = _
            rw [hblocks]
            exact List.eraseP_append_left (p := fun b : Block => b.base = p.base)
              (decide_eq_true hbase) others hb
          · have hmap : (owned.eraseP (fun b => b.base = p.base)).map Block.base =
                (owned.map Block.base).erase p.base := by
              rw [List.erase_eq_eraseP', List.eraseP_map]
              rfl
            rw [hmap]
            have herase := hperm.erase p.base
            rw [List.erase_cons_head] at herase
            exact herase
        obtain ⟨params', heap', hdealloc, hblocks', hnone⟩ := ih hrest
        refine ⟨⟨0, 0⟩ :: params', heap', ?_, hblocks', ?_⟩
        · simp only [deallocParams]
          rw [if_pos hcond, Heap.free, if_pos hfound]
          simp only [bind, Except.bind, hdealloc, pure, Except.pure]
        · rw [List.forall_mem_cons]
          exact ⟨by decide, hnone⟩
      · have hcond : ¬ (p.base ≠ 0 ∧ p.type &&& typeFlagInteger.setWidth 32 = 0) :=
          fun hc => hp (decide_eq_true hc)
        rw [List.filter_cons_of_neg hp] at hperm
        obtain ⟨params', heap', hdealloc, hblocks', hnone⟩ := ih ⟨owned, hblocks, hperm⟩
        refine ⟨p :: params', heap', ?_, hblocks', ?_⟩
        · simp only [deallocParams]
          rw [if_neg hcond]
          simp only [bind, Except.bind, hdealloc, pure, Except.pure]
        · rw [List.forall_mem_cons]
          exact ⟨Bool.not_eq_true _ ▸ hp, hnone⟩

end Owns

-- ============================================================================
-- The options
-- ============================================================================

/-- A parameter of an integer type is no pointer. -/
theorem not_freeable_setParamAs {type : BitVec 16} (value : Int)
    (htype : type.setWidth 32 &&& typeFlagInteger.setWidth 32 ≠ 0) :
    freeable (setParamAs type value) = false :=
  decide_eq_false (fun h => htype h.2)

theorem not_freeable_formatUint {size : Int} {value : Option CString} {p : AfRpcParam}
    (h : formatUintParam size value = some p) : freeable p = false := by
  cases value with
  | none => cases h
  | some s =>
      simp only [formatUintParam] at h
      split_ifs at h
      · obtain rfl := Option.some.inj h
        exact not_freeable_setParamAs _ (by decide)
      · obtain rfl := Option.some.inj h
        exact not_freeable_setParamAs _ (by decide)
      · obtain rfl := Option.some.inj h
        exact not_freeable_setParamAs _ (by decide)

theorem not_freeable_formatInt {size : Int} {value : Option CString} {p : AfRpcParam}
    (h : formatIntParam size value = some p) : freeable p = false := by
  cases value with
  | none => cases h
  | some s =>
      simp only [formatIntParam] at h
      split_ifs at h
      · obtain rfl := Option.some.inj h
        exact not_freeable_setParamAs _ (by decide)
      · obtain rfl := Option.some.inj h
        exact not_freeable_setParamAs _ (by decide)
      · obtain rfl := Option.some.inj h
        exact not_freeable_setParamAs _ (by decide)

/-- The type of a blob or a string has not the bit of an integer, whatever its length. -/
theorem freeable_blob {base : Word} (hbase : base ≠ 0) (len : Int) :
    freeable (setParamAsBlob base len) = true ∧ freeable (setParamAsString base len) = true := by
  have hmask : (0x3fff : BitVec 32) &&& typeFlagInteger.setWidth 32 = 0#32 := by decide
  have hstring : typeFlagBlobIsString.setWidth 32 &&& typeFlagInteger.setWidth 32 = 0#32 := by decide
  have hcut : (BitVec.ofInt 32 len &&& 0x3fff) &&& typeFlagInteger.setWidth 32 = 0#32 := by
    rw [BitVec.and_assoc, hmask, BitVec.and_zero]
  refine ⟨decide_eq_true ⟨hbase, hcut⟩, decide_eq_true ⟨hbase, ?_⟩⟩
  show (typeFlagBlobIsString.setWidth 32 ||| (BitVec.ofInt 32 len &&& 0x3fff)) &&&
    typeFlagInteger.setWidth 32 = 0#32
  rw [BitVec.and_or_distrib_right, hstring, hcut]
  rfl

section Options

variable {malloc : Malloc} {others : List Block} {st st' : Parser}

theorem intOption_owns {format : Int → Option CString → Option AfRpcParam} {size : CString}
    {value : Option CString} (hformat : ∀ n v p, format n v = some p → freeable p = false)
    (h : Owns others st.params st.heap) (hst : intOption format size value st = some st') :
    Owns others st'.params st'.heap := by
  unfold intOption at hst
  split_ifs at hst
  cases hp : format (atoi size) value with
  | none =>
      rw [hp] at hst
      cases hst
  | some p =>
      rw [hp] at hst
      obtain rfl := Option.some.inj hst
      exact h.plain (hformat _ _ p hp)

theorem stringOption_owns (hmalloc : Fresh malloc) {value : CString}
    (h : Owns others st.params st.heap) (hst : stringOption malloc value st = some st') :
    Owns others st'.params st'.heap := by
  unfold stringOption at hst
  simp only at hst
  split_ifs at hst
  cases hbase : malloc st.heap (toInt32 (value.bytes.length + 1)).toNat with
  | none =>
      rw [hbase] at hst
      cases hst
  | some base =>
      rw [hbase] at hst
      obtain rfl := Option.some.inj hst
      exact h.fill (freeable_blob (hmalloc _ _ _ hbase).1 _).2 _ _

theorem hexOption_owns (hmalloc : Fresh malloc) {value : CString}
    (h : Owns others st.params st.heap) (hst : hexOption malloc value st = some st') :
    Owns others st'.params st'.heap := by
  unfold hexOption at hst
  simp only at hst
  split_ifs at hst
  cases hbase : malloc st.heap (sizeT ((toInt32 value.bytes.length).tdiv 2)) with
  | none =>
      rw [hbase] at hst
      cases hst
  | some base =>
      rw [hbase] at hst
      obtain rfl := Option.some.inj hst
      exact h.fill (freeable_blob (hmalloc _ _ _ hbase).1 _).1 _ _

/-- **An option** adds an entry with its block, or none. -/
theorem parseOption_owns (hmalloc : Fresh malloc) {s : CString} {value : Option CString}
    (h : Owns others st.params st.heap) (hst : parseOption malloc s value st = .ok (some st')) :
    Owns others st'.params st'.heap := by
  unfold parseOption at hst
  cases hs : s.bytes with
  | nil =>
      rw [hs] at hst
      cases hst
  | cons c rest =>
      cases rest with
      | nil =>
          rw [hs] at hst
          cases hst
      | cons letter rest =>
          rw [hs] at hst
          dsimp only at hst
          split_ifs at hst
          · cases hst
          · -- the name of the server
            obtain rfl := Option.some.inj (Except.ok.inj hst)
            exact h
          · exact intOption_owns (fun _ _ _ hp => not_freeable_formatUint hp) h (Except.ok.inj hst)
          · exact intOption_owns (fun _ _ _ hp => not_freeable_formatInt hp) h (Except.ok.inj hst)
          · cases value with
            | none => cases hst
            | some value => exact stringOption_owns hmalloc h (Except.ok.inj hst)
          · cases value with
            | none => cases hst
            | some value => exact hexOption_owns hmalloc h (Except.ok.inj hst)
          · cases hst

theorem parseLoop_owns (hmalloc : Fresh malloc) (args : List CString) {ok : Bool}
    (h : Owns others st.params st.heap) (hst : parseLoop malloc args st = .ok (ok, st')) :
    Owns others st'.params st'.heap := by
  fun_induction parseLoop malloc args st with
  | case1 st =>
      obtain rfl := (Prod.mk.inj (Except.ok.inj hst)).2
      exact h
  | case2 s st =>
      rw [bind_eq_ok] at hst
      obtain ⟨found, hoption, hrest⟩ := hst
      cases found with
      | none =>
          obtain rfl := (Prod.mk.inj (Except.ok.inj hrest)).2
          exact h
      | some next =>
          obtain rfl := (Prod.mk.inj (Except.ok.inj hrest)).2
          exact parseOption_owns hmalloc h hoption
  | case3 s value args st ih =>
      rw [bind_eq_ok] at hst
      obtain ⟨found, hoption, hrest⟩ := hst
      cases found with
      | none =>
          obtain rfl := (Prod.mk.inj (Except.ok.inj hrest)).2
          exact h
      | some next => exact ih next (parseOption_owns hmalloc h hoption) hrest

end Options

/-- **Whatever the parser has allocated, `dealloc_params` gives back**, whether the
    arguments are accepted or not: the same blocks are in use as before, and no entry
    points to one that has been freed. -/
theorem parse_dealloc {malloc : Malloc} (hmalloc : Fresh malloc) {argv : List CString} {heap : Heap}
    {ok : Bool} {st : Parser} (hparse : parse malloc argv heap = .ok (ok, st)) :
    ∃ params' heap', deallocParams (inParams st.params) st.heap = .ok (params', heap') ∧
      heap'.blocks = heap.blocks ∧ ∀ p ∈ params', freeable p = false := by
  have howns : Owns heap.blocks st.params st.heap := by
    unfold parse at hparse
    split_ifs at hparse
    · obtain rfl := (Prod.mk.inj (Except.ok.inj hparse)).2
      exact owns_nil heap
    · rw [bind_eq_ok] at hparse
      obtain ⟨⟨done, left⟩, hloop, hrest⟩ := hparse
      obtain rfl := (Prod.mk.inj (Except.ok.inj hrest)).2
      exact parseLoop_owns hmalloc _ (owns_nil heap) hloop
  exact deallocParams_spec howns.inParams

end AfIpc.Tools
