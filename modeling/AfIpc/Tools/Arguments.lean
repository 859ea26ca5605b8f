/-
  AfIpc.Tools.Arguments

  What `ipc_send` makes of its arguments.  A `Request` is what an option with its
  argument asks for, and `Answers` what the receiver finds in a decoded parameter.
  The parser keeps `Holds` for every entry of `cmd_params`: the type is that of the
  request, with the size cut to 14 bits, and a string or hex value of a size that
  fits there is in a block of the heap, which later blocks leave alone.
-/

import AfIpc.Rpc.Incremental
import AfIpc.Tools.Sending

namespace AfIpc.Tools

open AfIpc.Lib AfIpc.Rpc

-- ============================================================================
-- What is asked for
-- ============================================================================

/-- A value to be sent. -/
inductive Request where
  | int (k : IntKind) (v : Int)
  | string (text : CString)
  | hex (text : CString)

/-- The kind of an integer of `size` bits. -/
def kindOf (signed : Bool) (size : Int) : Option IntKind :=
  if size = 8 then some (if signed then .int8 else .uint8)
  else if size = 16 then some (if signed then .int16 else .uint16)
  else if size = 32 then some (if signed then .int32 else .uint32)
  else none

/-- What one option asks for: `-d` for nothing, and `-u` and `-i` for a decimal number
    in the range of the kind. -/
def requestOf (s value : CString) : Option (List Request) :=
  match s.bytes with
  | c :: letter :: _ =>
    if c ≠ minus then none
    else if letter = 100 then some []
    else if letter = 117 ∨ letter = 105 then do
      let k ← kindOf (letter = 105) (atoi (s.drop 2))
      let v ← numeral k value.bytes
      if Fits k v then some [.int k v] else none
    else if letter = 115 then some [.string value]
    else if letter = 104 then some [.hex value]
    else none
  | _ => none

/-- What the arguments behind the server's name ask for, in their order. -/
def requests : List CString → Option (List Request)
  | [] => some []
  | [_] => none
  | s :: value :: args => do
    let r ← requestOf s value
    let rs ← requests args
    return r ++ rs

/-- The bytes a request takes in a message, behind its type. -/
def Request.size : Request → Nat
  | .int k _ => k.width
  | .string text => text.bytes.length + 1
  | .hex text => text.bytes.length / 2

/-- The bytes that stand for a request. -/
def Request.Means : Request → List Byte → Prop
  | .int _ _, _ => True
  | .string text, bytes => bytes = text.bytes ++ [0]
  | .hex text, bytes => bytes.flatMap hexByte = text.bytes.map toLower

/-- A decoded parameter is what was asked for; `mem` is the memory it points into.
    A hex value is shown by its digits, which are in lower case. -/
def Answers (mem : Mem) (r : Request) (d : AfRpcParam) : Prop :=
  match r with
  | .int k v => d.type = k.type.setWidth 32 ∧ k.value (getParam (8 * k.width) d) = v
  | .string _ => typeIsBlob (d.type.setWidth 16) = true ∧
      d.type.setWidth 16 &&& typeFlagBlobIsString ≠ 0 ∧
      r.Means (readMem mem d.base (blobSize (d.type.setWidth 16)).toNat)
  | .hex _ => typeIsBlob (d.type.setWidth 16) = true ∧
      d.type.setWidth 16 &&& typeFlagBlobIsString = 0 ∧
      r.Means (readMem mem d.base (blobSize (d.type.setWidth 16)).toNat)

/-- If the parameters are encoded into `txBuffer`, what is sent decodes to exactly the
    requests, wherever it is received and into whatever array that is large enough. -/
def SendsRequested (mem : Mem) (params : List AfRpcParam) (rs : List Request) : Prop :=
  ∀ size txBuffer, afRpcCreateBufferWithParams mem (List.replicate instrMaxLen 0) instrMaxLen params =
      .ok (size, txBuffer) → size > 0 →
    ∀ (mem' : Mem) (addr : Word) (template : List AfRpcParam),
      readMem mem' addr size.toNat = txBuffer.take size.toNat → rs.length ≤ template.length →
      ∃ decoded, afRpcGetParamsFromBuffer template template.length addr (txBuffer.take size.toNat)
          size true = .ok ((rs.length : Int), decoded) ∧
        List.Forall₂ (Answers mem') rs (decoded.take rs.length)

-- ============================================================================
-- The heap
-- ============================================================================

theorem toNat_add_ofNat {a : Word} {i : Nat} (h : a.toNat + i < 2 ^ 64) :
    (a + BitVec.ofNat 64 i).toNat = a.toNat + i := by
  rw [BitVec.toNat_add, BitVec.toNat_ofNat]
  omega

/-- Bytes that were stored are there. -/
theorem readMem_writeMem (mem : Mem) {a : Word} {bytes : List Byte}
    (h : a.toNat + bytes.length ≤ 2 ^ 64) :
    readMem (writeMem mem a bytes) a bytes.length = bytes := by
  apply List.ext_getElem
  · exact readMem_length _ _ _
  · intro i hi hi'
    have haddr := @toNat_add_ofNat a i (by omega)
    simp only [readMem, List.getElem_map, List.getElem_range, writeMem, haddr]
    rw [if_pos ⟨by omega, by omega⟩, Nat.add_sub_cancel_left, List.getD_eq_getElem?_getD,
      List.getElem?_eq_getElem hi', Option.getD_some]

/-- Bytes elsewhere stay. -/
theorem readMem_writeMem_of_apart (mem : Mem) {a base : Word} {n : Nat} {bytes : List Byte}
    (ha : a.toNat + n ≤ 2 ^ 64)
    (hapart : base.toNat + bytes.length ≤ a.toNat ∨ a.toNat + n ≤ base.toNat) :
    readMem (writeMem mem base bytes) a n = readMem mem a n := by
  apply List.map_congr_left
  intro i hi
  rw [List.mem_range] at hi
  have haddr := @toNat_add_ofNat a i (by omega)
  simp only [writeMem, haddr]
  exact if_neg (by omega)

/-- The heap has the bytes in one of its blocks. -/
structure Held (heap : Heap) (a : Word) (bytes : List Byte) : Prop where
  block : ∃ b ∈ heap.blocks, b.base = a ∧ bytes.length ≤ b.size
  inside : a.toNat + bytes.length ≤ 2 ^ 64
  read : readMem heap.mem a bytes.length = bytes

section Malloc

variable {malloc : Malloc} (hmalloc : Fresh malloc) {heap : Heap} {base : Word} {n : Nat}
  (hbase : malloc heap n = some base)

include hmalloc hbase

/-- What is stored in a new block. -/
theorem held_fill {bytes : List Byte} (hbytes : bytes.length ≤ n) :
    Held (heap.fill base n bytes) base bytes := by
  obtain ⟨_, hinside, _⟩ := hmalloc heap n base hbase
  exact ⟨⟨_, List.mem_cons_self, rfl, hbytes⟩, by omega, readMem_writeMem heap.mem (by omega)⟩

/-- A new block leaves the others alone. -/
theorem Held.fill {a : Word} {held bytes : List Byte} (h : Held heap a held)
    (hbytes : bytes.length ≤ n) : Held (heap.fill base n bytes) a held := by
  obtain ⟨_, _, hapart⟩ := hmalloc heap n base hbase
  obtain ⟨b, hb, rfl, hsize⟩ := h.block
  have hother := hapart b hb
  refine ⟨⟨b, List.mem_cons_of_mem _ hb, rfl, hsize⟩, h.inside, ?_⟩
  have hstay := @readMem_writeMem_of_apart heap.mem b.base base held.length bytes h.inside
    (by omega)
  exact hstay.trans h.read

end Malloc

-- ============================================================================
-- Hex digits
-- ============================================================================

/-- The digits of a hex value are its argument in lower case. -/
theorem hexByte_hexnybble {c d : Byte} (hc : isXDigit c = true) (hd : isXDigit d = true) :
    hexByte (hexnybble c * 16 + hexnybble d) = [toLower c, toLower d] := by
  have hdigit : ∀ c : Byte, isXDigit c = true →
      (hexnybble c).toNat < 16 ∧ hexDigit (hexnybble c).toNat = toLower c := by decide +kernel
  obtain ⟨hcLt, hcDigit⟩ := hdigit c hc
  obtain ⟨hdLt, hdDigit⟩ := hdigit d hd
  have hsixteen : (16 : Byte).toNat = 16 := rfl
  have hval : (hexnybble c * 16 + hexnybble d).toNat =
      (hexnybble c).toNat * 16 + (hexnybble d).toNat := by
    rw [BitVec.toNat_add, BitVec.toNat_mul, hsixteen]
    omega
  have hhigh : ((hexnybble c).toNat * 16 + (hexnybble d).toNat) / 16 = (hexnybble c).toNat := by omega
  have hlow : ((hexnybble c).toNat * 16 + (hexnybble d).toNat) % 16 = (hexnybble d).toNat := by omega
  rw [hexByte, hval, hhigh, hlow, hcDigit, hdDigit]

theorem hexBytes_length (tmp : List Byte) (len : Nat) : (hexBytes tmp len).length = len := by
  rw [hexBytes, List.length_map, List.length_range]

/-- All digits are taken. -/
theorem hexBytes_means (tmp : List Byte) (len : Nat) (hlen : tmp.length = 2 * len)
    (hdigits : isXdigits tmp = true) :
    (hexBytes tmp len).flatMap hexByte = tmp.map toLower := by
  induction len generalizing tmp with
  | zero =>
      obtain rfl := List.length_eq_zero_iff.mp hlen
      rfl
  | succ len ih =>
      match tmp, hlen with
      | c :: d :: tmp, hlen =>
        have hall := List.all_eq_true.mp hdigits
        have hc := hall c List.mem_cons_self
        have hd := hall d (List.mem_cons_of_mem _ List.mem_cons_self)
        have hrest : isXdigits tmp = true := by
          refine List.all_eq_true.mpr (fun b hb => hall b ?_)
          exact List.mem_cons_of_mem _ (List.mem_cons_of_mem _ hb)
        have hstep : hexBytes (c :: d :: tmp) (len + 1) =
            (hexnybble c * 16 + hexnybble d) :: hexBytes tmp len := by
          rw [hexBytes, List.range_succ_eq_map, List.map_cons, List.map_map]
          refine congrArg _ (List.map_congr_left (fun i _ => ?_))
          have hnext : (i + 1) * 2 = i * 2 + 1 + 1 := by omega
          simp only [Function.comp_apply, Nat.succ_eq_add_one, hnext, List.getD_cons_succ]
        simp only [List.length_cons] at hlen
        rw [hstep, List.flatMap_cons, hexByte_hexnybble hc hd, ih tmp (by omega) hrest]
        rfl

-- ============================================================================
-- Types
-- ============================================================================

/-- The type that stands for a request in a message. -/
def Request.type : Request → BitVec 16
  | .int k _ => k.type
  | .string text => typeFlagBlobIsString ||| typeBlob (text.bytes.length + 1 : Nat)
  | .hex text => typeBlob (text.bytes.length / 2 : Nat)

/-- The `int` that a `size_t` is converted to, up to multiples of 2^32. -/
theorem toInt32_eq (n : Nat) : ∃ q : Int, toInt32 n = n - 2 ^ 32 * q := by
  refine ⟨Int.bdiv n (2 ^ 32), ?_⟩
  rw [toInt32, BitVec.toInt_ofNat', Int.bmod_eq_self_sub_mul_bdiv]
  rfl

theorem toInt32_of_lt {n : Nat} (h : n < 2 ^ 31) : toInt32 n = n := by
  rw [toInt32, BitVec.toInt_ofNat']
  exact Int.bmod_eq_of_le (by omega) (by omega)

/-- The macros keep 14 bits of the size. -/
theorem setParamAsBlob_type_of_mod (ptr : Word) {len : Int} {n : Nat}
    (h : len % 2 ^ 14 = n % 2 ^ 14) : (setParamAsBlob ptr len).type.setWidth 16 = typeBlob n := by
  have hmask32 : (0x3fff : BitVec 32).toNat = 2 ^ 14 - 1 := by decide
  have hmask16 : (0x3fff : BitVec 16).toNat = 2 ^ 14 - 1 := by decide
  apply BitVec.eq_of_toNat_eq
  rw [setParamAsBlob, typeBlob, BitVec.toNat_setWidth, BitVec.toNat_and, BitVec.toNat_and, hmask32,
    hmask16, Nat.and_two_pow_sub_one_eq_mod, Nat.and_two_pow_sub_one_eq_mod, BitVec.toNat_ofInt,
    BitVec.toNat_ofInt]
  omega

theorem setParamAsString_type_of_mod (ptr : Word) {len : Int} {n : Nat}
    (h : len % 2 ^ 14 = n % 2 ^ 14) :
    (setParamAsString ptr len).type.setWidth 16 = typeFlagBlobIsString ||| typeBlob n := by
  have hblob := setParamAsBlob_type_of_mod ptr h
  rw [setParamAsBlob] at hblob
  rw [setParamAsString, BitVec.setWidth_or, hblob]
  rfl

theorem stringFlag_typeBlob (n : Nat) : typeBlob n &&& typeFlagBlobIsString = 0 := by
  have hdisj : (0x3fff : BitVec 16) &&& typeFlagBlobIsString = 0#16 := by decide
  rw [typeBlob, BitVec.and_assoc, hdisj, BitVec.and_zero]
  rfl

theorem typeString_isBlob (n : Nat) : typeIsBlob (typeFlagBlobIsString ||| typeBlob n) = true := by
  have hblob := typeBlob_isBlob n
  rw [typeIsBlob, beq_iff_eq] at hblob ⊢
  have hflag : typeFlagBlobIsString &&& typeFlagInteger = 0#16 := by decide
  rw [BitVec.and_or_distrib_right, hblob, hflag]
  rfl

theorem blobSize_typeString (n : Nat) :
    blobSize (typeFlagBlobIsString ||| typeBlob n) = blobSize (typeBlob n) := by
  have hflag : typeFlagBlobIsString &&& 0x3fff = 0#16 := by decide
  rw [blobSize, BitVec.and_or_distrib_right, hflag, BitVec.zero_or, blobSize]

theorem stringFlag_typeString (n : Nat) :
    (typeFlagBlobIsString ||| typeBlob n) &&& typeFlagBlobIsString ≠ 0 := by
  rw [BitVec.and_or_distrib_right, stringFlag_typeBlob, BitVec.and_self]
  decide

/-- The size in the type is the size of the value, cut to 14 bits. -/
theorem Request.blobSize_type {r : Request} (h : typeIsBlob r.type = true) :
    (blobSize r.type).toNat = r.size % 2 ^ 14 := by
  cases r with
  | int k v =>
      rw [Request.type] at h
      exact absurd h (not_isBlob_type k)
  | string text => rw [Request.type, blobSize_typeString, blobSize_typeBlob_mod, Request.size]
  | hex text => rw [Request.type, blobSize_typeBlob_mod, Request.size]

-- ============================================================================
-- The parser
-- ============================================================================

/-- An entry of `cmd_params` is what was asked for, but for the bytes of a string or
    hex value whose size does not fit in the type. -/
structure Holds (heap : Heap) (r : Request) (p : AfRpcParam) : Prop where
  type : p.type.setWidth 16 = r.type
  int : ∀ k v, r = .int k v → k.reduce p.base = v
  base : typeIsBlob r.type = true → p.base ≠ 0
  held : typeIsBlob r.type = true → r.size ≤ 16383 →
    ∃ bytes, bytes.length = r.size ∧ r.Means bytes ∧ Held heap p.base bytes

/-- A new entry for the requests `new`. -/
def Adds (st st' : Parser) (new : List Request) : Prop :=
  ∀ rs, List.Forall₂ (Holds st.heap) rs st.params →
    List.Forall₂ (Holds st'.heap) (rs ++ new) st'.params

theorem forall₂_concat {α β : Type} {R : α → β → Prop} {as : List α} {bs : List β} {a : α} {b : β}
    (h : List.Forall₂ R as bs) (hab : R a b) : List.Forall₂ R (as ++ [a]) (bs ++ [b]) := by
  induction h with
  | nil => exact .cons hab .nil
  | cons hxy _ ih => exact .cons hxy ih

theorem isBlob_type_int (k : IntKind) (v : Int) : ¬ typeIsBlob (Request.int k v).type = true := by
  rw [Request.type]
  exact not_isBlob_type k

/-- An integer that has been checked is in its entry. -/
theorem holds_int (heap : Heap) {k : IntKind} {value : CString} {v : Int} {p : AfRpcParam}
    (hv : numeral k value.bytes = some v) (hfits : Fits k v) (hp : formatParam k value = some p) :
    Holds heap (.int k v) p := by
  have hformat := formatParam_eq k value
  have hnumeral := numeral_eq k value.bytes
  rw [hv] at hnumeral
  split_ifs at hnumeral with hdigits
  obtain rfl := Option.some.inj hnumeral
  rw [hp, narrowed_of_fits hfits, if_pos ⟨hdigits.2, hfits⟩] at hformat
  obtain rfl := Option.some.inj hformat
  have hcarries := carries_setParamAs hfits
  refine ⟨?_, ?_, ?_, ?_⟩
  · rw [hcarries.1]
    exact setWidth_setWidth_self k.type (by omega)
  · intro k' v' heq
    obtain ⟨rfl, rfl⟩ := Request.int.inj heq
    exact hcarries.2
  · exact fun hblob => absurd hblob (isBlob_type_int k _)
  · exact fun hblob => absurd hblob (isBlob_type_int k _)

section Option

variable {malloc : Malloc} (hmalloc : Fresh malloc) {st st' : Parser}

/-- The sizes that the options know are those of the kinds. -/
theorem intOption_adds {format : Int → Option CString → Option AfRpcParam} {size value : CString}
    {k : IntKind} {v : Int} (hk : format (atoi size) (some value) = formatParam k value)
    (hv : numeral k value.bytes = some v) (hfits : Fits k v)
    (h : intOption format size (some value) st = some st') : Adds st st' [.int k v] := by
  unfold intOption at h
  rw [hk] at h
  split_ifs at h with hroom
  cases hp : formatParam k value with
  | none =>
      rw [hp] at h
      cases h
  | some p =>
      rw [hp] at h
      obtain rfl := Option.some.inj h
      intro rs hrs
      exact forall₂_concat hrs (holds_int st.heap hv hfits hp)

include hmalloc

/-- A new block for a new entry. -/
theorem adds_fill {base : Word} {n : Nat} (hbase : malloc st.heap n = some base) {bytes : List Byte}
    (hbytes : bytes.length ≤ n) {r : Request} {p : AfRpcParam} (hnew : Holds (st.heap.fill base n bytes) r p) :
    Adds st { st with params := st.params ++ [p], heap := st.heap.fill base n bytes } [r] := by
  intro rs hrs
  refine forall₂_concat (hrs.imp ?_) hnew
  intro r' p' hold
  refine ⟨hold.type, hold.int, hold.base, ?_⟩
  intro hblob hsize
  obtain ⟨bytes', hlen, hmeans, hheld⟩ := hold.held hblob hsize
  exact ⟨bytes', hlen, hmeans, hheld.fill hmalloc hbase hbytes⟩

theorem stringOption_adds {value : CString} (h : stringOption malloc value st = some st') :
    Adds st st' [.string value] := by
  simp only [stringOption] at h
  split_ifs at h with hlen hroom
  cases hbase : malloc st.heap (toInt32 (value.bytes.length + 1)).toNat with
  | none =>
      rw [hbase] at h
      cases h
  | some base =>
      rw [hbase] at h
      obtain rfl := Option.some.inj h
      have htake : ((value.bytes ++ [0]).take (toInt32 (value.bytes.length + 1)).toNat).length ≤
          (toInt32 (value.bytes.length + 1)).toNat := by
        rw [List.length_take]
        exact Nat.min_le_left _ _
      refine adds_fill hmalloc hbase htake ⟨?_, ?_, ?_, ?_⟩
      · obtain ⟨q, hq⟩ := toInt32_eq (value.bytes.length + 1)
        exact setParamAsString_type_of_mod base (by rw [hq]; push_cast; omega)
      · intro k v heq
        cases heq
      · exact fun _ => (hmalloc _ _ _ hbase).1
      · -- the size is that of the string, and all of it is copied
        intro _ hsize
        have hsize' : value.bytes.length + 1 ≤ 16383 := hsize
        have hint := @toInt32_of_lt (value.bytes.length + 1) (by omega)
        have hall : (value.bytes ++ [(0 : Byte)]).take (toInt32 (value.bytes.length + 1)).toNat =
            value.bytes ++ [0] := by
          refine List.take_of_length_le ?_
          rw [List.length_append, List.length_singleton]
          omega
        refine ⟨value.bytes ++ [0], List.length_append, rfl, ?_⟩
        have hheld := held_fill hmalloc hbase htake
        rw [hall] at hheld ⊢
        exact hheld

theorem hexOption_adds {tmp : CString} (h : hexOption malloc tmp st = some st') :
    Adds st st' [.hex tmp] := by
  simp only [hexOption] at h
  split_ifs at h with hlen hdigits hroom
  rw [not_or, not_not] at hlen
  rw [Bool.not_eq_false] at hdigits
  obtain ⟨q, hq⟩ := toInt32_eq tmp.bytes.length
  -- an even number, whichever sign it has
  obtain ⟨half, hhalf⟩ : ∃ half : Int, toInt32 tmp.bytes.length = 2 * half := by
    have heven := Int.dvd_of_tmod_eq_zero hlen.2
    exact heven
  have hdiv : (toInt32 tmp.bytes.length).tdiv 2 = half := by
    rw [hhalf]
    exact Int.mul_tdiv_cancel_left half (by omega)
  rw [hdiv] at h
  cases hbase : malloc st.heap (sizeT half) with
  | none =>
      rw [hbase] at h
      cases h
  | some base =>
      rw [hbase] at h
      obtain rfl := Option.some.inj h
      have hlt : toInt32 tmp.bytes.length < 2 ^ 31 := BitVec.toInt_lt
      have hfits : (hexBytes tmp.bytes half.toNat).length ≤ sizeT half := by
        rw [hexBytes_length, sizeT]
        omega
      refine adds_fill hmalloc hbase hfits ⟨?_, ?_, ?_, ?_⟩
      · exact setParamAsBlob_type_of_mod base (by push_cast; omega)
      · intro k v heq
        cases heq
      · exact fun _ => (hmalloc _ _ _ hbase).1
      · intro _ hsize
        have hsize' : tmp.bytes.length / 2 ≤ 16383 := hsize
        have hint := @toInt32_of_lt tmp.bytes.length (by omega)
        have hdouble : tmp.bytes.length = 2 * half.toNat := by omega
        refine ⟨hexBytes tmp.bytes half.toNat, ?_, hexBytes_means _ _ hdouble hdigits,
          held_fill hmalloc hbase hfits⟩
        rw [hexBytes_length, Request.size]
        omega

end Option

-- ============================================================================
-- The loop of the parser
-- ============================================================================

/-- The formatting functions know the sizes of the kinds. -/
theorem format_of_kind {letter : Byte} {size value : CString} {k : IntKind}
    (hk : kindOf (letter = 105) (atoi size) = some k) :
    (if letter = 105 then formatIntParam (atoi size) (some value)
      else formatUintParam (atoi size) (some value)) = formatParam k value := by
  unfold kindOf at hk
  by_cases hletter : letter = 105
  · rw [if_pos hletter]
    simp only [hletter, decide_true, if_true] at hk
    split_ifs at hk with h8 h16 h32
    · obtain rfl := Option.some.inj hk
      rw [h8]
      rfl
    · obtain rfl := Option.some.inj hk
      rw [h16]
      rfl
    · obtain rfl := Option.some.inj hk
      rw [h32]
      rfl
  · rw [if_neg hletter]
    simp only [hletter, decide_false, Bool.false_eq_true, if_false] at hk
    split_ifs at hk with h8 h16 h32
    · obtain rfl := Option.some.inj hk
      rw [h8]
      rfl
    · obtain rfl := Option.some.inj hk
      rw [h16]
      rfl
    · obtain rfl := Option.some.inj hk
      rw [h32]
      rfl

section Loop

variable {malloc : Malloc} (hmalloc : Fresh malloc)

include hmalloc

/-- An option adds an entry for what it asks for. -/
theorem parseOption_adds {s value : CString} {st st' : Parser} {new : List Request}
    (h : parseOption malloc s (some value) st = .ok (some st')) (hnew : requestOf s value = some new) :
    Adds st st' new := by
  unfold parseOption at h
  unfold requestOf at hnew
  cases hs : s.bytes with
  | nil =>
      rw [hs] at hnew
      cases hnew
  | cons c rest =>
      cases rest with
      | nil =>
          rw [hs] at hnew
          cases hnew
      | cons letter rest =>
          rw [hs] at h hnew
          dsimp only at h hnew
          by_cases hminus : c ≠ minus
          · rw [if_pos hminus] at hnew
            cases hnew
          rw [if_neg hminus] at h hnew
          by_cases hd : letter = 100
          · rw [if_pos hd] at h hnew
            obtain rfl := Option.some.inj (Except.ok.inj h)
            obtain rfl := Option.some.inj hnew
            intro rs hrs
            rw [List.append_nil]
            exact hrs
          rw [if_neg hd] at h hnew
          by_cases hint : letter = 117 ∨ letter = 105
          · -- an integer
            rw [if_pos hint] at hnew
            cases hk : kindOf (letter = 105) (atoi (s.drop 2)) with
            | none =>
                rw [hk] at hnew
                cases hnew
            | some k =>
                cases hv : numeral k value.bytes with
                | none =>
                    simp only [hk, hv, bind, Option.bind] at hnew
                    cases hnew
                | some v =>
                    simp only [hk, hv, bind, Option.bind] at hnew
                    split_ifs at hnew with hfits
                    obtain rfl := Option.some.inj hnew
                    have hformat := @format_of_kind letter (s.drop 2) value k hk
                    by_cases hu : letter = 117
                    · have hi : letter ≠ 105 := by
                        rw [hu]
                        decide
                      rw [if_pos hu] at h
                      rw [if_neg hi] at hformat
                      exact intOption_adds hformat hv hfits (Except.ok.inj h)
                    · have hi : letter = 105 := by
                        rcases hint with hletter | hletter
                        · exact absurd hletter hu
                        · exact hletter
                      rw [if_neg hu, if_pos hi] at h
                      rw [if_pos hi] at hformat
                      exact intOption_adds hformat hv hfits (Except.ok.inj h)
          · rw [not_or] at hint
            rw [if_neg hint.1, if_neg hint.2] at h
            rw [if_neg (not_or.mpr hint)] at hnew
            by_cases hstring : letter = 115
            · rw [if_pos hstring] at h hnew
              obtain rfl := Option.some.inj hnew
              exact stringOption_adds hmalloc (Except.ok.inj h)
            rw [if_neg hstring] at h hnew
            by_cases hhex : letter = 104
            · rw [if_pos hhex] at h hnew
              obtain rfl := Option.some.inj hnew
              exact hexOption_adds hmalloc (Except.ok.inj h)
            rw [if_neg hhex] at hnew
            cases hnew

/-- The loop adds entries for all that is asked for, in its order. -/
theorem paramParserLoop_adds (args : List CString) {st st' : Parser} {new : List Request}
    (h : paramParserLoop malloc args st = .ok (some st')) (hnew : requests args = some new) :
    Adds st st' new := by
  induction args, st using paramParserLoop.induct generalizing st' new with
  | case1 st =>
      obtain rfl := Option.some.inj (Except.ok.inj h)
      obtain rfl := Option.some.inj hnew
      intro rs hrs
      rw [List.append_nil]
      exact hrs
  | case2 s st => cases hnew
  | case3 s value args st ih =>
      rw [paramParserLoop] at h
      rw [requests] at hnew
      cases hr : requestOf s value with
      | none =>
          rw [hr] at hnew
          cases hnew
      | some r =>
          cases hrs : requests args with
          | none =>
              rw [hr, hrs] at hnew
              cases hnew
          | some rs =>
              rw [hr, hrs] at hnew
              obtain rfl := Option.some.inj hnew
              cases hparse : parseOption malloc s (some value) st with
              | error e =>
                  rw [hparse] at h
                  cases h
              | ok next =>
                  rw [hparse] at h
                  cases next with
                  | none => cases h
                  | some st₁ =>
                      have hfirst := parseOption_adds hmalloc hparse hr
                      have hrest := ih st₁ h hrs
                      intro qs hqs
                      rw [← List.append_assoc]
                      exact hrest _ (hfirst qs hqs)

end Loop

-- ============================================================================
-- What is sent
-- ============================================================================

/-- An entry is a parameter that the builder takes. -/
def Holds.validParam {heap : Heap} {r : Request} {p : AfRpcParam} (h : Holds heap r p) : ValidParam where
  param := p
  valid := by
    rw [h.type]
    cases r with
    | int k v => exact .inl ⟨k, rfl⟩
    | string text => exact .inr ⟨typeString_isBlob _, fun _ => h.base (typeString_isBlob _)⟩
    | hex text => exact .inr ⟨typeBlob_isBlob _, fun _ => h.base (typeBlob_isBlob _)⟩

theorem exists_valid {heap : Heap} {rs : List Request} {params : List AfRpcParam}
    (h : List.Forall₂ (Holds heap) rs params) :
    ∃ ps : List ValidParam, ps.map ValidParam.param = params ∧
      List.Forall₂ (fun r p => Holds heap r p.param) rs ps := by
  induction h with
  | nil => exact ⟨[], rfl, .nil⟩
  | cons hold _ ih =>
      obtain ⟨ps, hps, hall⟩ := ih
      exact ⟨hold.validParam :: ps, congrArg _ hps, .cons hold hall⟩

/-- The bytes that the code takes for a request in a message. -/
def Request.coded (r : Request) : Nat := r.size % 2 ^ 14

theorem tlv_size {heap : Heap} {r : Request} {p : ValidParam} (h : Holds heap r p.param) (mem : Mem) :
    (p.tlv mem).size = 2 + r.coded := by
  have hwf := p.payload_wf mem
  have hsize : (p.tlv mem).size = 2 + (p.payload mem).length := rfl
  have htype : p.type = r.type := h.type
  rw [htype] at hwf
  rw [hsize, Request.coded]
  congr 1
  by_cases hblob : typeIsBlob r.type = true
  · rw [payloadSize_of_isBlob hblob, Option.some.injEq] at hwf
    rw [← r.blobSize_type hblob]
    exact hwf.symm
  · cases r with
    | int k v =>
        rw [Request.type, payloadSize_type, Option.some.injEq] at hwf
        have hwidth : k.width % 2 ^ 14 = k.width := by cases k <;> rfl
        rw [Request.size, hwidth, hwf]
    | string text => exact absurd (typeString_isBlob _) hblob
    | hex text => exact absurd (typeBlob_isBlob _) hblob

theorem messageSize_eq {heap : Heap} {rs : List Request} {ps : List ValidParam}
    (h : List.Forall₂ (fun r p => Holds heap r p.param) rs ps) (mem : Mem) :
    messageSize (ps.map (ValidParam.tlv mem)) = 2 + (rs.map (fun r => 2 + r.coded)).sum := by
  rw [messageSize]
  congr 1
  induction h with
  | nil => rfl
  | cons hold _ ih =>
      rw [List.map_cons, List.map_cons, List.map_cons, List.sum_cons, List.sum_cons, ih,
        tlv_size hold]

/-- What is decoded answers a request whose size fits in the type. -/
theorem answers_of_same {heap : Heap} {r : Request} {p : ValidParam} {mem' : Mem} {d : AfRpcParam}
    (hold : Holds heap r p.param) (hsize : r.size ≤ 16383) (hsame : SameParam heap.mem mem' p d) :
    Answers mem' r d := by
  have hp : p.type = r.type := hold.type
  have htype : d.type.setWidth 16 = r.type := by
    rw [hsame.type, hp]
    exact setWidth_setWidth_self r.type (by omega)
  have hmeans : typeIsBlob r.type = true →
      r.Means (readMem mem' d.base (blobSize (d.type.setWidth 16)).toNat) := by
    intro hblob
    obtain ⟨bytes, hlen, hmeans, hheld⟩ := hold.held hblob hsize
    have hread := hsame.blob (by rw [hp]; exact hblob)
    rw [hread, hp, r.blobSize_type hblob, Nat.mod_eq_of_lt (by omega), ← hlen, hheld.read]
    exact hmeans
  cases r with
  | int k v =>
      refine ⟨?_, ?_⟩
      · rw [hsame.type, hp]
        rfl
      · rw [hsame.int k hp]
        exact hold.int k v rfl
  | string text =>
      rw [Request.type] at htype
      refine ⟨?_, ?_, hmeans (typeString_isBlob _)⟩
      · rw [htype]
        exact typeString_isBlob _
      · rw [htype]
        exact stringFlag_typeString _
  | hex text =>
      rw [Request.type] at htype
      refine ⟨?_, ?_, hmeans (typeBlob_isBlob _)⟩
      · rw [htype]
        exact typeBlob_isBlob _
      · rw [htype]
        exact stringFlag_typeBlob _

/-- Only a request whose size fits in the type is answered. -/
theorem size_of_answers {r : Request} {mem' : Mem} {d : AfRpcParam}
    (htype : d.type.setWidth 16 = r.type) (h : Answers mem' r d) : r.size ≤ 16383 := by
  cases r with
  | int k v =>
      have hwidth : k.width ≤ 16383 := by cases k <;> decide
      exact hwidth
  | string text =>
      have hlen := congrArg List.length h.2.2
      rw [htype, @Request.blobSize_type (.string text) (typeString_isBlob _), readMem_length,
        List.length_append, List.length_singleton] at hlen
      have hsize : (Request.string text).size = text.bytes.length + 1 := rfl
      omega
  | hex text =>
      have hlen := congrArg List.length h.2.2
      rw [htype, @Request.blobSize_type (.hex text) (typeBlob_isBlob _), hexText_length,
        readMem_length, List.length_map] at hlen
      have hsize : (Request.hex text).size = text.bytes.length / 2 := rfl
      omega

section Sent

variable {heap : Heap} {rs : List Request} {ps : List ValidParam} {mem' : Mem} {ds : List AfRpcParam}

theorem answers_of_sizes (hold : List.Forall₂ (fun r p => Holds heap r p.param) rs ps)
    (hsame : List.Forall₂ (SameParam heap.mem mem') ps ds) (hsizes : ∀ r ∈ rs, r.size ≤ 16383) :
    List.Forall₂ (Answers mem') rs ds := by
  induction hold generalizing ds with
  | nil =>
      cases hsame
      exact .nil
  | cons hold _ ih =>
      obtain ⟨hsize, hsizes⟩ := List.forall_mem_cons.mp hsizes
      cases hsame with
      | cons hd hsame => exact .cons (answers_of_same hold hsize hd) (ih hsame hsizes)

theorem sizes_of_answers (hold : List.Forall₂ (fun r p => Holds heap r p.param) rs ps)
    (hsame : List.Forall₂ (SameParam heap.mem mem') ps ds)
    (hanswers : List.Forall₂ (Answers mem') rs ds) : ∀ r ∈ rs, r.size ≤ 16383 := by
  induction hold generalizing ds with
  | nil =>
      intro r hr
      cases hr
  | @cons r p rs ps hold _ ih =>
      cases hsame with
      | cons hd hsame =>
          cases hanswers with
          | cons hanswer hanswers =>
              refine List.forall_mem_cons.mpr ⟨size_of_answers ?_ hanswer, ih hsame hanswers⟩
              have hp : p.type = r.type := hold.type
              rw [hd.type, hp]
              exact setWidth_setWidth_self r.type (by omega)

/-- The message is decoded to parameters that are those it was made of. -/
theorem decoded_same {addr : Word} {template : List AfRpcParam}
    (hfit : messageSize (ps.map (ValidParam.tlv heap.mem)) ≤ instrMaxLen)
    (hroom : ps.length ≤ template.length)
    (hmem : readMem mem' addr (messageSize (ps.map (ValidParam.tlv heap.mem))) =
      encodeMessage (ps.map (ValidParam.tlv heap.mem))) :
    ∃ decoded, afRpcGetParamsFromBuffer template template.length addr
        (encodeMessage (ps.map (ValidParam.tlv heap.mem)))
        (messageSize (ps.map (ValidParam.tlv heap.mem))) true = .ok ((ps.length : Int), decoded) ∧
      List.Forall₂ (SameParam heap.mem mem') ps (decoded.take ps.length) := by
  rw [instrMaxLen] at hfit
  have hcount : (ps.map (ValidParam.tlv heap.mem)).length = ps.length := List.length_map _
  obtain ⟨decoded, hdec, htake⟩ := @getParams_message addr template
    (ps.map (ValidParam.tlv heap.mem)) (by rw [hcount]; exact hroom) (by omega)
  rw [hcount] at hdec htake
  have hsplit : encodeMessage (ps.map (ValidParam.tlv heap.mem)) =
      toBe 2 (messageSize (ps.map (ValidParam.tlv heap.mem))) ++ (tlvsBytes heap.mem ps ++ []) := by
    rw [List.append_nil]
    rfl
  rw [← encodeMessage_length, hsplit] at hmem
  have hsame := sameParam_decodedParams ps _ [] hmem
  rw [toBe_length, ← htake] at hsame
  exact ⟨decoded, hdec, hsame⟩

end Sent

/-- What the parser accepts is in the entries. -/
theorem paramParser_holds {malloc : Malloc} (hmalloc : Fresh malloc) {argv : List CString}
    {heap : Heap} {st : Parser} {rs : List Request}
    (hparse : paramParser malloc argv heap = .ok (some st))
    (hrs : requests (argv.drop 2) = some rs) : List.Forall₂ (Holds st.heap) rs st.params := by
  simp only [paramParser] at hparse
  split_ifs at hparse
  · cases hparse
  · cases hloop : paramParserLoop malloc (argv.drop 2) ⟨argv[1]?, [], heap⟩ with
    | error e =>
        rw [hloop] at hparse
        cases hparse
    | ok found =>
        rw [hloop] at hparse
        cases found with
        | none => cases hparse
        | some st' =>
            have hname : (if st'.name.isNone then none else some st') = some st :=
              Except.ok.inj hparse
            split_ifs at hname
            obtain rfl := Option.some.inj hname
            have hadds := paramParserLoop_adds hmalloc (argv.drop 2) hloop hrs
            have hall := hadds [] .nil
            rw [List.nil_append] at hall
            exact hall

section Sends

variable {heap : Heap} {rs : List Request} {ps : List ValidParam}
  (hold : List.Forall₂ (fun r p => Holds heap r p.param) rs ps)

/-- The message of the entries, in `txBuffer`. -/
theorem create_fits (hfit : messageSize (ps.map (ValidParam.tlv heap.mem)) ≤ instrMaxLen) :
    afRpcCreateBufferWithParams heap.mem (List.replicate instrMaxLen 0) instrMaxLen
        (ps.map ValidParam.param) =
      .ok ((messageSize (ps.map (ValidParam.tlv heap.mem)) : Int),
        encodeMessage (ps.map (ValidParam.tlv heap.mem)) ++
          (List.replicate instrMaxLen 0).drop (messageSize (ps.map (ValidParam.tlv heap.mem)))) := by
  have hbuf : (List.replicate instrMaxLen (0 : Byte)).length = instrMaxLen := List.length_replicate
  have hrun := create_eq_encodeMessage heap.mem ps (List.replicate instrMaxLen 0)
    (by rw [hbuf]; exact hfit) (by rw [instrMaxLen] at hfit; omega)
  rw [hbuf] at hrun
  exact hrun

theorem take_message (rest : List Byte) :
    (encodeMessage (ps.map (ValidParam.tlv heap.mem)) ++ rest).take
        (messageSize (ps.map (ValidParam.tlv heap.mem)) : Int).toNat =
      encodeMessage (ps.map (ValidParam.tlv heap.mem)) := by
  rw [Int.toNat_natCast, ← encodeMessage_length]
  exact List.take_left

include hold

/-- Nothing is sent that does not fit, so no value is cut. -/
theorem sizes_of_sends (hsends : SendsRequested heap.mem (ps.map ValidParam.param) rs)
    (hfit : 2 + (rs.map (fun r => 2 + r.coded)).sum ≤ instrMaxLen) : ∀ r ∈ rs, r.size ≤ 16383 := by
  have hcount : rs.length = ps.length := hold.length_eq
  rw [← messageSize_eq hold heap.mem] at hfit
  have hpos : 2 ≤ messageSize (ps.map (ValidParam.tlv heap.mem)) := Nat.le_add_right 2 _
  -- received at address 0
  have hread := @readMem_writeMem (fun _ => 0) 0 (encodeMessage (ps.map (ValidParam.tlv heap.mem)))
    (by rw [encodeMessage_length]
        have hz : (0 : Word).toNat = 0 := rfl
        rw [instrMaxLen] at hfit
        omega)
  rw [encodeMessage_length] at hread
  obtain ⟨decoded, hdec, hanswers⟩ := hsends _ _ (create_fits hfit) (by omega)
    (writeMem (fun _ => 0) 0 (encodeMessage (ps.map (ValidParam.tlv heap.mem)))) 0
    (List.replicate ps.length ⟨0, 0⟩) (by rw [take_message]; exact hread)
    (by rw [List.length_replicate, hcount])
  obtain ⟨decoded', hdec', hsame⟩ := @decoded_same heap ps _ 0
    (List.replicate ps.length ⟨0, 0⟩) hfit (by rw [List.length_replicate]) hread
  rw [take_message, hdec'] at hdec
  obtain rfl := (Prod.mk.inj (Except.ok.inj hdec)).2
  rw [hcount] at hanswers
  exact sizes_of_answers hold hsame hanswers

theorem sends_of_sizes
    (hsizes : 2 + (rs.map (fun r => 2 + r.coded)).sum ≤ instrMaxLen → ∀ r ∈ rs, r.size ≤ 16383) :
    SendsRequested heap.mem (ps.map ValidParam.param) rs := by
  have hcount : rs.length = ps.length := hold.length_eq
  have hbuf : (List.replicate instrMaxLen (0 : Byte)).length = instrMaxLen := List.length_replicate
  rw [← messageSize_eq hold heap.mem] at hsizes
  intro size txBuffer hrun hpos mem' addr template hmem hroom
  have hfit : messageSize (ps.map (ValidParam.tlv heap.mem)) ≤ instrMaxLen := by
    by_contra hlarge
    obtain ⟨buf', hover⟩ := create_too_large heap.mem ps (List.replicate instrMaxLen 0)
      (by rw [hbuf, instrMaxLen]; omega) (by rw [hbuf]; omega)
    rw [hbuf, hrun] at hover
    obtain ⟨rfl, _⟩ := Prod.mk.inj (Except.ok.inj hover)
    rw [errBufferOverflow] at hpos
    omega
  rw [create_fits hfit] at hrun
  obtain ⟨rfl, rfl⟩ := Prod.mk.inj (Except.ok.inj hrun)
  rw [take_message] at hmem ⊢
  rw [Int.toNat_natCast] at hmem
  obtain ⟨decoded, hdec, hsame⟩ := @decoded_same heap ps mem' addr template hfit
    (by rw [← hcount]; exact hroom) hmem
  rw [hcount]
  exact ⟨decoded, hdec, answers_of_sizes hold hsame (hsizes hfit)⟩

end Sends

/-- **`ipc_send` sends what was asked for** exactly if every value has a size of at most
    14 bits, or the message is too large even with the sizes cut to 14 bits. -/
theorem sendsRequested_iff (malloc : Malloc) (hmalloc : Fresh malloc) (argv : List CString)
    (heap : Heap) (st : Parser) (rs : List Request)
    (hparse : paramParser malloc argv heap = .ok (some st))
    (hrs : requests (argv.drop 2) = some rs) :
    SendsRequested st.heap.mem st.params rs ↔
      (2 + (rs.map (fun r => 2 + r.coded)).sum ≤ instrMaxLen → ∀ r ∈ rs, r.size ≤ 16383) := by
  obtain ⟨ps, hps, hold⟩ := exists_valid (paramParser_holds hmalloc hparse hrs)
  rw [← hps]
  exact ⟨sizes_of_sends hold, sends_of_sizes hold⟩

-- ============================================================================
-- A heap
-- ============================================================================

/-- The end of the last block. -/
def Heap.top (heap : Heap) : Nat := heap.blocks.foldr (fun b top => max top (b.base.toNat + b.size)) 64

/-- Blocks one after the other, from address 64 on. -/
def bump : Malloc := fun heap n =>
  if heap.top + n < 2 ^ 64 then some (BitVec.ofNat 64 heap.top) else none

theorem bump_fresh : Fresh bump := by
  intro heap n base hbase
  simp only [bump] at hbase
  split_ifs at hbase with hroom
  obtain rfl := Option.some.inj hbase
  have htop : ∀ blocks : List Block,
      64 ≤ blocks.foldr (fun b top => max top (b.base.toNat + b.size)) 64 ∧
        ∀ b ∈ blocks, b.base.toNat + b.size ≤
          blocks.foldr (fun b top => max top (b.base.toNat + b.size)) 64 := by
    intro blocks
    induction blocks with
    | nil => exact ⟨Nat.le_refl 64, by simp⟩
    | cons b blocks ih =>
        rw [List.foldr_cons, List.forall_mem_cons]
        refine ⟨by omega, by omega, ?_⟩
        intro b' hb'
        have hle := ih.2 b' hb'
        omega
  obtain ⟨hlow, hends⟩ := htop heap.blocks
  have hnat : (BitVec.ofNat 64 heap.top).toNat = heap.top := by
    rw [BitVec.toNat_ofNat]
    omega
  refine ⟨?_, by omega, ?_⟩
  · intro hzero
    rw [hzero] at hnat
    have hz : (0 : Word).toNat = 0 := rfl
    have hle : 64 ≤ heap.top := hlow
    omega
  · intro b hb
    rw [hnat]
    exact .inr (hends b hb)

/-- Something is found. -/
theorem exists_found {x : Except Trap (Option Parser)} (h : x.toOption.join.isSome = true) :
    ∃ st, x = .ok (some st) := by
  cases x with
  | error e => cases h
  | ok found =>
      cases found with
      | none => cases h
      | some st => exact ⟨st, rfl⟩

/-- A string and an unsigned byte. -/
theorem sendsRequested_iff_string :
    let argv : List CString := [⟨[120], by decide⟩, ⟨[121], by decide⟩, ⟨[45, 115], by decide⟩,
      ⟨[104, 105], by decide⟩, ⟨[45, 117, 56], by decide⟩, ⟨[55], by decide⟩]
    let rs : List Request := [.string ⟨[104, 105], by decide⟩, .int .uint8 7]
    ∃ st, paramParser bump argv ⟨fun _ => 0, []⟩ = .ok (some st) ∧
      (SendsRequested st.heap.mem st.params rs ↔
        (2 + (rs.map (fun r => 2 + r.coded)).sum ≤ instrMaxLen → ∀ r ∈ rs, r.size ≤ 16383)) := by
  intro argv rs
  obtain ⟨st, hparse⟩ := @exists_found (paramParser bump argv ⟨fun _ => 0, []⟩) (by decide +kernel)
  exact ⟨st, hparse, sendsRequested_iff bump bump_fresh argv ⟨fun _ => 0, []⟩ st rs hparse rfl⟩

/-- One hex value is accepted on an empty heap, if it has an even number of digits. -/
theorem parses_hex (arg₀ arg₁ : CString) {text : CString} {n : Nat}
    (hlen : text.bytes.length = 2 * (n + 1)) (hn : n < 2 ^ 29) (hdigits : isXdigits text.bytes = true) :
    ∃ st, paramParser bump [arg₀, arg₁, ⟨[45, 104], by decide⟩, text] ⟨fun _ => 0, []⟩ =
      .ok (some st) := by
  have hint : toInt32 text.bytes.length = 2 * (n + 1 : Nat) := by
    rw [toInt32_of_lt (by omega), hlen]
    push_cast
    rfl
  have hdiv : (2 * ((n + 1 : Nat) : Int)).tdiv 2 = (n + 1 : Nat) := Int.mul_tdiv_cancel_left _ (by omega)
  have hmod : (2 * ((n + 1 : Nat) : Int)).tmod 2 = 0 := Int.mul_tmod_right 2 _
  have hsize : sizeT ((n + 1 : Nat) : Int) = n + 1 := by
    rw [sizeT_of_nonneg (by omega) (by omega)]
    rfl
  have hbase : bump ⟨fun _ => 0, []⟩ (n + 1) = some 64 := if_pos (by
    have htop : (Heap.mk (fun _ => 0) []).top = 64 := rfl
    omega)
  have hhex : ∃ st, hexOption bump text ⟨some arg₁, [], ⟨fun _ => 0, []⟩⟩ = some st ∧
      st.name = some arg₁ := by
    simp only [hexOption, hint, hdigits, hdiv, hmod, hsize, hbase]
    rw [if_neg (by omega), if_neg (by simp), if_pos (by simp [maxParams])]
    exact ⟨_, rfl, rfl⟩
  obtain ⟨st, hhex, hname⟩ := hhex
  have hparse : parseOption bump ⟨[45, 104], by decide⟩ (some text)
      ⟨some arg₁, [], ⟨fun _ => 0, []⟩⟩ = .ok (hexOption bump text ⟨some arg₁, [], ⟨fun _ => 0, []⟩⟩) :=
    rfl
  have hloop : paramParserLoop bump
      (List.drop 2 [arg₀, arg₁, ⟨[45, 104], by decide⟩, text])
      ⟨[arg₀, arg₁, ⟨[45, 104], by decide⟩, text][1]?, [], ⟨fun _ => 0, []⟩⟩ = .ok (some st) := by
    show paramParserLoop bump [⟨[45, 104], _⟩, text] ⟨some arg₁, [], ⟨fun _ => 0, []⟩⟩ = _
    rw [paramParserLoop, hparse, hhex]
    rfl
  refine ⟨st, ?_⟩
  simp only [paramParser, hloop, List.length_cons, List.length_nil, bind, Except.bind, hname]
  rfl

/-- A hex value of 16384 bytes is sent as an empty blob. -/
theorem hex_cut :
    ∃ (text : CString) (st : Parser), text.bytes.length = 32768 ∧
      paramParser bump [⟨[120], by decide⟩, ⟨[121], by decide⟩, ⟨[45, 104], by decide⟩, text]
        ⟨fun _ => 0, []⟩ = .ok (some st) ∧
      requests [⟨[45, 104], by decide⟩, text] = some [.hex text] ∧
      ¬ SendsRequested st.heap.mem st.params [.hex text] := by
  have hexists : ∃ text : CString, text.bytes.length = 32768 ∧ isXdigits text.bytes = true := by
    refine ⟨⟨List.replicate 32768 48, ?_⟩, List.length_replicate, ?_⟩
    · intro b hb
      rw [List.eq_of_mem_replicate hb]
      exact ofNat_ne_zero (d := 48) (by omega) (by omega)
    · refine List.all_eq_true.mpr (fun b hb => ?_)
      rw [List.eq_of_mem_replicate hb]
      rfl
  obtain ⟨text, hlen, hdigits⟩ := hexists
  obtain ⟨st, hparse⟩ := @parses_hex ⟨[120], by decide⟩ ⟨[121], by decide⟩ text 16383 hlen (by omega)
    hdigits
  refine ⟨text, st, hlen, hparse, rfl, ?_⟩
  obtain ⟨ps, hps, hold⟩ := exists_valid (@paramParser_holds bump bump_fresh _ _ st [.hex text] hparse rfl)
  have hsize : (Request.hex text).size = 16384 := by rw [Request.size, hlen]
  have hcoded : (Request.hex text).coded = 0 := by
    rw [Request.coded, hsize]
    rfl
  rw [← hps]
  intro hsends
  have hle := sizes_of_sends hold hsends (by simp [hcoded, instrMaxLen]) (.hex text)
    (List.mem_singleton_self _)
  omega

end AfIpc.Tools
