/-
  AfIpc.Rpc.PrefixWidth

  The length prefix has 16 bits and the buffer size is an `int`.  The builders
  compare the position with the buffer size only, so the prefix is right exactly
  as long as no message of 65536 bytes or more fits the buffer.

  The batch builder is followed to its end for any parameter list
  (`createBufferLoop_total`); the incremental builders are followed call by call
  (`callsKeepPrefix_iff`), up to the first call that moves the length past the prefix.
-/

import AfIpc.Rpc.Incremental

namespace AfIpc.Rpc

open AfIpc.Lib

-- ============================================================================
-- What a builder owes its caller
-- ============================================================================

/-- `ret` is what a builder returned, `buf` the buffer it left and `total` the
    length of the message with everything encoded so far.  A positive `ret` is
    that length and the prefix; a message too long for the prefix is an error. -/
def PrefixKept (total : Nat) (ret : Int) (buf : List Byte) : Prop :=
  (0 < ret → (lengthPrefix buf : Int) = ret ∧ ret = total) ∧ (2 ^ 16 ≤ total → ret < 0)

theorem PrefixKept.of_neg {total : Nat} {ret : Int} {buf : List Byte} (h : ret < 0) :
    PrefixKept total ret buf := by
  refine ⟨?_, fun _ => h⟩
  intro hpos
  omega

theorem lengthPrefix_toBe (n : Nat) (post : List Byte) :
    lengthPrefix (toBe 2 n ++ post) = n % 2 ^ 16 := by
  have htake : (toBe 2 n ++ post).take 2 = toBe 2 n := by
    rw [List.take_append_of_le_length (by rw [toBe_length]), List.take_of_length_le]
    rw [toBe_length]
  rw [lengthPrefix, htake]
  exact ofBe_toBe 2 n

/-- A builder that returns the length and stores its low 16 bits keeps the
    prefix exactly for the lengths the prefix can hold. -/
theorem prefixKept_iff {total : Nat} {buf : List Byte} (h2 : 2 ≤ total)
    (hbuf : lengthPrefix buf = total % 2 ^ 16) :
    PrefixKept total total buf ↔ total < 2 ^ 16 := by
  refine ⟨?_, ?_⟩
  · rintro ⟨-, hlong⟩
    by_contra hge
    have hneg : (total : Int) < 0 := hlong (by omega)
    omega
  · intro hlt
    refine ⟨?_, fun hge => absurd hge (by omega)⟩
    intro _
    rw [hbuf, Nat.mod_eq_of_lt hlt]
    exact ⟨rfl, rfl⟩

-- ============================================================================
-- The batch builder on any parameters
-- ============================================================================

/-- The bytes a parameter takes in the message. -/
def paramSize (p : AfRpcParam) : Nat :=
  typeSize + (afRpcGetSizeOfType (p.type.setWidth 16)).toNat

/-- The length of the message of `params`. -/
def paramsLength (params : List AfRpcParam) : Nat :=
  lengthSize + (params.map paramSize).sum

/-- The parameter is one of `ValidParam`. -/
def IsValid (p : AfRpcParam) : Prop := ∃ q : ValidParam, q.param = p

theorem paramSize_valid (mem : Mem) (p : ValidParam) : paramSize p.param = (p.tlv mem).size := by
  have hsize := sizeOfType_param mem p
  rw [ValidParam.type] at hsize
  rw [paramSize, hsize, Int.toNat_natCast]
  rfl

section Create

variable (mem : Mem) (p : AfRpcParam) (params : List AfRpcParam) (pre post : List Byte)

/-- A parameter that is not valid ends the loop with an error. -/
theorem createBufferLoop_invalid (hbad : ¬ IsValid p) :
    ∃ ret buf', createBufferLoop mem (pre.length + post.length : Nat) (p :: params) pre.length
        (pre ++ post) = .ok (ret, buf') ∧ ret < 0 := by
  have htypeErr : errBadType < 0 := by decide
  have hparamErr : errBadParam < 0 := by decide
  have hoverErr : errBufferOverflow < 0 := by decide
  simp only [createBufferLoop]
  by_cases hsize : afRpcGetSizeOfType (p.type.setWidth 16) < 0 ∨
      afRpcGetSizeOfType (p.type.setWidth 16) > maxBlobSize
  · rw [if_pos hsize]
    exact ⟨_, _, rfl, htypeErr⟩
  rw [if_neg hsize]
  by_cases hover : (pre.length + typeSize + afRpcGetSizeOfType (p.type.setWidth 16) : Int)
      > (pre.length + post.length : Nat)
  · rw [if_pos hover]
    exact ⟨_, _, rfl, hoverErr⟩
  rw [if_neg hover]
  have hroom : 2 ≤ post.length := by
    rw [typeSize] at hover
    omega
  have hset := setlen_append pre post (p.type.setWidth 16) hroom
  simp only [hset, bind, Except.bind, pure, Except.pure]
  by_cases hint : typeIsInteger (p.type.setWidth 16) = true
  · rw [if_pos hint]
    by_cases hmask : BitVec.setWidth 16 p.type &&& typeIntegerTypeMask ≠ BitVec.setWidth 16 p.type
    · rw [if_pos hmask]
      exact ⟨_, _, rfl, htypeErr⟩
    rw [if_neg hmask]
    cases hstored : storedInt (p.type.setWidth 16) p.base with
    | none => exact ⟨_, _, rfl, htypeErr⟩
    | some value =>
        -- the `switch` knows the six types of `ValidParam` only
        obtain ⟨k, hk⟩ := storedInt_eq_some hstored
        exact absurd ⟨⟨p, Or.inl ⟨k, hk⟩⟩, rfl⟩ hbad
  · rw [if_neg hint]
    have hblob := isBlob_of_not_isInteger hint
    by_cases hpos : afRpcGetSizeOfType (p.type.setWidth 16) > 0
    · rw [if_pos hpos]
      by_cases hnull : p.base = 0
      · rw [if_pos hnull]
        exact ⟨_, _, rfl, hparamErr⟩
      · exact absurd ⟨⟨p, Or.inr ⟨hblob, fun _ => hnull⟩⟩, rfl⟩ hbad
    · -- an empty blob may be NULL
      have hempty : blobSize (p.type.setWidth 16) = 0 := by
        have hblobSize := sizeOfType_blob hblob
        apply BitVec.eq_of_toNat_eq
        show (p.type.setWidth 16 &&& 0x3fff).toNat = 0
        omega
      exact absurd ⟨⟨p, Or.inr ⟨hblob, fun h => absurd hempty h⟩⟩, rfl⟩ hbad

/-- The loop never traps.  It returns the length of the whole message, with its
    low 16 bits in the prefix, if every parameter is valid and all of them fit,
    and an error otherwise. -/
theorem createBufferLoop_total (hpre : 2 ≤ pre.length) :
    ∃ ret buf', createBufferLoop mem (pre.length + post.length : Nat) params pre.length
        (pre ++ post) = .ok (ret, buf') ∧
      (((∀ p ∈ params, IsValid p) ∧ (params.map paramSize).sum ≤ post.length ∧
          ret = (pre.length + (params.map paramSize).sum : Nat) ∧
          lengthPrefix buf' = (pre.length + (params.map paramSize).sum) % 2 ^ 16) ∨
        (ret < 0 ∧ ¬ ((∀ p ∈ params, IsValid p) ∧
          (params.map paramSize).sum ≤ post.length))) := by
  induction params generalizing pre post with
  | nil =>
      have hlen : 2 ≤ (pre ++ post).length := by
        rw [List.length_append]
        omega
      have hset := setlen_append [] (pre ++ post) (BitVec.ofNat 16 pre.length) hlen
      have hcut : toBe 2 (BitVec.ofNat 16 pre.length).toNat = toBe 2 pre.length := toBe_mod 2 _
      rw [List.nil_append, List.length_nil, List.nil_append, hcut] at hset
      have hrun : createBufferLoop mem (pre.length + post.length : Nat) [] pre.length
          (pre ++ post) = .ok ((pre.length : Int), toBe 2 pre.length ++ (pre ++ post).drop 2) := by
        simp only [createBufferLoop, hset, bind, Except.bind, pure, Except.pure]
      refine ⟨_, _, hrun, Or.inl ⟨by simp, by simp, by simp, ?_⟩⟩
      rw [lengthPrefix_toBe]
      simp
  | cons p params ih =>
      have hsum : ((p :: params).map paramSize).sum = paramSize p + (params.map paramSize).sum := by
        simp
      by_cases hvalid : IsValid p
      · obtain ⟨q, rfl⟩ := hvalid
        have hsize := paramSize_valid mem q
        by_cases hfit : (q.tlv mem).size ≤ post.length
        · have hstep := createBufferLoop_fit mem q params pre post
            (pre.length + post.length : Nat) (by omega) hfit
          have hpre' : (pre ++ (q.tlv mem).encode).length = pre.length + (q.tlv mem).size := by
            rw [List.length_append, Tlv.encode_length]
          have hdrop : (post.drop (q.tlv mem).size).length = post.length - (q.tlv mem).size :=
            List.length_drop
          obtain ⟨ret, buf', hrun, hres⟩ := ih (pre ++ (q.tlv mem).encode)
            (post.drop (q.tlv mem).size) (by omega)
          have hbuf : (pre ++ (q.tlv mem).encode).length + (post.drop (q.tlv mem).size).length =
              pre.length + post.length := by omega
          rw [hbuf, ← hstep] at hrun
          refine ⟨ret, buf', hrun, ?_⟩
          rw [hpre', hdrop] at hres
          rcases hres with ⟨hall, hle, hret, hpfx⟩ | ⟨hret, hnot⟩
          · left
            have hend : pre.length + ((q.param :: params).map paramSize).sum =
                pre.length + (q.tlv mem).size + (params.map paramSize).sum := by omega
            refine ⟨?_, by omega, by rw [hend]; exact hret, by rw [hend]; exact hpfx⟩
            intro p hp
            rcases List.mem_cons.mp hp with rfl | hp
            · exact ⟨q, rfl⟩
            · exact hall p hp
          · right
            refine ⟨hret, ?_⟩
            rintro ⟨hall, hle⟩
            apply hnot
            exact ⟨fun p hp => hall p (List.mem_cons_of_mem _ hp), by omega⟩
        · have hstep := createBufferLoop_overflow mem q params pre
            (pre.length + post.length : Nat) (by omega) (pre ++ post)
          refine ⟨_, _, hstep, Or.inr ⟨by decide, ?_⟩⟩
          rintro ⟨-, hle⟩
          omega
      · obtain ⟨ret, buf', hrun, hret⟩ := createBufferLoop_invalid mem p params pre post hvalid
        refine ⟨ret, buf', hrun, Or.inr ⟨hret, ?_⟩⟩
        rintro ⟨hall, -⟩
        exact hvalid (hall p List.mem_cons_self)

end Create

/-- `af_rpc_create_buffer_with_params` keeps the prefix. -/
def CreateKeepsPrefix (mem : Mem) (buf : List Byte) (params : List AfRpcParam) : Prop :=
  ∃ ret buf', afRpcCreateBufferWithParams mem buf buf.length params = .ok (ret, buf') ∧
    PrefixKept (paramsLength params) ret buf'

/-- Every parameter is valid and the message is too long for the prefix, but not
    for the buffer. -/
def OutgrowsPrefix (bufSize : Nat) (params : List AfRpcParam) : Prop :=
  (∀ p ∈ params, IsValid p) ∧ 2 ^ 16 ≤ paramsLength params ∧ paramsLength params ≤ bufSize

theorem createKeepsPrefix_iff (mem : Mem) (buf : List Byte) (params : List AfRpcParam)
    (hpos : 0 < buf.length) :
    CreateKeepsPrefix mem buf params ↔ ¬ OutgrowsPrefix buf.length params := by
  have hlength : paramsLength params = 2 + (params.map paramSize).sum := rfl
  have hnz : ¬ (buf.length : Int) ≤ 0 := by omega
  by_cases hshort : buf.length < 2
  · -- one byte: not even an empty message
    have hlt : (buf.length : Int) < lengthSize := by rw [lengthSize]; omega
    have hrun : afRpcCreateBufferWithParams mem buf buf.length params =
        .ok (errBufferOverflow, buf) := by
      simp only [afRpcCreateBufferWithParams]
      rw [if_neg hnz, if_pos hlt]
      rfl
    refine ⟨?_, ?_⟩
    · rintro - ⟨-, -, hle⟩
      omega
    · intro _
      exact ⟨_, _, hrun, PrefixKept.of_neg (by decide)⟩
  have htake : (buf.take 2).length = 2 := by rw [List.length_take]; omega
  have hdrop : (buf.drop 2).length = buf.length - 2 := List.length_drop
  have hge : ¬ (buf.length : Int) < lengthSize := by rw [lengthSize]; omega
  obtain ⟨ret, buf', hloop, hres⟩ := createBufferLoop_total mem params (buf.take 2) (buf.drop 2)
    (by omega)
  have hsize : (buf.take 2).length + (buf.drop 2).length = buf.length := by omega
  rw [hsize, List.take_append_drop, htake] at hloop
  rw [htake, hdrop] at hres
  have hrun : afRpcCreateBufferWithParams mem buf buf.length params = .ok (ret, buf') := by
    simp only [afRpcCreateBufferWithParams]
    rw [if_neg hnz, if_neg hge]
    exact hloop
  have hkeeps : CreateKeepsPrefix mem buf params ↔ PrefixKept (paramsLength params) ret buf' := by
    refine ⟨?_, ?_⟩
    · rintro ⟨ret₁, buf₁, hrun₁, hkept⟩
      rw [hrun, Except.ok.injEq, Prod.mk.injEq] at hrun₁
      obtain ⟨rfl, rfl⟩ := hrun₁
      exact hkept
    · intro hkept
      exact ⟨ret, buf', hrun, hkept⟩
  rw [hkeeps]
  rcases hres with ⟨hall, hle, hret, hpfx⟩ | ⟨hret, hnot⟩
  · rw [← hlength] at hret hpfx
    rw [hret, prefixKept_iff (by omega) hpfx]
    refine ⟨?_, ?_⟩
    · rintro hlt ⟨-, hlong, -⟩
      omega
    · intro hnot
      by_contra hlong
      exact hnot ⟨hall, by omega, by omega⟩
  · refine ⟨?_, ?_⟩
    · rintro - ⟨hall, -, hle⟩
      exact hnot ⟨hall, by omega⟩
    · intro _
      exact PrefixKept.of_neg hret

-- ============================================================================
-- The incremental builders on any calls
-- ============================================================================

/-- A call of a builder with any arguments: one of `AddCall`, or the blob builder
    on a blob it refuses. -/
inductive BuilderCall where
  | add (c : AddCall)
  | badBlob (ptr : Word) (size : Int)
      (hbad : size < 0 ∨ (ptr = 0 ∧ size > 0) ∨ size > maxBlobSize)

namespace BuilderCall

/-- Make the call. -/
def run (mem : Mem) (buf : List Byte) (bufSize : Int) :
    BuilderCall → Except Trap (Int × List Byte)
  | add c => c.run mem buf bufSize
  | badBlob ptr size _ => afRpcAddBlobToBuffer mem buf bufSize ptr size

/-- The bytes the call is about to add. -/
def encodedSize : BuilderCall → Nat
  | add c => typeSize + c.size
  | badBlob _ _ _ => 0

/-- The arguments are good and the value fits behind `total` bytes. -/
def fits (bufSize total : Nat) : BuilderCall → Bool
  | add c => total + (typeSize + c.size) ≤ bufSize
  | badBlob _ _ _ => false

/-- A refused blob leaves the buffer alone. -/
theorem run_badBlob (mem : Mem) (buf : List Byte) (bufSize : Int) (ptr : Word) (size : Int)
    (hbad : size < 0 ∨ (ptr = 0 ∧ size > 0) ∨ size > maxBlobSize) :
    (badBlob ptr size hbad).run mem buf bufSize = .ok (errBadParam, buf) := by
  have hcheck : bufSize ≤ 0 ∨ size < 0 ∨ (ptr = 0 ∧ size > 0) ∨ size > maxBlobSize := Or.inr hbad
  simp only [run, afRpcAddBlobToBuffer]
  rw [if_pos hcheck]
  rfl

/-- In a buffer without room for the prefix every call is an error. -/
theorem run_short (mem : Mem) (buf : List Byte) (c : BuilderCall) :
    ∃ ret, c.run mem buf 1 = .ok (ret, buf) ∧ ret < 0 := by
  have hpos : ¬ (1 : Int) ≤ 0 := by decide
  have hlt : (1 : Int) < lengthSize := by decide
  cases c with
  | badBlob ptr size hbad => exact ⟨_, run_badBlob mem buf 1 ptr size hbad, by decide⟩
  | add c =>
      refine ⟨errBadTlv, ?_, by decide⟩
      rcases c.run_int mem buf 1 with ⟨k, _, hrun⟩ | ⟨ptr, n, hn, hptr, _, _, hrun⟩
      · rw [run, hrun]
        simp only [addIntToBuffer]
        rw [if_neg hpos, if_pos hlt]
        rfl
      · rw [run, hrun]
        have hparam := blob_param_ok 1 ptr n (by decide) hn hptr
        simp only [afRpcAddBlobToBuffer]
        rw [if_neg hparam, if_pos hlt]
        rfl

end BuilderCall

/-- Every call of the list keeps the prefix, `total` being the length of the
    message so far and `buf` the buffer. -/
def CallsKeepPrefix (mem : Mem) (bufSize : Int) : List BuilderCall → Nat → List Byte → Prop
  | [], _, _ => True
  | c :: cs, total, buf =>
    ∃ ret buf', c.run mem buf bufSize = .ok (ret, buf') ∧
      PrefixKept (total + c.encodedSize) ret buf' ∧
      CallsKeepPrefix mem bufSize cs (if 0 < ret then total + c.encodedSize else total) buf'

/-- `af_rpc_init_buffer` and the calls after it keep the prefix. -/
def BuildKeepsPrefix (mem : Mem) (buf : List Byte) (cs : List BuilderCall) : Prop :=
  ∃ ret buf', afRpcInitBuffer buf buf.length = .ok (ret, buf') ∧
    PrefixKept lengthSize ret buf' ∧ CallsKeepPrefix mem buf.length cs lengthSize buf'

/-- Adding what fits, the message never reaches 65536 bytes. -/
def StaysBelow (bufSize : Nat) : List BuilderCall → Nat → Prop
  | [], _ => True
  | c :: cs, total =>
    if c.fits bufSize total then
      total + c.encodedSize < 2 ^ 16 ∧ StaysBelow bufSize cs (total + c.encodedSize)
    else StaysBelow bufSize cs total

theorem callsKeepPrefix_cons {mem : Mem} {bufSize : Int} {c : BuilderCall} {cs : List BuilderCall}
    {total : Nat} {buf buf' : List Byte} {ret : Int}
    (hrun : c.run mem buf bufSize = .ok (ret, buf')) :
    CallsKeepPrefix mem bufSize (c :: cs) total buf ↔
      PrefixKept (total + c.encodedSize) ret buf' ∧
        CallsKeepPrefix mem bufSize cs (if 0 < ret then total + c.encodedSize else total) buf' := by
  refine ⟨?_, ?_⟩
  · rintro ⟨ret₁, buf₁, hrun₁, hkept⟩
    rw [hrun, Except.ok.injEq, Prod.mk.injEq] at hrun₁
    obtain ⟨rfl, rfl⟩ := hrun₁
    exact hkept
  · intro hkept
    exact ⟨ret, buf', hrun, hkept⟩

/-- A call that returns an error keeps the prefix and leaves the rest to do so. -/
theorem callsKeepPrefix_error {mem : Mem} {bufSize : Int} {c : BuilderCall} {cs : List BuilderCall}
    {total : Nat} {buf : List Byte} {ret : Int}
    (hrun : c.run mem buf bufSize = .ok (ret, buf)) (hret : ret < 0) :
    CallsKeepPrefix mem bufSize (c :: cs) total buf ↔ CallsKeepPrefix mem bufSize cs total buf := by
  have hnpos : ¬ 0 < ret := by omega
  rw [callsKeepPrefix_cons hrun, if_neg hnpos]
  exact and_iff_right (PrefixKept.of_neg hret)

theorem lengthPrefix_encodeMessage (ts : List Tlv) (post : List Byte) :
    lengthPrefix (encodeMessage ts ++ post) = messageSize ts % 2 ^ 16 := by
  rw [encodeMessage, List.append_assoc]
  exact lengthPrefix_toBe _ _

/-- From a buffer that holds a message the calls keep the prefix exactly as long
    as the message stays below 65536 bytes. -/
theorem callsKeepPrefix_iff (mem : Mem) (bufSize : Nat) (cs : List BuilderCall)
    (done : List AddCall) (post : List Byte) (hbuf : builtLength done + post.length = bufSize)
    (hdone : builtLength done < 2 ^ 16) :
    CallsKeepPrefix mem bufSize cs (builtLength done)
        (encodeMessage (callTlvs mem done) ++ post) ↔
      StaysBelow bufSize cs (builtLength done) := by
  induction cs generalizing done post with
  | nil => exact Iff.rfl
  | cons c cs ih =>
      cases c with
      | badBlob ptr size hbad =>
          rw [callsKeepPrefix_error (BuilderCall.run_badBlob mem _ bufSize ptr size hbad) (by decide)]
          exact ih done post hbuf hdone
      | add c =>
          have happend : builtLength (done ++ [c]) = builtLength done + (typeSize + c.size) := by
            simp [builtLength, Nat.add_assoc]
          rcases c.run_cases mem done post bufSize (by omega) hdone with
            ⟨hover, hrun⟩ | ⟨hfit, hrun⟩
          · have hnofit : ¬ (BuilderCall.add c).fits bufSize (builtLength done) = true := by
              simp only [BuilderCall.fits, decide_eq_true_eq]
              omega
            rw [callsKeepPrefix_error (c := .add c) hrun (by decide), StaysBelow, if_neg hnofit]
            exact ih done post hbuf hdone
          · have hfits : (BuilderCall.add c).fits bufSize (builtLength done) = true := by
              simp only [BuilderCall.fits, decide_eq_true_eq]
              omega
            have hpos : (0 : Int) < builtLength (done ++ [c]) := by
              have hm2 : 2 ≤ builtLength (done ++ [c]) := Nat.le_add_right _ _
              omega
            have hpfx := lengthPrefix_encodeMessage (callTlvs mem (done ++ [c]))
              (post.drop (typeSize + c.size))
            rw [messageSize_callTlvs] at hpfx
            rw [callsKeepPrefix_cons (c := .add c) hrun, if_pos hpos, StaysBelow, if_pos hfits]
            show PrefixKept (builtLength done + (typeSize + c.size)) _ _ ∧
              CallsKeepPrefix mem bufSize cs (builtLength done + (typeSize + c.size)) _ ↔
              builtLength done + (typeSize + c.size) < 2 ^ 16 ∧
                StaysBelow bufSize cs (builtLength done + (typeSize + c.size))
            have hm2 : 2 ≤ builtLength (done ++ [c]) := Nat.le_add_right _ _
            rw [← happend, prefixKept_iff hm2 hpfx]
            apply and_congr_right
            intro hlt
            have hdrop : (post.drop (typeSize + c.size)).length =
                post.length - (typeSize + c.size) := List.length_drop
            exact ih (done ++ [c]) (post.drop (typeSize + c.size)) (by omega) hlt

/-- Without room for the prefix nothing is added. -/
theorem callsKeepPrefix_short (mem : Mem) (buf : List Byte) (cs : List BuilderCall) (total : Nat) :
    CallsKeepPrefix mem 1 cs total buf := by
  induction cs with
  | nil => trivial
  | cons c cs ih =>
      obtain ⟨ret, hrun, hret⟩ := c.run_short mem buf
      rw [callsKeepPrefix_error hrun hret]
      exact ih

theorem staysBelow_short (cs : List BuilderCall) : StaysBelow 1 cs lengthSize := by
  induction cs with
  | nil => trivial
  | cons c cs ih =>
      have hnofit : ¬ c.fits 1 lengthSize = true := by
        cases c with
        | badBlob ptr size hbad => exact Bool.false_ne_true
        | add c =>
            intro hfits
            have hle : 2 + (2 + c.size) ≤ 1 := of_decide_eq_true hfits
            omega
      rw [StaysBelow, if_neg hnofit]
      exact ih

theorem buildKeepsPrefix_iff (mem : Mem) (buf : List Byte) (cs : List BuilderCall)
    (hpos : 0 < buf.length) (hint : buf.length < 2 ^ 31) :
    BuildKeepsPrefix mem buf cs ↔ StaysBelow buf.length cs lengthSize := by
  by_cases hshort : buf.length < 2
  · have hone : buf.length = 1 := by omega
    have hinit : afRpcInitBuffer buf (1 : Nat) = .ok (errBadParam, buf) := by rfl
    rw [BuildKeepsPrefix, hone]
    refine ⟨?_, ?_⟩
    · intro _
      exact staysBelow_short cs
    · intro _
      exact ⟨_, _, hinit, PrefixKept.of_neg (by decide), callsKeepPrefix_short mem buf cs _⟩
  have hinit := init_eq buf (by omega) (by omega)
  have hdrop : (buf.drop 2).length = buf.length - 2 := List.length_drop
  have hcalls := callsKeepPrefix_iff mem buf.length cs [] (buf.drop 2)
    (by rw [hdrop]; show 2 + _ = _; omega) (by decide)
  have hkept : PrefixKept lengthSize 2 (encodeMessage [] ++ buf.drop 2) := by
    rw [show (2 : Int) = (lengthSize : Nat) from rfl, prefixKept_iff (by decide)]
    · decide
    · exact lengthPrefix_encodeMessage [] _
  refine ⟨?_, ?_⟩
  · rintro ⟨ret₁, buf₁, hrun₁, -, hkeep⟩
    rw [hinit, Except.ok.injEq, Prod.mk.injEq] at hrun₁
    obtain ⟨rfl, rfl⟩ := hrun₁
    exact hcalls.mp hkeep
  · intro hbelow
    exact ⟨_, _, hinit, hkept, hcalls.mpr hbelow⟩

/-- **When the length prefix wraps.**  For a buffer of any positive `int` size,
    the batch builder keeps the prefix on a parameter list if and only if the
    parameters do not make a message of 65536 bytes or more that fits the buffer,
    and the incremental builders keep it on a sequence of calls if and only if
    adding what fits never takes the message to 65536 bytes. -/
theorem prefix_kept_iff (mem : Mem) (buf : List Byte) (params : List AfRpcParam)
    (cs : List BuilderCall) (hpos : 0 < buf.length) (hint : buf.length < 2 ^ 31) :
    (CreateKeepsPrefix mem buf params ↔ ¬ OutgrowsPrefix buf.length params) ∧
    (BuildKeepsPrefix mem buf cs ↔ StaysBelow buf.length cs lengthSize) :=
  ⟨createKeepsPrefix_iff mem buf params hpos, buildKeepsPrefix_iff mem buf cs hpos hint⟩

/-- Two parameters, and the calls for them with one between them that is refused, on a
    buffer of 65535 bytes. -/
theorem prefix_kept_iff_65535 :
    (CreateKeepsPrefix (fun _ => 0) (List.replicate 65535 0)
        [setParamAs typeUint8 7, setParamAsBlob 4096 3] ↔
      ¬ OutgrowsPrefix (List.replicate 65535 (0 : Byte)).length
        [setParamAs typeUint8 7, setParamAsBlob 4096 3]) ∧
    (BuildKeepsPrefix (fun _ => 0) (List.replicate 65535 0)
        [.add (.uint8 7), .badBlob 0 3 (by decide), .add (.blob 4096 3 (by decide) (by decide))] ↔
      StaysBelow (List.replicate 65535 (0 : Byte)).length
        [.add (.uint8 7), .badBlob 0 3 (by decide), .add (.blob 4096 3 (by decide) (by decide))]
        lengthSize) := by
  have hlen : (List.replicate 65535 (0 : Byte)).length = 65535 := List.length_replicate
  have hpos : 0 < (List.replicate 65535 (0 : Byte)).length := by rw [hlen]; decide
  have hint : (List.replicate 65535 (0 : Byte)).length < 2 ^ 31 := by rw [hlen]; decide
  exact prefix_kept_iff (fun _ => 0) (List.replicate 65535 0)
    [setParamAs typeUint8 7, setParamAsBlob 4096 3]
    [.add (.uint8 7), .badBlob 0 3 (by decide), .add (.blob 4096 3 (by decide) (by decide))]
    hpos hint

/-- A string of the largest size at address 4096. -/
def largestBlob : AddCall := .blob 4096 16383 (by decide) (fun _ => by decide)

/-- Four of the largest blobs in a buffer of 70000 bytes make a message of 65542
    bytes.  Either builder returns that length and stores the prefix 6. -/
theorem not_prefix_kept_four :
    ¬ CreateKeepsPrefix (fun _ => 0) (List.replicate 70000 0)
        (List.replicate 4 largestBlob.param) ∧
    ¬ BuildKeepsPrefix (fun _ => 0) (List.replicate 70000 0)
        (List.replicate 4 (.add largestBlob)) := by
  have hlen : (List.replicate 70000 (0 : Byte)).length = 70000 := List.length_replicate
  have hpos : 0 < (List.replicate 70000 (0 : Byte)).length := by rw [hlen]; decide
  have hint : (List.replicate 70000 (0 : Byte)).length < 2 ^ 31 := by rw [hlen]; decide
  rw [createKeepsPrefix_iff _ _ _ hpos, buildKeepsPrefix_iff _ _ _ hpos hint, hlen, not_not]
  refine ⟨?_, ?_⟩
  · refine ⟨?_, by decide, by decide⟩
    intro p hp
    rw [List.eq_of_mem_replicate hp]
    exact ⟨largestBlob.validParam, rfl⟩
  · intro hbelow
    -- the fourth call takes the message from 49157 bytes to 65542
    have hfour : (65542 : Nat) < 2 ^ 16 := hbelow.2.2.2.1
    exact absurd hfour (by decide)

end AfIpc.Rpc
