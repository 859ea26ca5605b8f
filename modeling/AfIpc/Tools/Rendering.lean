/-
  AfIpc.Tools.Rendering

  What the reply loop prints.  `Fills` is what a piece written at `pos` does to
  `ret_string`: the bytes before `pos` stay, and a string that ended at `pos` is
  longer by the text.  All pieces are written so but an integer, which goes to
  the start of the string.  As the first piece it is in its place; behind others
  it leaves a NUL inside the text (`Spoiled`), and no later piece writes there.
-/

import AfIpc.Tools.Reply

namespace AfIpc.Tools

open AfIpc.Lib AfIpc.Rpc

-- ============================================================================
-- Writing at a position
-- ============================================================================

/-- `retString` with a text written at `pos`. -/
structure Fills (retString : List Byte) (pos : Nat) (text retString' : List Byte) : Prop where
  length : retString'.length = retString.length
  kept : retString'.take pos = retString.take pos
  filled : ∀ pre n, pre.length = pos → text.length ≤ n →
    retString = pre ++ List.replicate n 0 →
    retString' = (pre ++ text) ++ List.replicate (n - text.length) 0

theorem Fills.trans {s s' s'' text text' : List Byte} {pos : Nat} (h : Fills s pos text s')
    (h' : Fills s' (pos + text.length) text' s'') : Fills s pos (text ++ text') s'' where
  length := h'.length.trans h.length
  kept := by
    have hkept := congrArg (List.take pos) h'.kept
    rw [List.take_take, List.take_take, Nat.min_eq_left (by omega)] at hkept
    rw [hkept, h.kept]
  filled := by
    intro pre n hpre hn hs
    rw [List.length_append] at hn ⊢
    have hfirst := h.filled pre n hpre (by omega) hs
    have hsecond := h'.filled (pre ++ text) (n - text.length)
      (by rw [List.length_append, hpre]) (by omega) hfirst
    rw [hsecond, List.append_assoc pre, Nat.sub_sub]

theorem Fills.refl (s : List Byte) (pos : Nat) : Fills s pos [] s where
  length := rfl
  kept := rfl
  filled := by
    intro pre n _ _ hs
    rw [List.append_nil]
    exact hs

/-- A text without its NUL, stored at `pos`. -/
theorem fills_store {s : List Byte} {pos : Nat} (text : List Byte) (h : pos + text.length ≤ s.length) :
    ∃ s', store s pos text = .ok s' ∧ Fills s pos text s' := by
  obtain ⟨s', hstore, hlen⟩ := store_ok h
  refine ⟨s', hstore, hlen, store_take hstore (Nat.le_refl pos), ?_⟩
  intro pre n hpre hn hs
  rw [hs, ← hpre, store_append pre _ text (by rw [List.length_replicate]; exact hn),
    List.drop_replicate] at hstore
  rw [← Except.ok.inj hstore, List.append_assoc]

/-- A text with its NUL, stored at `pos`. -/
theorem fills_storeNul {s : List Byte} {pos : Nat} (text : List Byte)
    (h : pos + text.length < s.length) :
    ∃ s', store s pos (text ++ [0]) = .ok s' ∧ Fills s pos text s' := by
  have hroom : pos + (text ++ [(0 : Byte)]).length ≤ s.length := by
    rw [List.length_append, List.length_singleton]
    omega
  obtain ⟨s', hstore, hlen⟩ := store_ok hroom
  refine ⟨s', hstore, hlen, store_take hstore (Nat.le_refl pos), ?_⟩
  intro pre n hpre hn hs
  have hn' : text.length + 1 ≤ n := by
    rw [hs, List.length_append, List.length_replicate, hpre] at h
    omega
  have hzero : [(0 : Byte)] ++ List.replicate (n - (text.length + 1)) 0 =
      List.replicate (n - text.length) 0 := by
    rw [List.singleton_append, ← List.replicate_succ]
    congr 1
    omega
  rw [hs, ← hpre, store_append pre _ (text ++ [0])
    (by rw [List.length_append, List.length_replicate, List.length_singleton]; exact hn'),
    List.drop_replicate, List.length_append, List.length_singleton, List.append_assoc, hzero]
    at hstore
  rw [← Except.ok.inj hstore, List.append_assoc]

/-- The loop over the bytes of a blob writes their text. -/
theorem fills_hexLoop (bytes : List Byte) {s : List Byte} {pos : Nat}
    (h : pos + bytes.length * 2 < s.length) :
    ∃ s', hexLoop bytes pos s = .ok (pos + bytes.length * 2, s') ∧
      Fills s pos (bytes.flatMap hexByte) s' := by
  induction bytes generalizing s pos with
  | nil => exact ⟨s, rfl, .refl s pos⟩
  | cons b bs ih =>
      rw [List.length_cons] at h ⊢
      obtain ⟨s₁, hstore, hfills⟩ := @fills_storeNul s pos (hexByte b)
        (by rw [hexByte_length]; omega)
      obtain ⟨s₂, hloop, hrest⟩ := @ih s₁ (pos + 2) (by rw [hfills.length]; omega)
      refine ⟨s₂, ?_, hfills.trans hrest⟩
      rw [hexLoop, hstore]
      show hexLoop bs (pos + 2) s₁ = _
      rw [hloop]
      congr 2
      omega

/-- A byte is replaced, and what is behind a text stays. -/
theorem store_last {pre text : List Byte} {c : Byte} (n : Nat) (b : Byte) :
    store ((pre ++ (text ++ [c])) ++ List.replicate n 0) (pre.length + text.length) [b] =
      .ok ((pre ++ (text ++ [b])) ++ List.replicate n 0) := by
  have hlen : pre.length + text.length = (pre ++ text).length := by rw [List.length_append]
  have hsplit : (pre ++ (text ++ [c])) ++ List.replicate n 0 =
      (pre ++ text) ++ ([c] ++ List.replicate n 0) := by
    simp only [List.append_assoc]
  rw [hsplit, hlen, store_append _ _ [b] (by rw [List.length_append]; simp)]
  simp

/-- The stores of a string: a quote, the bytes, a quote over the NUL, and a NUL. -/
def storeString (s : List Byte) (pos : Nat) (bytes : List Byte) : Except Trap (List Byte) := do
  let s ← store s pos [quote]
  let s ← store s (pos + 1) bytes
  let s ← store s (pos + 1 + bytes.length - 1) [quote]
  store s (pos + 1 + bytes.length) [0]

/-- They stay inside the string and before `pos` they leave it alone. -/
theorem storeString_ok {s : List Byte} {pos : Nat} (bytes : List Byte)
    (h : pos + 1 + bytes.length < s.length) :
    ∃ s', storeString s pos bytes = .ok s' ∧ s'.length = s.length ∧ s'.take pos = s.take pos := by
  obtain ⟨s₁, hstore₁, hlen₁⟩ := @store_ok s pos [quote] (by rw [List.length_singleton]; omega)
  obtain ⟨s₂, hstore₂, hlen₂⟩ := @store_ok s₁ (pos + 1) bytes (by omega)
  obtain ⟨s₃, hstore₃, hlen₃⟩ := @store_ok s₂ (pos + 1 + bytes.length - 1) [quote]
    (by rw [List.length_singleton]; omega)
  obtain ⟨s₄, hstore₄, hlen₄⟩ := @store_ok s₃ (pos + 1 + bytes.length) [0]
    (by rw [List.length_singleton]; omega)
  refine ⟨s₄, ?_, by omega, ?_⟩
  · simp only [storeString, hstore₁, hstore₂, hstore₃, bind, Except.bind]
    exact hstore₄
  · rw [store_take hstore₄ (by omega), store_take hstore₃ (by omega), store_take hstore₂ (by omega),
      store_take hstore₁ (Nat.le_refl pos)]

/-- The text of a string that ends in a NUL. -/
theorem fills_storeString {s : List Byte} {pos : Nat} (text : List Byte)
    (h : pos + 1 + (text.length + 1) < s.length) :
    ∃ s', storeString s pos (text ++ [0]) = .ok s' ∧
      Fills s pos (quote :: (text ++ [quote])) s' := by
  have hbytes : (text ++ [(0 : Byte)]).length = text.length + 1 := by
    rw [List.length_append, List.length_singleton]
  obtain ⟨s', hstores, hlen, hkept⟩ := @storeString_ok s pos (text ++ [0])
    (by rw [hbytes]; exact h)
  refine ⟨s', hstores, hlen, hkept, ?_⟩
  intro pre n hpre hn hs
  rw [List.length_cons, List.length_append, List.length_singleton] at hn ⊢
  have hroom : text.length + 3 ≤ n := by
    rw [hs, List.length_append, List.length_replicate, hpre] at h
    omega
  -- the four stores, one after the other
  have hfirst : store s pos [quote] =
      .ok ((pre ++ [quote]) ++ List.replicate (n - 1) 0) := by
    rw [hs, ← hpre, store_append pre _ [quote] (by rw [List.length_replicate]; simp; omega),
      List.drop_replicate, List.append_assoc]
    rfl
  have hlen₁ : pos + 1 = (pre ++ [quote]).length := by
    rw [List.length_append, hpre, List.length_singleton]
  have hsecond : store ((pre ++ [quote]) ++ List.replicate (n - 1) 0) (pos + 1) (text ++ [0]) =
      .ok (((pre ++ [quote]) ++ (text ++ [0])) ++ List.replicate (n - 1 - (text.length + 1)) 0) := by
    rw [hlen₁, store_append _ _ (text ++ [0]) (by rw [hbytes, List.length_replicate]; omega),
      List.drop_replicate, hbytes, List.append_assoc (pre ++ [quote])]
  have hlen₂ : pos + 1 + (text.length + 1) - 1 = (pre ++ [quote]).length + text.length := by
    rw [← hlen₁]
    omega
  have hthird := @store_last (pre ++ [quote]) text 0 (n - 1 - (text.length + 1)) quote
  have hlen₃ : pos + 1 + (text.length + 1) = ((pre ++ [quote]) ++ (text ++ [quote])).length := by
    rw [List.length_append, ← hlen₁, List.length_append, List.length_singleton]
  have hzero : [(0 : Byte)] ++ List.replicate (n - 1 - (text.length + 1) - 1) 0 =
      List.replicate (n - 1 - (text.length + 1)) 0 := by
    rw [List.singleton_append, ← List.replicate_succ]
    congr 1
    omega
  have hfourth : store (((pre ++ [quote]) ++ (text ++ [quote])) ++
      List.replicate (n - 1 - (text.length + 1)) 0) (pos + 1 + (text.length + 1)) [0] =
      .ok (((pre ++ [quote]) ++ (text ++ [quote])) ++
        List.replicate (n - 1 - (text.length + 1)) 0) := by
    rw [hlen₃, store_append _ _ [0] (by rw [List.length_replicate, List.length_singleton]; omega),
      List.drop_replicate, List.length_singleton, hzero]
  simp only [storeString, hfirst, hsecond, hbytes, hlen₂, hthird, hfourth, bind, Except.bind]
    at hstores
  rw [← Except.ok.inj hstores, List.append_assoc pre, Nat.sub_sub]
  congr 2
  omega

theorem pieceStep_string (mem : Mem) (params : List AfRpcParam) (i pos : Nat) (s bytes : List Byte) :
    pieceStep mem params i pos s (.string bytes) =
      if pos + bytes.length + 2 < retStringSize - 1 then (storeString s pos bytes).map some
      else .ok none := by
  simp only [pieceStep]
  by_cases hroom : pos + bytes.length + 2 < retStringSize - 1
  · rw [if_pos hroom, if_pos hroom]
    simp only [storeString, bind, Except.bind]
    cases store s pos [quote] with
    | error e => rfl
    | ok s₁ =>
        dsimp only
        cases store s₁ (pos + 1) bytes with
        | error e => rfl
        | ok s₂ =>
            dsimp only
            cases store s₂ (pos + 1 + bytes.length - 1) [quote] with
            | error e => rfl
            | ok s₃ =>
                dsimp only
                cases store s₃ (pos + 1 + bytes.length) [0] with
                | error e => rfl
                | ok s₄ => rfl
  · rw [if_neg hroom, if_neg hroom]

-- ============================================================================
-- A spoiled string
-- ============================================================================

/-- There is a NUL before `pos`. -/
def Spoiled (s : List Byte) (pos : Nat) : Prop :=
  s.length = retStringSize ∧ ∃ j, j < pos ∧ s[j]? = some 0

theorem printed_length_le {s : List Byte} {j : Nat} (h : s[j]? = some 0) :
    (printed s).length ≤ j := by
  induction s generalizing j with
  | nil => cases h
  | cons b s ih =>
      by_cases hb : b = 0
      · have hnil : printed (b :: s) = [] := List.takeWhile_cons_of_neg (by simp [hb])
        rw [hnil]
        exact Nat.zero_le j
      · cases j with
        | zero => exact absurd (Option.some.inj h) hb
        | succ j =>
            have hcons : printed (b :: s) = b :: printed s :=
              List.takeWhile_cons_of_pos (decide_eq_true hb)
            have htail := ih (j := j) h
            rw [hcons, List.length_cons]
            omega

theorem Spoiled.of_kept {s s' : List Byte} {pos pos' : Nat} (h : Spoiled s pos)
    (hlen : s'.length = s.length) (hkept : s'.take pos = s.take pos) (hpos : pos ≤ pos') :
    Spoiled s' pos' := by
  obtain ⟨hsize, j, hj, hzero⟩ := h
  refine ⟨hlen.trans hsize, j, by omega, ?_⟩
  have hsame := congrArg (fun l => l[j]?) hkept
  simp only [List.getElem?_take_of_lt hj] at hsame
  rw [hsame, hzero]

/-- `strcpy` to the start of the string spoils it, if `pos` is behind the start. -/
theorem spoiled_strcpy {s : List Byte} {pos : Nat} (text : List Byte) (hsize : s.length = retStringSize)
    (hpos : 0 < pos) (hroom : pos + text.length < retStringSize - 1) :
    ∃ s', store s 0 (text ++ [0]) = .ok s' ∧ Spoiled s' (pos + text.length) := by
  rw [retStringSize] at hsize hroom
  have hle : 0 + (text ++ [(0 : Byte)]).length ≤ s.length := by
    rw [List.length_append, List.length_singleton]
    omega
  refine ⟨_, if_pos hle, ?_, text.length, by omega, ?_⟩
  · rw [retStringSize]
    simp only [List.length_append, List.length_take, List.length_drop, List.length_singleton]
    omega
  · rw [List.take_zero, List.nil_append, List.append_assoc, List.getElem?_append_right (Nat.le_refl _),
      Nat.sub_self]
    rfl

/-- The length of the text of a run of pieces that has others before it. -/
theorem joined_length_cons (p : Piece) (ps : List Piece) :
    (joined false (p :: ps)).length = 1 + p.text.length + (joined false ps).length := by
  rw [joined, if_neg (by simp), List.length_append, List.length_append, List.length_singleton]
  omega

/-- **What a spoiled string prints** is too short for the reply. -/
theorem render_spoiled {mem : Mem} {params : List AfRpcParam} {pieces : List Piece}
    (h : List.Forall₂ (Shows mem) params pieces) {i pos : Nat} {s out : List Byte} (hi : i ≠ 0)
    (hs : Spoiled s pos) (hout : renderLoop mem params i pos s = .ok (some out)) :
    (printed out).length < pos + (joined false pieces).length := by
  induction h generalizing i pos s with
  | nil =>
      obtain rfl := Option.some.inj (Except.ok.inj hout)
      obtain ⟨_, j, hj, hzero⟩ := hs
      have hle := printed_length_le hzero
      omega
  | @cons p piece params pieces hshow _ ih =>
      have hlen := joined_length_cons piece pieces
      have hsize : s.length = retStringSize := hs.1
      rw [renderLoop_cons hshow, spaced, if_neg hi] at hout
      by_cases hroom : pos + 1 < retStringSize - 1
      · rw [if_pos hroom] at hout
        rw [retStringSize] at hroom
        obtain ⟨s₁, hstore, hfills⟩ := @fills_store s pos [space]
          (by rw [hsize, retStringSize, List.length_singleton]; omega)
        rw [hstore] at hout
        have hspoiled := hs.of_kept hfills.length hfills.kept (Nat.le_succ pos)
        have hsize₁ : s₁.length = retStringSize := hspoiled.1
        cases piece with
        | int text =>
            have hstep : pieceStep mem params i (pos + 1) s₁ (.int text) = .ok (some out) := hout
            simp only [pieceStep] at hstep
            split_ifs at hstep with hlong hfits
            · obtain ⟨s₂, hcopy, hs₂⟩ := spoiled_strcpy text hsize₁ (Nat.succ_pos pos) hfits
              rw [hcopy] at hstep
              have hlt := ih (Nat.succ_ne_zero i) hs₂ hstep
              have htext : (Piece.int text).text.length = text.length := rfl
              omega
            · cases hstep
        | blob bytes =>
            have hstep : pieceStep mem params i (pos + 1) s₁ (.blob bytes) = .ok (some out) := hout
            simp only [pieceStep] at hstep
            split_ifs at hstep with hfits
            · rw [retStringSize] at hfits
              obtain ⟨s₂, hloop, hfills₂⟩ := @fills_hexLoop bytes s₁ (pos + 1)
                (by rw [hsize₁, retStringSize]; omega)
              rw [hloop] at hstep
              have hs₂ := hspoiled.of_kept hfills₂.length hfills₂.kept
                (Nat.le_add_right (pos + 1) (bytes.length * 2))
              have hlt := ih (Nat.succ_ne_zero i) hs₂ hstep
              have htext : (Piece.blob bytes).text.length = bytes.length * 2 := hexText_length bytes
              omega
            · cases hstep
        | string bytes =>
            have hstep : pieceStep mem params i (pos + 1) s₁ (.string bytes) = .ok (some out) := hout
            rw [pieceStep_string] at hstep
            split_ifs at hstep with hfits
            · rw [retStringSize] at hfits
              obtain ⟨s₂, hstores, hlen₂, hkept₂⟩ := @storeString_ok s₁ (pos + 1) bytes
                (by rw [hsize₁, retStringSize]; omega)
              rw [hstores] at hstep
              obtain rfl : s₂ = out := Option.some.inj (Except.ok.inj hstep)
              obtain ⟨_, j, hj, hzero⟩ := hspoiled.of_kept hlen₂ hkept₂ (Nat.le_refl _)
              have hle := printed_length_le hzero
              omega
            · cases hstep
      · rw [if_neg hroom] at hout
        cases hout

-- ============================================================================
-- A faithful string
-- ============================================================================

/-- A text has no NUL in it, and a string ends in its only one. -/
def Piece.Proper : Piece → Prop
  | .int text => ∀ b ∈ text, b ≠ 0
  | .blob _ => True
  | .string bytes => ∃ text, bytes = text ++ [0] ∧ ∀ b ∈ text, b ≠ 0

theorem Piece.Proper.text_noNul {p : Piece} (h : p.Proper) : ∀ b ∈ p.text, b ≠ 0 := by
  cases p with
  | int text => exact h
  | blob bytes =>
      intro b hb
      obtain ⟨c, _, hc⟩ := List.mem_flatMap.mp hb
      exact hexByte_noNul c b hc
  | string bytes =>
      obtain ⟨text, rfl, hnul⟩ := h
      have hquote : quote ≠ 0 := ofNat_ne_zero (d := 34) (by omega) (by omega)
      intro b hb
      rw [Piece.text, List.dropLast_concat] at hb
      rcases List.mem_cons.mp hb with rfl | hb
      · exact hquote
      · rcases List.mem_append.mp hb with hb | hb
        · exact hnul b hb
        · rw [List.mem_singleton.mp hb]
          exact hquote

/-- What is printed of a text without NUL and the NULs behind it. -/
theorem printed_filled {text : List Byte} (h : ∀ b ∈ text, b ≠ 0) (n : Nat) :
    printed (text ++ List.replicate n 0) = text := by
  induction text with
  | nil =>
      cases n with
      | zero => rfl
      | succ n => rfl
  | cons b text ih =>
      have hb : b ≠ 0 := h b List.mem_cons_self
      have hcons : printed (b :: (text ++ List.replicate n 0)) =
          b :: printed (text ++ List.replicate n 0) :=
        List.takeWhile_cons_of_pos (decide_eq_true hb)
      rw [List.cons_append, hcons, ih (fun c hc => h c (List.mem_cons_of_mem b hc))]

/-- A piece is printed as it should be at `pos`: it is an integer in front of all
    others or a string behind all others, or a blob, with the room the code asks for. -/
def Piece.FineAt (first last : Prop) (pos : Nat) (rest : Nat → Prop) : Piece → Prop
  | .int text => first ∧ text.length + 1 ≤ tmpSize ∧ pos + text.length < retStringSize - 1 ∧
      rest (pos + text.length)
  | .blob bytes => pos + bytes.length * 2 < retStringSize - 1 ∧ rest (pos + bytes.length * 2)
  | .string bytes => pos + bytes.length + 2 < retStringSize - 1 ∧ last

/-- The pieces are printed as they should be, from `pos` on. -/
def Fine : Bool → Nat → List Piece → Prop
  | _, _, [] => True
  | true, pos, p :: ps => p.FineAt True (ps = []) pos (fun pos => Fine false pos ps)
  | false, pos, p :: ps => pos + 1 < retStringSize - 1 ∧
      p.FineAt False (ps = []) (pos + 1) (fun pos => Fine false pos ps)

/-- The reply loop has printed a text and the pieces behind it. -/
def Prints (x : Except Trap (Option (List Byte))) (text : List Byte) : Prop :=
  ∃ out, x = .ok (some out) ∧ printed out = text

theorem prints_ok {out text : List Byte} : Prints (.ok (some out)) text ↔ printed out = text := by
  refine ⟨?_, ?_⟩
  · rintro ⟨out', hout, htext⟩
    rw [← htext, Option.some.inj (Except.ok.inj hout)]
  · intro h
    exact ⟨out, rfl, h⟩

theorem not_prints_none {text : List Byte} : ¬ Prints (.ok none) text := by
  rintro ⟨out, hout, _⟩
  cases hout

theorem not_prints_error {e : Trap} {text : List Byte} : ¬ Prints (.error e) text := by
  rintro ⟨out, hout, _⟩
  cases hout

theorem joined_cons_pos (p : Piece) (ps : List Piece) : 0 < (joined false (p :: ps)).length := by
  rw [joined_length_cons]
  omega

section Faithful

variable {mem : Mem} {params : List AfRpcParam} {pieces : List Piece} {i pos : Nat} {pre : List Byte}

/-- The string that holds `pre`, and NULs behind it. -/
def padded (pre : List Byte) : List Byte := pre ++ List.replicate (retStringSize - pre.length) 0

theorem padded_length (h : pre.length ≤ retStringSize) : (padded pre).length = retStringSize := by
  rw [padded, List.length_append, List.length_replicate]
  omega

/-- A text written behind what the string holds. -/
theorem Fills.padded_eq {text s' : List Byte} (h : Fills (padded pre) pre.length text s')
    (hroom : pre.length + text.length ≤ retStringSize) : s' = padded (pre ++ text) := by
  rw [h.filled pre (retStringSize - pre.length) rfl (by omega) rfl, padded, List.length_append,
    Nat.sub_sub]

/-- The rest of the loop prints the rest of the pieces exactly if they are fine. -/
def RestIff (mem : Mem) (params : List AfRpcParam) (pieces : List Piece) (i : Nat) : Prop :=
  ∀ pre : List Byte, (∀ b ∈ pre, b ≠ 0) → pre.length < retStringSize - 1 →
    (Prints (renderLoop mem params (i + 1) pre.length (padded pre)) (pre ++ joined false pieces) ↔
      Fine false pre.length pieces)

/-- An integer is printed in its place as the first piece only. -/
theorem turn_int (hrest : List.Forall₂ (Shows mem) params pieces)
    (hnext : RestIff mem params pieces i) (hpre : ∀ b ∈ pre, b ≠ 0)
    (hroom : pre.length < retStringSize - 1) (hfirst : i = 0 → pre = []) (hlater : i ≠ 0 → pre ≠ [])
    {text : List Byte} (htext : ∀ b ∈ text, b ≠ 0) :
    Prints (pieceStep mem params i pre.length (padded pre) (.int text))
        (pre ++ (text ++ joined false pieces)) ↔
      (Piece.int text).FineAt (i = 0) (pieces = []) pre.length (fun pos => Fine false pos pieces) := by
  have hsize : retStringSize = 256 := rfl
  simp only [pieceStep, Piece.FineAt]
  by_cases hlong : tmpSize < text.length + 1
  · rw [if_pos hlong]
    exact ⟨fun h => absurd h not_prints_error, fun h => absurd h.2.1 (by omega)⟩
  rw [if_neg hlong]
  by_cases hfits : pre.length + text.length < retStringSize - 1
  · rw [if_pos hfits]
    by_cases hi : i = 0
    · -- the string is still empty, and its start is `pos`
      obtain rfl := hfirst hi
      rw [List.length_nil, Nat.zero_add] at hfits
      obtain ⟨s', hstore, hfills⟩ := @fills_storeNul (padded []) 0 text
        (by rw [padded_length (Nat.zero_le _)]; omega)
      have hs' := @Fills.padded_eq [] text s' hfills (by rw [List.length_nil]; omega)
      rw [List.nil_append] at hs'
      rw [hstore, hs', List.length_nil, Nat.zero_add, List.nil_append]
      have hiff := hnext text htext hfits
      refine ⟨?_, ?_⟩
      · intro hprints
        exact ⟨hi, by omega, hfits, hiff.mp hprints⟩
      · intro hfine
        exact hiff.mpr hfine.2.2.2
    · have hpos := List.length_pos_iff.mpr (hlater hi)
      obtain ⟨s', hstore, hs'⟩ := spoiled_strcpy text
        (@padded_length pre (by omega)) hpos hfits
      rw [hstore]
      refine ⟨?_, ?_⟩
      · rintro ⟨out, hout, hprinted⟩
        have hlt := render_spoiled hrest (Nat.succ_ne_zero i) hs' hout
        rw [hprinted, List.length_append, List.length_append] at hlt
        omega
      · intro hfine
        exact absurd hfine.1 hi
  · rw [if_neg hfits]
    exact ⟨fun h => absurd h not_prints_none, fun h => absurd h.2.2.1 hfits⟩

theorem turn_blob (hnext : RestIff mem params pieces i) (hpre : ∀ b ∈ pre, b ≠ 0)
    (bytes : List Byte) :
    Prints (pieceStep mem params i pre.length (padded pre) (.blob bytes))
        (pre ++ (bytes.flatMap hexByte ++ joined false pieces)) ↔
      (Piece.blob bytes).FineAt (i = 0) (pieces = []) pre.length (fun pos => Fine false pos pieces) := by
  have hsize : retStringSize = 256 := rfl
  simp only [pieceStep, Piece.FineAt]
  by_cases hfits : pre.length + bytes.length * 2 < retStringSize - 1
  · rw [if_pos hfits]
    have htext := hexText_length bytes
    obtain ⟨s', hloop, hfills⟩ := @fills_hexLoop bytes (padded pre) pre.length
      (by rw [padded_length (by omega)]; omega)
    have hs' := hfills.padded_eq (by omega)
    have hlen : pre.length + bytes.length * 2 = (pre ++ bytes.flatMap hexByte).length := by
      rw [List.length_append, htext]
    have hnul : ∀ b ∈ pre ++ bytes.flatMap hexByte, b ≠ 0 := by
      intro b hb
      rcases List.mem_append.mp hb with hb | hb
      · exact hpre b hb
      · exact @Piece.Proper.text_noNul (.blob bytes) trivial b hb
    have hiff := hnext (pre ++ bytes.flatMap hexByte) hnul (by omega)
    rw [hloop, hs', ← List.append_assoc, hlen]
    refine ⟨?_, ?_⟩
    · intro hprints
      exact ⟨by omega, hiff.mp hprints⟩
    · intro hfine
      exact hiff.mpr hfine.2
  · rw [if_neg hfits]
    exact ⟨fun h => absurd h not_prints_none, fun h => absurd h.1 hfits⟩

/-- The loop ends with a string, whatever comes behind it. -/
theorem turn_string (hpre : ∀ b ∈ pre, b ≠ 0) {bytes : List Byte}
    (hproper : (Piece.string bytes).Proper) :
    Prints (pieceStep mem params i pre.length (padded pre) (.string bytes))
        (pre ++ ((Piece.string bytes).text ++ joined false pieces)) ↔
      (Piece.string bytes).FineAt (i = 0) (pieces = []) pre.length
        (fun pos => Fine false pos pieces) := by
  have hsize : retStringSize = 256 := rfl
  rw [pieceStep_string, Piece.FineAt]
  by_cases hfits : pre.length + bytes.length + 2 < retStringSize - 1
  · rw [if_pos hfits]
    have hnul := hproper.text_noNul
    obtain ⟨text, rfl, _⟩ := hproper
    have hbytes : (text ++ [(0 : Byte)]).length = text.length + 1 := by
      rw [List.length_append, List.length_singleton]
    have htext : (Piece.string (text ++ [0])).text = quote :: (text ++ [quote]) := by
      rw [Piece.text, List.dropLast_concat]
    rw [hbytes] at hfits
    obtain ⟨s', hstores, hfills⟩ := @fills_storeString (padded pre) pre.length text
      (by rw [padded_length (by omega)]; omega)
    have hs' := hfills.padded_eq (by
      rw [List.length_cons, List.length_append, List.length_singleton]
      omega)
    have hprinted : printed (padded (pre ++ (quote :: (text ++ [quote])))) =
        pre ++ (quote :: (text ++ [quote])) := by
      apply printed_filled
      intro b hb
      rcases List.mem_append.mp hb with hb | hb
      · exact hpre b hb
      · rw [← htext] at hb
        exact hnul b hb
    rw [hstores, hs', htext]
    show Prints (.ok (some _)) _ ↔ _
    rw [prints_ok, hprinted]
    refine ⟨?_, ?_⟩
    · intro hsame
      refine ⟨by omega, ?_⟩
      cases pieces with
      | nil => rfl
      | cons q qs =>
          have hlen := congrArg List.length hsame
          have hpos := joined_cons_pos q qs
          rw [List.length_append, List.length_append, List.length_append] at hlen
          omega
    · rintro ⟨_, rfl⟩
      rw [joined, List.append_nil]
  · rw [if_neg hfits]
    exact ⟨fun h => absurd h not_prints_none, fun h => absurd h.1 hfits⟩

/-- **The reply loop** on a string that holds a text and NULs behind it: it goes on to
    print the pieces exactly if they are fine. -/
theorem render_iff (h : List.Forall₂ (Shows mem) params pieces) (hproper : ∀ p ∈ pieces, p.Proper)
    (hpre : ∀ b ∈ pre, b ≠ 0) (hroom : pre.length < retStringSize - 1) (hfirst : i = 0 → pre = []) :
    Prints (renderLoop mem params i pre.length (padded pre)) (pre ++ joined (i = 0) pieces) ↔
      Fine (i = 0) pre.length pieces := by
  induction h generalizing i pre with
  | nil =>
      refine ⟨?_, ?_⟩
      · exact fun _ => trivial
      · intro _
        refine ⟨_, rfl, ?_⟩
        rw [joined, List.append_nil]
        exact printed_filled hpre _
  | @cons p piece params pieces hshow hrest ih =>
      have hpiece : piece.Proper := hproper piece List.mem_cons_self
      have hnext : RestIff mem params pieces i := by
        intro pre' hpre' hroom'
        have hiff := ih (fun q hq => hproper q (List.mem_cons_of_mem _ hq)) (i := i + 1) hpre' hroom'
          (fun h => absurd h (Nat.succ_ne_zero i))
        simpa using hiff
      -- the turn behind the space
      have hturn : ∀ pre' : List Byte, (∀ b ∈ pre', b ≠ 0) → pre'.length < retStringSize - 1 →
          (i = 0 → pre' = []) → (i ≠ 0 → pre' ≠ []) →
          (Prints (pieceStep mem params i pre'.length (padded pre') piece)
            (pre' ++ (piece.text ++ joined false pieces)) ↔
            piece.FineAt (i = 0) (pieces = []) pre'.length (fun pos => Fine false pos pieces)) := by
        intro pre' hpre' hroom' hfirst' hlater'
        cases piece with
        | int text => exact turn_int hrest hnext hpre' hroom' hfirst' hlater' hpiece
        | blob bytes => exact turn_blob hnext hpre' bytes
        | string bytes => exact turn_string hpre' hpiece
      rw [renderLoop_cons hshow, spaced]
      by_cases hi : i = 0
      · have hnil := hfirst hi
        subst hi
        subst hnil
        have hiff := hturn [] (by simp) hroom (fun _ => rfl) (fun h => absurd rfl h)
        rw [eq_self] at hiff
        exact hiff
      · have hfalse : decide (i = 0) = false := decide_eq_false hi
        have hjoin : joined false (piece :: pieces) =
            [space] ++ (piece.text ++ joined false pieces) := rfl
        rw [if_neg hi, hfalse, hjoin, ← List.append_assoc]
        by_cases hspace : pre.length + 1 < retStringSize - 1
        · obtain ⟨s', hstore, hfills⟩ := @fills_store (padded pre) pre.length [space]
            (by rw [padded_length (by omega), List.length_singleton]; omega)
          have hs' := hfills.padded_eq (by rw [List.length_singleton]; omega)
          have hlen : pre.length + 1 = (pre ++ [space]).length := by
            rw [List.length_append, List.length_singleton]
          have hnul : ∀ b ∈ pre ++ [space], b ≠ 0 := by
            intro b hb
            rcases List.mem_append.mp hb with hb | hb
            · exact hpre b hb
            · rw [List.mem_singleton.mp hb]
              exact ofNat_ne_zero (d := 32) (by omega) (by omega)
          have hiff := hturn (pre ++ [space]) hnul (by omega) (fun h => absurd h hi) (by simp)
          rw [eq_false hi, ← hlen] at hiff
          rw [if_pos hspace, hstore, hs']
          show Prints (pieceStep mem params i (pre.length + 1) _ piece) _ ↔ _ ∧ _
          exact hiff.trans (and_iff_right hspace).symm
        · rw [if_neg hspace]
          exact ⟨fun h => absurd h not_prints_none, fun h => absurd h.1 hspace⟩

end Faithful

-- ============================================================================
-- Which replies are printed
-- ============================================================================

def Piece.isInt : Piece → Bool
  | .int _ => true
  | _ => false

def Piece.isString : Piece → Bool
  | .string _ => true
  | _ => false

/-- The code asks for one byte more than it needs if there is a string. -/
def slack (pieces : List Piece) : Nat := if pieces.any Piece.isString then 1 else 0

theorem slack_cons {p : Piece} (h : p.isString = false) (ps : List Piece) :
    slack (p :: ps) = slack ps := by
  rw [slack, slack, List.any_cons, h, Bool.false_or]

theorem string_text_length {bytes : List Byte} (h : (Piece.string bytes).Proper) :
    (Piece.string bytes).text.length = bytes.length + 1 := by
  obtain ⟨text, rfl, _⟩ := h
  rw [Piece.text, List.dropLast_concat, List.length_cons, List.length_append, List.length_append,
    List.length_singleton]
  rfl

/-- A piece that is no string may stand in front. -/
theorem strings_last_cons {p : Piece} (hp : p.isString = false) (ps : List Piece) :
    (∀ q ∈ (p :: ps).dropLast, q.isString = false) ↔ ∀ q ∈ ps.dropLast, q.isString = false := by
  cases ps with
  | nil => simp
  | cons p' ps =>
      show (∀ q ∈ p :: (p' :: ps).dropLast, _) ↔ _
      rw [List.forall_mem_cons]
      exact and_iff_right hp

/-- A string is the last piece. -/
theorem string_last {bytes : List Byte} {ps : List Piece}
    (h : ∀ q ∈ (.string bytes :: ps).dropLast, q.isString = false) : ps = [] := by
  cases ps with
  | nil => rfl
  | cons p' ps => cases h _ List.mem_cons_self

/-- Behind the first piece there are blobs, and then at most one string. -/
theorem fine_false_iff {pieces : List Piece} (hproper : ∀ p ∈ pieces, p.Proper) {pos : Nat} :
    Fine false pos pieces ↔ (∀ p ∈ pieces, p.isInt = false) ∧
      (∀ p ∈ pieces.dropLast, p.isString = false) ∧
      (pieces = [] ∨ pos + (joined false pieces).length + slack pieces < retStringSize - 1) := by
  induction pieces generalizing pos with
  | nil => exact ⟨fun _ => ⟨by simp, by simp, .inl rfl⟩, fun _ => trivial⟩
  | cons p ps ih =>
      have hps : ∀ q ∈ ps, q.Proper := fun q hq => hproper q (List.mem_cons_of_mem _ hq)
      have hlen := joined_length_cons p ps
      cases p with
      | int text =>
          refine ⟨?_, ?_⟩
          · rintro ⟨_, hfalse, _⟩
            exact hfalse.elim
          · rintro ⟨hints, _⟩
            cases hints _ List.mem_cons_self
      | blob bytes =>
          have htext : (Piece.blob bytes).text.length = bytes.length * 2 := hexText_length bytes
          have hslack : slack (.blob bytes :: ps) = slack ps := slack_cons rfl ps
          have hnext := @ih hps (pos + 1 + bytes.length * 2)
          rw [hslack, strings_last_cons rfl]
          show _ ∧ _ ∧ Fine false (pos + 1 + bytes.length * 2) ps ↔ _
          rw [hnext]
          refine ⟨?_, ?_⟩
          · rintro ⟨hspace, hroom, hints, hstrings, hfits⟩
            refine ⟨List.forall_mem_cons.mpr ⟨rfl, hints⟩, hstrings, .inr ?_⟩
            rcases hfits with rfl | hfits
            · have hzero : slack [] = 0 := rfl
              have hnil : (joined false []).length = 0 := rfl
              omega
            · omega
          · rintro ⟨hints, hstrings, hfits⟩
            have hfits' : pos + (joined false (.blob bytes :: ps)).length + slack ps <
                retStringSize - 1 := by
              rcases hfits with hnil | hfits
              · cases hnil
              · exact hfits
            exact ⟨by omega, by omega, (List.forall_mem_cons.mp hints).2, hstrings, .inr (by omega)⟩
      | string bytes =>
          have htext := string_text_length (hproper _ List.mem_cons_self)
          refine ⟨?_, ?_⟩
          · rintro ⟨_, hroom, rfl⟩
            refine ⟨by simp [Piece.isInt], by simp, .inr ?_⟩
            have hone : slack [.string bytes] = 1 := rfl
            have hnil : (joined false []).length = 0 := rfl
            omega
          · rintro ⟨_, hstrings, hfits⟩
            obtain rfl := string_last hstrings
            have hone : slack [.string bytes] = 1 := rfl
            have hzero : (joined false []).length = 0 := rfl
            have hfits' : pos + (joined false [.string bytes]).length + 1 < retStringSize - 1 := by
              rcases hfits with hnil | hfits
              · cases hnil
              · exact hfits
            exact ⟨by omega, by omega, rfl⟩

/-- From the start of the string the first piece may be an integer too. -/
theorem fine_true_iff {pieces : List Piece} (hproper : ∀ p ∈ pieces, p.Proper) :
    Fine true 0 pieces ↔ (∀ p ∈ pieces.tail, p.isInt = false) ∧
      (∀ p ∈ pieces.dropLast, p.isString = false) ∧
      (∀ p ∈ pieces.head?, ∀ text, p = .int text → text.length + 1 ≤ tmpSize) ∧
      (joined true pieces).length + slack pieces < retStringSize - 1 := by
  have hsize : retStringSize = 256 := rfl
  cases pieces with
  | nil => exact ⟨fun _ => ⟨by simp, by simp, by simp, by decide⟩, fun _ => trivial⟩
  | cons p ps =>
      have hps : ∀ q ∈ ps, q.Proper := fun q hq => hproper q (List.mem_cons_of_mem _ hq)
      have hlen : (joined true (p :: ps)).length = p.text.length + (joined false ps).length := by
        rw [joined, if_pos rfl, List.nil_append, List.length_append]
      have hnil : (joined false []).length = 0 := rfl
      have hzero : slack [] = 0 := rfl
      rw [List.tail_cons, List.head?_cons]
      cases p with
      | int text =>
          have htext : (Piece.int text).text.length = text.length := rfl
          have hslack : slack (.int text :: ps) = slack ps := slack_cons rfl ps
          rw [strings_last_cons rfl, hslack]
          show True ∧ _ ∧ _ ∧ Fine false (0 + text.length) ps ↔ _
          rw [fine_false_iff hps, tmpSize]
          refine ⟨?_, ?_⟩
          · rintro ⟨_, hshort, hroom, hints, hstrings, hfits⟩
            refine ⟨hints, hstrings, ?_, ?_⟩
            · intro q hq text' htext'
              obtain rfl := Piece.int.inj ((Option.mem_some.mp hq).trans htext')
              exact hshort
            · rcases hfits with rfl | hfits
              · omega
              · omega
          · rintro ⟨hints, hstrings, hshort, hfits⟩
            exact ⟨trivial, hshort _ rfl text rfl, by omega, hints, hstrings, .inr (by omega)⟩
      | blob bytes =>
          have htext : (Piece.blob bytes).text.length = bytes.length * 2 := hexText_length bytes
          have hslack : slack (.blob bytes :: ps) = slack ps := slack_cons rfl ps
          rw [strings_last_cons rfl, hslack]
          show _ ∧ Fine false (0 + bytes.length * 2) ps ↔ _
          rw [fine_false_iff hps]
          refine ⟨?_, ?_⟩
          · rintro ⟨hroom, hints, hstrings, hfits⟩
            refine ⟨hints, hstrings, ?_, ?_⟩
            · intro q hq text' htext'
              cases (Option.mem_some.mp hq).trans htext'
            · rcases hfits with rfl | hfits
              · omega
              · omega
          · rintro ⟨hints, hstrings, _, hfits⟩
            exact ⟨by omega, hints, hstrings, .inr (by omega)⟩
      | string bytes =>
          have htext := string_text_length (hproper _ List.mem_cons_self)
          refine ⟨?_, ?_⟩
          · rintro ⟨hroom, rfl⟩
            refine ⟨by simp, by simp, ?_, ?_⟩
            · intro q hq text' htext'
              cases (Option.mem_some.mp hq).trans htext'
            · have hone : slack [.string bytes] = 1 := rfl
              omega
          · rintro ⟨_, hstrings, _, hfits⟩
            obtain rfl := string_last hstrings
            have hone : slack [.string bytes] = 1 := rfl
            exact ⟨by omega, rfl⟩

end AfIpc.Tools
