/-
  AfIpc.Lib.Splitter

  Self-delimiting formats.  A `Splitter` recognizes the item at the front of a
  list and says how many elements it takes; `items` is the maximal chain of
  items from the front and `leftover` is what the chain does not cover.

  Two facts carry the users of the library.  `length_eq` accounts for every
  element: it is either in an item or in the leftover.  `flatMap_items_eq_iff`
  is what becomes of a stream of encoded items that is cut into chunks, each
  split on its own: the items come out unchanged exactly if every chunk is a
  concatenation of whole items.
-/

import Mathlib.Algebra.BigOperators.Group.List.Basic
import Mathlib.Algebra.GroupWithZero.Nat

namespace AfIpc.Lib

/-- A recognizer of the item at the front of a list, with the number of list
    elements an item takes. -/
structure Splitter (α β : Type*) where
  head : List α → Option β
  size : β → Nat
  size_pos : ∀ {xs b}, head xs = some b → 0 < size b
  size_le : ∀ {xs b}, head xs = some b → size b ≤ xs.length

namespace Splitter

variable {α β : Type*} (S : Splitter α β)

/-- The maximal chain of items from the front. -/
def items (xs : List α) : List β :=
  match _h : S.head xs with
  | none => []
  | some b => b :: items (xs.drop (S.size b))
termination_by xs.length
decreasing_by
  have hpos := S.size_pos _h
  have hle := S.size_le _h
  rw [List.length_drop]
  omega

/-- What the maximal chain does not cover. -/
def leftover (xs : List α) : List α :=
  match _h : S.head xs with
  | none => xs
  | some b => leftover (xs.drop (S.size b))
termination_by xs.length
decreasing_by
  have hpos := S.size_pos _h
  have hle := S.size_le _h
  rw [List.length_drop]
  omega

theorem items_of_none {xs : List α} (h : S.head xs = none) : S.items xs = [] := by
  unfold items
  split
  · rfl
  · simp_all

theorem items_of_some {xs : List α} {b : β} (h : S.head xs = some b) :
    S.items xs = b :: S.items (xs.drop (S.size b)) := by
  rw [items]
  split
  · simp_all
  · simp_all

theorem leftover_of_none {xs : List α} (h : S.head xs = none) : S.leftover xs = xs := by
  unfold leftover
  split
  · rfl
  · simp_all

theorem leftover_of_some {xs : List α} {b : β} (h : S.head xs = some b) :
    S.leftover xs = S.leftover (xs.drop (S.size b)) := by
  rw [leftover]
  split
  · simp_all
  · simp_all

theorem head_nil : S.head [] = none := by
  cases h : S.head [] with
  | none => rfl
  | some b =>
      have hpos := S.size_pos h
      have hle := S.size_le h
      simp only [List.length_nil] at hle
      omega

@[simp] theorem items_nil : S.items [] = [] := S.items_of_none S.head_nil

@[simp] theorem leftover_nil : S.leftover [] = [] := S.leftover_of_none S.head_nil

/-- Induction along the chain of items. -/
theorem chain_induction {motive : List α → Prop}
    (stop : ∀ xs, S.head xs = none → motive xs)
    (step : ∀ xs b, S.head xs = some b → motive (xs.drop (S.size b)) → motive xs) :
    ∀ xs, motive xs := by
  intro xs
  induction hn : xs.length using Nat.strongRecOn generalizing xs with
  | _ n ih =>
      cases h : S.head xs with
      | none => exact stop xs h
      | some b =>
          have hpos := S.size_pos h
          have hle := S.size_le h
          have hlt : (xs.drop (S.size b)).length < n := by
            rw [List.length_drop]
            omega
          exact step xs b h (ih _ hlt _ rfl)

/-- Nothing is recognized at the front of the leftover. -/
theorem head_leftover (xs : List α) : S.head (S.leftover xs) = none := by
  induction xs using S.chain_induction with
  | stop xs h => rw [S.leftover_of_none h, h]
  | step xs b h ih => rw [S.leftover_of_some h, ih]

/-- Every element is in an item or in the leftover. -/
theorem length_eq (xs : List α) :
    xs.length = ((S.items xs).map S.size).sum + (S.leftover xs).length := by
  induction xs using S.chain_induction with
  | stop xs h => simp [S.items_of_none h, S.leftover_of_none h]
  | step xs b h ih =>
      have hle := S.size_le h
      rw [List.length_drop] at ih
      rw [S.items_of_some h, S.leftover_of_some h, List.map_cons, List.sum_cons]
      omega

theorem sum_size_items_le (xs : List α) : ((S.items xs).map S.size).sum ≤ xs.length := by
  rw [S.length_eq xs]
  exact Nat.le_add_right _ _

/-- Splitting chunk by chunk never finds more than the chunks hold. -/
theorem sum_size_flatMap_items_le (cs : List (List α)) :
    ((cs.flatMap S.items).map S.size).sum ≤ cs.flatten.length := by
  induction cs with
  | nil => simp
  | cons c cs ih =>
      have hc := S.sum_size_items_le c
      simp only [List.flatMap_cons, List.map_append, List.sum_append, List.flatten_cons,
        List.length_append]
      omega

/-! ## Encoders -/

/-- `enc` writes the good items so that the splitter finds them at the front of
    whatever follows. -/
structure Encodes (enc : β → List α) (Good : β → Prop) : Prop where
  head_enc : ∀ {b ys}, Good b → S.head (enc b ++ ys) = some b
  length_enc : ∀ {b}, Good b → (enc b).length = S.size b

variable {S} {enc : β → List α} {Good : β → Prop}

theorem Encodes.items_append (hE : S.Encodes enc Good) {bs : List β}
    (hgood : ∀ b ∈ bs, Good b) (ys : List α) :
    S.items (bs.flatMap enc ++ ys) = bs ++ S.items ys := by
  induction bs with
  | nil => rfl
  | cons b bs ih =>
      have hb : Good b := hgood b List.mem_cons_self
      have hhead : S.head (enc b ++ (bs.flatMap enc ++ ys)) = some b := hE.head_enc hb
      rw [List.flatMap_cons, List.append_assoc, S.items_of_some hhead, ← hE.length_enc hb,
        List.drop_left, ih (fun b' hb' => hgood b' (List.mem_cons_of_mem b hb'))]
      rfl

theorem Encodes.items_flatMap (hE : S.Encodes enc Good) {bs : List β}
    (hgood : ∀ b ∈ bs, Good b) : S.items (bs.flatMap enc) = bs := by
  have h := hE.items_append hgood []
  simpa using h

theorem Encodes.leftover_append (hE : S.Encodes enc Good) {bs : List β}
    (hgood : ∀ b ∈ bs, Good b) (ys : List α) :
    S.leftover (bs.flatMap enc ++ ys) = S.leftover ys := by
  induction bs with
  | nil => rfl
  | cons b bs ih =>
      have hb : Good b := hgood b List.mem_cons_self
      have hhead : S.head (enc b ++ (bs.flatMap enc ++ ys)) = some b := hE.head_enc hb
      rw [List.flatMap_cons, List.append_assoc, S.leftover_of_some hhead, ← hE.length_enc hb,
        List.drop_left, ih (fun b' hb' => hgood b' (List.mem_cons_of_mem b hb'))]

theorem Encodes.length_flatMap (hE : S.Encodes enc Good) {bs : List β}
    (hgood : ∀ b ∈ bs, Good b) : (bs.flatMap enc).length = (bs.map S.size).sum := by
  induction bs with
  | nil => rfl
  | cons b bs ih =>
      rw [List.flatMap_cons, List.length_append, List.map_cons, List.sum_cons,
        hE.length_enc (hgood b List.mem_cons_self),
        ih (fun b' hb' => hgood b' (List.mem_cons_of_mem b hb'))]

/-- **The cut law.**  A stream of encoded items that is cut into chunks, each
    split on its own, yields the items unchanged exactly if no chunk boundary
    falls inside an item. -/
theorem Encodes.flatMap_items_eq_iff (hE : S.Encodes enc Good) {bs : List β}
    (hgood : ∀ b ∈ bs, Good b) {cs : List (List α)} (hcs : cs.flatten = bs.flatMap enc) :
    cs.flatMap S.items = bs ↔
      ∃ groups : List (List β), groups.flatten = bs ∧
        cs = groups.map (fun g => g.flatMap enc) := by
  refine ⟨?_, ?_⟩
  · intro hitems
    refine ⟨cs.map S.items, by rw [← hitems, List.flatMap_def], ?_⟩
    induction cs generalizing bs with
    | nil => rfl
    | cons c cs ih =>
        rw [List.flatMap_cons] at hitems
        subst hitems
        have hgoodc : ∀ b ∈ S.items c, Good b :=
          fun b hb => hgood b (List.mem_append_left _ hb)
        have hgoodcs : ∀ b ∈ cs.flatMap S.items, Good b :=
          fun b hb => hgood b (List.mem_append_right _ hb)
        -- the bytes add up only if nothing is left over in `c`
        have hlen : c.length = ((S.items c).flatMap enc).length := by
          have htotal := congrArg List.length hcs
          have hc := S.sum_size_items_le c
          have hrest := S.sum_size_flatMap_items_le cs
          rw [List.flatten_cons, List.flatMap_append, List.length_append, List.length_append,
            hE.length_flatMap hgoodc, hE.length_flatMap hgoodcs] at htotal
          rw [hE.length_flatMap hgoodc]
          omega
        rw [List.flatten_cons, List.flatMap_append] at hcs
        obtain ⟨hhead, htail⟩ := List.append_inj hcs hlen
        have htl := ih hgoodcs htail rfl
        rw [List.map_cons, List.map_cons, ← hhead, ← htl]
  · rintro ⟨groups, rfl, rfl⟩
    clear hcs
    induction groups with
    | nil => rfl
    | cons g groups ih =>
        have hg : ∀ b ∈ g, Good b := fun b hb => hgood b (List.mem_append_left _ hb)
        have hgs : ∀ b ∈ groups.flatten, Good b :=
          fun b hb => hgood b (List.mem_append_right _ hb)
        rw [List.map_cons, List.flatMap_cons, hE.items_flatMap hg, ih hgs, List.flatten_cons]

/-- The same, said of each chunk. -/
theorem Encodes.flatMap_items_eq_iff_forall (hE : S.Encodes enc Good) {bs : List β}
    (hgood : ∀ b ∈ bs, Good b) {cs : List (List α)} (hcs : cs.flatten = bs.flatMap enc) :
    cs.flatMap S.items = bs ↔ ∀ c ∈ cs, ∃ g : List β, (∀ b ∈ g, Good b) ∧ c = g.flatMap enc := by
  refine ⟨?_, ?_⟩
  · intro hitems c hc
    obtain ⟨groups, hgroups, rfl⟩ := (hE.flatMap_items_eq_iff hgood hcs).mp hitems
    obtain ⟨g, hg, rfl⟩ := List.mem_map.mp hc
    refine ⟨g, fun b hb => hgood b ?_, rfl⟩
    rw [← hgroups]
    exact List.mem_flatten.mpr ⟨g, hg, hb⟩
  · intro hwhole
    have hchunk : ∀ c ∈ cs, (∀ b ∈ S.items c, Good b) ∧ (S.items c).flatMap enc = c := by
      intro c hc
      obtain ⟨g, hg, rfl⟩ := hwhole c hc
      rw [hE.items_flatMap hg]
      exact ⟨hg, rfl⟩
    have hall : ∀ b ∈ cs.flatMap S.items, Good b := by
      intro b hb
      obtain ⟨c, hc, hmem⟩ := List.mem_flatMap.mp hb
      exact (hchunk c hc).1 b hmem
    -- the items of all chunks are encoded as the stream is
    have hbytes : (cs.flatMap S.items).flatMap enc = bs.flatMap enc := by
      rw [← hcs, List.flatMap_assoc, List.flatten_eq_flatMap]
      exact List.flatMap_congr (fun c hc => (hchunk c hc).2)
    rw [← hE.items_flatMap hall, hbytes, hE.items_flatMap hgood]

/-! ## Canonical formats -/

/-- In a canonical format an item is recognized only in its own encoding. -/
def Canonical (S : Splitter α β) (enc : β → List α) : Prop :=
  ∀ {xs b}, S.head xs = some b → xs = enc b ++ xs.drop (S.size b)

theorem Canonical.eq_append (hC : S.Canonical enc) (xs : List α) :
    xs = (S.items xs).flatMap enc ++ S.leftover xs := by
  induction xs using S.chain_induction with
  | stop xs h => simp [S.items_of_none h, S.leftover_of_none h]
  | step xs b h ih =>
      rw [S.items_of_some h, S.leftover_of_some h, List.flatMap_cons, List.append_assoc, ← ih]
      exact hC h

/-- The grammar of a canonical format: a list is a concatenation of `n` items
    exactly if the chain has `n` items and covers it. -/
theorem Canonical.exists_flatMap_iff (hC : S.Canonical enc) (hE : S.Encodes enc Good)
    (hall : ∀ b, Good b) {xs : List α} {n : Nat} :
    (∃ bs : List β, bs.length = n ∧ xs = bs.flatMap enc) ↔
      (S.items xs).length = n ∧ S.leftover xs = [] := by
  refine ⟨?_, ?_⟩
  · rintro ⟨bs, rfl, rfl⟩
    have hgood : ∀ b ∈ bs, Good b := fun b _ => hall b
    have hleft := hE.leftover_append hgood ([] : List α)
    rw [List.append_nil, leftover_nil] at hleft
    exact ⟨by rw [hE.items_flatMap hgood], hleft⟩
  · rintro ⟨hn, hleft⟩
    refine ⟨S.items xs, hn, ?_⟩
    have h := hC.eq_append xs
    rw [hleft, List.append_nil] at h
    exact h

end Splitter

end AfIpc.Lib
