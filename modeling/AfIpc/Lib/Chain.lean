/-
  AfIpc.Lib.Chain

  Singly linked lists in memory.  A store holds the nodes that are allocated, an
  access to any other address is a fault, and the loops that follow the pointers
  take fuel, since memory may hold a cycle.

  `Path s p l q` says that from the pointer `p` one meets the nodes `l` and comes
  to `q`; a path that ends is free of repetitions (`Path.nodup`), which is what
  lets one node be written without another (`Path.frame`).  `Holds s head l` adds
  that nothing else is allocated.  Each operation on the list has one lemma that
  says which list it leaves: `Holds.push`, `Holds.setData`, `Holds.find_eq`,
  `Holds.unlink_eq`, `Path.visit_eq`.
-/

import Mathlib.Data.List.Nodup
import Mathlib.Logic.Function.Basic

namespace AfIpc.Lib

/-- What following a pointer can run into. -/
inductive PointerFault where
  /-- Nothing is allocated at the address. -/
  | dangling
  | outOfFuel
  deriving DecidableEq, Repr

/-- A node: what it holds, and the address of the next. -/
structure Node (ι α : Type) where
  data : α
  next : Option ι
  deriving DecidableEq, Repr

/-- The nodes that are allocated. -/
abbrev Store (ι α : Type) := ι → Option (Node ι α)

-- ============================================================================
-- Operations
-- ============================================================================

namespace Store

variable {ι α σ : Type} [DecidableEq ι]

def read (s : Store ι α) (i : ι) : Except PointerFault (Node ι α) :=
  match s i with
  | some n => .ok n
  | none => .error .dangling

def put (s : Store ι α) (i : ι) (n : Node ι α) : Store ι α := Function.update s i (some n)

def free (s : Store ι α) (i : ι) : Store ι α := Function.update s i none

/-- Write what a node holds. -/
def setData (s : Store ι α) (i : ι) (f : α → α) : Except PointerFault (Store ι α) := do
  let n ← s.read i
  return s.put i { n with data := f n.data }

/-- Write the pointer of a node. -/
def setNext (s : Store ι α) (i : ι) (next : Option ι) : Except PointerFault (Store ι α) := do
  let n ← s.read i
  return s.put i { n with next := next }

/-- The first node from `cur` on that passes the test. -/
def find (s : Store ι α) (test : α → Bool) : Nat → Option ι → Except PointerFault (Option ι)
  | _, none => .ok none
  | 0, some _ => .error .outOfFuel
  | fuel + 1, some i => do
    let n ← s.read i
    if test n.data then return some i else s.find test fuel n.next

/-- Unlink and free the first node from `cur` on that passes the test; `prev` is the
    node before `cur`, if there is one.  The pointer is that to the first node. -/
def unlink (s : Store ι α) (test : α → Bool) (head : Option ι) :
    Nat → Option ι → Option ι → Except PointerFault (Option ι × Store ι α)
  | _, _, none => .ok (head, s)
  | 0, _, some _ => .error .outOfFuel
  | fuel + 1, prev, some i => do
    let n ← s.read i
    if test n.data then
      match prev with
      | some j => do
        let s ← s.setNext j n.next
        return (head, s.free i)
      | none => return (n.next, s.free i)
    else s.unlink test head fuel (some i) n.next

/-- Visit the nodes from `cur` on: `body` may write what a node holds. -/
def visit (body : α → σ → Except PointerFault (α × σ)) :
    Nat → Store ι α → Option ι → σ → Except PointerFault (Store ι α × σ)
  | _, s, none, t => .ok (s, t)
  | 0, _, some _, _ => .error .outOfFuel
  | fuel + 1, s, some i, t => do
    let n ← s.read i
    let (a, t) ← body n.data t
    let s ← s.setData i (fun _ => a)
    let n ← s.read i
    visit body fuel s n.next t

end Store

-- ============================================================================
-- Paths
-- ============================================================================

/-- From the pointer `p` one meets these nodes and comes to `q`. -/
def Path {ι α : Type} (s : Store ι α) : Option ι → List (ι × α) → Option ι → Prop
  | p, [], q => p = q
  | p, (i, a) :: l, q => p = some i ∧ ∃ next, s i = some ⟨a, next⟩ ∧ Path s next l q

section Path

variable {ι α σ : Type} {s s' : Store ι α} {p q : Option ι} {i : ι} {a : α} {l l' : List (ι × α)}

theorem Path.append : Path s p (l ++ l') q ↔ ∃ m, Path s p l m ∧ Path s m l' q := by
  induction l generalizing p with
  | nil =>
      refine ⟨fun h => ⟨p, rfl, h⟩, ?_⟩
      rintro ⟨m, rfl, h⟩
      exact h
  | cons x l ih =>
      obtain ⟨i, a⟩ := x
      refine ⟨?_, ?_⟩
      · rintro ⟨hp, next, hi, hrest⟩
        obtain ⟨m, hl, hl'⟩ := ih.mp hrest
        exact ⟨m, ⟨hp, next, hi, hl⟩, hl'⟩
      · rintro ⟨m, ⟨hp, next, hi, hl⟩, hl'⟩
        exact ⟨hp, next, hi, ih.mpr ⟨m, hl, hl'⟩⟩

/-- A path depends on its own nodes only. -/
theorem Path.frame (h : Path s p l q) (hsame : ∀ i ∈ l.map Prod.fst, s' i = s i) :
    Path s' p l q := by
  induction l generalizing p with
  | nil => exact h
  | cons x l ih =>
      obtain ⟨i, a⟩ := x
      obtain ⟨hp, next, hi, hrest⟩ := h
      refine ⟨hp, next, (hsame i List.mem_cons_self).trans hi, ih hrest (fun j hj => ?_)⟩
      exact hsame j (List.mem_cons_of_mem i hj)

/-- The nodes are allocated. -/
theorem Path.allocated (h : Path s p l q) (hmem : (i, a) ∈ l) :
    ∃ next, s i = some ⟨a, next⟩ := by
  induction l generalizing p with
  | nil => cases hmem
  | cons x l ih =>
      obtain ⟨j, b⟩ := x
      obtain ⟨-, next, hj, hrest⟩ := h
      rcases List.mem_cons.mp hmem with heq | hmem
      · cases heq
        exact ⟨next, hj⟩
      · exact ih hrest hmem

/-- From one pointer there is one path that ends. -/
theorem Path.unique (h : Path s p l none) (h' : Path s p l' none) : l = l' := by
  induction l generalizing p l' with
  | nil =>
      obtain rfl : p = none := h
      cases l' with
      | nil => rfl
      | cons x l' => cases h'.1
  | cons x l ih =>
      obtain ⟨i, a⟩ := x
      obtain ⟨rfl, next, hi, hrest⟩ := h
      cases l' with
      | nil => cases h'
      | cons x' l' =>
          obtain ⟨i', a'⟩ := x'
          obtain ⟨heq, next', hi', hrest'⟩ := h'
          obtain rfl := Option.some.inj heq
          rw [hi, Option.some.injEq, Node.mk.injEq] at hi'
          obtain ⟨rfl, rfl⟩ := hi'
          rw [ih hrest hrest']

/-- **A path that ends meets no node twice.** -/
theorem Path.nodup (h : Path s p l none) : (l.map Prod.fst).Nodup := by
  induction l generalizing p with
  | nil => exact List.nodup_nil
  | cons x l ih =>
      obtain ⟨i, a⟩ := x
      obtain ⟨hp, next, hi, hrest⟩ := h
      refine List.nodup_cons.mpr ⟨fun hin => ?_, ih hrest⟩
      -- from the second occurrence the path would go on as from the first
      obtain ⟨⟨j, b⟩, hmem, rfl⟩ := List.mem_map.mp hin
      obtain ⟨before, after, rfl⟩ := List.append_of_mem hmem
      obtain ⟨m, -, hagain⟩ := Path.append.mp hrest
      obtain ⟨rfl, -⟩ := id hagain
      have hsame : (j, b) :: after = (j, a) :: (before ++ (j, b) :: after) :=
        hagain.unique ⟨rfl, next, hi, hrest⟩
      have hlength := congrArg List.length hsame
      simp only [List.length_cons, List.length_append] at hlength
      omega

/-- Writing what a node holds changes that on the path, and nothing else. -/
theorem Path.put [DecidableEq ι] (h : Path s p l q) {n : Node ι α} (hi : s i = some n)
    (f : α → α) :
    Path (s.put i { n with data := f n.data }) p
      (l.map (fun x => if x.1 = i then (x.1, f x.2) else x)) q := by
  induction l generalizing p with
  | nil => exact h
  | cons x l ih =>
      obtain ⟨j, b⟩ := x
      obtain ⟨hp, next, hj, hrest⟩ := h
      rw [List.map_cons]
      by_cases heq : j = i
      · subst heq
        rw [hi, Option.some.injEq] at hj
        subst hj
        rw [if_pos rfl]
        exact ⟨hp, next, Function.update_self .., ih hrest⟩
      · rw [if_neg heq]
        exact ⟨hp, next, (Function.update_of_ne heq ..).trans hj, ih hrest⟩

variable {test : α → Bool} {fuel : Nat}

/-- **Searching** finds the first node that passes the test. -/
theorem Path.find_eq [DecidableEq ι] (h : Path s p l none) (hfuel : l.length ≤ fuel) :
    s.find test fuel p = .ok ((l.find? (fun x => test x.2)).map Prod.fst) := by
  induction l generalizing p fuel with
  | nil =>
      obtain rfl : p = none := h
      cases fuel with
      | zero => rfl
      | succ fuel => rfl
  | cons x l ih =>
      obtain ⟨i, a⟩ := x
      obtain ⟨rfl, next, hi, hrest⟩ := h
      cases fuel with
      | zero => exact absurd hfuel (Nat.not_succ_le_zero l.length)
      | succ fuel =>
          simp only [Store.find, Store.read, hi, bind, Except.bind, pure, Except.pure]
          cases htest : test a with
          | true =>
              rw [@List.find?_cons_of_pos _ (fun x : ι × α => test x.2) (i, a) l htest]
              rfl
          | false =>
              rw [@List.find?_cons_of_neg _ (fun x : ι × α => test x.2) (i, a) l (by simp [htest])]
              exact ih hrest (Nat.le_of_succ_le_succ hfuel)

/-- **Visiting** every node is a fold over what the nodes hold. -/
theorem Path.visit_eq [DecidableEq ι] {body : α → σ → Except PointerFault (α × σ)} {t t' : σ}
    (h : Path s p l none) (hfuel : l.length ≤ fuel)
    (hbody : (l.map Prod.snd).foldlM (fun t a => Prod.snd <$> body a t) t = .ok t') :
    ∃ s', Store.visit body fuel s p t = .ok (s', t') := by
  induction l generalizing s p fuel t with
  | nil =>
      obtain rfl : p = none := h
      cases hbody
      cases fuel with
      | zero => exact ⟨s, rfl⟩
      | succ fuel => exact ⟨s, rfl⟩
  | cons x l ih =>
      obtain ⟨i, a⟩ := x
      have hnodup := h.nodup
      obtain ⟨rfl, next, hi, hrest⟩ := h
      cases fuel with
      | zero => exact absurd hfuel (Nat.not_succ_le_zero l.length)
      | succ fuel =>
          rw [List.map_cons, List.foldlM_cons] at hbody
          cases hone : body a t with
          | error e =>
              rw [hone] at hbody
              cases hbody
          | ok out =>
              obtain ⟨a', t₁⟩ := out
              rw [hone] at hbody
              -- the pointers are as before, so the rest of the path is where it was
              have hpath : Path (s.put i ⟨a', next⟩) next l none := by
                refine hrest.frame (fun j hj => Function.update_of_ne ?_ ..)
                rintro rfl
                exact (List.nodup_cons.mp hnodup).1 hj
              obtain ⟨s', hs'⟩ := ih hpath (Nat.le_of_succ_le_succ hfuel) hbody
              have hwritten : (s.put i ⟨a', next⟩) i = some ⟨a', next⟩ := Function.update_self ..
              refine ⟨s', ?_⟩
              simp only [Store.visit, Store.setData, Store.read, hi, hone, hwritten, bind,
                Except.bind, pure, Except.pure]
              exact hs'

end Path

-- ============================================================================
-- The list that a store holds
-- ============================================================================

/-- From `head` one meets the nodes `l`, and nothing else is allocated. -/
structure Holds {ι α : Type} (s : Store ι α) (head : Option ι) (l : List (ι × α)) : Prop where
  path : Path s head l none
  only : ∀ i, s i ≠ none → i ∈ l.map Prod.fst

section Holds

variable {ι α : Type} [DecidableEq ι] {s : Store ι α} {head : Option ι} {i j : ι} {a b : α}
  {l before after : List (ι × α)}

omit [DecidableEq ι] in
theorem holds_nil : Holds (fun _ : ι => (none : Option (Node ι α))) none [] :=
  ⟨rfl, fun _ hi => absurd rfl hi⟩

omit [DecidableEq ι] in
theorem Holds.not_mem (h : Holds s head l) (hi : s i = none) : i ∉ l.map Prod.fst := by
  intro hin
  obtain ⟨⟨j, a⟩, hmem, rfl⟩ := List.mem_map.mp hin
  obtain ⟨next, hj⟩ := h.path.allocated hmem
  rw [hi] at hj
  cases hj

/-- **A new node** at the head. -/
theorem Holds.push (h : Holds s head l) (hi : s i = none) (a : α) :
    Holds (s.put i ⟨a, head⟩) (some i) ((i, a) :: l) where
  path := by
    refine ⟨rfl, head, Function.update_self .., h.path.frame (fun j hj => ?_)⟩
    refine Function.update_of_ne ?_ ..
    rintro rfl
    exact h.not_mem hi hj
  only := by
    intro j hj
    by_cases heq : j = i
    · rw [heq]
      exact List.mem_cons_self
    · refine List.mem_cons_of_mem i (h.only j ?_)
      rwa [Store.put, Function.update_of_ne heq] at hj

/-- **A write** to a node. -/
theorem Holds.setData (h : Holds s head l) (hmem : (i, a) ∈ l) (f : α → α) :
    ∃ s', s.setData i f = .ok s' ∧
      Holds s' head (l.map (fun x => if x.1 = i then (x.1, f x.2) else x)) := by
  obtain ⟨next, hi⟩ := h.path.allocated hmem
  refine ⟨s.put i ⟨f a, next⟩, ?_, h.path.put hi f, fun j hj => ?_⟩
  · simp only [Store.setData, Store.read, hi, bind, Except.bind, pure, Except.pure]
  · have hsame : (l.map (fun x => if x.1 = i then (x.1, f x.2) else x)).map Prod.fst =
        l.map Prod.fst := by
      rw [List.map_map]
      apply List.map_congr_left
      intro x _
      by_cases heq : x.1 = i
      · simp only [Function.comp_apply, if_pos heq]
      · simp only [Function.comp_apply, if_neg heq]
    rw [hsame]
    by_cases heq : j = i
    · rw [heq]
      exact List.mem_map.mpr ⟨_, hmem, rfl⟩
    · refine h.only j ?_
      rwa [Store.put, Function.update_of_ne heq] at hj

/-- A write to the first node. -/
theorem Holds.setHead (h : Holds s head ((i, a) :: l)) (f : α → α) :
    ∃ s', s.setData i f = .ok s' ∧ Holds s' head ((i, f a) :: l) := by
  obtain ⟨s', hset, hs'⟩ := h.setData List.mem_cons_self f
  refine ⟨s', hset, ?_⟩
  have hrest : l.map (fun x => if x.1 = i then (x.1, f x.2) else x) = l := by
    conv_rhs => rw [← List.map_id l]
    apply List.map_congr_left
    intro x hx
    have hne : x.1 ≠ i := by
      intro heq
      exact (List.nodup_cons.mp h.path.nodup).1 (List.mem_map.mpr ⟨x, hx, heq⟩)
    rw [if_neg hne]
    rfl
  rw [List.map_cons, if_pos rfl, hrest] at hs'
  exact hs'

omit [DecidableEq ι] in
/-- Reading a node. -/
theorem Holds.read_eq (h : Holds s head l) (hmem : (i, a) ∈ l) :
    ∃ next, s.read i = .ok ⟨a, next⟩ := by
  obtain ⟨next, hi⟩ := h.path.allocated hmem
  refine ⟨next, ?_⟩
  rw [Store.read, hi]

/-- Freeing the first node leaves the rest. -/
theorem Holds.freeHead (h : Holds s head ((i, a) :: l)) :
    ∃ next, s i = some ⟨a, next⟩ ∧ Holds (s.free i) next l := by
  have hnodup := h.path.nodup
  obtain ⟨-, next, hi, hrest⟩ := h.path
  refine ⟨next, hi, hrest.frame (fun j hj => ?_), fun j hj => ?_⟩
  · refine Function.update_of_ne ?_ ..
    rintro rfl
    exact (List.nodup_cons.mp hnodup).1 hj
  · have hne : j ≠ i := by
      rintro rfl
      exact hj (Function.update_self ..)
    rw [Store.free, Function.update_of_ne hne] at hj
    exact (List.mem_cons.mp (h.only j hj)).resolve_left hne

/-- Freeing a node that the one before it no longer points to leaves the rest. -/
theorem Holds.freeAfter (h : Holds s head (before ++ (j, b) :: (i, a) :: after)) :
    ∃ next s', s i = some ⟨a, next⟩ ∧ s.setNext j next = .ok s' ∧
      Holds (s'.free i) head (before ++ (j, b) :: after) := by
  have hnodup := h.path.nodup
  rw [List.map_append, List.nodup_append'] at hnodup
  obtain ⟨m, hbefore, hm⟩ := Path.append.mp h.path
  obtain ⟨rfl, _, hj, rfl, next, hi, hafter⟩ := hm
  obtain ⟨-, hrest, hdisjoint⟩ := hnodup
  have hji : j ≠ i := by
    rintro rfl
    exact (List.nodup_cons.mp hrest).1 List.mem_cons_self
  have hpath : Path ((s.put j ⟨b, next⟩).free i) head (before ++ (j, b) :: after) none := by
    have hother : ∀ k, k ≠ i → k ≠ j → ((s.put j ⟨b, next⟩).free i) k = s k := by
      intro k hki hkj
      exact (Function.update_of_ne hki ..).trans (Function.update_of_ne hkj ..)
    refine Path.append.mpr ⟨some j, hbefore.frame (fun k hk => hother k ?_ ?_), rfl, next, ?_,
      hafter.frame (fun k hk => hother k ?_ ?_)⟩
    · rintro rfl
      exact hdisjoint hk (List.mem_cons_of_mem j List.mem_cons_self)
    · rintro rfl
      exact hdisjoint hk List.mem_cons_self
    · exact (Function.update_of_ne hji ..).trans (Function.update_self ..)
    · rintro rfl
      exact (List.nodup_cons.mp (List.nodup_cons.mp hrest).2).1 hk
    · rintro rfl
      exact (List.nodup_cons.mp hrest).1 (List.mem_cons_of_mem i hk)
  refine ⟨next, s.put j ⟨b, next⟩, hi, ?_, hpath, fun k hk => ?_⟩
  · simp only [Store.setNext, Store.read, hj, bind, Except.bind, pure, Except.pure]
  · have hki : k ≠ i := by
      rintro rfl
      exact hk (Function.update_self ..)
    by_cases hkj : k = j
    · simp [hkj]
    · rw [Store.free, Function.update_of_ne hki, Store.put, Function.update_of_ne hkj] at hk
      have hin := h.only k hk
      simp only [List.map_append, List.map_cons, List.mem_append, List.mem_cons] at hin ⊢
      rcases hin with hin | hin | hin | hin
      · exact .inl hin
      · exact .inr (.inl hin)
      · exact absurd hin hki
      · exact .inr (.inr hin)

variable {test : α → Bool} {fuel : Nat} {prev cur : Option ι}

/-- Unlinking on the way: the nodes before the pointer have failed the test. -/
theorem Holds.unlink_from (h : Holds s head (before ++ l))
    (hprev : prev = (before.getLast?).map Prod.fst) (hcur : Path s cur l none)
    (hfuel : l.length ≤ fuel) :
    ∃ head' s', s.unlink test head fuel prev cur = .ok (head', s') ∧
      Holds s' head' (before ++ l.eraseP (fun x => test x.2)) := by
  induction l generalizing before prev cur fuel with
  | nil =>
      obtain rfl : cur = none := hcur
      refine ⟨head, s, ?_, h⟩
      cases fuel with
      | zero => rfl
      | succ fuel => rfl
  | cons x l ih =>
      obtain ⟨i, a⟩ := x
      obtain ⟨rfl, next, hi, hrest⟩ := hcur
      cases fuel with
      | zero => exact absurd hfuel (Nat.not_succ_le_zero l.length)
      | succ fuel =>
          cases htest : test a with
          | false =>
              rw [List.append_cons] at h
              have hlast : some i = (before ++ [(i, a)]).getLast?.map Prod.fst := by
                rw [List.getLast?_concat]
                rfl
              obtain ⟨head', s', hout, hholds⟩ := ih h hlast hrest (Nat.le_of_succ_le_succ hfuel)
              refine ⟨head', s', ?_, ?_⟩
              · simp only [Store.unlink, Store.read, hi, htest, bind, Except.bind]
                exact hout
              · rw [List.eraseP_cons_of_neg (by simpa using htest), List.append_cons]
                exact hholds
          | true =>
              rw [List.eraseP_cons_of_pos (by simpa using htest)]
              rcases List.eq_nil_or_concat before with rfl | ⟨front, ⟨j, b⟩, rfl⟩
              · obtain ⟨next', hi', hfree⟩ := h.freeHead
                rw [hi, Option.some.injEq, Node.mk.injEq] at hi'
                obtain ⟨-, rfl⟩ := hi'
                refine ⟨next, s.free i, ?_, hfree⟩
                simp only [Store.unlink, Store.read, hi, htest, hprev, bind, Except.bind]
                rfl
              · rw [List.concat_eq_append, List.append_assoc] at h
                obtain ⟨next', s', hi', hset, hfree⟩ := h.freeAfter
                rw [hi, Option.some.injEq, Node.mk.injEq] at hi'
                obtain ⟨-, rfl⟩ := hi'
                rw [List.concat_eq_append] at hprev ⊢
                refine ⟨head, s'.free i, ?_, by rwa [List.append_assoc]⟩
                rw [List.getLast?_concat] at hprev
                simp only [Store.unlink, Store.read, hi, htest, hprev, Option.map_some, hset, bind,
                  Except.bind]
                rfl

/-- **Unlinking** takes out the first node that passes the test. -/
theorem Holds.unlink_eq (h : Holds s head l) (hfuel : l.length ≤ fuel) :
    ∃ head' s', s.unlink test head fuel none head = .ok (head', s') ∧
      Holds s' head' (l.eraseP (fun x => test x.2)) :=
  @Holds.unlink_from _ _ _ s head l [] test fuel none head h rfl h.path hfuel

end Holds

end AfIpc.Lib
