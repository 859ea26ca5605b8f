/-
  AfIpc.Lib.Run

  Computations that may fail, and runs of a machine whose steps do.

  `Safe bad P x` is the triple everything else is proved with: `x` does not fail
  in a bad way, and what it gives satisfies `P`.  It is closed under sequencing
  (`Safe.bind`), and an invariant that each step keeps safely is kept by a whole
  run (`Safe.run`).  `Conforms` restricts runs to those whose steps are all taken
  from a state in which a condition on state and input holds; the rule for them
  is `Safe.run_conforms`.
-/

namespace AfIpc.Lib

variable {σ τ ι ε α β : Type}

/-- Peel one step off a computation that succeeds. -/
theorem bind_eq_ok {x : Except ε α} {f : α → Except ε β} {b : β} :
    (x >>= f) = .ok b ↔ ∃ a, x = .ok a ∧ f a = .ok b := by
  cases x with
  | error e => simp [bind, Except.bind]
  | ok a => simp [bind, Except.bind]

-- ============================================================================
-- Runs
-- ============================================================================

/-- The state after a list of inputs. -/
def run (step : σ → ι → Except ε σ) : σ → List ι → Except ε σ
  | s, [] => .ok s
  | s, i :: is => step s i >>= fun s' => run step s' is

section Run

variable {step : σ → ι → Except ε σ}

@[simp] theorem run_nil (s : σ) : run step s [] = .ok s := rfl

theorem run_cons (s : σ) (i : ι) (is : List ι) :
    run step s (i :: is) = step s i >>= fun s' => run step s' is := rfl

theorem run_append (s : σ) (is js : List ι) :
    run step s (is ++ js) = run step s is >>= fun s' => run step s' js := by
  induction is generalizing s with
  | nil => rfl
  | cons i is ih =>
      rw [List.cons_append, run_cons, run_cons]
      cases step s i with
      | error e => rfl
      | ok s' => exact ih s'

/-- A run goes on from the state that its first part has reached. -/
theorem run_append_of_ok {s t : σ} {is : List ι} (h : run step s is = .ok t) (js : List ι) :
    run step s (is ++ js) = run step t js := by
  rw [run_append, h]
  rfl

/-- A run whose steps are runs themselves. -/
theorem run_flatMap {κ : Type} (f : κ → List ι) (s : σ) (ks : List κ) :
    run (fun s k => run step s (f k)) s ks = run step s (ks.flatMap f) := by
  induction ks generalizing s with
  | nil => rfl
  | cons k ks ih =>
      rw [List.flatMap_cons, run_append, run_cons]
      cases run step s (f k) with
      | error e => rfl
      | ok s' => exact ih s'

/-- Every step of the run is taken from a state and on an input that meet `cond`. -/
def Conforms (step : σ → ι → Except ε σ) (cond : σ → ι → Prop) : σ → List ι → Prop
  | _, [] => True
  | s, i :: is => cond s i ∧ ∀ s', step s i = .ok s' → Conforms step cond s' is

theorem conforms_iff {cond : σ → ι → Prop} {s : σ} {is : List ι} :
    Conforms step cond s is ↔
      ∀ before i after, is = before ++ i :: after → ∀ t, run step s before = .ok t → cond t i := by
  induction is generalizing s with
  | nil => simp [Conforms]
  | cons j is ih =>
      refine ⟨?_, ?_⟩
      · rintro ⟨hj, hrest⟩ before i after heq t hrun
        cases before with
        | nil =>
            obtain ⟨rfl, -⟩ := List.cons.inj heq
            cases hrun
            exact hj
        | cons k before =>
            obtain ⟨rfl, htail⟩ := List.cons.inj heq
            obtain ⟨u, hstep, hrun'⟩ := bind_eq_ok.mp hrun
            exact ih.mp (hrest u hstep) before i after htail t hrun'
      · intro hall
        refine ⟨hall [] j is rfl s rfl, fun u hstep => ih.mpr ?_⟩
        intro before i after heq t hrun
        apply hall (j :: before) i after (by rw [heq, List.cons_append]) t
        rw [run_cons, hstep]
        exact hrun

end Run

-- ============================================================================
-- Safety
-- ============================================================================

/-- The computation does not fail in a bad way, and its result satisfies `P`. -/
def Safe (bad : ε → Prop) (P : α → Prop) : Except ε α → Prop
  | .ok a => P a
  | .error e => ¬ bad e

section Safe

variable {bad : ε → Prop} {P : α → Prop} {Q : β → Prop}

theorem Safe.mono {P' : α → Prop} {x : Except ε α} (h : Safe bad P x) (hP : ∀ a, P a → P' a) :
    Safe bad P' x := by
  cases x with
  | error e => exact h
  | ok a => exact hP a h

theorem Safe.weaken {bad' : ε → Prop} {x : Except ε α} (h : Safe bad P x)
    (hbad : ∀ e, bad' e → bad e) : Safe bad' P x := by
  cases x with
  | error e => exact fun he => h (hbad e he)
  | ok a => exact h

theorem Safe.bind {x : Except ε α} {f : α → Except ε β} (hx : Safe bad P x)
    (hf : ∀ a, P a → Safe bad Q (f a)) : Safe bad Q (x >>= f) := by
  cases x with
  | error e => exact hx
  | ok a => exact hf a hx

theorem Safe.of_ok {x : Except ε α} {a : α} (h : Safe bad P x) (ha : x = .ok a) : P a := by
  rw [ha] at h
  exact h

theorem Safe.not_error {x : Except ε α} {e : ε} (h : Safe bad P x) (hbad : bad e) :
    x ≠ .error e := by
  intro he
  rw [he] at h
  exact h hbad

/-- A computation that must not fail gives a result. -/
theorem Safe.exists_ok {x : Except ε α} (h : Safe (fun _ => True) P x) :
    ∃ a, x = .ok a ∧ P a := by
  cases x with
  | error e => exact absurd trivial h
  | ok a => exact ⟨a, rfl, h⟩

variable {I : σ → Prop} {step : σ → ι → Except ε σ}

/-- What the steps on the inputs of a run keep, the run keeps. -/
theorem Safe.run {is : List ι} (hstep : ∀ s i, i ∈ is → I s → Safe bad I (step s i)) {s : σ}
    (hs : I s) : Safe bad I (Lib.run step s is) := by
  induction is generalizing s with
  | nil => exact hs
  | cons i is ih =>
      refine (hstep s i List.mem_cons_self hs).bind (fun s' hs' => ?_)
      exact ih (fun t j hj => hstep t j (List.mem_cons_of_mem i hj)) hs'

/-- What conforming steps keep, a conforming run keeps. -/
theorem Safe.run_conforms {cond : σ → ι → Prop}
    (hstep : ∀ s i, I s → cond s i → Safe bad I (step s i)) {s : σ} {is : List ι}
    (hs : I s) (hc : Conforms step cond s is) : Safe bad I (Lib.run step s is) := by
  induction is generalizing s with
  | nil => exact hs
  | cons i is ih =>
      have h := hstep s i hs hc.1
      rw [run_cons]
      cases hi : step s i with
      | error e =>
          rw [hi] at h
          exact h
      | ok s' => exact ih (h.of_ok hi) (hc.2 s' hi)

end Safe

end AfIpc.Lib
