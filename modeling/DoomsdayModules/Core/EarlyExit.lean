import Mathlib.Tactic

/-!
# Loops that can leave early

A loop whose body may return is a fold in `Except`: a value `.ok` goes on with
the next round, a value `.error` is what the function returns from inside the
loop.  The rules take such folds apart one round at a time and turn nested
loops into one loop over the list of all inner rounds.
-/

namespace DoomsdayModules.EarlyExit

variable {α β ε State : Type*}

/-- A loop that came to its end came through its first round. -/
theorem foldlM_cons_ok {body : State → α → Except ε State} {state last : State} {x : α}
    {xs : List α} (hloop : (x :: xs).foldlM body state = .ok last) :
    ∃ middle, body state x = .ok middle ∧ xs.foldlM body middle = .ok last := by
  rw [List.foldlM_cons] at hloop
  cases hround : body state x with
  | error code =>
      rw [hround] at hloop
      cases hloop
  | ok middle =>
      rw [hround] at hloop
      exact ⟨middle, rfl, hloop⟩

theorem foldlM_cons_of_ok {body : State → α → Except ε State} {state middle : State} {x : α}
    (xs : List α) (hround : body state x = .ok middle) :
    (x :: xs).foldlM body state = xs.foldlM body middle := by
  rw [List.foldlM_cons, hround]
  rfl

theorem foldlM_cons_of_error {body : State → α → Except ε State} {state : State} {x : α}
    {code : ε} (xs : List α) (hround : body state x = .error code) :
    (x :: xs).foldlM body state = .error code := by
  rw [List.foldlM_cons, hround]
  rfl

/-- Two nested loops are one loop over all rounds of the inner one. -/
theorem foldlM_flatMap {Monad' : Type _ → Type _} [Monad Monad'] [LawfulMonad Monad']
    (rows : α → List β) (body : State → β → Monad' State) (state : State) (xs : List α) :
    (xs.flatMap rows).foldlM body state =
      xs.foldlM (fun current x => (rows x).foldlM body current) state := by
  induction xs generalizing state with
  | nil => rfl
  | cons x xs ih =>
      rw [List.flatMap_cons, List.foldlM_append, List.foldlM_cons]
      congr 1
      funext next
      exact ih next

/-- Rounds that all go on make an ordinary fold. -/
theorem foldlM_eq_foldl {body : State → α → Except ε State} {next : State → α → State}
    {xs : List α} (hround : ∀ x ∈ xs, ∀ state, body state x = .ok (next state x))
    (state : State) : xs.foldlM body state = .ok (xs.foldl next state) := by
  induction xs generalizing state with
  | nil => rfl
  | cons x xs ih =>
      rw [foldlM_cons_of_ok xs (hround x (by simp) state), List.foldl_cons]
      exact ih (fun y hy => hround y (List.mem_cons_of_mem x hy)) (next state x)

/-- A loop that came to its end had no round that always leaves it. -/
theorem forall_of_foldlM_ok {body : State → α → Except ε State} {good : α → Prop}
    (hbad : ∀ x, ¬ good x → ∀ state, ∃ code, body state x = .error code) {xs : List α}
    {state last : State} (hloop : xs.foldlM body state = .ok last) : ∀ x ∈ xs, good x := by
  induction xs generalizing state with
  | nil => exact fun x hx => absurd hx List.not_mem_nil
  | cons x xs ih =>
      obtain ⟨middle, hfirst, hrest⟩ := foldlM_cons_ok hloop
      intro y hy
      rcases List.mem_cons.mp hy with rfl | hrestmem
      · by_contra hnot
        obtain ⟨code, hcode⟩ := hbad y hnot state
        rw [hcode] at hfirst
        cases hfirst
      · exact ih hrest y hrestmem

/-- Another name for what the loop returns. -/
theorem foldlM_mapError {ε' : Type*} (rename : ε → ε') (body : State → α → Except ε State)
    (xs : List α) (state : State) :
    xs.foldlM (fun current x => (body current x).mapError rename) state =
      (xs.foldlM body state).mapError rename := by
  induction xs generalizing state with
  | nil => rfl
  | cons x xs ih =>
      cases hround : body state x with
      | error code =>
          have hrenamed : (body state x).mapError rename = .error (rename code) := by
            rw [hround]
            rfl
          rw [foldlM_cons_of_error xs hrenamed, foldlM_cons_of_error xs hround]
          rfl
      | ok middle =>
          have hrenamed : (body state x).mapError rename = .ok middle := by
            rw [hround]
            rfl
          rw [foldlM_cons_of_ok xs hrenamed, foldlM_cons_of_ok xs hround, ih]

/-- A list read element by element has one value for each element. -/
theorem forall₂_of_mapM {read : α → Option β} {xs : List α} {ys : List β}
    (hread : xs.mapM read = some ys) : List.Forall₂ (fun x y => read x = some y) xs ys := by
  induction xs generalizing ys with
  | nil =>
      cases hread
      exact .nil
  | cons x xs ih =>
      rw [List.mapM_cons] at hread
      cases hfirst : read x with
      | none =>
          rw [hfirst] at hread
          cases hread
      | some y =>
          cases hrest : xs.mapM read with
          | none =>
              rw [hfirst, hrest] at hread
              cases hread
          | some rest =>
              rw [hfirst, hrest] at hread
              cases hread
              exact .cons hfirst (ih hrest)

/-- What each value read has in common. -/
theorem forall_of_forall₂ {relation : α → β → Prop} {good : β → Prop} {xs : List α} {ys : List β}
    (hgood : ∀ x y, relation x y → good y) (hread : List.Forall₂ relation xs ys) :
    ∀ y ∈ ys, good y := by
  induction hread with
  | nil => simp
  | cons hfirst _ ih => exact List.forall_mem_cons.mpr ⟨hgood _ _ hfirst, ih⟩

end DoomsdayModules.EarlyExit
