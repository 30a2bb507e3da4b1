/-!
# Computations that may fail

When a computation that is put together from others gives a result. A computation along a list may
fail at any of its places; what a place is good for depends on the members before it.
-/

namespace Formicary

variable {ε δ α β : Type}

theorem ok_bind (a : α) (f : α → Except ε β) : (Except.ok a >>= f) = f a :=
  rfl

theorem error_bind (e : ε) (f : α → Except ε β) : (Except.error e >>= f) = .error e :=
  rfl

theorem bind_eq_ok_iff {x : Except ε α} {f : α → Except ε β} {b : β} :
    x >>= f = .ok b ↔ ∃ a, x = .ok a ∧ f a = .ok b := by
  cases x <;> simp [bind, Except.bind]

theorem mapM_eq_ok_iff {f : α → Except ε β} {xs : List α} {ys : List β} :
    xs.mapM f = .ok ys ↔ xs.map f = ys.map .ok := by
  induction xs generalizing ys with
  | nil => cases ys <;> simp [pure, Except.pure]
  | cons x xs ih =>
    rw [List.mapM_cons, List.map_cons]
    cases ys with
    | nil =>
      cases f x with
      | error e => simp [bind, Except.bind]
      | ok y => cases xs.mapM f <;> simp [bind, Except.bind, pure, Except.pure]
    | cons z zs =>
      rw [List.map_cons, List.cons.injEq, ← ih]
      cases f x with
      | error e => simp [bind, Except.bind]
      | ok y => cases xs.mapM f <;> simp [bind, Except.bind, pure, Except.pure]

theorem foldlM_concat (f : β → α → Except ε β) (start : β) (xs : List α) (x : α) :
    (xs ++ [x]).foldlM f start = xs.foldlM f start >>= fun b => f b x := by
  rw [List.foldlM_append]
  simp only [List.foldlM_cons, List.foldlM_nil, bind_pure]

theorem mapM_concat (f : α → Except ε β) (xs : List α) (x : α) :
    (xs ++ [x]).mapM f = xs.mapM f >>= fun ys => (f x).map fun y => ys ++ [y] := by
  rw [List.mapM_append]
  cases xs.mapM f with
  | error e => rfl
  | ok ys =>
    rw [List.mapM_cons]
    cases f x <;> rfl

/-- A list of computations gives results exactly when each of them does. -/
theorem exists_map_eq_ok_iff {f : α → Except ε β} {xs : List α} :
    (∃ ys : List β, xs.map f = ys.map .ok) ↔ ∀ x ∈ xs, ∃ y, f x = .ok y := by
  induction xs with
  | nil => exact ⟨fun _ => nofun, fun _ => ⟨[], rfl⟩⟩
  | cons x xs ih =>
    rw [List.forall_mem_cons, ← ih]
    constructor
    · rintro ⟨ys, same⟩
      cases ys with
      | nil => cases same
      | cons y ys =>
        rw [List.map_cons, List.map_cons, List.cons.injEq] at same
        exact ⟨⟨y, same.1⟩, ys, same.2⟩
    · rintro ⟨⟨y, first⟩, ys, rest⟩
      exact ⟨y :: ys, by rw [List.map_cons, List.map_cons, first, rest]⟩

/-- Computations that undo others give back what those started from. -/
theorem map_eq_ok_of_inverse {f : α → Except ε β} {g : β → Except δ α} {xs : List α} {ys : List β}
    (back : ∀ x ∈ xs, ∀ y, f x = .ok y → g y = .ok x) (h : xs.map f = ys.map .ok) :
    ys.map g = xs.map .ok := by
  induction xs generalizing ys with
  | nil => cases ys <;> simp_all
  | cons x xs ih =>
    cases ys with
    | nil => cases h
    | cons y ys =>
      rw [List.map_cons, List.map_cons, List.cons.injEq] at h
      rw [List.forall_mem_cons] at back
      rw [List.map_cons, List.map_cons, back.1 y h.1, ih back.2 h.2]

theorem map_eq_ok_iff {f : α → β} {x : Except ε α} {b : β} :
    x.map f = .ok b ↔ ∃ a, x = .ok a ∧ f a = b := by
  cases x with
  | error e =>
    show Except.error e = .ok b ↔ ∃ a, (Except.error e : Except ε α) = .ok a ∧ f a = b
    simp
  | ok a =>
    show Except.ok (f a) = .ok b ↔ ∃ a', (Except.ok a : Except ε α) = .ok a' ∧ f a' = b
    simp

theorem mapError_eq_ok_iff {f : ε → δ} {x : Except ε α} {a : α} :
    x.mapError f = .ok a ↔ x = .ok a := by
  cases x with
  | error e =>
    show (Except.error (f e) : Except δ α) = .ok a ↔ (Except.error e : Except ε α) = .ok a
    simp
  | ok b =>
    show (Except.ok b : Except δ α) = .ok a ↔ (Except.ok b : Except ε α) = .ok a
    simp

theorem toOption_bind (x : Except ε α) (f : α → Except ε β) :
    (x >>= f).toOption = x.toOption.bind fun a => (f a).toOption := by
  cases x <;> rfl

/-- A computation either gives a result or fails. -/
theorem exists_error_of_ne_ok {x : Except ε α} (h : ∀ a, x ≠ .ok a) : ∃ e, x = .error e := by
  cases x with
  | error e => exact ⟨e, rfl⟩
  | ok a => exact absurd rfl (h a)

section States

variable {σ : Type} {x : EStateM ε σ α} {f : α → EStateM ε σ β} {s s' : σ}

/-- After a computation in place the next one goes on from where it has come to. -/
theorem run_bind_ok {a : α} (runs : x.run s = .ok a s') : (x >>= f).run s = (f a).run s' := by
  unfold EStateM.run at runs ⊢
  simp only [bind, EStateM.bind, runs]

theorem run_bind_error {e : ε} (fails : x.run s = .error e s') :
    (x >>= f).run s = .error e s' := by
  unfold EStateM.run at fails ⊢
  simp only [bind, EStateM.bind, fails]

end States

section Places

variable {P : List α → α → Prop} {xs front back : List α} {x y : α}

/-- A condition on every member of a list and those before it. -/
def AtEach (P : List α → α → Prop) (xs : List α) : Prop :=
  ∀ front x back, xs = front ++ x :: back → P front x

theorem concat_eq_append_cons_iff :
    xs ++ [y] = front ++ x :: back ↔
      (∃ rest, back = rest ++ [y] ∧ xs = front ++ x :: rest) ∨ back = [] ∧ x = y ∧ front = xs := by
  constructor
  · intro same
    rcases List.eq_nil_or_concat back with rfl | ⟨rest, z, rfl⟩
    · obtain ⟨rfl, one⟩ := List.append_inj' same rfl
      cases one
      exact .inr ⟨rfl, rfl, rfl⟩
    · rw [List.concat_eq_append, ← List.cons_append, ← List.append_assoc] at same
      obtain ⟨rfl, one⟩ := List.append_inj' same rfl
      cases one
      exact .inl ⟨rest, List.concat_eq_append, rfl⟩
  · rintro (⟨rest, rfl, rfl⟩ | ⟨rfl, rfl, rfl⟩)
    · rw [List.append_assoc, List.cons_append]
    · rfl

theorem atEach_nil : AtEach P [] := by
  intro front x back same
  simp at same

theorem atEach_concat_iff : AtEach P (xs ++ [y]) ↔ AtEach P xs ∧ P xs y := by
  constructor
  · intro each
    refine ⟨?_, each xs y [] rfl⟩
    intro front x back same
    apply each front x (back ++ [y])
    exact concat_eq_append_cons_iff.mpr (.inl ⟨back, rfl, same⟩)
  · rintro ⟨each, last⟩ front x back same
    rcases concat_eq_append_cons_iff.mp same with ⟨rest, -, rfl⟩ | ⟨-, rfl, rfl⟩
    · exact each front x rest rfl
    · exact last

end Places

end Formicary
