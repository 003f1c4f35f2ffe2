import Mathlib.Data.List.Forall2

/-!
# Attempts

An attempt gives a value or an error.  A chain of attempts succeeds exactly when each of them
does, and a list of attempts exactly when all of them do.

`FailsIn P x` says of the error alone that it is one of `P`, and passes through chains and lists as
well.  `Ends E A x` says of which kind the error is, and of which kind the value.

`Alike R x y` compares two attempts: they end with the same error, or with values that `R`
relates.  It passes through chains (`Alike.bind`), so two programs that are built from the same
attempts can be compared attempt by attempt.
-/

namespace BagQuery.Attempt

variable {ε α β γ δ : Type}

theorem bind_eq_ok_iff {x : Except ε α} {f : α → Except ε β} {b : β} :
    (x >>= f) = .ok b ↔ ∃ a, x = .ok a ∧ f a = .ok b := by
  cases x with
  | error e =>
    constructor
    · intro h; cases h
    · rintro ⟨a, ha, -⟩; cases ha
  | ok a =>
    constructor
    · intro h; exact ⟨a, rfl, h⟩
    · rintro ⟨a', ha, h⟩; cases ha; exact h

theorem bind_eq_error_iff {x : Except ε α} {f : α → Except ε β} {e : ε} :
    (x >>= f) = .error e ↔ x = .error e ∨ ∃ a, x = .ok a ∧ f a = .error e := by
  cases x with
  | error e' =>
    constructor
    · intro h; cases h; exact Or.inl rfl
    · rintro (h | ⟨a, ha, -⟩)
      · cases h; rfl
      · cases ha
  | ok a =>
    constructor
    · intro h; exact Or.inr ⟨a, rfl, h⟩
    · rintro (h | ⟨a', ha, h⟩)
      · cases h
      · cases ha; exact h

theorem mapM_eq_ok_iff {f : α → Except ε β} {xs : List α} {ys : List β} :
    xs.mapM f = .ok ys ↔ List.Forall₂ (fun x y => f x = .ok y) xs ys := by
  induction xs generalizing ys with
  | nil =>
    rw [List.mapM_nil, List.forall₂_nil_left_iff]
    constructor
    · intro h; cases h; rfl
    · intro h; subst h; rfl
  | cons x xs ih =>
    rw [List.mapM_cons, bind_eq_ok_iff, List.forall₂_cons_left_iff]
    constructor
    · rintro ⟨y, hy, h⟩
      obtain ⟨ys', hys, h⟩ := bind_eq_ok_iff.1 h
      cases h
      exact ⟨y, ys', hy, ih.1 hys, rfl⟩
    · rintro ⟨y, ys', hy, hys, rfl⟩
      exact ⟨y, hy, bind_eq_ok_iff.2 ⟨ys', ih.2 hys, rfl⟩⟩

/-- Each value of a list of attempts is that of one of them. -/
theorem exists_of_mem_mapM {f : α → Except ε β} {xs : List α} {ys : List β}
    (h : xs.mapM f = .ok ys) {y : β} (hy : y ∈ ys) : ∃ x ∈ xs, f x = .ok y := by
  replace h := mapM_eq_ok_iff.1 h
  induction h with
  | nil => cases hy
  | cons hx _ ih =>
    rcases List.mem_cons.1 hy with rfl | hy
    · exact ⟨_, List.mem_cons_self, hx⟩
    · obtain ⟨x, hmem, hx⟩ := ih hy
      exact ⟨x, List.mem_cons_of_mem _ hmem, hx⟩

theorem forM_eq_ok_iff {f : α → Except ε Unit} {xs : List α} :
    xs.forM f = .ok () ↔ ∀ x ∈ xs, f x = .ok () := by
  induction xs with
  | nil => exact ⟨fun _ x hx => absurd hx List.not_mem_nil, fun _ => rfl⟩
  | cons x xs ih =>
    rw [List.forM_eq_forM, List.forM_cons, bind_eq_ok_iff, List.forall_mem_cons]
    constructor
    · rintro ⟨_, hx, h⟩; exact ⟨hx, ih.1 h⟩
    · rintro ⟨hx, h⟩; exact ⟨(), hx, ih.2 h⟩

/-! ## Errors of a kind -/

/-- If the attempt fails, the error is one of `P`. -/
def FailsIn (P : ε → Prop) (x : Except ε α) : Prop := ∀ e, x = .error e → P e

variable {P : ε → Prop}

theorem FailsIn.ok (a : α) : FailsIn P (.ok a : Except ε α) := nofun

theorem FailsIn.error {e : ε} (h : P e) : FailsIn P (.error e : Except ε α) := by
  rintro _ ⟨⟩
  exact h

theorem FailsIn.bind {x : Except ε α} {f : α → Except ε β} (hx : FailsIn P x)
    (hf : ∀ a, x = .ok a → FailsIn P (f a)) : FailsIn P (x >>= f) := by
  intro e he
  rcases bind_eq_error_iff.1 he with h | ⟨a, ha, h⟩
  · exact hx e h
  · exact hf a ha e h

theorem FailsIn.mapM {f : α → Except ε β} {xs : List α} (h : ∀ x ∈ xs, FailsIn P (f x)) :
    FailsIn P (xs.mapM f) := by
  induction xs with
  | nil => exact .ok []
  | cons x xs ih =>
    obtain ⟨hx, hxs⟩ := List.forall_mem_cons.1 h
    rw [List.mapM_cons]
    exact hx.bind fun y _ => (ih hxs).bind fun ys _ => .ok (y :: ys)

theorem FailsIn.forM {f : α → Except ε Unit} {xs : List α} (h : ∀ x ∈ xs, FailsIn P (f x)) :
    FailsIn P (xs.forM f) := by
  induction xs with
  | nil => exact .ok ()
  | cons x xs ih =>
    obtain ⟨hx, hxs⟩ := List.forall_mem_cons.1 h
    rw [List.forM_eq_forM, List.forM_cons]
    exact hx.bind fun _ _ => ih hxs

/-! ## Errors and values of a kind -/

/-- The attempt ends with an error of `E` or a value of `A`. -/
def Ends (E : ε → Prop) (A : α → Prop) : Except ε α → Prop
  | .ok a => A a
  | .error e => E e

variable {E : ε → Prop} {A : α → Prop} {B : β → Prop} {x : Except ε α}

theorem Ends.bind {f : α → Except ε β} (hx : Ends E A x) (hf : ∀ a, A a → Ends E B (f a)) :
    Ends E B (x >>= f) := by
  cases x with
  | ok a => exact hf a hx
  | error e => exact hx

theorem Ends.of_ok {a : α} (hx : Ends E A x) (h : x = .ok a) : A a := by
  rw [h] at hx
  exact hx

theorem Ends.of_error {e : ε} (hx : Ends E A x) (h : x = .error e) : E e := by
  rw [h] at hx
  exact hx

theorem Ends.map {f : α → β} (hx : Ends E A x) (hf : ∀ a, A a → B (f a)) :
    Ends E B (x.map f) := by
  cases x with
  | ok a => exact hf a hx
  | error e => exact hx

/-! ## Attempts that end alike -/

/-- Both attempts end with the same error, or both with values that `R` relates. -/
def Alike (R : α → β → Prop) : Except ε α → Except ε β → Prop
  | .ok a, .ok b => R a b
  | .error e, .error e' => e = e'
  | _, _ => False

variable {R : α → β → Prop} {S : γ → δ → Prop}

theorem Alike.cases {x : Except ε α} {y : Except ε β} (h : Alike R x y) :
    (∃ e, x = .error e ∧ y = .error e) ∨ ∃ a b, x = .ok a ∧ y = .ok b ∧ R a b := by
  match x, y, h with
  | .ok a, .ok b, h => exact Or.inr ⟨a, b, rfl, rfl, h⟩
  | .error e, .error _, rfl => exact Or.inl ⟨e, rfl, rfl⟩

/-- An attempt ends like itself. -/
theorem Alike.self (x : Except ε α) : Alike (fun a b => x = .ok a ∧ a = b) x x := by
  cases x with
  | error e => exact rfl
  | ok a => exact ⟨rfl, rfl⟩

theorem Alike.mono {x : Except ε α} {y : Except ε β} {R' : α → β → Prop} (h : Alike R x y)
    (hR : ∀ a b, R a b → R' a b) : Alike R' x y := by
  match x, y, h with
  | .ok a, .ok b, h => exact hR a b h
  | .error e, .error _, rfl => exact rfl

theorem Alike.bind {x : Except ε α} {y : Except ε β} {f : α → Except ε γ} {g : β → Except ε δ}
    (h : Alike R x y) (hfg : ∀ a b, R a b → Alike S (f a) (g b)) :
    Alike S (x >>= f) (y >>= g) := by
  match x, y, h with
  | .ok a, .ok b, h => exact hfg a b h
  | .error e, .error _, rfl => exact rfl

end BagQuery.Attempt
