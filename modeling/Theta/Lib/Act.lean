import Mathlib.Logic.Relation

namespace Theta.Lib

/-- What a call comes to. A panic is neither a value nor an error: nothing
after it runs. -/
inductive Outcome (ε α : Type) where
  | ok (value : α)
  | err (error : ε)
  | panic
  deriving DecidableEq, Repr

namespace Outcome

protected def bind (x : Outcome ε α) (f : α → Outcome ε β) : Outcome ε β :=
  match x with
  | .ok a => f a
  | .err e => .err e
  | .panic => .panic

instance : Monad (Outcome ε) where
  pure := .ok
  bind := Outcome.bind

instance : LawfulMonad (Outcome ε) := LawfulMonad.mk' _
  (fun x => by cases x <;> rfl) (fun _ _ => rfl) (fun x _ _ => by cases x <;> rfl)

def mapErr (f : ε → ε') : Outcome ε α → Outcome ε' α
  | .ok a => .ok a
  | .err e => .err (f e)
  | .panic => .panic

def ofOption (x : Option α) : Outcome ε α :=
  match x with
  | some a => .ok a
  | none => .panic

def toOption : Outcome ε α → Option α
  | .ok a => some a
  | _ => none

@[simp] theorem pure_eq (a : α) : (pure a : Outcome ε α) = .ok a := rfl

@[simp] theorem ok_bind (a : α) (f : α → Outcome ε β) : (Outcome.ok a >>= f) = f a := rfl

@[simp] theorem err_bind (e : ε) (f : α → Outcome ε β) :
    ((Outcome.err e : Outcome ε α) >>= f) = .err e := rfl

@[simp] theorem panic_bind (f : α → Outcome ε β) :
    ((Outcome.panic : Outcome ε α) >>= f) = .panic := rfl

@[simp] theorem to_option_eq_some {x : Outcome ε α} {a : α} : x.toOption = some a ↔ x = .ok a := by
  cases x <;> simp [toOption]

theorem bind_ok {x : Outcome ε α} {f : α → Outcome ε β} {b : β} :
    (x >>= f) = .ok b ↔ ∃ a, x = .ok a ∧ f a = .ok b := by
  cases x <;> simp

theorem bind_ne_err {x : Outcome ε α} {f : α → Outcome ε β} (hx : ∀ e, x ≠ .err e)
    (hf : ∀ a e, f a ≠ .err e) : ∀ e, (x >>= f) ≠ .err e := by
  cases x with
  | ok a => exact hf a
  | err e => exact absurd rfl (hx e)
  | panic => simp

theorem of_option_ne_err {x : Option α} : ∀ e : ε, ofOption x ≠ .err e := by
  cases x <;> simp [ofOption]

end Outcome

theorem eq_of_fst {x : α × β} {a : α} (h : x.1 = a) : x = (a, x.2) := by
  rw [← h]

/-- A computation that reads and writes a state of type `σ`. Errors and panics
keep the state reached so far, as an early return through `?` does. -/
def Act (σ ε α : Type) := σ → Outcome ε α × σ

namespace Act

protected def pure (a : α) : Act σ ε α := fun s => (.ok a, s)

protected def bind (x : Act σ ε α) (f : α → Act σ ε β) : Act σ ε β := fun s =>
  match x s with
  | (.ok a, t) => f a t
  | (.err e, t) => (.err e, t)
  | (.panic, t) => (.panic, t)

instance : Monad (Act σ ε) where
  pure := Act.pure
  bind := Act.bind

def get : Act σ ε σ := fun s => (.ok s, s)

def modify (f : σ → σ) : Act σ ε Unit := fun s => (.ok (), f s)

def throw (e : ε) : Act σ ε α := fun s => (.err e, s)

def abort : Act σ ε α := fun s => (.panic, s)

def lift (x : Outcome ε α) : Act σ ε α := fun s => (x, s)

@[simp] theorem pure_apply (a : α) (s : σ) : (pure a : Act σ ε α) s = (.ok a, s) := rfl

@[simp] theorem get_apply (s : σ) : (get : Act σ ε σ) s = (.ok s, s) := rfl

@[simp] theorem modify_apply (f : σ → σ) (s : σ) :
    (modify f : Act σ ε Unit) s = (.ok (), f s) := rfl

@[simp] theorem throw_apply (e : ε) (s : σ) : (throw e : Act σ ε α) s = (.err e, s) := rfl

@[simp] theorem abort_apply (s : σ) : (abort : Act σ ε α) s = (.panic, s) := rfl

@[simp] theorem lift_apply (x : Outcome ε α) (s : σ) : (lift x : Act σ ε α) s = (x, s) := rfl

theorem bind_apply (x : Act σ ε α) (f : α → Act σ ε β) (s : σ) :
    (x >>= f) s = match x s with
      | (.ok a, t) => f a t
      | (.err e, t) => (.err e, t)
      | (.panic, t) => (.panic, t) := rfl

instance : LawfulMonad (Act σ ε) := LawfulMonad.mk' _
  (fun x => by
    funext s
    change (x >>= fun a => pure a) s = x s
    rw [bind_apply]
    rcases x s with ⟨r, t⟩
    cases r <;> rfl)
  (fun _ _ => rfl)
  (fun x f g => by
    funext s
    simp only [bind_apply]
    rcases x s with ⟨r, t⟩
    cases r <;> rfl)

theorem abort_bind (f : α → Act σ ε β) : ((abort : Act σ ε α) >>= f) = abort := rfl

theorem bind_of_ok {x : Act σ ε α} {f : α → Act σ ε β} {s t : σ} {a : α}
    (h : x s = (.ok a, t)) : (x >>= f) s = f a t := by
  simp only [bind_apply, h]

theorem bind_of_err {x : Act σ ε α} {f : α → Act σ ε β} {s t : σ} {e : ε}
    (h : x s = (.err e, t)) : (x >>= f) s = (.err e, t) := by
  simp only [bind_apply, h]

theorem bind_of_panic {x : Act σ ε α} {f : α → Act σ ε β} {s t : σ}
    (h : x s = (.panic, t)) : (x >>= f) s = (.panic, t) := by
  simp only [bind_apply, h]

theorem bind_pure_state (x : Act σ ε α) (f : α → β) (s : σ) :
    ((x >>= fun a => pure (f a)) s).2 = (x s).2 := by
  rcases hx : x s with ⟨r, t⟩
  simp only [bind_apply, hx]
  cases r <;> rfl

theorem bind_pure_panic (x : Act σ ε α) (f : α → β) (s : σ) :
    ((x >>= fun a => pure (f a)) s).1 = .panic ↔ (x s).1 = .panic := by
  rcases hx : x s with ⟨r, t⟩
  simp only [bind_apply, hx]
  cases r <;> simp

/-- Every state relation that holds after the first part, whatever it came to,
and after the second part when there is one, holds after the whole. -/
theorem bind_ends {x : Act σ ε α} {f : α → Act σ ε β} {s : σ} {P : σ → Prop}
    (hx : ∀ r, (∀ a, r ≠ .ok a) → (x s).1 = r → P (x s).2)
    (hf : ∀ a, (x s).1 = .ok a → P (f a (x s).2).2) : P ((x >>= f) s).2 := by
  rcases hr : x s with ⟨r, t⟩
  simp only [hr] at hx hf
  simp only [bind_apply, hr]
  cases r with
  | ok a => exact hf a rfl
  | err e => exact hx (.err e) (by simp) rfl
  | panic => exact hx .panic (by simp) rfl

/-- A sequence of `R` steps leads from the start to wherever the computation
ends, on every exit. -/
theorem bind_moves {x : Act σ ε α} {f : α → Act σ ε β} {R : σ → σ → Prop} {s : σ}
    (hx : Relation.ReflTransGen R s (x s).2)
    (hf : ∀ a, (x s).1 = .ok a → Relation.ReflTransGen R (x s).2 (f a (x s).2).2) :
    Relation.ReflTransGen R s ((x >>= f) s).2 :=
  bind_ends (fun _ _ _ => hx) (fun a ha => hx.trans (hf a ha))

theorem bind_ne_err {x : Act σ ε α} {f : α → Act σ ε β} {s : σ} (hx : ∀ e, (x s).1 ≠ .err e)
    (hf : ∀ a, (x s).1 = .ok a → ∀ e, (f a (x s).2).1 ≠ .err e) :
    ∀ e, ((x >>= f) s).1 ≠ .err e := by
  rcases hr : x s with ⟨r, t⟩
  rw [hr] at hx hf
  simp only [bind_apply, hr]
  cases r with
  | ok a => exact hf a rfl
  | err e => exact absurd rfl (hx e)
  | panic => simp

/-- A bind that does not panic ends where its parts end that do not panic. -/
theorem bind_returns {x : Act σ ε α} {f : α → Act σ ε β} {s : σ} {P : σ → Prop}
    (hret : ((x >>= f) s).1 ≠ .panic) (hx : (x s).1 ≠ .panic → P (x s).2)
    (hf : ∀ a, (x s).1 = .ok a → (f a (x s).2).1 ≠ .panic → P (f a (x s).2).2) :
    P ((x >>= f) s).2 := by
  rcases hr : x s with ⟨r, t⟩
  simp only [hr] at hx hf
  simp only [bind_apply, hr] at hret ⊢
  cases r with
  | ok a => exact hf a rfl hret
  | err e => exact hx (by simp)
  | panic => exact absurd rfl hret

/-- `P` survives the computation on every exit. -/
def Keeps (P : σ → Prop) (x : Act σ ε α) : Prop := ∀ s, P s → P (x s).2

theorem Keeps.bind {P : σ → Prop} {x : Act σ ε α} {f : α → Act σ ε β}
    (hx : Keeps P x) (hf : ∀ a, Keeps P (f a)) : Keeps P (x >>= f) := fun s hs =>
  bind_ends (fun _ _ _ => hx s hs) (fun a _ => hf a _ (hx s hs))

end Act

/-- A predicate closed under single steps is closed under runs. -/
theorem invariant_of_step {R : σ → σ → Prop} {P : σ → Prop}
    (step : ∀ s t, R s t → P s → P t) {s t : σ} (run : Relation.ReflTransGen R s t)
    (hs : P s) : P t := by
  induction run with
  | refl => exact hs
  | tail _ h ih => exact step _ _ h ih

end Theta.Lib
