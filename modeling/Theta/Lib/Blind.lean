import Theta.Lib.Act

namespace Theta.Lib.Act

/-- A computation that does not see what `φ` does to the state: it comes to the same, and `φ` may
as well be applied to the state that it ends in. -/
structure Blind (φ : σ → σ) (x : Act σ ε α) : Prop where
  apply : ∀ s, x (φ s) = ((x s).1, φ (x s).2)

namespace Blind
variable {φ : σ → σ} {x : Act σ ε α}

theorem pure (a : α) : Blind φ (Pure.pure a : Act σ ε α) := ⟨fun _ => rfl⟩

theorem lift (r : Outcome ε α) : Blind φ (Act.lift r) := ⟨fun _ => rfl⟩

theorem abort : Blind φ (Act.abort : Act σ ε α) := ⟨fun _ => rfl⟩

theorem throw (e : ε) : Blind φ (Act.throw e : Act σ ε α) := ⟨fun _ => rfl⟩

theorem modify {g : σ → σ} (h : ∀ s, g (φ s) = φ (g s)) :
    Blind φ (Act.modify g : Act σ ε Unit) where
  apply s := by rw [modify_apply, modify_apply, h]

theorem bind {f : α → Act σ ε β} (hx : Blind φ x) (hf : ∀ a, Blind φ (f a)) :
    Blind φ (x >>= f) where
  apply s := by
    simp only [bind_apply, hx.apply s]
    rcases x s with ⟨r, t⟩
    cases r with
    | ok a => exact (hf a).apply t
    | err e => rfl
    | panic => rfl

/-- What is read of the state is nothing that `φ` changes. -/
theorem get_bind {f : σ → Act σ ε β} (same : ∀ s, f (φ s) = f s) (hf : ∀ s, Blind φ (f s)) :
    Blind φ (Act.get >>= f) where
  apply s := by
    change f (φ s) (φ s) = _
    rw [same s]
    exact (hf s).apply s

end Blind

end Theta.Lib.Act
