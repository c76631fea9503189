import Mathlib.Logic.Basic

namespace Theta.Lib

section
variable {σ α : Type} (step : σ → α → Option σ)

/-- Every step that is taken has the property; one that is refused changes nothing. -/
def AtEach (P : σ → α → σ → Prop) : List α → σ → Prop
  | [], _ => True
  | a :: rest, s =>
    match step s a with
    | some t => P s a t ∧ AtEach P rest t
    | none => AtEach P rest s

/-- Where the steps lead, taken one after the other. -/
def stepAll : List α → σ → σ
  | [], s => s
  | a :: rest, s => stepAll rest ((step s a).getD s)

end

section
variable {σ α : Type} {step : σ → α → Option σ} {P Q : σ → α → σ → Prop}

/-- Two properties agree along every sequence when they agree at each step from an invariant that
the first of them carries on. -/
theorem at_each_iff {I : σ → Prop}
    (agree : ∀ s a t, I s → step s a = some t → (P s a t ↔ Q s a t) ∧ (P s a t → I t))
    {inputs : List α} {s : σ} (hs : I s) : AtEach step P inputs s ↔ AtEach step Q inputs s := by
  induction inputs generalizing s with
  | nil => exact Iff.rfl
  | cons a rest ih =>
    rw [AtEach, AtEach]
    cases hstep : step s a with
    | none => exact ih hs
    | some t =>
      obtain ⟨hiff, hinv⟩ := agree s a t hs hstep
      constructor
      · rintro ⟨h, hrest⟩
        exact ⟨hiff.mp h, (ih (hinv h)).mp hrest⟩
      · rintro ⟨h, hrest⟩
        exact ⟨hiff.mpr h, (ih (hinv (hiff.mpr h))).mpr hrest⟩

/-- A property of the steps that one of them implies, from an invariant that it carries on. -/
theorem at_each_of {I : σ → Prop}
    (keeps : ∀ s a t, I s → step s a = some t → P s a t → I t ∧ Q s a t)
    {inputs : List α} {s : σ} (hs : I s) (h : AtEach step P inputs s) : AtEach step Q inputs s := by
  induction inputs generalizing s with
  | nil => trivial
  | cons a rest ih =>
    rw [AtEach] at h ⊢
    cases hstep : step s a with
    | none =>
      rw [hstep] at h
      exact ih hs h
    | some t =>
      rw [hstep] at h
      obtain ⟨hinv, hq⟩ := keeps s a t hs hstep h.1
      exact ⟨hq, ih hinv h.2⟩

theorem at_each_append (inputs more : List α) (s : σ) :
    AtEach step P (inputs ++ more) s ↔
      AtEach step P inputs s ∧ AtEach step P more (stepAll step inputs s) := by
  induction inputs generalizing s with
  | nil => exact (true_and _).symm.to_iff
  | cons a rest ih =>
    rw [List.cons_append, AtEach, AtEach, stepAll]
    cases step s a with
    | none => exact ih s
    | some t => exact (and_congr_right (fun _ => ih t)).trans and_assoc.symm

theorem step_all_append (inputs more : List α) (s : σ) :
    stepAll step (inputs ++ more) s = stepAll step more (stepAll step inputs s) := by
  induction inputs generalizing s with
  | nil => rfl
  | cons a rest ih => exact ih _

end

end Theta.Lib
