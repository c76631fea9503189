import Mathlib.Data.List.Basic

namespace Theta.Lib

section
variable {σ α : Type}

/-- Steps one after the other, with their labels. -/
inductive Trace (step : σ → α → σ → Prop) : List α → σ → σ → Prop where
  | nil (s : σ) : Trace step [] s s
  | snoc (labels : List α) (a : α) (s t u : σ) (before : Trace step labels s t)
      (h : step t a u) : Trace step (labels ++ [a]) s u

variable {step : σ → α → σ → Prop} {labels : List α} {s t : σ}

theorem Trace.append {more : List α} {u : σ} (h : Trace step labels s t)
    (h' : Trace step more t u) : Trace step (labels ++ more) s u := by
  induction h' with
  | nil s => simpa using h
  | snoc more a _ t u _ hstep ih =>
    rw [← List.append_assoc]
    exact .snoc _ a s t u (ih h) hstep

theorem Trace.single {a : α} (h : step s a t) : Trace step [a] s t :=
  .snoc [] a s s t (.nil s) h

end

section
variable {σ τ α β : Type} {step : σ → α → σ → Prop} {solo : τ → β → Option τ} {view : σ → τ}
  {pick : α → Option β}

/-- A part of a system that moves by itself at the labels that concern it, and stays as it is at
all others. -/
structure Separate (step : σ → α → σ → Prop) (solo : τ → β → Option τ) (view : σ → τ)
    (pick : α → Option β) : Prop where
  own : ∀ s a t b, step s a t → pick a = some b → solo (view s) b = some (view t)
  other : ∀ s a t, step s a t → pick a = none → view t = view s

/-- What the whole does to a part is what the part does by itself. -/
theorem Separate.projects (h : Separate step solo view pick) {labels : List α} {s t : σ}
    (run : Trace step labels s t) :
    (labels.filterMap pick).foldlM solo (view s) = some (view t) := by
  induction run with
  | nil s => rfl
  | snoc labels a s t u _ hstep ih =>
    rw [List.filterMap_append, List.foldlM_append, ih, Option.bind_eq_bind, Option.bind_some]
    cases hpick : pick a with
    | none =>
      rw [List.filterMap_cons_none hpick, h.other t a u hstep hpick]
      rfl
    | some b =>
      rw [List.filterMap_cons_some hpick, List.filterMap_nil, List.foldlM_cons,
        h.own t a u b hstep hpick]
      rfl

/-- Two runs that do the same to a part leave it in the same state. -/
theorem Separate.agrees (h : Separate step solo view pick) {labels labels' : List α}
    {s s' t t' : σ} (run : Trace step labels s t) (run' : Trace step labels' s' t')
    (start : view s = view s') (same : labels.filterMap pick = labels'.filterMap pick) :
    view t = view t' := by
  apply Option.some.inj
  calc some (view t) = (labels.filterMap pick).foldlM solo (view s) := (h.projects run).symm
    _ = (labels'.filterMap pick).foldlM solo (view s') := by rw [start, same]
    _ = some (view t') := h.projects run'

end

end Theta.Lib
