import Mathlib.Logic.Function.Basic
import Mathlib.Data.List.Infix

namespace Theta.Lib

/-- Items of a numbered source that arrive in any order and leave in theirs. -/
structure Sequencer (α : Type) where
  next : Nat
  held : Nat → Option α

namespace Sequencer

def empty : Sequencer α := ⟨0, fun _ => none⟩

def accept (s : Sequencer α) (n : Nat) (x : α) : Sequencer α :=
  { s with held := Function.update s.held n (some x) }

/-- The state after the next item has left. -/
def advance (s : Sequencer α) : Sequencer α :=
  ⟨s.next + 1, Function.update s.held s.next none⟩

theorem held_accept (s : Sequencer α) (n : Nat) (x : α) : (s.accept n x).held n = some x :=
  Function.update_self ..

theorem held_accept_ne {s : Sequencer α} {n i : Nat} {x : α} (h : i ≠ n) :
    (s.accept n x).held i = s.held i :=
  Function.update_of_ne h ..

theorem held_advance_ne {s : Sequencer α} {i : Nat} (h : i ≠ s.next) :
    s.advance.held i = s.held i :=
  Function.update_of_ne h ..

/-- Only items of the source are held, each under its own number. -/
def Follows (source : List α) (s : Sequencer α) : Prop :=
  ∀ n x, s.held n = some x → source[n]? = some x

theorem follows_empty {source : List α} : Follows source empty := by
  rintro n x ⟨⟩

theorem Follows.accept {source : List α} {s : Sequencer α} {n : Nat} {x : α}
    (hs : s.Follows source) (hx : source[n]? = some x) : (s.accept n x).Follows source := by
  intro i y hy
  simp only [Sequencer.accept, Function.update_apply] at hy
  split at hy
  · rename_i hi
    rw [hi, hx, hy]
  · exact hs i y hy

theorem Follows.advance {source : List α} {s : Sequencer α} (hs : s.Follows source) :
    s.advance.Follows source := by
  intro i y hy
  simp only [Sequencer.advance, Function.update_apply] at hy
  split at hy
  · cases hy
  · exact hs i y hy

theorem Follows.grow {source later : List α} {s : Sequencer α} (hs : s.Follows source)
    (hp : source <+: later) : s.Follows later := by
  intro i y hy
  have hi := hs i y hy
  obtain ⟨hl, _⟩ := List.getElem?_eq_some_iff.mp hi
  obtain ⟨rest, rfl⟩ := hp
  rw [List.getElem?_append_left hl]
  exact hi

/-- Handing on the next held item extends the part of the source handed on. -/
theorem Follows.take_advance {source : List α} {s : Sequencer α} {x : α} (hs : s.Follows source)
    (hx : s.held s.next = some x) : source.take s.next ++ [x] = source.take s.advance.next := by
  obtain ⟨hl, he⟩ := List.getElem?_eq_some_iff.mp (hs s.next x hx)
  change _ = source.take (s.next + 1)
  rw [List.take_add_one, List.getElem?_eq_getElem hl, he]
  rfl

end Sequencer

end Theta.Lib
