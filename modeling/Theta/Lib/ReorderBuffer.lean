import Mathlib.Logic.Function.Basic

namespace Theta.Lib

/-- Items under numbers that wrap around, of which those from the next number on can leave. -/
structure ReorderBuffer (w : Nat) (α : Type) where
  next : BitVec w
  held : BitVec w → Option α

namespace ReorderBuffer
variable {w : Nat} {α σ : Type}

def empty : ReorderBuffer w α := ⟨0, fun _ => none⟩

/-- An item less than `capacity` numbers ahead is bound to its number; the latest one wins. -/
def push (capacity : Nat) (n : BitVec w) (x : α) (b : ReorderBuffer w α) :
    Option (ReorderBuffer w α) :=
  if (n - b.next).toNat < capacity then
    some { b with held := Function.update b.held n (some x) }
  else none

/-- The next item is taken out, and nothing else happens. -/
def lose (b : ReorderBuffer w α) : ReorderBuffer w α :=
  { b with held := Function.update b.held b.next none }

/-- The next item has left. -/
def advance (b : ReorderBuffer w α) : ReorderBuffer w α := { b.lose with next := b.next + 1 }

/-- These items are held from the next number on, and leave. -/
inductive Takes : ReorderBuffer w α → List α → ReorderBuffer w α → Prop where
  | none (b : ReorderBuffer w α) : Takes b [] b
  | more (b b' : ReorderBuffer w α) (x : α) (xs : List α) (first : b.held b.next = some x)
      (rest : Takes b.advance xs b') : Takes b (x :: xs) b'

/-- The longest run of items from the next number on leaves. -/
def Drains (b : ReorderBuffer w α) (xs : List α) (b' : ReorderBuffer w α) : Prop :=
  Takes b xs b' ∧ b'.held b'.next = none

theorem push_next {capacity : Nat} {n : BitVec w} {x : α} {b b' : ReorderBuffer w α}
    (h : b.push capacity n x = some b') : b'.next = b.next := by
  unfold push at h
  split at h
  · rw [← Option.some.inj h]
  · cases h

theorem Takes.next {b b' : ReorderBuffer w α} {xs : List α} (h : Takes b xs b') :
    b'.next = b.next + BitVec.ofNat w xs.length := by
  induction h with
  | none b => simp
  | more b b' x xs _ _ ih =>
    rw [ih]
    change b.next + 1 + BitVec.ofNat w xs.length = b.next + BitVec.ofNat w (xs.length + 1)
    rw [BitVec.ofNat_add, BitVec.add_assoc, BitVec.add_comm 1]
    rfl

/-- There is only one longest run. -/
theorem Drains.unique {b b1 b2 : ReorderBuffer w α} {xs ys : List α} (h1 : Drains b xs b1)
    (h2 : Drains b ys b2) : xs = ys ∧ b1 = b2 := by
  obtain ⟨h1, hend1⟩ := h1
  induction h1 generalizing ys with
  | none b =>
    obtain ⟨h2, _⟩ := h2
    cases h2 with
    | none => exact ⟨rfl, rfl⟩
    | more _ _ x xs first _ =>
      rw [hend1] at first
      cases first
  | more b b1 x xs first rest ih =>
    obtain ⟨h2, hend2⟩ := h2
    cases h2 with
    | none =>
      rw [hend2] at first
      cases first
    | more _ _ y ys first' rest' =>
      rw [first, Option.some.injEq] at first'
      subst first'
      obtain ⟨rfl, rfl⟩ := ih ⟨rest', hend2⟩ hend1
      exact ⟨rfl, rfl⟩

/-- What is done to a buffer. -/
inductive Op (w : Nat) (α : Type) where
  | push (n : BitVec w) (x : α)
  | retain

/-- The operations of a buffer of this capacity, whose items go to `give` when they leave, with
the outcomes of the pushes. -/
inductive Runs (capacity : Nat) (give : σ → α → σ) :
    List (Op w α) → ReorderBuffer w α → σ → List Bool → ReorderBuffer w α → σ → Prop where
  | done (b : ReorderBuffer w α) (s : σ) : Runs capacity give [] b s [] b s
  | accepted (n : BitVec w) (x : α) (ops : List (Op w α)) (b b1 b2 : ReorderBuffer w α) (s t : σ)
      (flags : List Bool) (push : b.push capacity n x = some b1)
      (rest : Runs capacity give ops b1 s flags b2 t) :
      Runs capacity give (.push n x :: ops) b s (true :: flags) b2 t
  | refused (n : BitVec w) (x : α) (ops : List (Op w α)) (b b2 : ReorderBuffer w α) (s t : σ)
      (flags : List Bool) (push : b.push capacity n x = none)
      (rest : Runs capacity give ops b s flags b2 t) :
      Runs capacity give (.push n x :: ops) b s (false :: flags) b2 t
  | retained (ops : List (Op w α)) (b b1 b2 : ReorderBuffer w α) (s t : σ) (xs : List α)
      (flags : List Bool) (drains : Drains b xs b1)
      (rest : Runs capacity give ops b1 (xs.foldl give s) flags b2 t) :
      Runs capacity give (.retain :: ops) b s flags b2 t

/-- The operations determine what becomes of the buffer and of its items. -/
theorem Runs.unique {capacity : Nat} {give : σ → α → σ} {ops : List (Op w α)}
    {b b1 b2 : ReorderBuffer w α} {s t1 t2 : σ} {flags1 flags2 : List Bool}
    (h1 : Runs capacity give ops b s flags1 b1 t1) (h2 : Runs capacity give ops b s flags2 b2 t2) :
    flags1 = flags2 ∧ b1 = b2 ∧ t1 = t2 := by
  induction h1 generalizing flags2 with
  | done => cases h2 with
    | done => exact ⟨rfl, rfl, rfl⟩
  | accepted n x ops b b' b1 s t1 flags push rest ih =>
    cases h2 with
    | accepted _ _ _ _ b'' _ _ _ flags' push' rest' =>
      rw [push, Option.some.injEq] at push'
      subst push'
      obtain ⟨rfl, hend⟩ := ih rest'
      exact ⟨rfl, hend⟩
    | refused _ _ _ _ _ _ _ _ push' _ =>
      rw [push] at push'
      cases push'
  | refused n x ops b b1 s t1 flags push rest ih =>
    cases h2 with
    | accepted _ _ _ _ _ _ _ _ _ push' _ =>
      rw [push] at push'
      cases push'
    | refused _ _ _ _ _ _ _ _ _ rest' =>
      obtain ⟨rfl, hend⟩ := ih rest'
      exact ⟨rfl, hend⟩
  | retained ops b b' b1 s t1 xs flags drains rest ih =>
    cases h2 with
    | retained _ _ _ _ _ _ _ _ drains' rest' =>
      obtain ⟨rfl, rfl⟩ := drains.unique drains'
      exact ih rest'

end ReorderBuffer

end Theta.Lib
