import Mathlib.Logic.Relation

namespace Theta.Lib

/-- One side of an exchange: what it does on its own, what it does with a message that
arrives, and everything that it has sent so far. -/
structure Party (σ μ : Type) where
  acts : σ → σ → Prop
  reads : μ → σ → σ → Prop
  sent : σ → List μ

namespace Party
variable {σ τ μ : Type}

/-- A step of one side while the other one stands at `t`. What was sent once may arrive at
any time, in any order, any number of times or never. -/
inductive Step (P Q : Party σ μ) (t : σ) : σ → σ → Prop where
  | act (s s' : σ) (h : P.acts s s') : Step P Q t s s'
  | read (s s' : σ) (message : μ) (sent : message ∈ Q.sent t) (h : P.reads message s s') :
      Step P Q t s s'

/-- Two sides that take their steps in any order. -/
inductive Exchange (P Q : Party σ μ) : σ × σ → σ × σ → Prop where
  | left (a a' b : σ) (h : P.Step Q b a a') : Exchange P Q (a, b) (a', b)
  | right (a b b' : σ) (h : Q.Step P a b b') : Exchange P Q (a, b) (a, b')

variable {P Q : Party σ μ}

theorem Exchange.swap {s t : σ × σ} (h : Exchange P Q s t) : Exchange Q P s.swap t.swap := by
  cases h with
  | left a a' b h => exact .right b a a' h
  | right a b b' h => exact .left b b' a h

theorem exchange_swap {s t : σ × σ} (h : Relation.ReflTransGen (Exchange P Q) s t) :
    Relation.ReflTransGen (Exchange Q P) s.swap t.swap :=
  h.lift Prod.swap (fun _ _ h => h.swap)

/-- Each side keeps its part of an invariant as long as the other one keeps its own. -/
theorem mutual_invariant {I J : σ → Prop}
    (left : ∀ b a a', J b → P.Step Q b a a' → I a → I a')
    (right : ∀ a b b', I a → Q.Step P a b b' → J b → J b')
    {s t : σ × σ} (run : Relation.ReflTransGen (Exchange P Q) s t) (hs : I s.1 ∧ J s.2) :
    I t.1 ∧ J t.2 := by
  induction run with
  | refl => exact hs
  | tail _ h ih =>
    cases h with
    | left a a' b h => exact ⟨left b a a' ih.2 h ih.1, ih.2⟩
    | right a b b' h => exact ⟨ih.1, right a b b' ih.1 h ih.2⟩

/-- What each side keeps on its own, whatever it reads, holds of both sides. -/
theorem side_invariant {I J : σ → Prop}
    (left : ∀ b a a', P.Step Q b a a' → I a → I a')
    (right : ∀ a b b', Q.Step P a b b' → J b → J b')
    {s t : σ × σ} (run : Relation.ReflTransGen (Exchange P Q) s t) (hs : I s.1 ∧ J s.2) :
    I t.1 ∧ J t.2 :=
  mutual_invariant (fun b a a' _ => left b a a') (fun a b b' _ => right a b b') run hs

/-- A link between a sender and a receiver holds along an exchange that starts with it, when it
survives the sender's steps, the receiver's own steps and what the receiver does with a message
that was sent; `Known` is what the whole exchange is already known to keep. -/
theorem link_invariant {Known Link : σ → σ → Prop} {s t : σ × σ}
    (run : Relation.ReflTransGen (Exchange P Q) s t)
    (known : ∀ u, Relation.ReflTransGen (Exchange P Q) s u → Known u.1 u.2)
    (sender : ∀ a a' b, Known a b → Known a' b → P.Step Q b a a' → Link a b → Link a' b)
    (acts : ∀ a b b', Known a b → Known a b' → Q.acts b b' → Link a b → Link a b')
    (reads : ∀ a b b' message, Known a b → Known a b' → message ∈ P.sent a →
      Q.reads message b b' → Link a b → Link a b')
    (hs : Link s.1 s.2) : Link t.1 t.2 := by
  induction run with
  | refl => exact hs
  | tail hrun h ih =>
    have before := known _ hrun
    have after := known _ (.tail hrun h)
    cases h with
    | left a a' b h => exact sender a a' b before after h ih
    | right a b b' h =>
      cases h with
      | act h => exact acts a b b' before after h ih
      | read message hsent h => exact reads a b b' message before after hsent h ih

/-- A party whose first `n` messages are not on the way any more. -/
def since (n : Nat) (P : Party σ μ) : Party σ μ := { P with sent := fun s => (P.sent s).drop n }

theorem Step.of_since {n : Nat} {s s' t : σ} (h : P.Step (Q.since n) t s s') :
    P.Step Q t s s' := by
  cases h with
  | act h => exact .act _ _ h
  | read message sent h => exact .read _ _ message (List.mem_of_mem_drop sent) h

theorem Step.since_iff {n : Nat} {s s' t : σ} :
    (P.since n).Step Q t s s' ↔ P.Step Q t s s' := by
  constructor
  · intro h
    cases h with
    | act h => exact .act _ _ h
    | read message sent h => exact .read _ _ message sent h
  · intro h
    cases h with
    | act h => exact .act _ _ h
    | read message sent h => exact .read _ _ message sent h

/-- Every step that a concrete party takes where `I` holds keeps `I`, and is one of the abstract
party under `abs` or none at all. -/
structure Refines (C : Party τ μ) (P : Party σ μ) (abs : τ → σ) (I : τ → Prop) : Prop where
  acts : ∀ c c', I c → C.acts c c' → I c' ∧ (abs c' = abs c ∨ P.acts (abs c) (abs c'))
  reads : ∀ message c c', I c → C.reads message c c' →
    I c' ∧ (abs c' = abs c ∨ P.reads message (abs c) (abs c'))
  sent : ∀ c, C.sent c = P.sent (abs c)

section
variable {C D : Party τ μ} {abs abs' : τ → σ} {I J : τ → Prop}

theorem Refines.step (left : Refines C P abs I) (right : Refines D Q abs' J) {c c' d : τ} (hc : I c)
    (h : C.Step D d c c') : I c' ∧ (abs c' = abs c ∨ P.Step Q (abs' d) (abs c) (abs c')) := by
  cases h with
  | act h =>
    obtain ⟨kept, h⟩ := left.acts c c' hc h
    exact ⟨kept, h.imp_right (.act _ _)⟩
  | read message sent h =>
    obtain ⟨kept, h⟩ := left.reads message c c' hc h
    rw [right.sent] at sent
    exact ⟨kept, h.imp_right (.read _ _ message sent)⟩

/-- Two concrete parties do together what the abstract ones do. -/
theorem Refines.exchange (left : Refines C P abs I) (right : Refines D Q abs' J) {c d : τ × τ}
    (run : Relation.ReflTransGen (Exchange C D) c d) (hc : I c.1 ∧ J c.2) :
    (I d.1 ∧ J d.2) ∧
      Relation.ReflTransGen (Exchange P Q) (abs c.1, abs' c.2) (abs d.1, abs' d.2) := by
  induction run with
  | refl => exact ⟨hc, .refl⟩
  | tail _ h ih =>
    obtain ⟨kept, ih⟩ := ih
    cases h with
    | left a a' b h =>
      obtain ⟨kept', same | h⟩ := left.step right kept.1 h
      · refine ⟨⟨kept', kept.2⟩, ?_⟩
        rw [same]
        exact ih
      · exact ⟨⟨kept', kept.2⟩, .tail ih (.left _ _ _ h)⟩
    | right a b b' h =>
      obtain ⟨kept', same | h⟩ := right.step left kept.2 h
      · refine ⟨⟨kept.1, kept'⟩, ?_⟩
        rw [same]
        exact ih
      · exact ⟨⟨kept.1, kept'⟩, .tail ih (.right _ _ _ h)⟩

end

end Party

end Theta.Lib
