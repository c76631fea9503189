import Mathlib.Logic.Basic

namespace Theta.Lib

/-- What a store of values under keys of its own choice is for: the keys it has given out, the
latest first, and the value that each of them still stands for. -/
structure Ledger (K V : Type) where
  issued : List K := []
  holds : K → Option V := fun _ => none

namespace Ledger
variable {K V : Type} [DecidableEq K]

def issue (l : Ledger K V) (key : K) (value : V) : Ledger K V where
  issued := key :: l.issued
  holds k := if k = key then some value else l.holds k

def change (l : Ledger K V) (key : K) (f : V → V) : Ledger K V :=
  { l with holds := fun k => if k = key then (l.holds key).map f else l.holds k }

def drop (l : Ledger K V) (key : K) : Ledger K V :=
  { l with holds := fun k => if k = key then none else l.holds k }

/-- What is left of a value by a verdict: the value to keep, and whether it is to be dropped. -/
def sentence : Option (V × Bool) → Option V
  | some (value, false) => some value
  | _ => none

/-- Every value that is held gets a verdict. -/
def judge (l : Ledger K V) (verdict : K → Option (V × Bool)) : Ledger K V :=
  { l with holds := fun k => (l.holds k).bind (fun _ => sentence (verdict k)) }

def clear (l : Ledger K V) : Ledger K V := { l with holds := fun _ => none }

/-- A store that finds every value under its key, whose keys are all used up and all different. -/
structure Keeps (get : K → Option V) (used : K → Prop) (l : Ledger K V) : Prop where
  found : ∀ key, get key = l.holds key
  used : ∀ key ∈ l.issued, used key
  distinct : l.issued.Nodup

section
variable {get get' : K → Option V} {used used' : K → Prop} {l : Ledger K V}

theorem Keeps.issue {key : K} {value : V} (h : Keeps get used l) (fresh : ¬ used key)
    (still : ∀ k, used k → used' k) (now : used' key)
    (found : ∀ k, get' k = if k = key then some value else get k) :
    Keeps get' used' (l.issue key value) := by
  refine ⟨fun k => ?_, fun k hk => ?_, ?_⟩
  · rw [found, h.found]
    rfl
  · rcases List.mem_cons.mp hk with rfl | hk
    · exact now
    · exact still k (h.used k hk)
  · exact List.nodup_cons.mpr ⟨fun hmem => fresh (h.used key hmem), h.distinct⟩

omit [DecidableEq K] in
/-- Whatever gives out no key needs only to find the values. -/
theorem Keeps.same {l' : Ledger K V} (h : Keeps get used l) (issued : l'.issued = l.issued)
    (still : ∀ k, used k → used' k) (found : ∀ k, get' k = l'.holds k) : Keeps get' used' l' :=
  ⟨found, fun k hk => still k (h.used k (issued ▸ hk)), issued ▸ h.distinct⟩

end

end Ledger

end Theta.Lib
