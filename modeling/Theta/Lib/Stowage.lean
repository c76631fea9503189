import Mathlib.Data.Set.Function

namespace Theta.Lib

/-- Every one of the keys has a place of its own. The place takes an item of the key, and the value
of this item is there. -/
structure Stows (takes : S → I → Prop) (value : I → V) (items : K → I → Prop) (keys : Set K)
    (contents : S → Option V) (place : K → S) : Prop where
  distinct : Set.InjOn place keys
  there : ∀ key ∈ keys, ∃ item, items key item ∧ takes (place key) item ∧
    contents (place key) = some (value item)

/-- The keys can be given such places. -/
def Stowed (takes : S → I → Prop) (value : I → V) (items : K → I → Prop) (keys : Set K)
    (contents : S → Option V) : Prop :=
  ∃ place, Stows takes value items keys contents place

namespace Stowed
variable {takes : S → I → Prop} {value : I → V} {items items' : K → I → Prop} {keys : Set K}
  {contents contents' : S → Option V}

theorem empty [Inhabited S] : Stowed takes value items ∅ contents :=
  ⟨fun _ => default, Set.injOn_empty _, fun _ hkey => absurd hkey (Set.notMem_empty _)⟩

/-- The values that are owed to a key stay where they are. -/
theorem mono (h : Stowed takes value items keys contents)
    (known : ∀ key ∈ keys, ∀ item, items key item → items' key item)
    (kept : ∀ key ∈ keys, ∀ item s, items key item → takes s item →
      contents s = some (value item) → contents' s = some (value item)) :
    Stowed takes value items' keys contents' := by
  obtain ⟨place, distinct, there⟩ := h
  refine ⟨place, distinct, fun key hkey => ?_⟩
  obtain ⟨item, hitem, fits, here⟩ := there key hkey
  exact ⟨item, known key hkey item hitem, fits, kept key hkey item _ hitem fits here⟩

/-- An item of a new key is put to a place that was free. -/
theorem add {new : K} {item : I} {s : S} (h : Stowed takes value items keys contents)
    (fresh : new ∉ keys) (known : items new item) (fits : takes s item) (free : contents s = none)
    (here : contents' s = some (value item))
    (kept : ∀ t v, contents t = some v → contents' t = some v) :
    Stowed takes value items (insert new keys) contents' := by
  classical
  obtain ⟨place, distinct, there⟩ := h
  have old {key : K} (hkey : key ∈ keys) : Function.update place new s key = place key := by
    apply Function.update_of_ne
    intro he
    exact fresh (he ▸ hkey)
  have taken {key : K} (hkey : key ∈ keys) : place key ≠ s := by
    intro he
    obtain ⟨_, _, _, full⟩ := there key hkey
    rw [he, free] at full
    cases full
  refine ⟨Function.update place new s, ?_, fun key hkey => ?_⟩
  · rw [Set.injOn_insert fresh, Function.update_self]
    refine ⟨fun a ha b hb he => distinct ha hb (by rwa [old ha, old hb] at he), ?_⟩
    rintro ⟨key, hkey, he⟩
    rw [old hkey] at he
    exact taken hkey he
  · rcases hkey with rfl | hkey
    · rw [Function.update_self]
      exact ⟨item, known, fits, here⟩
    · rw [old hkey]
      obtain ⟨item, hitem, fits, full⟩ := there key hkey
      exact ⟨item, hitem, fits, kept _ _ full⟩

/-- What is at one place is put to another one that was free. -/
theorem shift {s t : S} (h : Stowed takes value items keys contents) (free : contents t = none)
    (moved : contents' t = contents s)
    (kept : ∀ u v, u ≠ s → contents u = some v → contents' u = some v)
    (fits : ∀ key ∈ keys, ∀ item, items key item → takes s item → takes t item) :
    Stowed takes value items keys contents' := by
  classical
  obtain ⟨place, distinct, there⟩ := h
  have taken {key : K} (hkey : key ∈ keys) : place key ≠ t := by
    intro he
    obtain ⟨_, _, _, full⟩ := there key hkey
    rw [he, free] at full
    cases full
  refine ⟨fun key => if place key = s then t else place key, fun a ha b hb he => ?_,
    fun key hkey => ?_⟩
  · apply distinct ha hb
    split at he
    · rename_i hs
      split at he
      · rename_i hs'
        rw [hs, hs']
      · exact absurd he.symm (taken hb)
    · split at he
      · exact absurd he (taken ha)
      · exact he
  · obtain ⟨item, hitem, takes, full⟩ := there key hkey
    refine ⟨item, hitem, ?_⟩
    split
    · rename_i hs
      rw [hs] at takes full
      exact ⟨fits key hkey item hitem takes, moved.trans full⟩
    · rename_i hs
      exact ⟨takes, kept _ _ hs full⟩

end Stowed

end Theta.Lib
