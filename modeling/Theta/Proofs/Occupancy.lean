import Theta.Lib.Steps
import Theta.Proofs.Ledgers

namespace Theta.SlotMap
open Lib

/-- The key that the next `add` hands out. -/
def nextKey (m : SlotMap T) : SlotMapKey :=
  match m.freeSlots with
  | slot :: _ => ⟨slot, (m.generations[slot.toNat]?.map (· + 1)).getD 0⟩
  | [] => ⟨BitVec.ofNat 32 m.values.length, (m.generations[m.values.length]?.map (· + 1)).getD 0⟩

/-- The slots whose values a visit drops. -/
def drops (m : SlotMap T) (func : T → Act σ ε (T × Bool)) (s : σ) : List Nat :=
  (visits func m.values s).findIdxs (fun r => r.any Prod.snd)

/-- Every empty slot is a free one. -/
def Reusable (m : SlotMap T) : Prop :=
  ∀ i, m.values[i]? = some none → ∃ slot ∈ m.freeSlots, slot.toNat = i

/-- The map counts its values, and no slot is lost. -/
structure Occupied (m : SlotMap T) : Prop where
  len : m.len = m.iter.length
  empty : m.isEmpty ↔ m.iter = []
  reusable : m.Reusable

/-- The free slots are exactly the empty ones. -/
structure Tidy (m : SlotMap T) : Prop extends Healthy m where
  reusable : m.Reusable

/-- The calls that write to a map. -/
inductive Call (σ ε T : Type) where
  | add (value : SlotMapKey → Option T)
  | getMut (key : SlotMapKey) (func : T → T)
  | remove (key : SlotMapKey)
  | iterMut (func : Nat → T → T)
  | retainIf (func : T → Act σ ε (T × Bool)) (s : σ)
  | clear

/-- The map after a call that returns. -/
def call (m : SlotMap T) : Call σ ε T → Option (SlotMap T)
  | .add value => ((m.add value : Outcome ε _).toOption).map Prod.snd
  | .getMut key func => some (m.getMut key func)
  | .remove key => ((m.remove key : Outcome ε _).toOption).map Prod.snd
  | .iterMut func => some (m.iterMut func)
  | .retainIf func s => (m.retainIf func s).1.toOption
  | .clear => some m.clear

/-- A call that fills the slot it takes, and empties only slots that a `u32` can name. -/
def Fills (m : SlotMap T) : Call σ ε T → Prop
  | .add value => (value m.nextKey).isSome
  | .retainIf func s => ∀ i ∈ m.drops func s, i < 2 ^ 32
  | _ => True

section
variable {σ ε T : Type} {m m' : SlotMap T}

theorem empty_slot {m : SlotMap T} {i : Nat} :
    m.values[i]? = some none ↔ i ∈ m.values.findIdxs Option.isNone := by
  rw [List.mem_findIdxs_iff_exists_getElem_pos, List.getElem?_eq_some_iff]
  simp only [Option.isNone_iff_eq_none]

theorem Tidy.free_perm (h : Tidy m) :
    (m.freeSlots.map BitVec.toNat).Perm (m.values.findIdxs Option.isNone) := by
  have hnodup : (m.freeSlots.map BitVec.toNat).Nodup :=
    h.free_nodup.map (fun _ _ he => BitVec.eq_of_toNat_eq he)
  refine (List.perm_ext_iff_of_nodup hnodup List.nodup_findIdxs).mpr (fun i => ?_)
  rw [← empty_slot, List.mem_map]
  constructor
  · rintro ⟨slot, hslot, rfl⟩
    exact h.free_empty slot hslot
  · exact h.reusable i

theorem Tidy.len_eq (h : Tidy m) : m.len = m.iter.length := by
  have hfree : m.freeSlots.length = m.values.countP Option.isNone := by
    simpa using h.free_perm.length_eq
  have hiter : m.iter.length = m.values.countP Option.isSome := by
    rw [iter, List.length_filterMap_eq_countP]
    rfl
  have hall := List.length_eq_countP_add_countP Option.isSome (l := m.values)
  have hnone : m.values.countP (fun x => decide ¬ x.isSome = true) = m.values.countP Option.isNone :=
    List.countP_congr (fun x _ => by cases x <;> simp)
  unfold len
  omega

theorem Tidy.occupied (h : Tidy m) : Occupied m := by
  refine ⟨h.len_eq, ?_, h.reusable⟩
  rw [isEmpty, decide_eq_true_eq, h.len_eq, List.length_eq_zero_iff]

theorem tidy_empty : Tidy ({} : SlotMap T) := ⟨healthy_empty, by simp [Reusable]⟩

theorem add_key {value : SlotMapKey → Option T} {key : SlotMapKey}
    (h : (m.add value : Outcome ε _) = .ok (key, m')) : key = m.nextKey := by
  obtain ⟨index, generation⟩ := key
  rcases add_cases h with ⟨rest, g, hfree, hg, hgen, _, _⟩ | ⟨hfree, hle, hkey, _⟩ |
    ⟨hfree, g, hg, hgen, hindex, _⟩
  · simp only at hfree hg hgen
    simp only [nextKey, hfree, hg, Option.map_some, Option.getD_some, SlotMapKey.mk.injEq, true_and]
    bv_omega
  · simp only [nextKey, hfree, hkey, List.getElem?_eq_none hle, Option.map_none, Option.getD_none]
  · simp only at hgen hindex
    simp only [nextKey, hfree, hg, hindex, Option.map_some, Option.getD_some, SlotMapKey.mk.injEq,
      true_and]
    bv_omega

/-- A slot whose value was declined is empty, and no longer free. -/
theorem add_declined {value : SlotMapKey → Option T} {key : SlotMapKey} (healthy : Healthy m)
    (h : (m.add value : Outcome ε _) = .ok (key, m')) (declined : value key = none) :
    ¬ m'.Reusable := by
  intro reusable
  rcases add_cases h with ⟨rest, _, hfree, _, _, hlt, rfl⟩ | ⟨_, _, _, rfl⟩ | ⟨_, _, _, _, _, rfl⟩
  · have hnodup := healthy.free_nodup
    rw [hfree, List.nodup_cons] at hnodup
    obtain ⟨slot, hslot, he⟩ := reusable key.index.toNat (by simp [hlt, declined])
    rw [BitVec.eq_of_toNat_eq he] at hslot
    exact hnodup.1 hslot
  · obtain ⟨slot, hslot, _⟩ := reusable m.values.length (by simp [declined])
    exact absurd hslot List.not_mem_nil
  · obtain ⟨slot, hslot, _⟩ := reusable m.values.length (by simp [declined])
    exact absurd hslot List.not_mem_nil

theorem Tidy.add {value : SlotMapKey → Option T} {key : SlotMapKey} (tidy : Tidy m)
    (h : (m.add value : Outcome ε _) = .ok (key, m')) (filled : (value key).isSome) :
    Tidy m' := by
  refine ⟨add_healthy tidy.toHealthy h, fun i hi => ?_⟩
  obtain ⟨v, hv⟩ := Option.isSome_iff_exists.mp filled
  -- A slot that is empty now was empty before, and it is not the one that was taken.
  have beside {values : List (Option T)} (hi : (values ++ [some v])[i]? = some none) :
      values[i]? = some none := by
    by_cases he : values.length = i
    · rw [← he, List.getElem?_concat_length] at hi
      cases hi
    · exact (concat_other he).mp hi
  rcases add_cases h with ⟨rest, _, hfree, _, _, hlt, rfl⟩ | ⟨hfree, _, _, rfl⟩ |
    ⟨hfree, _, _, _, _, rfl⟩
  · have hne : key.index.toNat ≠ i := by
      rintro rfl
      rw [List.getElem?_set_self hlt, hv] at hi
      cases hi
    rw [List.getElem?_set_ne hne] at hi
    obtain ⟨slot, hslot, rfl⟩ := tidy.reusable i hi
    rw [hfree] at hslot
    rcases List.mem_cons.mp hslot with rfl | hslot
    · exact absurd rfl hne
    · exact ⟨slot, hslot, rfl⟩
  · rw [hv] at hi
    obtain ⟨slot, hslot, _⟩ := tidy.reusable i (beside hi)
    rw [hfree] at hslot
    exact absurd hslot List.not_mem_nil
  · rw [hv] at hi
    obtain ⟨slot, hslot, _⟩ := tidy.reusable i (beside hi)
    rw [hfree] at hslot
    exact absurd hslot List.not_mem_nil

theorem Tidy.remove {key : SlotMapKey} {value : Option T} (tidy : Tidy m)
    (h : (m.remove key : Outcome ε _) = .ok (value, m')) : Tidy m' := by
  refine ⟨remove_healthy tidy.toHealthy h, fun i hi => ?_⟩
  obtain ⟨_, _, ⟨_, rfl⟩ | ⟨hv, _, hvalues, hfree⟩⟩ := remove_cases h
  · exact tidy.reusable i hi
  · rw [hfree]
    by_cases he : key.index.toNat = i
    · exact ⟨key.index, by simp, he⟩
    · rw [hvalues, List.getElem?_set_ne he] at hi
      obtain ⟨slot, hslot, hindex⟩ := tidy.reusable i hi
      exact ⟨slot, by simp [hslot], hindex⟩

theorem Tidy.getMut (tidy : Tidy m) (key : SlotMapKey) (func : T → T) :
    Tidy (m.getMut key func) := by
  refine ⟨get_mut_healthy tidy.toHealthy key func, ?_⟩
  unfold SlotMap.getMut
  split
  · intro i hi
    refine tidy.reusable i ?_
    by_cases he : key.index.toNat = i
    · subst he
      simp only [List.getElem?_set_self', Option.map_eq_map, Option.map_eq_some_iff] at hi
      obtain ⟨_, _, hc⟩ := hi
      cases hc
    · rwa [List.getElem?_set_ne he] at hi
  · exact tidy.reusable

theorem Tidy.iterMut (tidy : Tidy m) (func : Nat → T → T) : Tidy (m.iterMut func) := by
  have slot (i : Nat) : (m.iterMut func).values[i]? = some none ↔ m.values[i]? = some none := by
    rw [SlotMap.iterMut, List.getElem?_mapIdx]
    rcases m.values[i]? with _ | _ | v <;> simp
  refine ⟨⟨?_, tidy.free_nodup, fun s hs => (slot _).mpr (tidy.free_empty s hs)⟩,
    fun i hi => tidy.reusable i ((slot i).mp hi)⟩
  rw [SlotMap.iterMut, List.length_mapIdx]
  exact tidy.covered

theorem Tidy.clear : Tidy m.clear :=
  ⟨clear_healthy, by simp [Reusable, SlotMap.clear]⟩

theorem retain_loop_freed {func : T → Act σ ε (T × Bool)} {i : Nat}
    {values values' : List (Option T)} {freed : List U32} {s t : σ}
    (h : retainLoop func i values s = (.ok (values', freed), t)) :
    freed = ((visits func values s).findIdxs (fun r => r.any Prod.snd) i).map (BitVec.ofNat 32) := by
  induction values generalizing i values' freed s t with
  | nil =>
    cases h
    rfl
  | cons o rest ih =>
    cases o with
    | none =>
      rcases hr : retainLoop func (i + 1) rest s with ⟨r, u⟩
      simp only [retainLoop, Act.bind_apply, hr] at h
      cases r with
      | err e => cases h
      | panic => cases h
      | ok r =>
        cases h
        simp [visits, ih hr]
    | some v =>
      rcases hv : func v s with ⟨r, s1⟩
      cases r with
      | err e => simp [retainLoop, Act.bind_apply, hv] at h
      | panic => simp [retainLoop, Act.bind_apply, hv] at h
      | ok r =>
        obtain ⟨w, drop⟩ := r
        rcases hr : retainLoop func (i + 1) rest s1 with ⟨r, u⟩
        simp only [retainLoop, Act.bind_apply, hv, hr] at h
        cases r with
        | err e => cases h
        | panic => cases h
        | ok r =>
          cases drop with
          | false =>
            cases h
            simp [visits, hv, ih hr]
          | true =>
            cases h
            simp [visits, hv, ih hr]

/-- What a visit leaves of a map. -/
theorem retain_ok {func : T → Act σ ε (T × Bool)} {s t : σ}
    (h : m.retainIf func s = (.ok m', t)) :
    m'.values = (visits func m.values s).map Ledger.sentence ∧
      (visits func m.values s).map Option.isSome = m.values.map Option.isSome ∧
      m'.freeSlots = ((m.drops func s).map (BitVec.ofNat 32)).reverse ++ m.freeSlots := by
  rcases hr : retainLoop func 0 m.values s with ⟨r, u⟩
  simp only [retainIf, Act.bind_apply, hr] at h
  cases r with
  | err e => cases h
  | panic => cases h
  | ok r =>
    cases h
    obtain ⟨hvalues, hsome⟩ := retain_loop_visits hr
    exact ⟨hvalues, hsome, by rw [drops, retain_loop_freed hr]⟩

/-- A slot is empty after a visit when it was empty before or its value was dropped. -/
theorem retain_empty {func : T → Act σ ε (T × Bool)} {s t : σ}
    (h : m.retainIf func s = (.ok m', t)) (i : Nat) :
    m'.values[i]? = some none ↔ m.values[i]? = some none ∨ i ∈ m.drops func s := by
  obtain ⟨hvalues, hsome, _⟩ := retain_ok h
  have hslot := congrArg (fun l => l[i]?) hsome
  have hdrop : i ∈ m.drops func s ↔
      ((visits func m.values s)[i]?.map (fun r => r.any Prod.snd)) = some true := by
    rw [drops, List.mem_findIdxs_iff_exists_getElem_pos, Option.map_eq_some_iff]
    simp only [List.getElem?_eq_some_iff]
    constructor
    · rintro ⟨hlt, hi⟩
      exact ⟨_, ⟨hlt, rfl⟩, hi⟩
    · rintro ⟨_, ⟨hlt, rfl⟩, hi⟩
      exact ⟨hlt, hi⟩
  simp only [List.getElem?_map] at hslot
  rw [hdrop, hvalues, List.getElem?_map]
  generalize m.values[i]? = old at hslot ⊢
  generalize (visits func m.values s)[i]? = new at hslot ⊢
  rcases old with _ | _ | v <;> rcases new with _ | _ | ⟨w, _ | _⟩ <;>
    simp_all [Ledger.sentence]

theorem dropped_value {func : T → Act σ ε (T × Bool)} {s t : σ} {i : Nat}
    (h : m.retainIf func s = (.ok m', t)) (hi : i ∈ m.drops func s) :
    ∃ v, m.values[i]? = some (some v) := by
  obtain ⟨_, hsome, _⟩ := retain_ok h
  have hslot := congrArg (fun l => l[i]?) hsome
  obtain ⟨hlt, hdrop⟩ := List.mem_findIdxs_iff_exists_getElem_pos.mp hi
  simp only [List.getElem?_map, List.getElem?_eq_getElem hlt, Option.map_some] at hslot
  generalize (visits func m.values s)[i] = r at hslot hdrop
  rcases r with _ | r
  · cases hdrop
  · obtain ⟨v, hv, hv'⟩ := Option.map_eq_some_iff.mp hslot.symm
    obtain ⟨v, rfl⟩ := Option.isSome_iff_exists.mp hv'
    exact ⟨v, hv⟩

theorem Tidy.retain {func : T → Act σ ε (T × Bool)} {s t : σ} (tidy : Tidy m)
    (h : m.retainIf func s = (.ok m', t)) (fits : ∀ i ∈ m.drops func s, i < 2 ^ 32) :
    Tidy m' := by
  obtain ⟨hvalues, hsome, hfree⟩ := retain_ok h
  have hlength : m'.values.length = m.values.length := by
    have := congrArg List.length hsome
    simpa [hvalues] using this
  have index {i : Nat} (hi : i ∈ m.drops func s) : (BitVec.ofNat 32 i).toNat = i :=
    index_of_fits (fits i hi)
  -- A slot that is given back was taken before.
  have taken {slot : U32} (hslot : slot ∈ (m.drops func s).map (BitVec.ofNat 32)) :
      slot.toNat ∈ m.drops func s := by
    obtain ⟨i, hi, rfl⟩ := List.mem_map.mp hslot
    rwa [index hi]
  refine ⟨⟨?_, ?_, ?_⟩, ?_⟩
  · rw [hlength, retain_generations h]
    exact tidy.covered
  · rw [hfree, List.nodup_append]
    refine ⟨List.nodup_reverse.mpr ?_, tidy.free_nodup, ?_⟩
    · refine List.Nodup.map_on (fun i hi j hj he => ?_) List.nodup_findIdxs
      rw [← index hi, ← index hj, he]
    · rintro slot hslot _ hfree rfl
      obtain ⟨v, hv⟩ := dropped_value h (taken (List.mem_reverse.mp hslot))
      rw [tidy.free_empty slot hfree] at hv
      cases hv
  · intro slot hslot
    rw [hfree, List.mem_append, List.mem_reverse] at hslot
    refine (retain_empty h _).mpr ?_
    rcases hslot with hslot | hslot
    · exact Or.inr (taken hslot)
    · exact Or.inl (tidy.free_empty slot hslot)
  · intro i hi
    rw [hfree]
    rcases (retain_empty h i).mp hi with hi | hi
    · obtain ⟨slot, hslot, he⟩ := tidy.reusable i hi
      exact ⟨slot, by simp [hslot], he⟩
    · refine ⟨BitVec.ofNat 32 i, ?_, index hi⟩
      rw [List.mem_append, List.mem_reverse]
      exact Or.inl (List.mem_map_of_mem hi)

/-- A slot beyond every `u32` cannot be given back. -/
theorem retain_beyond {func : T → Act σ ε (T × Bool)} {s t : σ} {i : Nat}
    (h : m.retainIf func s = (.ok m', t)) (hi : i ∈ m.drops func s) (beyond : 2 ^ 32 ≤ i) :
    ¬ m'.Reusable := by
  intro reusable
  obtain ⟨slot, _, he⟩ := reusable i ((retain_empty h i).mpr (Or.inr hi))
  have := slot.isLt
  omega

theorem Tidy.call {c : Call σ ε T} (tidy : Tidy m) (h : m.call c = some m') (fills : m.Fills c) :
    Tidy m' := by
  cases c with
  | add value =>
    simp only [SlotMap.call, Option.map_eq_some_iff, Outcome.to_option_eq_some, Prod.exists] at h
    obtain ⟨key, m', hadd, rfl⟩ := h
    rw [Fills, ← add_key hadd] at fills
    exact tidy.add hadd fills
  | getMut key func =>
    cases h
    exact tidy.getMut key func
  | remove key =>
    simp only [SlotMap.call, Option.map_eq_some_iff, Outcome.to_option_eq_some, Prod.exists] at h
    obtain ⟨value, m', hremove, rfl⟩ := h
    exact tidy.remove hremove
  | iterMut func =>
    cases h
    exact tidy.iterMut func
  | retainIf func s =>
    exact tidy.retain (eq_of_fst (Outcome.to_option_eq_some.mp h)) fills
  | clear =>
    cases h
    exact .clear

/-- A call that does not fill its slot, or empties one that no `u32` names, loses a slot. -/
theorem Tidy.fills_of_occupied {c : Call σ ε T} (tidy : Tidy m) (h : m.call c = some m')
    (occupied : Occupied m') : m.Fills c := by
  cases c with
  | add value =>
    simp only [SlotMap.call, Option.map_eq_some_iff, Outcome.to_option_eq_some, Prod.exists] at h
    obtain ⟨key, m', hadd, rfl⟩ := h
    rw [Fills, ← add_key hadd]
    by_contra declined
    rw [Bool.not_eq_true, Option.isSome_eq_false_iff, Option.isNone_iff_eq_none] at declined
    exact add_declined tidy.toHealthy hadd declined occupied.reusable
  | retainIf func s =>
    intro i hi
    by_contra beyond
    exact retain_beyond (eq_of_fst (Outcome.to_option_eq_some.mp h)) hi (Nat.le_of_not_lt beyond)
      occupied.reusable
  | getMut key func => trivial
  | remove key => trivial
  | iterMut func => trivial
  | clear => trivial

/-- Along any sequence of calls the map counts its values and loses no slot exactly when every
call fills the slot that it takes and empties none that is beyond the indices of the keys. -/
theorem calls_occupied_iff (calls : List (Call σ ε T)) :
    AtEach call (fun _ _ m' => m'.Occupied) calls ({} : SlotMap T) ↔
      AtEach call (fun m c _ => m.Fills c) calls ({} : SlotMap T) := by
  apply at_each_iff (I := Tidy)
  · intro m c m' tidy h
    have fills := tidy.fills_of_occupied h
    exact ⟨⟨fills, fun f => (tidy.call h f).occupied⟩, fun occupied => tidy.call h (fills occupied)⟩
  · exact tidy_empty

/-- A map whose only value was declined has a length, and nothing in it. -/
theorem declined_value_counted :
    ¬ AtEach call (fun _ _ m' => m'.Occupied) [(.add (fun _ => none) : Call Unit Unit Nat)] {} := by
  rintro ⟨occupied, _⟩
  have len := occupied.len
  revert len
  decide

end

end Theta.SlotMap
