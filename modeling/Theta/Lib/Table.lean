import Mathlib.Data.List.Nodup
import Mathlib.Data.List.Basic

namespace Theta.Lib

/-- A hash map: values under different keys, in the order of an iteration over it. -/
structure Table (κ ν : Type) where
  entries : List (κ × ν)
  nodup : (entries.map Prod.fst).Nodup

namespace Table
variable {κ ν σ : Type}

def empty : Table κ ν := ⟨[], List.nodup_nil⟩

/-- The same entries in another order. -/
def Reordered (t t' : Table κ ν) : Prop := t.entries.Perm t'.entries

/-- One iteration over values that it may change. -/
def visitList (f : κ → ν → σ → Option (ν × σ)) :
    List (κ × ν) → σ → Option (List (κ × ν) × σ)
  | [], s => some ([], s)
  | (k, v) :: rest, s =>
    match f k v s with
    | some (v, s) => (visitList f rest s).map (fun r => ((k, v) :: r.1, r.2))
    | none => none

theorem visit_keys {f : κ → ν → σ → Option (ν × σ)} {entries entries' : List (κ × ν)} {s s' : σ}
    (h : visitList f entries s = some (entries', s')) :
    entries'.map Prod.fst = entries.map Prod.fst := by
  induction entries generalizing s entries' with
  | nil =>
    cases h
    rfl
  | cons e rest ih =>
    obtain ⟨k, v⟩ := e
    rw [visitList] at h
    split at h
    · obtain ⟨⟨rest', _⟩, hrest, he⟩ := Option.map_eq_some_iff.mp h
      cases he
      rw [List.map_cons, List.map_cons, ih hrest]
    · cases h

/-- A loop over the map, which may change the values and an accumulator. -/
def visit (f : κ → ν → σ → Option (ν × σ)) (t : Table κ ν) (s : σ) : Option (Table κ ν × σ) :=
  match h : visitList f t.entries s with
  | some (entries, s) => some (⟨entries, by rw [visit_keys h]; exact t.nodup⟩, s)
  | none => none

/-- What a loop does whose body has known results. -/
theorem visit_spec {f : κ → ν → σ → Option (ν × σ)} {g : κ → ν → ν} {h : κ → ν → σ → σ}
    {P : κ → ν → Prop} (body : ∀ k v s r, f k v s = some r → P k v ∧ r = (g k v, h k v s))
    {t t' : Table κ ν} {s s' : σ} (visited : t.visit f s = some (t', s')) :
    t'.entries = t.entries.map (fun e => (e.1, g e.1 e.2)) ∧
      s' = t.entries.foldl (fun s e => h e.1 e.2 s) s ∧ ∀ e ∈ t.entries, P e.1 e.2 := by
  have list {entries entries' : List (κ × ν)} {s s' : σ}
      (visited : visitList f entries s = some (entries', s')) :
      entries' = entries.map (fun e => (e.1, g e.1 e.2)) ∧
        s' = entries.foldl (fun s e => h e.1 e.2 s) s ∧ ∀ e ∈ entries, P e.1 e.2 := by
    induction entries generalizing s entries' with
    | nil =>
      cases visited
      exact ⟨rfl, rfl, fun _ he => absurd he List.not_mem_nil⟩
    | cons e rest ih =>
      obtain ⟨k, v⟩ := e
      rw [visitList] at visited
      split at visited
      · rename_i v' s1 hf
        obtain ⟨⟨rest', _⟩, hrest, he⟩ := Option.map_eq_some_iff.mp visited
        cases he
        obtain ⟨hP, hv⟩ := body _ _ _ _ hf
        cases hv
        obtain ⟨rfl, rfl, hall⟩ := ih hrest
        exact ⟨rfl, rfl, List.forall_mem_cons.mpr ⟨hP, hall⟩⟩
      · cases visited
  unfold visit at visited
  split at visited
  · rename_i hlist
    cases visited
    exact list hlist
  · cases visited

/-- A loop whose body returns for every entry comes to its end. -/
theorem visit_returns {f : κ → ν → σ → Option (ν × σ)} {t : Table κ ν}
    (body : ∀ e ∈ t.entries, ∀ s, ∃ r, f e.1 e.2 s = some r) (s : σ) :
    ∃ r, t.visit f s = some r := by
  have list {entries : List (κ × ν)} (body : ∀ e ∈ entries, ∀ s, ∃ r, f e.1 e.2 s = some r)
      (s : σ) : ∃ r, visitList f entries s = some r := by
    induction entries generalizing s with
    | nil => exact ⟨_, rfl⟩
    | cons e rest ih =>
      obtain ⟨here, later⟩ := List.forall_mem_cons.mp body
      obtain ⟨⟨v, s1⟩, hf⟩ := here s
      obtain ⟨r, hrest⟩ := ih later s1
      exact ⟨((e.1, v) :: r.1, r.2), by rw [visitList, hf]; simp [hrest]⟩
  obtain ⟨r, hr⟩ := list body s
  unfold visit
  split
  · exact ⟨_, rfl⟩
  · rename_i hnone
    rw [hnone] at hr
    cases hr

section
variable [DecidableEq κ]

def get (t : Table κ ν) (k : κ) : Option ν := t.entries.lookup k

def remove (t : Table κ ν) (k : κ) : Table κ ν where
  entries := t.entries.filter (fun e => e.1 ≠ k)
  nodup := t.nodup.sublist (List.filter_sublist.map _)

def removeAll (t : Table κ ν) (ks : List κ) : Table κ ν where
  entries := t.entries.filter (fun e => e.1 ∉ ks)
  nodup := t.nodup.sublist (List.filter_sublist.map _)

def insert (t : Table κ ν) (k : κ) (v : ν) : Table κ ν where
  entries := (k, v) :: (t.remove k).entries
  nodup := by
    rw [List.map_cons, List.nodup_cons]
    refine ⟨fun h => ?_, (t.remove k).nodup⟩
    obtain ⟨e, he, hk⟩ := List.mem_map.mp h
    simp only [remove, List.mem_filter, decide_eq_true_eq] at he
    exact he.2 hk

theorem get_eq_some {t : Table κ ν} {k : κ} {v : ν} : t.get k = some v ↔ (k, v) ∈ t.entries := by
  obtain ⟨entries, nodup⟩ := t
  unfold get
  induction entries with
  | nil => simp
  | cons e rest ih =>
    obtain ⟨k', v'⟩ := e
    rw [List.map_cons, List.nodup_cons] at nodup
    rw [List.lookup_cons, List.mem_cons, ← ih nodup.2]
    by_cases hk : k = k'
    · subst hk
      have hnone : rest.lookup k ≠ some v := by
        intro h
        exact nodup.1 (List.mem_map.mpr ⟨_, (ih nodup.2).mp h, rfl⟩)
      simp [hnone, eq_comm]
    · have hb : (k == k') = false := by simp [hk]
      simp [hb, hk]

@[simp] theorem mem_remove {t : Table κ ν} {k : κ} {e : κ × ν} :
    e ∈ (t.remove k).entries ↔ e ∈ t.entries ∧ e.1 ≠ k := by
  simp [remove]

@[simp] theorem mem_remove_all {t : Table κ ν} {ks : List κ} {e : κ × ν} :
    e ∈ (t.removeAll ks).entries ↔ e ∈ t.entries ∧ e.1 ∉ ks := by
  simp [removeAll]

@[simp] theorem mem_insert {t : Table κ ν} {k : κ} {v : ν} {e : κ × ν} :
    e ∈ (t.insert k v).entries ↔ e = (k, v) ∨ (e ∈ t.entries ∧ e.1 ≠ k) := by
  simp [insert]

theorem get_insert (t : Table κ ν) (k k' : κ) (v : ν) :
    (t.insert k v).get k' = if k' = k then some v else t.get k' := by
  apply Option.ext
  intro w
  rw [get_eq_some]
  by_cases hk : k' = k
  · simp [hk, eq_comm]
  · simp [get_eq_some, hk]

theorem get_remove (t : Table κ ν) (k k' : κ) :
    (t.remove k).get k' = if k' = k then none else t.get k' := by
  apply Option.ext
  intro w
  by_cases hk : k' = k
  · simp [get_eq_some, hk]
  · simp [get_eq_some, hk]

theorem Reordered.get {t t' : Table κ ν} (h : t.Reordered t') (k : κ) : t'.get k = t.get k := by
  apply Option.ext
  intro w
  rw [get_eq_some, get_eq_some]
  exact h.mem_iff.symm

/-- What all entries come to, when only that of one key counts. -/
theorem flat_map_get (t : Table κ ν) (k : κ) {f : κ × ν → List σ}
    (others : ∀ e ∈ t.entries, e.1 ≠ k → f e = []) :
    t.entries.flatMap f = ((t.get k).map (fun v => f (k, v))).getD [] := by
  obtain ⟨entries, nodup⟩ := t
  unfold get
  induction entries with
  | nil => rfl
  | cons e rest ih =>
    obtain ⟨k', v'⟩ := e
    rw [List.map_cons, List.nodup_cons] at nodup
    have later := ih nodup.2 (fun e he => others e (List.mem_cons_of_mem _ he))
    rw [List.flatMap_cons, later, List.lookup_cons]
    by_cases hk : k = k'
    · subst hk
      have absent : rest.lookup k = none := by
        rw [List.lookup_eq_none_iff]
        intro e he
        have hne : k ≠ e.1 := fun heq => nodup.1 (List.mem_map.mpr ⟨e, he, heq.symm⟩)
        simpa using hne
      simp [absent]
    · have hb : (k == k') = false := by simp [hk]
      rw [others (k', v') List.mem_cons_self (Ne.symm hk), hb]
      rfl

end

end Table

end Theta.Lib
