import Theta.Lib.Ledger
import Theta.Proofs.Slots

namespace Theta.SlotMap
open Lib

/-- What the function returns at each slot that holds a value, in the order of its visits. -/
def visits (func : T → Act σ ε (T × Bool)) : List (Option T) → σ → List (Option (T × Bool))
  | [], _ => []
  | none :: rest, s => none :: visits func rest s
  | some val :: rest, s =>
    match func val s with
    | (.ok r, t) => some r :: visits func rest t
    | _ => []

/-- The verdict on the value of a key. -/
def verdict (m : SlotMap T) (func : T → Act σ ε (T × Bool)) (s : σ) (key : SlotMapKey) :
    Option (T × Bool) :=
  (visits func m.values s)[key.index.toNat]?.join

/-- Calls of a slot map that all returned, with the keys given out and what they stand for. -/
inductive History : SlotMap T → Ledger SlotMapKey T → Prop where
  | new : History {} {}
  | add (ε : Type) (m m' : SlotMap T) (l : Ledger SlotMapKey T) (value : SlotMapKey → T)
      (key : SlotMapKey) (before : History m l)
      (h : (m.add (fun key => some (value key)) : Outcome ε _) = .ok (key, m')) :
      History m' (l.issue key (value key))
  | getMut (m : SlotMap T) (l : Ledger SlotMapKey T) (key : SlotMapKey) (func : T → T)
      (before : History m l) : History (m.getMut key func) (l.change key func)
  | remove (ε : Type) (m m' : SlotMap T) (l : Ledger SlotMapKey T) (key : SlotMapKey)
      (value : Option T) (before : History m l)
      (h : (m.remove key : Outcome ε _) = .ok (value, m')) : History m' (l.drop key)
  | retain (σ ε : Type) (m m' : SlotMap T) (l : Ledger SlotMapKey T)
      (func : T → Act σ ε (T × Bool)) (s t : σ) (before : History m l)
      (h : m.retainIf func s = (.ok m', t)) : History m' (l.judge (m.verdict func s))
  | clear (m : SlotMap T) (l : Ledger SlotMapKey T) (before : History m l) :
      History m.clear l.clear

section
variable {σ ε T : Type} {m m' : SlotMap T} {l : Ledger SlotMapKey T}

theorem get_eq (m : SlotMap T) (key : SlotMapKey) :
    m.get key = if m.generations[key.index.toNat]? = some key.generation then
      m.values[key.index.toNat]?.join else none := by
  unfold get
  rcases m.values[key.index.toNat]? with _ | _ | v
  · simp
  · simp
  · rfl

/-- The values that a visit leaves are what the verdicts leave of them. -/
theorem retain_loop_visits {func : T → Act σ ε (T × Bool)} {i : Nat}
    {values values' : List (Option T)} {freed : List U32} {s t : σ}
    (h : retainLoop func i values s = (.ok (values', freed), t)) :
    values' = (visits func values s).map Ledger.sentence ∧
      (visits func values s).map Option.isSome = values.map Option.isSome := by
  induction values generalizing i values' freed s t with
  | nil =>
    cases h
    exact ⟨rfl, rfl⟩
  | cons o rest ih =>
    cases o with
    | none =>
      rcases hr : retainLoop func (i + 1) rest s with ⟨r, u⟩
      simp only [retainLoop, Act.bind_apply, hr] at h
      cases r with
      | err e => cases h
      | panic => cases h
      | ok r =>
        cases h
        obtain ⟨hvalues, hsome⟩ := ih hr
        rw [visits, List.map_cons, List.map_cons, List.map_cons, hsome, ← hvalues]
        exact ⟨rfl, rfl⟩
    | some v =>
      rcases hv : func v s with ⟨r, s1⟩
      cases r with
      | err e => simp [retainLoop, Act.bind_apply, hv] at h
      | panic => simp [retainLoop, Act.bind_apply, hv] at h
      | ok r =>
        obtain ⟨w, drop⟩ := r
        rcases hr : retainLoop func (i + 1) rest s1 with ⟨r, u⟩
        simp only [retainLoop, Act.bind_apply, hv, hr] at h
        cases r with
        | err e => cases h
        | panic => cases h
        | ok r =>
          obtain ⟨hvalues, hsome⟩ := ih hr
          simp only [visits, hv, List.map_cons, hsome, ← hvalues, Option.isSome_some, and_true]
          cases drop with
          | false =>
            cases h
            rfl
          | true =>
            cases h
            rfl

/-- A visited map finds what the verdicts leave. -/
theorem get_retain {func : T → Act σ ε (T × Bool)} {s t : σ}
    (h : m.retainIf func s = (.ok m', t)) (key : SlotMapKey) :
    m'.get key = (m.get key).bind (fun _ => Ledger.sentence (m.verdict func s key)) := by
  rcases hr : retainLoop func 0 m.values s with ⟨r, u⟩
  simp only [retainIf, Act.bind_apply, hr] at h
  cases r with
  | err e => cases h
  | panic => cases h
  | ok r =>
    cases h
    obtain ⟨hvalues, hsome⟩ := retain_loop_visits hr
    have hslot := congrArg (fun l => l[key.index.toNat]?) hsome
    simp only [List.getElem?_map] at hslot
    rw [get_eq, get_eq, verdict, hvalues, List.getElem?_map]
    generalize m.values[key.index.toNat]? = old at hslot ⊢
    generalize (visits func m.values s)[key.index.toNat]? = new at hslot ⊢
    split
    · rcases old with _ | _ | v <;> rcases new with _ | _ | r <;> simp_all [Ledger.sentence]
    · rfl

theorem get_get_mut (m : SlotMap T) (key k : SlotMapKey) (func : T → T) :
    (m.getMut key func).get k = if k = key then (m.get key).map func else m.get k := by
  unfold getMut
  cases hget : m.get key with
  | none =>
    by_cases hk : k = key
    · simp only [hk, hget, ↓reduceIte, Option.map_none]
    · simp only [hk, ↓reduceIte]
  | some v =>
    obtain ⟨hvalue, hgen⟩ := get_eq_some.mp hget
    have hlt := (List.getElem?_eq_some_iff.mp hvalue).1
    by_cases hk : k = key
    · subst hk
      simp [get_eq, hgen, hlt]
    · rw [if_neg hk, get_eq, get_eq]
      by_cases hgen' : m.generations[k.index.toNat]? = some k.generation
      · have hne : key.index.toNat ≠ k.index.toNat := by
          intro he
          rw [← he, hgen, Option.some.injEq] at hgen'
          exact hk (key_ext he.symm hgen'.symm)
        rw [if_pos hgen', if_pos hgen', List.getElem?_set_ne hne]
      · rw [if_neg hgen', if_neg hgen']

theorem get_mut_generations (m : SlotMap T) (key : SlotMapKey) (func : T → T) :
    (m.getMut key func).generations = m.generations := by
  unfold getMut
  split <;> rfl

theorem get_mut_healthy (healthy : Healthy m) (key : SlotMapKey) (func : T → T) :
    Healthy (m.getMut key func) := by
  unfold getMut
  cases hget : m.get key with
  | none => exact healthy
  | some v =>
    obtain ⟨hvalue, _⟩ := get_eq_some.mp hget
    refine ⟨?_, healthy.free_nodup, fun slot hslot => ?_⟩
    · rw [List.length_set]
      exact healthy.covered
    · have hempty := healthy.free_empty slot hslot
      have hne : key.index.toNat ≠ slot.toNat := by
        intro he
        rw [he, hempty] at hvalue
        cases hvalue
      rw [List.getElem?_set_ne hne]
      exact hempty

/-- A slot map is a store that keeps its ledger, as long as its slots fit their indices. -/
theorem History.keeps (h : History m l) (fits : m.Fits) :
    m.Healthy ∧ l.Keeps m.get (Spent m) := by
  induction h with
  | new => exact ⟨healthy_empty, fun _ => rfl, fun _ hk => absurd hk List.not_mem_nil, .nil⟩
  | add ε m m' l value key before h ih =>
    obtain ⟨healthy, keeps⟩ := ih (Nat.le_trans (add_generations_le h) fits)
    exact ⟨add_healthy healthy h, keeps.issue (add_fresh healthy fits h) (fun _ => add_spent h)
      (add_spent_new healthy fits h) (fun _ => get_add healthy fits h)⟩
  | getMut m l key func before ih =>
    have same := get_mut_generations m key func
    have before : m.Fits := by
      unfold Fits at fits ⊢
      rwa [same] at fits
    obtain ⟨healthy, keeps⟩ := ih before
    refine ⟨get_mut_healthy healthy key func,
      keeps.same rfl (fun _ hk => hk.same same) (fun k => ?_)⟩
    rw [get_get_mut, keeps.found, keeps.found]
    rfl
  | remove ε m m' l key value before h ih =>
    have same := (remove_cases h).2.1
    have before : m.Fits := by
      unfold Fits at fits ⊢
      rwa [same] at fits
    obtain ⟨healthy, keeps⟩ := ih before
    refine ⟨remove_healthy healthy h, keeps.same rfl (fun _ hk => hk.same same) (fun k => ?_)⟩
    rw [get_remove h, keeps.found]
    rfl
  | retain σ ε m m' l func s t before h ih =>
    have same := retain_generations h
    have before : m.Fits := by
      unfold Fits at fits ⊢
      rwa [same] at fits
    obtain ⟨healthy, keeps⟩ := ih before
    have cases := retain_cases (Q := fun _ _ => True) (fun _ _ _ _ _ => trivial) healthy before h
    refine ⟨cases.1, keeps.same rfl (fun _ hk => hk.same same) (fun k => ?_)⟩
    rw [get_retain h, keeps.found]
    rfl
  | clear m l before ih =>
    obtain ⟨healthy, keeps⟩ := ih fits
    refine ⟨clear_healthy, keeps.same rfl (fun _ hk => hk.same rfl) (fun k => ?_)⟩
    simp [get_eq, SlotMap.clear, Ledger.clear]

/-- The keys given out are all different, and each of them gets, and gives back when it is removed,
the value that was stored under it until the value is gone. -/
theorem keys_never_reused (history : History m l) (fits : m.Fits) :
    l.issued.Nodup ∧ ∀ key ∈ l.issued,
      m.get key = l.holds key ∧
        ∃ m', (m.remove key : Outcome Unit _) = .ok (l.holds key, m') := by
  obtain ⟨_, keeps⟩ := history.keeps fits
  refine ⟨keeps.distinct, fun key hkey => ⟨keeps.found key, ?_⟩⟩
  obtain ⟨g, hg, _⟩ := keeps.used key hkey
  cases hremove : (m.remove key : Outcome Unit _) with
  | ok r =>
    obtain ⟨value, m'⟩ := r
    rw [(remove_cases hremove).1, keeps.found]
    exact ⟨m', rfl⟩
  | err e => exact absurd hremove (remove_ne_err m key e)
  | panic =>
    exfalso
    revert hremove
    unfold remove
    rw [hg]
    dsimp only
    split
    · simp
    · split <;> simp

/-- A key that is given out after a removal and after a clearing is a new one each time. -/
theorem keys_never_reused_cleared :
    ∃ (m : SlotMap Nat) (l : Ledger SlotMapKey Nat),
      l.issued = [⟨0, 2⟩, ⟨0, 1⟩, ⟨0, 0⟩] ∧ m.Fits ∧
      l.issued.Nodup ∧ ∀ key ∈ l.issued,
        m.get key = l.holds key ∧
          ∃ m', (m.remove key : Outcome Unit _) = .ok (l.holds key, m') := by
  have first := History.add Unit {} ⟨[some 7], [0], []⟩ {} (fun _ => 7) ⟨0, 0⟩ .new rfl
  have removed := History.remove Unit _ ⟨[none], [0], [0]⟩ _ ⟨0, 0⟩ (some 7) first rfl
  have second := History.add Unit _ ⟨[some 8], [1], []⟩ _ (fun _ => 8) ⟨0, 1⟩ removed rfl
  have third := History.add Unit _ ⟨[some 9], [2], []⟩ _ (fun _ => 9) ⟨0, 2⟩ (.clear _ _ second) rfl
  have fits : Fits (⟨[some 9], [2], []⟩ : SlotMap Nat) := by simp [Fits]
  exact ⟨_, _, rfl, fits, keys_never_reused third fits⟩

end

end Theta.SlotMap
