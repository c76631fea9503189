import Mathlib.Data.Nat.ModEq
import Theta.Lib.Sequencer
import Theta.Net.Ordering

namespace Theta.PacketOrderer
open Lib

/-- The ring's start lies in it, and the ring is no longer than a vector may be. -/
structure Sound (o : PacketOrderer) : Prop where
  start : o.dequeStart = 0 ∨ o.dequeStart < o.vec.length
  length : o.vec.length ≤ maxVecLen

/-- The packets held, from the next expected one on. -/
def window (o : PacketOrderer) : List (Option Bytes) := o.vec.rotate o.dequeStart

/-- The orderer as a sequencer: a packet is held under its order. -/
def view (o : PacketOrderer) : Sequencer Bytes where
  next := o.orderStart
  held n := if o.orderStart ≤ n then o.window[n - o.orderStart]?.join else none

theorem new_sound {capacity : Nat} : (new capacity).Sound := ⟨Or.inl rfl, Nat.zero_le _⟩

theorem new_view {capacity : Nat} : (new capacity).view = Sequencer.empty := by
  simp [view, new, window, Sequencer.empty]

theorem window_length (o : PacketOrderer) : o.window.length = o.vec.length :=
  List.length_rotate ..

theorem window_get {o : PacketOrderer} {i : Nat} (hi : i < o.vec.length) :
    o.window[i]? = o.vec[(o.dequeStart + i) % o.vec.length]? := by
  rw [window, List.getElem?_rotate hi, Nat.add_comm]

theorem held_next (o : PacketOrderer) : o.view.held o.orderStart = o.window[0]?.join := by
  simp [view]

theorem flatten_window {o : PacketOrderer} (hs : o.Sound) :
    o.flatten.window = o.window ∧ o.flatten.dequeStart = 0 ∧
      o.flatten.orderStart = o.orderStart ∧ o.flatten.capacity = o.capacity ∧
      o.flatten.vec.length = o.vec.length := by
  unfold flatten
  split
  · rename_i h
    exact ⟨rfl, h, rfl, rfl, rfl⟩
  · rename_i h
    have hlt : o.dequeStart < o.vec.length := by
      rcases hs.start with h0 | hlt
      · exact absurd h0 h
      · exact hlt
    refine ⟨?_, rfl, rfl, rfl, ?_⟩
    · simp only [window, List.rotate_zero]
      rw [List.rotate_eq_drop_append_take (Nat.le_of_lt hlt)]
    · simp only [List.length_append, List.length_drop, List.length_take]
      omega

/-- A push panics only where the ring would outgrow memory. -/
theorem push_returns {o : PacketOrderer} {order : Nat} {packet : Bytes}
    (h : o.distance order < maxVecLen ∨ o.capacity ≤ o.distance order) :
    o.push order packet ≠ .panic := by
  simp only [push, grow]
  split
  · simp
  split
  · split
    · omega
    · simp
  · simp

/-- Growing appends empty places to the window. -/
theorem grow_window {o o' : PacketOrderer} {dist : Nat} (hs : o.Sound)
    (h : o.grow dist = .ok o') :
    o'.Sound ∧ o'.vec.length = max o.vec.length (dist + 1) ∧ o'.orderStart = o.orderStart ∧
      o'.capacity = o.capacity ∧ ∃ k, o'.window = o.window ++ List.replicate k none := by
  unfold grow at h
  split at h
  · split at h
    · cases h
    · rename_i hge hmax
      obtain ⟨hw, hd, ho, hc, hl⟩ := flatten_window hs
      cases h
      refine ⟨⟨Or.inl hd, ?_⟩, ?_, ho, hc, dist + 1 - o.flatten.vec.length, ?_⟩
      · simp only [List.length_append, List.length_replicate]
        omega
      · simp only [List.length_append, List.length_replicate]
        omega
      · simp only [window, hd, List.rotate_zero] at hw ⊢
        rw [hw]
  · rename_i hlt
    cases h
    exact ⟨hs, by omega, rfl, rfl, 0, by simp⟩

/-- Writing at a distance from the start writes at that place of the window. -/
theorem set_window {o : PacketOrderer} {i : Nat} {x : Option Bytes} (hi : i < o.vec.length)
    (hs : o.Sound) :
    ({ o with vec := o.vec.set ((o.dequeStart + i) % o.vec.length) x } : PacketOrderer).window =
      o.window.set i x := by
  have hpos : 0 < o.vec.length := by omega
  have hd : o.dequeStart < o.vec.length := by
    rcases hs.start with h0 | h
    · omega
    · exact h
  apply List.ext_getElem?
  intro j
  by_cases hj : j < o.vec.length
  · rw [window_get (by simpa using hj)]
    simp only [List.length_set]
    have hmod : (o.dequeStart + i) % o.vec.length < o.vec.length := Nat.mod_lt _ hpos
    by_cases he : i = j
    · subst he
      rw [List.getElem?_set_self hmod, List.getElem?_set_self (by simpa [window_length] using hi)]
    · have hne : (o.dequeStart + i) % o.vec.length ≠ (o.dequeStart + j) % o.vec.length := by
        intro hm
        apply he
        have hm' : i % o.vec.length = j % o.vec.length := Nat.ModEq.add_left_cancel' _ hm
        rwa [Nat.mod_eq_of_lt hi, Nat.mod_eq_of_lt hj] at hm'
      rw [List.getElem?_set_ne hne, List.getElem?_set_ne he, window_get hj]
  · rw [List.getElem?_eq_none, List.getElem?_eq_none]
    · rw [List.length_set, window_length]
      omega
    · rw [window_length, List.length_set]
      omega

theorem padded_join {w : List (Option Bytes)} {k i : Nat} :
    (w ++ List.replicate k none)[i]?.join = w[i]?.join := by
  by_cases hi : i < w.length
  · rw [List.getElem?_append_left hi]
  · rw [List.getElem?_append_right (by omega), List.getElem?_eq_none (Nat.le_of_not_lt hi)]
    rw [List.getElem?_replicate]
    split <;> rfl

/-- An accepted packet is written at its distance into the window, which grows by empty places
when it has to. -/
theorem push_window {o o' : PacketOrderer} {order : Nat} {x : Bytes} (hs : o.Sound)
    (h : o.push order x = .ok o') :
    o'.Sound ∧ o'.capacity = o.capacity ∧ o'.orderStart = o.orderStart ∧
      o.distance order < o.capacity ∧
      o'.vec.length = max o.vec.length (o.distance order + 1) ∧
      ∃ k, o.distance order < (o.window ++ List.replicate k none).length ∧
        o'.window = (o.window ++ List.replicate k none).set (o.distance order) (some x) := by
  have hmax : maxVecLen < 2 ^ 59 := by decide
  have husize : usizeModulus = 2 ^ 64 := rfl
  simp only [push] at h
  split at h
  · cases h
  rename_i hcapacity
  rw [Outcome.bind_ok] at h
  obtain ⟨g, hg, h⟩ := h
  obtain ⟨hgs, hlength, hstart, hcap, k, hw⟩ := grow_window hs hg
  have hlen := hgs.length
  have hlt : o.distance order < g.vec.length := by omega
  have hg0 : g.dequeStart < g.vec.length := by
    rcases hgs.start with h0 | h0 <;> omega
  rw [Nat.mod_eq_of_lt (show g.dequeStart + o.distance order < usizeModulus by omega)] at h
  cases h
  refine ⟨⟨?_, ?_⟩, hcap, hstart, by omega, ?_, k, ?_, ?_⟩
  · simpa using hgs.start
  · simpa using hlen
  · rw [List.length_set, hlength]
  · rw [← hw, window_length]
    exact hlt
  · rw [set_window hlt hgs, hw]

/-- An accepted packet is held under its order. An order before the next one
expected is too far away by the wrapped difference. -/
theorem push_view {o o' : PacketOrderer} {order : Nat} {x : Bytes} (hs : o.Sound)
    (hn : o.orderStart ≤ 2 ^ 32) (ho : order < 2 ^ 32) (h : o.push order x = .ok o') :
    o'.Sound ∧ o'.capacity = o.capacity ∧ o'.orderStart = o.orderStart ∧
      o'.view = o.view.accept order x := by
  have hmax : maxVecLen < 2 ^ 59 := by decide
  have husize : usizeModulus = 2 ^ 64 := rfl
  obtain ⟨hs', hcap, hstart, _, hlength, k, hlt, hw⟩ := push_window hs h
  have hlen := hs'.length
  have hle : o.orderStart ≤ order := by
    by_contra hc
    have hd : o.distance order = order + 2 ^ 64 - o.orderStart := by
      rw [distance, husize, Nat.mod_eq_of_lt (by omega)]
    omega
  have hd : o.distance order = order - o.orderStart := by
    rw [distance, husize, show order + 2 ^ 64 - o.orderStart = order - o.orderStart + 2 ^ 64 by
      omega, Nat.add_mod_right, Nat.mod_eq_of_lt (by omega)]
  refine ⟨hs', hcap, hstart, ?_⟩
  simp only [view, hw, hstart, Sequencer.accept, Sequencer.mk.injEq, true_and]
  funext n
  rw [Function.update_apply]
  by_cases hn : n = order
  · rw [if_pos hn, if_pos (by omega), hn, ← hd, List.getElem?_set_self hlt]
    rfl
  · rw [if_neg hn]
    split
    · rw [List.getElem?_set_ne (by omega), padded_join]
    · rfl

theorem push_inside {o o' : PacketOrderer} {order : Nat} {x : Bytes} (hs : o.Sound)
    (h : o.push order x = .ok o') : o'.dequeStart < o'.vec.length := by
  obtain ⟨hs', _, _, _, hlength, _⟩ := push_window hs h
  rcases hs'.start with h0 | h0 <;> omega

/-- Only an order beyond the window is refused. -/
theorem push_ne_err {o : PacketOrderer} {order : Nat} {x : Bytes}
    (h : o.distance order < o.capacity) : ∀ e, o.push order x ≠ .err e := by
  have grow : ∀ e, o.grow (o.distance order) ≠ .err e := by
    unfold PacketOrderer.grow
    split
    · split <;> simp
    · simp
  simp only [push, if_neg (Nat.not_le_of_lt h)]
  exact Outcome.bind_ne_err grow (fun _ => by simp)

/-- The ring after its first packet was taken and handled. -/
def advance (o : PacketOrderer) : PacketOrderer :=
  { o with
    vec := o.vec.set o.dequeStart none
    orderStart := (o.orderStart + 1) % usizeModulus
    dequeStart := (o.dequeStart + 1) % (o.vec.set o.dequeStart none).length }

theorem head_held {o : PacketOrderer} {x : Bytes} (h : o.vec[o.dequeStart]? = some (some x)) :
    o.view.held o.view.next = some x := by
  have hlt := (List.getElem?_eq_some_iff.mp h).1
  change o.view.held o.orderStart = some x
  rw [held_next, window_get (by omega), Nat.add_zero, Nat.mod_eq_of_lt hlt, h]
  rfl

/-- The window moves by one place, and the place that comes around is empty. -/
theorem advance_window {o : PacketOrderer} {x : Bytes} (hs : o.Sound)
    (h : o.vec[o.dequeStart]? = some (some x)) :
    o.advance.Sound ∧ ∀ i, o.advance.window[i]?.join = o.window[i + 1]?.join := by
  have hlt := (List.getElem?_eq_some_iff.mp h).1
  have hpos : 0 < o.vec.length := by omega
  have hl : o.advance.vec.length = o.vec.length := by simp [advance]
  refine ⟨⟨Or.inr ?_, by simpa [advance] using hs.length⟩, fun i => ?_⟩
  · simp only [advance, List.length_set]
    exact Nat.mod_lt _ hpos
  by_cases hi : i < o.vec.length
  · rw [window_get (by omega), hl]
    simp only [advance, List.length_set]
    rw [Nat.mod_add_mod]
    by_cases hlast : i + 1 < o.vec.length
    · rw [window_get hlast, List.getElem?_set_ne, Nat.add_right_comm, Nat.add_assoc]
      intro he
      rcases Nat.lt_or_ge (o.dequeStart + 1 + i) o.vec.length with hw | hw
      · rw [Nat.mod_eq_of_lt hw] at he
        omega
      · rw [Nat.mod_eq_sub_mod hw, Nat.mod_eq_of_lt (by omega)] at he
        omega
    · have he : (o.dequeStart + 1 + i) % o.vec.length = o.dequeStart := by
        rw [show o.dequeStart + 1 + i = o.dequeStart + o.vec.length by omega, Nat.add_mod_right,
          Nat.mod_eq_of_lt hlt]
      rw [he, List.getElem?_set_self hlt, List.getElem?_eq_none (by rw [window_length]; omega)]
      rfl
  · rw [List.getElem?_eq_none (by rw [window_length, hl]; omega),
      List.getElem?_eq_none (by rw [window_length]; omega)]

theorem advance_view {o : PacketOrderer} {x : Bytes} (hs : o.Sound)
    (hn : o.orderStart + 1 < usizeModulus) (h : o.vec[o.dequeStart]? = some (some x)) :
    o.advance.Sound ∧ o.advance.view = o.view.advance := by
  obtain ⟨hs', hwin⟩ := advance_window hs h
  refine ⟨hs', ?_⟩
  have hnext : o.advance.orderStart = o.orderStart + 1 := Nat.mod_eq_of_lt hn
  simp only [view, Sequencer.advance, hnext, Sequencer.mk.injEq, true_and]
  funext n
  rw [Function.update_apply]
  rcases Nat.lt_trichotomy n o.orderStart with hc | hc | hc
  · rw [if_neg (by omega), if_neg (by omega), if_neg (by omega)]
  · rw [if_neg (by omega), if_pos hc]
  · rw [if_pos (by omega), if_neg (by omega), if_pos (by omega), hwin,
      show n - (o.orderStart + 1) + 1 = n - o.orderStart by omega]

/-- What every turn of `retain` keeps holds where `retain` ends: `I` while packets
are handled, `K` where one of them was not. -/
theorem retain_loop_ends {I : PacketOrderer → σ → Prop} {K : Outcome ε Unit → σ → Prop}
    {func : Bytes → Act σ ε Unit}
    (turn : ∀ o s x, I o s → o.vec[o.dequeStart]? = some (some x) →
      ((func x s).1 = .ok () → I o.advance (func x s).2) ∧
      ((func x s).1 ≠ .ok () → K (func x s).1 (func x s).2))
    (lost : ∀ o s, I o s → o.vec[o.dequeStart]? = none → K .panic s) {fuel : Nat} {o : PacketOrderer} {s : σ} (h : I o s) :
    ((retainLoop func fuel o s).1 = .ok () →
      I (retainLoop func fuel o s).2.1 (retainLoop func fuel o s).2.2) ∧
    ((retainLoop func fuel o s).1 ≠ .ok () →
      K (retainLoop func fuel o s).1 (retainLoop func fuel o s).2.2) := by
  induction fuel generalizing o s with
  | zero => exact ⟨fun _ => h, fun hne => absurd rfl hne⟩
  | succ fuel ih =>
    unfold retainLoop
    cases hv : o.vec[o.dequeStart]? with
    | none => exact ⟨fun he => (by cases he), fun _ => lost o s h hv⟩
    | some slot =>
      cases slot with
      | none => exact ⟨fun _ => h, fun hne => absurd rfl hne⟩
      | some x =>
        obtain ⟨hok, hstop⟩ := turn o s x h hv
        dsimp only
        rcases hf : func x s with ⟨r, s'⟩
        rw [hf] at hok hstop
        cases r with
        | ok u => exact ih (hok rfl)
        | err e => exact ⟨fun he => (by cases he), fun _ => hstop (by simp)⟩
        | panic => exact ⟨fun he => (by cases he), fun _ => hstop (by simp)⟩

theorem retain_ends {I : PacketOrderer → σ → Prop} {K : Outcome ε Unit → σ → Prop}
    (func : Bytes → Act σ ε Unit)
    (turn : ∀ o s x, I o s → o.vec[o.dequeStart]? = some (some x) →
      ((func x s).1 = .ok () → I o.advance (func x s).2) ∧
      ((func x s).1 ≠ .ok () → K (func x s).1 (func x s).2))
    (lost : ∀ o s, I o s → K .panic s) (o : PacketOrderer) {s : σ} (h : I o s) :
    ((retain func o s).1 = .ok () → I (retain func o s).2.1 (retain func o s).2.2) ∧
    ((retain func o s).1 ≠ .ok () → K (retain func o s).1 (retain func o s).2.2) :=
  retain_loop_ends turn (fun o s ho _ => lost o s ho) h

/-- A ring that has a place is never run past its end. -/
theorem retain_completes {I : PacketOrderer → σ → Prop} (func : Bytes → Act σ ε Unit)
    (turn : ∀ o s x, I o s → o.vec[o.dequeStart]? = some (some x) →
      (func x s).1 = .ok () ∧ I o.advance (func x s).2)
    (o : PacketOrderer) {s : σ} (inside : o.dequeStart < o.vec.length) (h : I o s) :
    (retain func o s).1 = .ok () ∧ I (retain func o s).2.1 (retain func o s).2.2 := by
  have turn' (o : PacketOrderer) (s : σ) (x : Bytes)
      (ho : I o s ∧ o.dequeStart < o.vec.length) (hx : o.vec[o.dequeStart]? = some (some x)) :
      ((func x s).1 = .ok () →
        I o.advance (func x s).2 ∧ o.advance.dequeStart < o.advance.vec.length) ∧
      ((func x s).1 ≠ .ok () → False) := by
    obtain ⟨hok, hadvance⟩ := turn o s x ho.1 hx
    refine ⟨fun _ => ⟨hadvance, ?_⟩, fun hne => absurd hok hne⟩
    simp only [advance, List.length_set]
    exact Nat.mod_lt _ (Nat.zero_lt_of_lt ho.2)
  have lost (o : PacketOrderer) (s : σ) (ho : I o s ∧ o.dequeStart < o.vec.length)
      (hnone : o.vec[o.dequeStart]? = none) : False := by
    rw [List.getElem?_eq_none_iff] at hnone
    omega
  have ends : ((retain func o s).1 = .ok () →
      I (retain func o s).2.1 (retain func o s).2.2 ∧
        (retain func o s).2.1.dequeStart < (retain func o s).2.1.vec.length) ∧
      ((retain func o s).1 ≠ .ok () → False) :=
    retain_loop_ends (I := fun o s => I o s ∧ o.dequeStart < o.vec.length)
      (K := fun _ _ => False) turn' lost ⟨h, inside⟩
  have hok : (retain func o s).1 = .ok () := by
    by_contra hne
    exact ends.2 hne
  exact ⟨hok, (ends.1 hok).1⟩

theorem retain_keeps {J : σ → Prop} {func : Bytes → Act σ ε Unit} (o : PacketOrderer) {s : σ}
    (turn : ∀ x t, J t → J (func x t).2) (h : J s) : J (retain func o s).2.2 := by
  have ends := retain_ends func (I := fun _ t => J t) (K := fun _ t => J t)
    (fun _ t x ht _ => ⟨fun _ => turn x t ht, fun _ => turn x t ht⟩) (fun _ _ ht => ht) o h
  by_cases hok : (retain func o s).1 = .ok ()
  · exact ends.1 hok
  · exact ends.2 hok

/-- The packets that `retain` would hand on if none of them failed. -/
def readyLoop : Nat → PacketOrderer → List Bytes
  | 0, _ => []
  | fuel + 1, o =>
    match o.vec[o.dequeStart]? with
    | some (some x) => x :: readyLoop fuel o.advance
    | _ => []

def ready (o : PacketOrderer) : List Bytes := readyLoop (o.vec.length + 1) o

/-- `retain` seen as a walk through the ready packets. -/
theorem retain_loop_ready {I : List Bytes → σ → Prop} {J : σ → Prop}
    {K : Outcome ε Unit → σ → Prop} {func : Bytes → Act σ ε Unit}
    (turn : ∀ x xs s, I (x :: xs) s → ((func x s).1 = .ok () → I xs (func x s).2) ∧
      ((func x s).1 ≠ .ok () → K (func x s).1 (func x s).2))
    (keep : ∀ xs s, I xs s → J s) (lost : ∀ s, J s → K .panic s) {fuel : Nat} {o : PacketOrderer}
    {s : σ} (h : I (readyLoop fuel o) s) :
    ((retainLoop func fuel o s).1 = .ok () → J (retainLoop func fuel o s).2.2) ∧
    ((retainLoop func fuel o s).1 ≠ .ok () →
      K (retainLoop func fuel o s).1 (retainLoop func fuel o s).2.2) := by
  induction fuel generalizing o s with
  | zero => exact ⟨fun _ => keep _ _ h, fun hne => absurd rfl hne⟩
  | succ fuel ih =>
    unfold readyLoop at h
    unfold retainLoop
    cases hv : o.vec[o.dequeStart]? with
    | none => exact ⟨fun he => (by cases he), fun _ => lost s (keep _ s h)⟩
    | some slot =>
      rw [hv] at h
      cases slot with
      | none => exact ⟨fun _ => keep _ _ h, fun hne => absurd rfl hne⟩
      | some x =>
        obtain ⟨hok, hstop⟩ := turn x _ s h
        dsimp only
        rcases hf : func x s with ⟨r, s'⟩
        rw [hf] at hok hstop
        cases r with
        | ok u => exact ih (hok rfl)
        | err e => exact ⟨fun he => (by cases he), fun _ => hstop (by simp)⟩
        | panic => exact ⟨fun he => (by cases he), fun _ => hstop (by simp)⟩

theorem retain_ready {I : List Bytes → σ → Prop} {J : σ → Prop}
    {K : Outcome ε Unit → σ → Prop} (func : Bytes → Act σ ε Unit)
    (turn : ∀ x xs s, I (x :: xs) s → ((func x s).1 = .ok () → I xs (func x s).2) ∧
      ((func x s).1 ≠ .ok () → K (func x s).1 (func x s).2))
    (keep : ∀ xs s, I xs s → J s) (lost : ∀ s, J s → K .panic s) (o : PacketOrderer)
    {s : σ} (h : I o.ready s) :
    ((retain func o s).1 = .ok () → J (retain func o s).2.2) ∧
    ((retain func o s).1 ≠ .ok () → K (retain func o s).1 (retain func o s).2.2) :=
  retain_loop_ready turn keep lost h

/-- An orderer that holds nothing takes its next packet into one slot. -/
theorem idle_push {vec : List (Option Bytes)} (idle : vec = [] ∨ vec = [none]) {i capacity : Nat}
    (room : capacity ≠ 0) (x : Bytes) :
    push ⟨vec, i, 0, capacity⟩ i x = .ok ⟨[some x], i, 0, capacity⟩ := by
  have hdist : distance ⟨vec, i, 0, capacity⟩ i = 0 := by
    simp only [distance]
    rw [Nat.add_sub_cancel_left, Nat.mod_self]
  rw [push, hdist, if_neg (by simpa using room)]
  rcases idle with rfl | rfl <;> rfl

/-- The only packet of an orderer is handed on, and the orderer is idle again. -/
theorem retain_single {func : Bytes → Act σ ε Unit} {x : Bytes} {i capacity : Nat} {s t : σ}
    (handled : func x s = (.ok (), t)) :
    retain func ⟨[some x], i, 0, capacity⟩ s =
      (.ok (), ⟨[none], (i + 1) % usizeModulus, 0, capacity⟩, t) := by
  simp [retain, retainLoop, handled]

/-- An orderer whose next packet is missing hands on nothing. -/
theorem retain_missing (func : Bytes → Act σ ε Unit) {o : PacketOrderer} {s : σ}
    (missing : o.view.held o.view.next = none) :
    (retain func o s).2.2 = s ∧
      ((retain func o s).1 = .ok () → (retain func o s).2.1 = o) := by
  unfold retain retainLoop
  cases hv : o.vec[o.dequeStart]? with
  | none => exact ⟨rfl, fun h => by cases h⟩
  | some slot =>
    cases slot with
    | none => exact ⟨rfl, fun _ => rfl⟩
    | some x =>
      rw [head_held hv] at missing
      cases missing

end Theta.PacketOrderer
