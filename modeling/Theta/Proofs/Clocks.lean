import Theta.Proofs.Accounting

namespace Theta
open Lib

/-- The slot that the next `add` fills. -/
def SlotMap.place (m : SlotMap T) : Nat :=
  match m.freeSlots with
  | slot :: _ => slot.toNat
  | [] => m.values.length

namespace PacketResender

/-- The time that has passed in each slot since its packet was last sent, counted exactly. -/
def elapsedAfter (elapsed : Nat → Nat) (r : PacketResender) : Call σ → Nat → Nat
  | .add payload resendInterval resendAttempts =>
    match r.addNew payload resendInterval resendAttempts with
    | .ok _ => fun i => if i = r.packets.place then 0 else elapsed i
    | _ => elapsed
  | .update delta _ _ => fun i =>
    if i ∈ (r.emissions delta).map Prod.fst then 0 else elapsed i + delta.toNat
  | _ => elapsed

/-- A resender beside an exact clock; a call that panics leaves the resender as it was. -/
def timed (s : PacketResender × (Nat → Nat)) (c : Call σ) :
    Option (PacketResender × (Nat → Nat)) :=
  some ((s.1.call c).getD s.1, elapsedAfter s.2 s.1 c)

/-- A tick returns, and its callback gets those packets with an attempt left whose exact time since
their last sending has reached the interval. -/
def OnTime (s : PacketResender × (Nat → Nat)) : Call σ → Prop
  | .update delta func state =>
    (∃ r', s.1.updateWith delta func state =
      (.ok r', (s.1.emissions delta).foldl (fun state e => func e.2 state) state)) ∧
    ∀ i packet, s.1.packets.values[i]? = some (some packet) → packet.resendAttempts ≠ 0 →
      (i ∈ (s.1.emissions delta).map Prod.fst ↔
        packet.resendInterval.toNat ≤ s.2 i + delta.toNat)
  | _ => True

/-- The exact time since the last sending of each packet stays below the `u32` limit. -/
def Lasts (s : PacketResender × (Nat → Nat)) : Call σ → Prop
  | .update delta _ _ => ∀ i packet, s.1.packets.values[i]? = some (some packet) →
      s.2 i + delta.toNat < 2 ^ 32
  | _ => True

/-- The clock of every packet is exact. -/
def Exact (s : PacketResender × (Nat → Nat)) : Prop :=
  ∀ i packet, s.1.packets.values[i]? = some (some packet) → packet.currentTime.toNat = s.2 i

section
variable {σ : Type} {r r' : PacketResender} {elapsed : Nat → Nat} {delta : U32}

theorem in_time_iff : r.inTime delta = true ↔
    ∀ (i : Nat) (packet : ReliableBufferedPacket), r.packets.values[i]? = some (some packet) →
      packet.inTime delta = true := by
  unfold inTime
  rw [List.all_eq_true]
  constructor
  · intro h i packet hslot
    simpa using h _ (List.mem_of_getElem? hslot)
  · intro h x hx
    obtain ⟨i, hi⟩ := List.mem_iff_getElem?.mp hx
    cases x with
    | none => rfl
    | some packet => exact h i packet hi

/-- A tick sends from the slots whose packets are due and have an attempt left. -/
theorem mem_emissions (time : r.inTime delta = true) {i : Nat} :
    i ∈ (r.emissions delta).map Prod.fst ↔ ∃ packet, r.packets.values[i]? = some (some packet) ∧
      packet.due delta = true ∧ packet.resendAttempts ≠ 0 := by
  unfold emissions emittedFrom
  simp only [List.mem_map, List.mem_filter, decide_eq_true_eq]
  constructor
  · rintro ⟨_, ⟨⟨j, packet⟩, ⟨hmem, hne⟩, rfl⟩, rfl⟩
    obtain ⟨_, hslot, hdue, _⟩ := due_from_slot hmem
    exact ⟨packet, hslot, hdue, hne⟩
  · rintro ⟨packet, hslot, hdue, hne⟩
    have hmem := mem_due_from (i := 0) time hslot hdue
    rw [Nat.zero_add] at hmem
    exact ⟨_, ⟨_, ⟨hmem, hne⟩, rfl⟩, rfl⟩

theorem ticked_value {i : Nat} {packet : ReliableBufferedPacket}
    (h : (r.ticked delta).packets.values[i]? = some (some packet)) :
    ∃ before, r.packets.values[i]? = some (some before) ∧ expires before delta = false ∧
      packet = before.ticked delta := by
  simp only [ticked, List.getElem?_map, Option.map_eq_some_iff] at h
  obtain ⟨x, hslot, hleft⟩ := h
  obtain ⟨before, rfl, hkept⟩ := Option.bind_eq_some_iff.mp hleft
  split at hkept
  · cases hkept
  · rename_i hexp
    exact ⟨before, hslot, by simpa using hexp, by simpa using hkept.symm⟩

/-- A packet that is due and is kept has gone out again. -/
theorem Exact.ticked (exact : Exact (r, elapsed)) (time : r.inTime delta = true) :
    Exact (r.ticked delta, fun i =>
      if i ∈ (r.emissions delta).map Prod.fst then 0 else elapsed i + delta.toNat) := by
  intro i packet hslot
  obtain ⟨before, hbefore, kept, rfl⟩ := ticked_value hslot
  have hclock : before.currentTime.toNat = elapsed i := exact i before hbefore
  have hin : before.inTime delta = true := in_time_iff.mp time i before hbefore
  have hsum : before.currentTime.toNat + delta.toNat < 2 ^ 32 := by
    simpa [ReliableBufferedPacket.inTime] using hin
  dsimp only
  by_cases hdue : before.due delta = true
  · have hne : before.resendAttempts ≠ 0 := by
      intro zero
      rw [expires, ← ReliableBufferedPacket.due, hdue, zero] at kept
      cases kept
    rw [if_pos ((mem_emissions time).mpr ⟨before, hbefore, hdue, hne⟩),
      ReliableBufferedPacket.ticked, if_pos hdue]
    rfl
  · have hnot : i ∉ (r.emissions delta).map Prod.fst := by
      rw [mem_emissions time]
      rintro ⟨packet, hpacket, due, _⟩
      rw [hbefore] at hpacket
      cases hpacket
      exact hdue due
    rw [if_neg hnot, ReliableBufferedPacket.ticked, if_neg hdue, BitVec.toNat_add,
      Nat.mod_eq_of_lt hsum, hclock]

theorem add_place {m m' : SlotMap T} {value : SlotMapKey → Option T} {key : SlotMapKey} {i : Nat}
    {x : T} (h : (m.add value : Outcome ε _) = .ok (key, m')) (hslot : m'.values[i]? = some (some x)) :
    (i = m.place ∧ value key = some x) ∨ (i ≠ m.place ∧ m.values[i]? = some (some x)) := by
  have appended {v : Option T} (hslot : (m.values ++ [v])[i]? = some (some x)) :
      (i = m.values.length ∧ v = some x) ∨
        (i ≠ m.values.length ∧ m.values[i]? = some (some x)) := by
    by_cases he : m.values.length = i
    · subst he
      rw [List.getElem?_concat_length, Option.some.injEq] at hslot
      exact Or.inl ⟨rfl, hslot⟩
    · exact Or.inr ⟨Ne.symm he, (SlotMap.concat_other he).mp hslot⟩
  unfold SlotMap.place
  rcases SlotMap.add_cases h with ⟨rest, _, hfree, _, _, hlt, rfl⟩ | ⟨hfree, _, _, rfl⟩ |
    ⟨hfree, _, _, _, _, rfl⟩
  · rw [hfree]
    by_cases he : key.index.toNat = i
    · subst he
      rw [List.getElem?_set_self hlt, Option.some.injEq] at hslot
      exact Or.inl ⟨rfl, hslot⟩
    · rw [List.getElem?_set_ne he] at hslot
      exact Or.inr ⟨Ne.symm he, hslot⟩
  · rw [hfree]
    exact appended hslot
  · rw [hfree]
    exact appended hslot

/-- The clocks stay exact as long as none of them runs over. -/
theorem Exact.timed {s s' : PacketResender × (Nat → Nat)} {c : Call σ} (exact : Exact s)
    (h : timed s c = some s') (onTime : OnTime s c) : Exact s' := by
  obtain ⟨r, elapsed⟩ := s
  obtain rfl := Option.some.inj h
  cases c with
  | raiseCapacity more => exact exact
  | add payload resendInterval resendAttempts =>
    unfold call elapsedAfter
    cases hadd : r.addNew payload resendInterval resendAttempts with
    | ok result =>
      obtain ⟨key, r'⟩ := result
      simp only [hadd, Option.getD_some]
      intro i packet hslot
      dsimp only
      rcases add_place (add_ok hadd).2.2 hslot with ⟨rfl, hnew⟩ | ⟨hne, hold⟩
      · rw [if_pos rfl]
        cases hnew
        rfl
      · rw [if_neg hne]
        exact exact i packet hold
    | err e =>
      simp only [hadd, Option.getD_some]
      exact exact
    | panic =>
      simp only [hadd, Option.getD_none]
      exact exact
  | remove id =>
    change Exact ((((r.remove id : Outcome Unit _).toOption).map Prod.snd).getD r, elapsed)
    cases hremove : (r.remove id : Outcome Unit _) with
    | ok result =>
      obtain ⟨gone, r'⟩ := result
      intro i packet hslot
      change r'.packets.values[i]? = some (some packet) at hslot
      refine exact i packet ?_
      obtain ⟨_, _, ⟨_, hsame⟩ | ⟨_, _, hvalues, _⟩⟩ := SlotMap.remove_cases (remove_ok hremove).2
      · rwa [← hsame]
      · rw [hvalues] at hslot
        by_cases he : id.index.toNat = i
        · subst he
          rw [List.getElem?_set_self', Option.map_eq_map, Option.map_eq_some_iff] at hslot
          obtain ⟨_, _, hc⟩ := hslot
          cases hc
        · rwa [List.getElem?_set_ne he] at hslot
    | err e => exact exact
    | panic => exact exact
  | update delta func state =>
    obtain ⟨⟨r', hupdate⟩, _⟩ := onTime
    have hreturn := hupdate
    rw [update_with] at hupdate
    by_cases time : r.inTime delta = true
    · rw [if_pos time] at hupdate
      cases hupdate
      change Exact ((r.updateWith delta func state).1.toOption.getD r, _)
      rw [hreturn]
      exact exact.ticked time
    · rw [if_neg time] at hupdate
      cases hupdate
  | clear =>
    intro i packet hslot
    cases hslot

theorem Exact.on_time_iff {s : PacketResender × (Nat → Nat)} (exact : Exact s) (c : Call σ) :
    OnTime s c ↔ Lasts s c := by
  cases c with
  | update delta func state =>
    have hlasts : Lasts s (.update delta func state : Call σ) ↔ s.1.inTime delta = true := by
      rw [in_time_iff, Lasts]
      refine forall_congr' (fun i => forall_congr' (fun packet => forall_congr' (fun hslot => ?_)))
      rw [ReliableBufferedPacket.inTime, decide_eq_true_eq, exact i packet hslot]
    rw [hlasts, OnTime, update_with]
    constructor
    · rintro ⟨⟨r', hreturn⟩, _⟩
      by_contra time
      rw [if_neg time] at hreturn
      cases hreturn
    · intro time
      refine ⟨⟨_, by rw [if_pos time]⟩, ?_⟩
      intro i packet hslot hne
      have hdue := ReliableBufferedPacket.due_iff (in_time_iff.mp time i packet hslot)
      rw [exact i packet hslot] at hdue
      rw [mem_emissions time, ← hdue]
      constructor
      · rintro ⟨_, hsame, due, _⟩
        rw [hslot] at hsame
        cases hsame
        exact due
      · exact fun due => ⟨packet, hslot, due, hne⟩
  | _ => exact Iff.rfl

/-- Along any sequence of calls every packet goes out again exactly on time, and no tick panics, as
long as, and only as long as, no exact time since a sending reaches the limit of the clocks. -/
theorem calls_on_time_iff (calls : List (Call σ)) :
    AtEach timed (fun s c _ => OnTime s c) calls ({}, fun _ => 0) ↔
      AtEach timed (fun s c _ => Lasts s c) calls ({}, fun _ => 0) := by
  apply at_each_iff (I := Exact)
  · intro s c s' exact h
    exact ⟨exact.on_time_iff c, exact.timed h⟩
  · intro i packet hslot
    cases hslot

/-- A packet with the longest interval outlasts its clock. -/
theorem long_interval_overflows :
    ¬ AtEach timed (fun s c _ => OnTime s c)
      ([.raiseCapacity 1, .add (fun _ => [7]) (-1) 5, .update (-2) (fun _ => id) (),
        .update 2 (fun _ => id) ()] : List (Call Unit)) ({}, fun _ => 0) := by
  rintro ⟨_, _, _, ⟨⟨r', hreturn⟩, _⟩, _⟩
  cases hreturn

end

end PacketResender

end Theta
