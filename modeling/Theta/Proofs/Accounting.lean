import Theta.Proofs.Emissions

namespace Theta.PacketResender
open Lib

/-- The calls of a resender, whose capacity only ever grows. What the callback of `update` does is
done to a state of its own. -/
inductive Call (σ : Type) where
  | raiseCapacity (more : Nat)
  | add (payload : SlotMapKey → Bytes) (resendInterval resendAttempts : U32)
  | remove (id : SlotMapKey)
  | update (delta : U32) (func : ReliableBufferedPacket → σ → σ) (s : σ)
  | clear

def clear (r : PacketResender) : PacketResender := { r with packets := r.packets.clear }

/-- `add` with the packet that the closure makes. -/
def addNew (r : PacketResender) (payload : SlotMapKey → Bytes)
    (resendInterval resendAttempts : U32) :
    Outcome PacketResenderError (SlotMapKey × PacketResender) :=
  r.add (fun key => .new (payload key) resendInterval resendAttempts)

/-- `update` with a callback that returns. -/
def updateWith (r : PacketResender) (delta : U32) (func : ReliableBufferedPacket → σ → σ) :
    Act σ Unit PacketResender :=
  r.update delta (fun packet => Act.modify (func packet))

/-- The resender after a call that returns. -/
def call (r : PacketResender) : Call σ → Option PacketResender
  | .raiseCapacity more => some { r with capacity := r.capacity + more }
  | .add payload resendInterval resendAttempts =>
    match r.addNew payload resendInterval resendAttempts with
    | .ok (_, r') => some r'
    | .err _ => some r
    | .panic => none
  | .remove id => ((r.remove id : Outcome Unit _).toOption).map Prod.snd
  | .update delta func s => (r.updateWith delta func s).1.toOption
  | .clear => some r.clear

/-- The keys that were issued, and how many of their packets are gone. -/
structure Tally where
  issued : List SlotMapKey := []
  gone : Nat := 0

/-- The tally after a call. -/
def Tally.after (t : Tally) (r : PacketResender) : Call σ → Tally
  | .raiseCapacity _ => t
  | .add payload resendInterval resendAttempts =>
    match r.addNew payload resendInterval resendAttempts with
    | .ok (key, _) => { t with issued := key :: t.issued }
    | _ => t
  | .remove id =>
    match (r.remove id : Outcome Unit _) with
    | .ok (some _, _) => { t with gone := t.gone + 1 }
    | _ => t
  | .update delta _ _ => { t with gone := t.gone + (r.expired delta).length }
  | .clear => { t with gone := t.issued.length }

/-- A removal is made by a key that was issued. -/
def Tally.knows (t : Tally) : Call σ → Bool
  | .remove id => id ∈ t.issued
  | _ => true

def use (s : PacketResender × Tally) (c : Call σ) : Option (PacketResender × Tally) :=
  if s.2.knows c then (s.1.call c).map (fun r' => (r', s.2.after s.1 c)) else none

/-- The books of a resender are right. -/
structure Accounted (s : PacketResender × Tally) : Prop where
  len : s.1.packets.len + s.2.gone = s.2.issued.length
  no_underflow : s.1.packets.freeSlots.length ≤ s.1.packets.values.length
  len_le : s.1.packets.len ≤ s.1.capacity
  free_nodup : s.1.packets.freeSlots.Nodup
  free_iff : ∀ i, s.1.packets.values[i]? = some none ↔
    ∃ slot ∈ s.1.packets.freeSlots, slot.toNat = i
  full_iff : ∀ func, s.1.add func = .err .capacityReached ↔
    s.2.gone + s.1.capacity = s.2.issued.length

/-- A tick empties only slots that a `u32` can name. -/
def Named (r : PacketResender) : Call σ → Prop
  | .update delta _ _ => ∀ i ∈ r.expired delta, i < 2 ^ 32
  | _ => True

/-- The books are right, and the map knows its slots. -/
structure Balanced (s : PacketResender × Tally) : Prop where
  tidy : s.1.packets.Tidy
  len : s.1.packets.len + s.2.gone = s.2.issued.length
  len_le : s.1.packets.len ≤ s.1.capacity

theorem Balanced.accounted {s : PacketResender × Tally} (h : Balanced s) : Accounted s := by
  have hle := SlotMap.free_length_le h.tidy.toHealthy
  refine ⟨h.len, hle, h.len_le, h.tidy.free_nodup, fun i => ⟨h.tidy.reusable i, ?_⟩, fun func => ?_⟩
  · rintro ⟨slot, hslot, rfl⟩
    exact h.tidy.free_empty slot hslot
  · have hlen := h.len
    constructor
    · intro he
      have := add_err he
      omega
    · intro he
      unfold add
      rw [if_pos (by omega)]

section
variable {σ ε : Type} {r r' : PacketResender} {t : Tally}

/-- The callback of a tick gets the packets that go out again, in the order of their slots, and
then the tick is over unless a clock ran over. -/
theorem update_with (delta : U32) (func : ReliableBufferedPacket → σ → σ) (s : σ) :
    r.updateWith delta func s = (if r.inTime delta then .ok (r.ticked delta) else .panic,
      (r.emissions delta).foldl (fun s e => func e.2 s) s) := by
  have calls (packets : List (Nat × ReliableBufferedPacket)) (s : σ) :
      (forM packets (fun e => Act.modify (func e.2)) : Act σ Unit _) s =
        (.ok (), packets.foldl (fun s e => func e.2 s) s) := by
    induction packets generalizing s with
    | nil => rfl
    | cons e rest ih =>
      rw [List.forM_cons, Act.bind_of_ok (Act.modify_apply _ _), ih, List.foldl_cons]
  rw [updateWith, update_eq, Act.bind_of_ok (calls _ s)]
  split <;> rfl

/-- A removal that returns a packet leaves one packet less. -/
theorem remove_len {id : SlotMapKey} {packet : Option ReliableBufferedPacket}
    (tidy : r.packets.Tidy) (h : (r.remove id : Outcome ε _) = .ok (packet, r')) :
    r'.packets.len + packet.toList.length = r.packets.len := by
  obtain ⟨_, hremove⟩ := remove_ok h
  have hle := SlotMap.free_length_le (tidy.remove hremove).toHealthy
  obtain ⟨_, _, ⟨rfl, hsame⟩ | ⟨_, hsome, hvalues, hfree⟩⟩ := SlotMap.remove_cases hremove
  · rw [hsame]
    rfl
  · obtain ⟨p, rfl⟩ := Option.isSome_iff_exists.mp hsome
    unfold SlotMap.len
    rw [hvalues, hfree, List.length_set, List.length_cons] at hle ⊢
    rw [Option.toList_some, List.length_singleton]
    omega

theorem ticked_len {delta : U32} (tidy : (r.ticked delta).packets.Tidy) :
    (r.ticked delta).packets.len + (r.expired delta).length = r.packets.len := by
  have hle := SlotMap.free_length_le tidy.toHealthy
  unfold SlotMap.len
  simp only [ticked, List.length_map, List.length_append, List.length_reverse] at hle ⊢
  omega

theorem update_packets {delta : U32} {func : ReliableBufferedPacket → Act σ ε Unit} {s u : σ}
    (h : r.update delta func s = (.ok r', u)) :
    r.packets.retainIf (visit delta func) s = (.ok r'.packets, u) := by
  unfold update at h
  rw [Act.bind_apply] at h
  split at h
  · rename_i packets v hretain
    cases h
    exact hretain
  · cases h
  · cases h

/-- A tick that empties only slots which a key can name gives all of them back. -/
theorem update_tidy {delta : U32} {func : ReliableBufferedPacket → Act σ ε Unit} {s u : σ}
    (tidy : r.packets.Tidy) (h : r.update delta func s = (.ok r', u))
    (named : ∀ i ∈ r.expired delta, i < 2 ^ 32) : r'.packets.Tidy := by
  have hretain := update_packets h
  obtain ⟨_, rfl⟩ := update_ok h
  refine tidy.retain hretain (fun i hi => named i ?_)
  -- A slot that was dropped held a packet, and is empty now.
  obtain ⟨packet, hpacket⟩ := SlotMap.dropped_value hretain hi
  have hempty := (SlotMap.retain_empty hretain i).mpr (Or.inr hi)
  rw [ticked_slot, hpacket] at hempty
  rcases hempty with hempty | hexpired
  · cases hempty
  · exact hexpired

theorem Balanced.call {c : Call σ} (h : Balanced (r, t)) (hcall : r.call c = some r')
    (named : r.Named c) : Balanced (r', t.after r c) := by
  obtain ⟨tidy, hlen, hle⟩ := h
  simp only at tidy hlen hle
  cases c with
  | raiseCapacity more =>
    cases hcall
    exact ⟨tidy, hlen, Nat.le_add_right_of_le hle⟩
  | add payload resendInterval resendAttempts =>
    unfold PacketResender.call at hcall
    unfold Tally.after
    cases hadd : r.addNew payload resendInterval resendAttempts with
    | ok result =>
      obtain ⟨key, r''⟩ := result
      simp only [hadd, Option.some.injEq] at hcall ⊢
      subst r''
      obtain ⟨hroom, hcapacity, hslot⟩ := add_ok hadd
      have hgrown := SlotMap.add_len tidy.toHealthy hslot
      refine ⟨tidy.add hslot rfl, ?_, ?_⟩
      · simp only [List.length_cons]
        omega
      · simp only
        omega
    | err e =>
      simp only [hadd, Option.some.injEq] at hcall ⊢
      subst r'
      exact ⟨tidy, hlen, hle⟩
    | panic => simp [hadd] at hcall
  | remove id =>
    simp only [PacketResender.call, Option.map_eq_some_iff, Outcome.to_option_eq_some,
      Prod.exists] at hcall
    obtain ⟨packet, r', hremove, rfl⟩ := hcall
    obtain ⟨hcapacity, hslot⟩ := remove_ok hremove
    have hless := remove_len tidy hremove
    refine ⟨tidy.remove hslot, ?_, ?_⟩
    · cases packet with
      | none =>
        simp only [Option.toList_none, List.length_nil] at hless
        simp only [Tally.after, hremove]
        omega
      | some packet =>
        simp only [Option.toList_some, List.length_singleton] at hless
        simp only [Tally.after, hremove]
        omega
    · simp only
      omega
  | update delta func s =>
    have hupdate := eq_of_fst (Outcome.to_option_eq_some.mp hcall)
    have tidy' := update_tidy tidy hupdate named
    obtain ⟨_, rfl⟩ := update_ok hupdate
    have hless := ticked_len tidy'
    refine ⟨tidy', ?_, ?_⟩
    · simp only [Tally.after]
      omega
    · simp only
      change _ ≤ r.capacity
      omega
  | clear =>
    cases hcall
    have hzero : r.clear.packets.len = 0 := rfl
    refine ⟨.clear, ?_, ?_⟩
    · simp only [Tally.after, hzero]
      omega
    · simp only [hzero]
      omega

theorem use_call {s s' : PacketResender × Tally} {c : Call σ} (h : use s c = some s') :
    s.1.call c = some s'.1 ∧ s'.2 = s.2.after s.1 c := by
  unfold use at h
  split at h
  · obtain ⟨r', hcall, rfl⟩ := Option.map_eq_some_iff.mp h
    exact ⟨hcall, rfl⟩
  · cases h

/-- Books that are right leave no slot out that a tick has emptied. -/
theorem named_of_accounted {s s' : PacketResender × Tally} {c : Call σ} (h : use s c = some s')
    (accounted : Accounted s') : s.1.Named c := by
  cases c with
  | update delta func u =>
    have hupdate := eq_of_fst (Outcome.to_option_eq_some.mp (use_call h).1)
    obtain ⟨_, he⟩ := update_ok hupdate
    intro i hi
    obtain ⟨slot, _, rfl⟩ := (accounted.free_iff i).mp (by
      rw [he]
      exact (ticked_slot s.1 i).mpr (Or.inr hi))
    exact slot.isLt
  | _ => trivial

/-- Along any sequence of calls the books of a resender are right exactly when every slot that a
tick empties has an index that fits the `u32` of a key. -/
theorem calls_accounted_iff (calls : List (Call σ)) :
    AtEach use (fun _ _ s => Accounted s) calls ({}, {}) ↔
      AtEach use (fun s c _ => s.1.Named c) calls ({}, {}) := by
  apply at_each_iff (I := Balanced)
  · intro s c s' balanced h
    obtain ⟨hcall, htally⟩ := use_call h
    have keeps (named : s.1.Named c) : Balanced s' := by
      have hstep := balanced.call hcall named
      rwa [← htally] at hstep
    refine ⟨⟨named_of_accounted h, fun named => (keeps named).accounted⟩, ?_⟩
    intro accounted
    exact keeps (named_of_accounted h accounted)
  · exact ⟨SlotMap.tidy_empty, rfl, Nat.le_refl _⟩

end

/-- So many equal packets, each in a slot of its own. -/
def crowd (attempts : U32) (n capacity : Nat) : PacketResender :=
  ⟨⟨List.replicate n (some (.new [] 1 attempts)), List.replicate n 0, []⟩, capacity⟩

/-- The calls that fill a resender with equal packets. -/
def crowding (σ : Type) (attempts : U32) (n : Nat) : List (Call σ) :=
  .raiseCapacity n :: List.replicate n (.add (fun _ => []) 1 attempts)

section
variable {σ : Type} {attempts : U32} {n capacity : Nat}

theorem crowd_add (h : n < capacity) : (crowd attempts n capacity).addNew (fun _ => []) 1 attempts =
    .ok (⟨BitVec.ofNat 32 n, 0⟩, crowd attempts (n + 1) capacity) := by
  have hroom : ¬ (crowd attempts n capacity).packets.len = (crowd attempts n capacity).capacity := by
    simp only [crowd, SlotMap.len, List.length_replicate, List.length_nil]
    omega
  unfold addNew add
  rw [if_neg hroom]
  simp only [crowd, SlotMap.add, List.length_replicate, Nat.le_refl, ↓reduceIte, Outcome.ok_bind,
    List.replicate_succ']

theorem crowd_in_time : (crowd attempts n capacity).inTime 1 = true := by
  simp only [inTime, crowd, List.all_replicate]
  split <;> rfl

theorem crowd_grows : ∃ t, stepAll use (crowding σ attempts n) ({}, {}) = (crowd attempts n n, t) := by
  have grows {m : Nat} (h : m ≤ n) : ∃ t, stepAll use (.raiseCapacity n ::
      List.replicate m (.add (fun _ => []) 1 attempts : Call σ)) ({}, {}) =
        (crowd attempts m n, t) := by
    induction m with
    | zero => exact ⟨{}, by simp [stepAll, use, call, crowd, Tally.after, Tally.knows]⟩
    | succ m ih =>
      obtain ⟨t, ht⟩ := ih (by omega)
      rw [List.replicate_succ', ← List.cons_append, step_all_append, ht]
      simp only [stepAll, use, Tally.knows, call, crowd_add (Nat.lt_of_succ_le h), ↓reduceIte,
        Option.map_some, Option.getD_some]
      exact ⟨_, rfl⟩
  exact grows (Nat.le_refl n)

/-- With more packets than there are indices, a tick that drops them all never frees the last. -/
theorem crowd_unbalanced (h : 2 ^ 32 < n) : ¬ AtEach use (fun _ _ s => Accounted s)
    (crowding Unit 0 n ++ [.update 1 (fun _ => id) ()]) ({}, {}) := by
  intro accounted
  obtain ⟨t, ht⟩ := crowd_grows (σ := Unit) (n := n)
  have last := ((at_each_append _ _ _).mp accounted).2
  have update : ((crowd 0 n n).updateWith 1 (fun _ => id) ()).1 = .ok ((crowd 0 n n).ticked 1) := by
    rw [update_with, if_pos crowd_in_time]
  rw [ht] at last
  simp only [AtEach, use, Tally.knows, call, update, Outcome.toOption, Option.map_some, and_true,
    ↓reduceIte] at last
  have slot : 2 ^ 32 ∈ (crowd 0 n n).expired 1 := by
    rw [expired, expiredFrom, List.mem_findIdxs_iff_exists_getElem_pos]
    refine ⟨by simpa [crowd] using h, ?_⟩
    simp only [crowd, List.getElem_replicate]
    rfl
  obtain ⟨slot, _, he⟩ := (last.free_iff (2 ^ 32)).mp ((ticked_slot _ _).mpr (Or.inr slot))
  have := slot.isLt
  omega

theorem crowd_unaccounted : ¬ AtEach use (fun _ _ s => Accounted s)
    (crowding Unit 0 (2 ^ 32 + 1) ++ [.update 1 (fun _ => id) ()]) ({}, {}) :=
  crowd_unbalanced (Nat.lt_succ_self (2 ^ 32))

end

end Theta.PacketResender
