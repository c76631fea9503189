import Theta.Proofs.Clocks

namespace Theta.PacketResender
open Lib

/-- What can happen to a packet. -/
inductive Happening where
  | issued (attempts : Nat)
  | expired
  | emitted
  | removed
  | cleared
  | dropped
  deriving DecidableEq

/-- A packet expires and goes out again, so many times. -/
def rounds (n : Nat) : List Happening := (List.replicate n [.expired, .emitted]).flatten

/-- The whole life of a packet that was given so many attempts. -/
inductive Life (attempts : Nat) : List Happening → Prop where
  | held (n : Nat) (h : n ≤ attempts) : Life attempts (rounds n)
  | removed (n : Nat) (h : n ≤ attempts) : Life attempts (rounds n ++ [.removed])
  | cleared (n : Nat) (h : n ≤ attempts) : Life attempts (rounds n ++ [.cleared])
  | spent (h : attempts ≠ 0) : Life attempts (rounds attempts ++ [.dropped])
  | unsent (h : attempts = 0) : Life attempts [.expired, .dropped]

/-- What has happened to the packets, under the keys that they were issued. -/
abbrev Diary := SlotMapKey → List Happening

/-- The key of a slot. -/
def keyAt (r : PacketResender) (i : Nat) : SlotMapKey :=
  ⟨BitVec.ofNat 32 i, (r.packets.generations[i]?).getD 0⟩

/-- A packet that is due expires, goes out if the callback gets it, and is dropped on its last
attempt. -/
def turn (r : PacketResender) (delta : U32) (e : Nat × ReliableBufferedPacket) : List Happening :=
  .expired :: ((if e.1 ∈ (r.emissions delta).map Prod.fst then [.emitted] else []) ++
    (if expires e.2 delta then [.dropped] else []))

/-- What a tick does to the packets of a key. -/
def turns (r : PacketResender) (delta : U32) (key : SlotMapKey) : List Happening :=
  ((dueFrom delta 0 r.packets.values).filter (fun e => r.keyAt e.1 = key)).flatMap (r.turn delta)

def Diary.after (diary : Diary) (r : PacketResender) : Call σ → Diary
  | .raiseCapacity _ => diary
  | .add payload resendInterval resendAttempts =>
    match r.addNew payload resendInterval resendAttempts with
    | .ok (key, _) => fun k =>
      if k = key then diary k ++ [.issued resendAttempts.toNat] else diary k
    | _ => diary
  | .remove id =>
    match (r.remove id : Outcome Unit _) with
    | .ok (some _, _) => fun k => if k = id then diary k ++ [.removed] else diary k
    | _ => diary
  | .update delta _ _ => fun k => diary k ++ r.turns delta k
  | .clear => fun k => if (r.packets.get k).isSome then diary k ++ [.cleared] else diary k

/-- A call of a resender, with the diary kept; a panic leaves no resender to call. -/
def record (s : Option PacketResender × Diary) (c : Call σ) : Option (Option PacketResender × Diary) :=
  s.1.map (fun r => (r.call c, s.2.after r c))

/-- No packet was added, or it lives the life that its attempts allow. -/
def Allotted (story : List Happening) : Prop :=
  story = [] ∨ ∃ attempts life, story = .issued attempts :: life ∧ Life attempts life

/-- No packet takes more than its budget, and the budget of each that is held is what its own
emissions have left of it. -/
structure Budgeted (s : Option PacketResender × Diary) : Prop where
  allotted : ∀ key, Allotted (s.2 key)
  held : ∀ r, s.1 = some r → ∀ key n attempts, s.2 key = .issued attempts :: rounds n →
    ∃ packet, r.packets.get key = some packet ∧ packet.resendAttempts.toNat + n = attempts
  gone : ∀ r, s.1 = some r → ∀ key, (¬ ∃ n attempts, s.2 key = .issued attempts :: rounds n) →
    r.packets.get key = none

/-- No packet was added, or nothing more can happen to it. -/
def Settled (story : List Happening) : Prop :=
  Allotted story ∧ ¬ ∃ n attempts, story = .issued attempts :: rounds n

/-- The packet is held, and its own emissions have left its budget as it is. -/
def Running (story : List Happening) (packet : ReliableBufferedPacket) : Prop :=
  ∃ n, story = .issued (packet.resendAttempts.toNat + n) :: rounds n ∧
    (n ≠ 0 → packet.resendAttempts ≠ 0)

/-- A diary that agrees with the resender it is kept of. -/
structure Kept (r : PacketResender) (diary : Diary) : Prop where
  healthy : r.packets.Healthy
  fits : r.packets.Fits
  used : ∀ key, diary key ≠ [] → r.packets.Spent key
  running : ∀ key packet, r.packets.get key = some packet → Running (diary key) packet
  settled : ∀ key, r.packets.get key = none → Settled (diary key)

theorem rounds_succ (n : Nat) : rounds (n + 1) = rounds n ++ [.expired, .emitted] := by
  rw [rounds, List.replicate_succ', List.flatten_append]
  rfl

theorem rounds_length (n : Nat) : (rounds n).length = 2 * n := by
  induction n with
  | zero => rfl
  | succ n ih =>
    rw [rounds_succ, List.length_append, ih]
    simp only [List.length_cons, List.length_nil]
    omega

theorem mem_rounds {n : Nat} {x : Happening} (h : x ∈ rounds n) : x = .expired ∨ x = .emitted := by
  obtain ⟨l, hl, hx⟩ := List.mem_flatten.mp h
  rw [List.eq_of_mem_replicate hl] at hx
  simpa using hx

/-- A life that has ended is not one that goes on. -/
theorem ended_ne {n : Nat} {life : List Happening} {x : Happening} (hx : x ∈ life)
    (he : x ≠ .expired) (hm : x ≠ .emitted) : life ≠ rounds n := by
  rintro rfl
  rcases mem_rounds hx with rfl | rfl
  · exact he rfl
  · exact hm rfl

section
variable {σ : Type} {r r' : PacketResender} {diary : Diary} {delta : U32} {key : SlotMapKey}
  {packet : ReliableBufferedPacket} {story : List Happening}

theorem Running.allotted (h : Running story packet) : Allotted story := by
  obtain ⟨n, hstory, _⟩ := h
  exact Or.inr ⟨_, _, hstory, .held n (Nat.le_add_left n _)⟩

theorem Kept.allotted (h : Kept r diary) (key : SlotMapKey) : Allotted (diary key) := by
  cases hget : r.packets.get key with
  | none => exact (h.settled key hget).1
  | some packet => exact (h.running key packet hget).allotted

theorem Kept.budgeted (h : Kept r diary) : Budgeted (some r, diary) := by
  refine ⟨h.allotted, ?_, ?_⟩
  · rintro _ ⟨⟩ key n attempts hdiary
    cases hget : r.packets.get key with
    | none => exact absurd ⟨n, attempts, hdiary⟩ (h.settled key hget).2
    | some packet =>
      obtain ⟨m, hrunning, _⟩ := h.running key packet hget
      refine ⟨packet, rfl, ?_⟩
      simp only at hdiary
      rw [hrunning, List.cons.injEq, Happening.issued.injEq] at hdiary
      have hlength := congrArg List.length hdiary.2
      rw [rounds_length, rounds_length] at hlength
      omega
  · rintro _ ⟨⟩ key hnot
    cases hget : r.packets.get key with
    | none => rfl
    | some packet =>
      obtain ⟨n, hrunning, _⟩ := h.running key packet hget
      exact absurd ⟨n, _, hrunning⟩ hnot

/-- An ending that the budget allows. -/
theorem settled_of_life {attempts : Nat} {life : List Happening} {x : Happening}
    (hstory : story = .issued attempts :: life) (hlife : Life attempts life)
    (hx : x ∈ life) (he : x ≠ .expired) (hm : x ≠ .emitted) : Settled story := by
  refine ⟨Or.inr ⟨_, _, hstory, hlife⟩, ?_⟩
  rintro ⟨n, attempts', hheld⟩
  rw [hstory, List.cons.injEq] at hheld
  exact ended_ne hx he hm hheld.2

theorem emission_iff {i : Nat} (h : (i, packet) ∈ dueFrom delta 0 r.packets.values) :
    i ∈ (r.emissions delta).map Prod.fst ↔ packet.resendAttempts ≠ 0 := by
  obtain ⟨_, hslot, _⟩ := due_from_slot h
  unfold emissions emittedFrom
  simp only [List.mem_map, List.mem_filter, decide_eq_true_eq]
  constructor
  · rintro ⟨_, ⟨⟨j, other⟩, ⟨hmem, hne⟩, rfl⟩, rfl⟩
    obtain ⟨_, hother, _⟩ := due_from_slot hmem
    rw [hslot] at hother
    cases hother
    exact hne
  · intro hne
    exact ⟨_, ⟨_, ⟨h, hne⟩, rfl⟩, rfl⟩

/-- The only packet that a tick visits under a key is the one that the key stands for. -/
theorem turns_cases (healthy : r.packets.Healthy) (fits : r.packets.Fits) (delta : U32)
    (key : SlotMapKey) : r.turns delta key = [] ∨ ∃ packet, r.packets.get key = some packet ∧
      (key.index.toNat, packet) ∈ dueFrom delta 0 r.packets.values ∧
      r.turns delta key = r.turn delta (key.index.toNat, packet) := by
  have slot {e : Nat × ReliableBufferedPacket} (he : e ∈ dueFrom delta 0 r.packets.values)
      (hkey : r.keyAt e.1 = key) : e.1 = key.index.toNat ∧ r.packets.get key = some e.2 := by
    obtain ⟨i, packet⟩ := e
    obtain ⟨_, hslot, _⟩ := due_from_slot he
    have hlt := (List.getElem?_eq_some_iff.mp hslot).1
    have hcov := healthy.covered
    unfold SlotMap.Fits at fits
    rw [Nat.sub_zero] at hslot hlt
    have hindex : (BitVec.ofNat 32 i).toNat = i := SlotMap.index_of_fits (by omega)
    subst hkey
    simp only [keyAt, hindex, SlotMap.get_eq_some, hslot, true_and]
    rw [List.getElem?_eq_getElem (by omega), Option.getD_some]
  have hnodup : (((dueFrom delta 0 r.packets.values).filter
      (fun e => r.keyAt e.1 = key)).map Prod.fst).Nodup :=
    due_from_nodup.sublist (List.filter_sublist.map _)
  unfold turns
  cases hfilter : (dueFrom delta 0 r.packets.values).filter (fun e => r.keyAt e.1 = key) with
  | nil => exact Or.inl rfl
  | cons e rest =>
    have all : ∀ e' ∈ e :: rest, e' ∈ dueFrom delta 0 r.packets.values ∧ r.keyAt e'.1 = key := by
      intro e' he'
      rw [← hfilter, List.mem_filter, decide_eq_true_eq] at he'
      exact he'
    obtain ⟨hmem, hkey⟩ := all e List.mem_cons_self
    obtain ⟨hindex, hget⟩ := slot hmem hkey
    have hrest : rest = [] := by
      rw [hfilter, List.map_cons, List.nodup_cons] at hnodup
      refine List.eq_nil_iff_forall_not_mem.mpr (fun e' he' => hnodup.1 ?_)
      obtain ⟨hmem', hkey'⟩ := all e' (List.mem_cons_of_mem _ he')
      rw [hindex, ← (slot hmem' hkey').1]
      exact List.mem_map_of_mem he'
    refine Or.inr ⟨e.2, hget, ?_, ?_⟩
    · rwa [← hindex]
    · rw [hrest, List.flatMap_singleton, ← hindex]

/-- A packet that a tick visits when it is due takes one of three turns. -/
theorem turn_cases {i : Nat} (h : (i, packet) ∈ dueFrom delta 0 r.packets.values) :
    (packet.resendAttempts = 0 ∧ expires packet delta = true ∧
      r.turn delta (i, packet) = [.expired, .dropped]) ∨
    (packet.resendAttempts = 1 ∧ expires packet delta = true ∧
      r.turn delta (i, packet) = [.expired, .emitted, .dropped]) ∨
    (2 ≤ packet.resendAttempts.toNat ∧ expires packet delta = false ∧
      r.turn delta (i, packet) = [.expired, .emitted]) := by
  have hdue : packet.due delta = true := (due_from_slot h).2.2.1
  have hexpires : expires packet delta =
      decide (packet.resendAttempts = 0 ∨ packet.resendAttempts = 1) := by
    rw [expires, ← ReliableBufferedPacket.due, hdue, Bool.true_and]
  unfold turn
  simp only [emission_iff h, hexpires]
  by_cases zero : packet.resendAttempts = 0
  · left
    simp [zero]
  · by_cases one : packet.resendAttempts = 1
    · right
      left
      simp [one]
    · right
      right
      have more : ¬ (packet.resendAttempts = 0 ∨ packet.resendAttempts = 1) :=
        not_or.mpr ⟨zero, one⟩
      refine ⟨by bv_omega, decide_eq_false more, ?_⟩
      rw [if_pos zero, decide_eq_false more]
      rfl

/-- A tick adds a turn to a life that goes on, within its budget. -/
theorem turn_allotted {i : Nat} (h : (i, packet) ∈ dueFrom delta 0 r.packets.values)
    {n : Nat} (first : n ≠ 0 → packet.resendAttempts ≠ 0) :
    Life (packet.resendAttempts.toNat + n) (rounds n ++ r.turn delta (i, packet)) ∧
      (expires packet delta = true → .dropped ∈ r.turn delta (i, packet)) ∧
      (expires packet delta = false → r.turn delta (i, packet) = [.expired, .emitted] ∧
        (packet.ticked delta).resendAttempts ≠ 0 ∧
        (packet.ticked delta).resendAttempts.toNat + (n + 1) =
          packet.resendAttempts.toNat + n) := by
  rcases turn_cases h with ⟨zero, hexp, hturn⟩ | ⟨one, hexp, hturn⟩ | ⟨more, hexp, hturn⟩
  · have hn : n = 0 := by
      by_contra hn
      exact first hn zero
    subst hn
    rw [hturn, zero, hexp]
    exact ⟨.unsent rfl, by simp, by simp⟩
  · have hlife : rounds n ++ [.expired, .emitted, .dropped] = rounds (n + 1) ++ [.dropped] := by
      rw [rounds_succ, List.append_assoc]
      rfl
    have hbudget : packet.resendAttempts.toNat + n = n + 1 := by
      rw [one, Nat.add_comm]
      rfl
    rw [hturn, hexp, hlife, hbudget]
    exact ⟨.spent (Nat.succ_ne_zero n), by simp, by simp⟩
  · have hticked : (packet.ticked delta).resendAttempts.toNat + 1 =
        packet.resendAttempts.toNat := by
      have hne : packet.resendAttempts ≠ 0 := by
        rintro he
        rw [he] at more
        exact absurd more (by decide)
      unfold ReliableBufferedPacket.ticked
      rw [if_pos (due_from_slot h).2.2.1]
      simp only [if_neg hne]
      bv_omega
    have hleft : (packet.ticked delta).resendAttempts ≠ 0 := by
      intro he
      rw [he] at hticked
      change 0 + 1 = _ at hticked
      omega
    rw [hturn, hexp, ← rounds_succ]
    exact ⟨.held _ (by omega), by simp, fun _ => ⟨rfl, hleft, by omega⟩⟩

/-- Whatever a tick visits before a clock runs over, no packet exceeds its budget. -/
theorem Kept.turns_allotted (h : Kept r diary) (delta : U32) (key : SlotMapKey) :
    Allotted (diary key ++ r.turns delta key) := by
  rcases turns_cases h.healthy h.fits delta key with hnone | ⟨packet, hget, hmem, hturns⟩
  · rw [hnone, List.append_nil]
    exact h.allotted key
  · obtain ⟨n, hdiary, first⟩ := h.running key packet hget
    right
    refine ⟨_, _, ?_, (turn_allotted hmem first).1⟩
    rw [hdiary, hturns, List.cons_append]

theorem get_ticked (r : PacketResender) (delta : U32) (key : SlotMapKey) :
    (r.ticked delta).packets.get key = left delta (r.packets.get key) := by
  rw [SlotMap.get_eq, SlotMap.get_eq, ticked]
  simp only [List.getElem?_map]
  split
  · rcases r.packets.values[key.index.toNat]? with _ | _ | packet <;> rfl
  · rfl

/-- A held packet takes its turn when it is due, and none before. -/
theorem turns_held (healthy : r.packets.Healthy) (fits : r.packets.Fits)
    (time : r.inTime delta = true) (hget : r.packets.get key = some packet) :
    (packet.due delta = false ∧ r.turns delta key = []) ∨
      ((key.index.toNat, packet) ∈ dueFrom delta 0 r.packets.values ∧
        r.turns delta key = r.turn delta (key.index.toNat, packet)) := by
  have hgen := (SlotMap.get_eq_some.mp hget).2
  have hkey : r.keyAt key.index.toNat = key := by
    rw [keyAt, hgen, Option.getD_some, BitVec.ofNat_toNat, BitVec.setWidth_eq]
  rcases turns_cases healthy fits delta key with hnone | ⟨other, hother, hmem, hturns⟩
  · left
    refine ⟨?_, hnone⟩
    by_contra due
    rw [Bool.not_eq_false] at due
    have hmem := mem_due_from (i := 0) time (SlotMap.get_eq_some.mp hget).1 due
    rw [Nat.zero_add] at hmem
    unfold turns at hnone
    have hnil := List.flatMap_eq_nil_iff.mp hnone _
      (List.mem_filter.mpr ⟨hmem, decide_eq_true hkey⟩)
    cases hnil
  · rw [hget] at hother
    cases hother
    exact Or.inr ⟨hmem, hturns⟩

theorem Kept.ticked (h : Kept r diary) (time : r.inTime delta = true)
    (healthy : (r.ticked delta).packets.Healthy) :
    Kept (r.ticked delta) (fun k => diary k ++ r.turns delta k) := by
  have turnless {key : SlotMapKey} (hget : r.packets.get key = none) : r.turns delta key = [] := by
    rcases turns_cases h.healthy h.fits delta key with hnone | ⟨packet, hsame, _⟩
    · exact hnone
    · rw [hget] at hsame
      cases hsame
  refine ⟨healthy, h.fits, fun key hne => ?_, fun key packet hget => ?_, fun key hget => ?_⟩
  · refine SlotMap.Spent.same (m := r.packets) ?_ rfl
    cases hget : r.packets.get key with
    | none =>
      rw [turnless hget, List.append_nil] at hne
      exact h.used key hne
    | some packet => exact SlotMap.get_spent hget
  · rw [get_ticked] at hget
    obtain ⟨before, hbefore, hkept⟩ := Option.bind_eq_some_iff.mp hget
    split at hkept
    · cases hkept
    · rename_i stays
      cases hkept
      obtain ⟨n, hdiary, first⟩ := h.running key before hbefore
      rcases turns_held h.healthy h.fits time hbefore with ⟨early, hnone⟩ | ⟨hmem, hturns⟩
      · -- The packet is not due: its budget is what it was.
        have same : (before.ticked delta).resendAttempts = before.resendAttempts := by
          rw [ReliableBufferedPacket.ticked, early]
          rfl
        refine ⟨n, ?_, ?_⟩
        · rw [hnone, List.append_nil, same, hdiary]
        · rw [same]
          exact first
      · obtain ⟨hturn, hleft, hbudget⟩ := (turn_allotted hmem first).2.2 (by simpa using stays)
        refine ⟨n + 1, ?_, fun _ => hleft⟩
        rw [hdiary, hturns, hturn, hbudget, rounds_succ, List.cons_append]
  · rw [get_ticked] at hget
    cases hbefore : r.packets.get key with
    | none =>
      rw [turnless hbefore, List.append_nil]
      exact h.settled key hbefore
    | some before =>
      rw [hbefore] at hget
      have hexp : expires before delta = true := by
        by_contra stays
        simp [left, stays] at hget
      obtain ⟨n, hdiary, first⟩ := h.running key before hbefore
      rcases turns_held h.healthy h.fits time hbefore with ⟨early, _⟩ | ⟨hmem, hturns⟩
      · rw [expires_due hexp] at early
        cases early
      · obtain ⟨hlife, hdropped, _⟩ := turn_allotted hmem first
        refine settled_of_life (x := .dropped) ?_ hlife (List.mem_append_right _ (hdropped hexp))
          (by simp) (by simp)
        rw [hdiary, hturns, List.cons_append]

theorem Kept.add {payload : SlotMapKey → Bytes} {resendInterval resendAttempts : U32}
    (h : Kept r diary) (hadd : r.addNew payload resendInterval resendAttempts = .ok (key, r'))
    (fits : r'.packets.Fits) :
    Kept r' (fun k => if k = key then diary k ++ [.issued resendAttempts.toNat] else diary k) := by
  obtain ⟨_, _, hslot⟩ := add_ok hadd
  have fresh : diary key = [] := by
    by_contra hne
    exact SlotMap.add_fresh h.healthy fits hslot (h.used key hne)
  have hget (k : SlotMapKey) := SlotMap.get_add (k := k) h.healthy fits hslot
  refine ⟨SlotMap.add_healthy h.healthy hslot, fits, fun k hne => ?_, fun k packet hk => ?_,
    fun k hk => ?_⟩
  · by_cases he : k = key
    · subst he
      exact SlotMap.add_spent_new h.healthy fits hslot
    · rw [if_neg he] at hne
      exact SlotMap.add_spent hslot (h.used k hne)
  · rw [hget] at hk
    by_cases he : k = key
    · subst he
      rw [if_pos rfl] at hk
      cases hk
      rw [if_pos rfl, fresh]
      exact ⟨0, rfl, fun hne => absurd rfl hne⟩
    · rw [if_neg he] at hk ⊢
      exact h.running k packet hk
  · rw [hget] at hk
    by_cases he : k = key
    · rw [if_pos he] at hk
      cases hk
    · rw [if_neg he] at hk ⊢
      exact h.settled k hk

theorem Kept.remove (h : Kept r diary)
    (hremove : (r.remove key : Outcome Unit _) = .ok (some packet, r')) :
    Kept r' (fun k => if k = key then diary k ++ [.removed] else diary k) := by
  obtain ⟨_, hslot⟩ := remove_ok hremove
  obtain ⟨hvalue, same, _⟩ := SlotMap.remove_cases hslot
  obtain ⟨n, hdiary, first⟩ := h.running key packet hvalue.symm
  have hget (k : SlotMapKey) : r'.packets.get k = if k = key then none else r.packets.get k :=
    SlotMap.get_remove hslot
  refine ⟨SlotMap.remove_healthy h.healthy hslot, ?_, fun k hne => ?_, fun k packet hk => ?_,
    fun k hk => ?_⟩
  · have fits := h.fits
    unfold SlotMap.Fits at fits ⊢
    rwa [same]
  · refine SlotMap.Spent.same (m := r.packets) ?_ same
    by_cases he : k = key
    · subst he
      exact SlotMap.get_spent hvalue.symm
    · rw [if_neg he] at hne
      exact h.used k hne
  · rw [hget] at hk
    by_cases he : k = key
    · rw [if_pos he] at hk
      cases hk
    · rw [if_neg he] at hk ⊢
      exact h.running k packet hk
  · rw [hget] at hk
    by_cases he : k = key
    · subst he
      rw [if_pos rfl]
      rw [hdiary, List.cons_append]
      exact settled_of_life (x := .removed) rfl (.removed n (Nat.le_add_left n _)) (by simp)
        (by simp) (by simp)
    · rw [if_neg he] at hk ⊢
      exact h.settled k hk

theorem Kept.clear (h : Kept r diary) : Kept r.clear (fun k =>
    if (r.packets.get k).isSome then diary k ++ [.cleared] else diary k) := by
  refine ⟨SlotMap.clear_healthy, h.fits, fun k hne => ?_, fun k packet hk => ?_, fun k _ => ?_⟩
  · refine SlotMap.Spent.same (m := r.packets) ?_ rfl
    cases hget : r.packets.get k with
    | none =>
      rw [hget] at hne
      exact h.used k hne
    | some packet => exact SlotMap.get_spent hget
  · rw [PacketResender.clear, SlotMap.get_clear] at hk
    cases hk
  · cases hget : r.packets.get k with
    | none => exact h.settled k hget
    | some packet =>
      obtain ⟨n, hdiary, _⟩ := h.running k packet hget
      rw [Option.isSome_some, if_pos rfl]
      rw [hdiary, List.cons_append]
      exact settled_of_life (x := .cleared) rfl (.cleared n (Nat.le_add_left n _)) (by simp)
        (by simp) (by simp)

/-- A call keeps the diary, or panics when nothing in it exceeds a budget. -/
theorem Kept.call (h : Kept r diary) (c : Call σ) :
    (∀ r', r.call c = some r' → r'.packets.Fits → Kept r' (diary.after r c)) ∧
      (r.call c = none → ∀ key, Allotted (diary.after r c key)) := by
  cases c with
  | raiseCapacity more =>
    refine ⟨?_, fun hnone => by cases hnone⟩
    rintro _ ⟨⟩ _
    exact ⟨h.healthy, h.fits, h.used, h.running, h.settled⟩
  | add payload resendInterval resendAttempts =>
    unfold PacketResender.call Diary.after
    cases hadd : r.addNew payload resendInterval resendAttempts with
    | ok result =>
      obtain ⟨key, r'⟩ := result
      simp only [hadd]
      refine ⟨?_, fun hnone => by cases hnone⟩
      rintro _ ⟨⟩ fits
      exact h.add hadd fits
    | err e =>
      simp only [hadd]
      refine ⟨?_, fun hnone => by cases hnone⟩
      rintro _ ⟨⟩ _
      exact h
    | panic =>
      simp only [hadd]
      exact ⟨fun _ hsome => (by cases hsome), fun _ => h.allotted⟩
  | remove id =>
    unfold PacketResender.call Diary.after
    cases hremove : (r.remove id : Outcome Unit _) with
    | ok result =>
      obtain ⟨removed, r'⟩ := result
      cases removed with
      | none =>
        simp only [hremove, Outcome.toOption, Option.map_some, Option.some.injEq]
        refine ⟨?_, fun hnone => by cases hnone⟩
        rintro _ rfl _
        rw [remove_none hremove]
        exact h
      | some packet =>
        simp only [hremove, Outcome.toOption, Option.map_some, Option.some.injEq]
        refine ⟨?_, fun hnone => by cases hnone⟩
        rintro _ rfl _
        exact h.remove hremove
    | err e => exact absurd hremove (remove_ne_err r id e)
    | panic =>
      simp only [hremove]
      exact ⟨fun _ hsome => (by cases hsome), fun _ => h.allotted⟩
  | update delta func s =>
    constructor
    · intro r' hcall _
      have hupdate := eq_of_fst (Outcome.to_option_eq_some.mp hcall)
      have hclock := clock_cases h.healthy h.fits (update_packets hupdate)
      obtain ⟨time, rfl⟩ := update_ok hupdate
      exact h.ticked time hclock.1
    · intro _ key
      exact h.turns_allotted delta key
  | clear =>
    refine ⟨?_, fun hnone => by cases hnone⟩
    rintro _ ⟨⟩ _
    exact h.clear

/-- What the recorded runs keep, until a panic ends them. -/
def Recorded (s : Option PacketResender × Diary) : Prop :=
  (∀ r, s.1 = some r → Kept r s.2) ∧ (s.1 = none → ∀ key, Allotted (s.2 key))

theorem Recorded.budgeted {s : Option PacketResender × Diary} (h : Recorded s) : Budgeted s := by
  obtain ⟨_ | r, diary⟩ := s
  · refine ⟨h.2 rfl, ?_, ?_⟩
    · rintro _ ⟨⟩
    · rintro _ ⟨⟩
  · exact (h.1 r rfl).budgeted

theorem kept_new : Kept {} (fun _ => []) := by
  refine ⟨SlotMap.healthy_empty, Nat.zero_le _, fun key hne => absurd rfl hne, ?_, ?_⟩
  · intro key packet hget
    cases hget
  · intro key _
    refine ⟨Or.inl rfl, ?_⟩
    rintro ⟨n, attempts, h⟩
    cases h

/-- The callback of an update got the packets that the diary notes, in the order of their slots. -/
def Faithful (s : Option PacketResender × Diary) : Call σ → Prop
  | .update delta func state => ∀ r, s.1 = some r →
      (r.updateWith delta func state).2 =
        (r.emissions delta).foldl (fun state e => func e.2 state) state
  | _ => True

/-- Along any sequence of calls, as long as a `u32` can name every slot, no packet goes out more
often than it was given attempts, none goes out once it is gone, and a tick drops a packet only
when its attempts are used up. -/
theorem resend_budget (calls : List (Call σ))
    (fits : AtEach record (fun _ _ s => ∀ r, s.1 = some r → r.packets.Fits) calls
      (some {}, fun _ => [])) :
    AtEach record (fun s c s' => Faithful s c ∧ Budgeted s') calls (some {}, fun _ => []) := by
  refine at_each_of (I := Recorded) (fun s c s' recorded h fits => ?_) ?_ fits
  · obtain ⟨r, hr, rfl⟩ := Option.map_eq_some_iff.mp h
    obtain ⟨returned, panicked⟩ := (recorded.1 r hr).call c
    have recorded' : Recorded (r.call c, s.2.after r c) :=
      ⟨fun r' hr' => returned r' hr' (fits r' hr'), panicked⟩
    refine ⟨recorded', ?_, recorded'.budgeted⟩
    cases c with
    | update delta func state =>
      intro r _
      rw [update_with]
    | _ => trivial
  · refine ⟨?_, fun hnone => by cases hnone⟩
    rintro _ ⟨⟩
    exact kept_new

/-- A packet goes out on both of its attempts, and another one is removed before its second. -/
theorem resend_budget_spent : AtEach record (fun s c s' => Faithful s c ∧ Budgeted s')
    ([.raiseCapacity 2, .add (fun _ => [7]) 1 2, .add (fun _ => [8]) 2 2, .update 1 (fun _ => id) (),
      .update 1 (fun _ => id) (), .remove ⟨1, 0⟩, .update 1 (fun _ => id) ()] : List (Call Unit))
    (some {}, fun _ => []) := by
  apply resend_budget
  refine ⟨?_, ?_, ?_, ?_, ?_, ?_, ?_, trivial⟩
  all_goals
    rintro _ ⟨⟩
    unfold SlotMap.Fits
    decide

theorem not_removed {n : Nat} {x : Happening} {before after : List Happening}
    (h : rounds n ++ [x] = before ++ .removed :: after) : after = [] ∧ x = .removed := by
  have hnot : Happening.removed ∉ rounds n := fun hm => by simpa using mem_rounds hm
  have hnil : after = [] := by
    by_contra hne
    have hdrop := congrArg List.dropLast h
    rw [List.dropLast_concat, List.dropLast_append_of_ne_nil (by simp),
      List.dropLast_cons_of_ne_nil hne] at hdrop
    exact hnot (hdrop ▸ by simp)
  subst hnil
  exact ⟨rfl, by simpa using (List.append_inj' h rfl).2⟩

theorem Life.ends {attempts : Nat} {life before after : List Happening} (h : Life attempts life)
    (he : life = before ++ .removed :: after) : after = [] := by
  cases h with
  | held n h =>
    have hm : Happening.removed ∈ rounds n := he ▸ by simp
    simpa using mem_rounds hm
  | removed n h => exact (not_removed he).1
  | cleared n h => exact (not_removed he).1
  | spent h => exact (not_removed he).1
  | unsent h =>
    have hm : Happening.removed ∈ [Happening.expired, .dropped] := he ▸ by simp
    simp at hm

/-- Within a budget nothing comes after a removal. -/
theorem Allotted.ends {before after : List Happening}
    (h : Allotted (before ++ .removed :: after)) : after = [] := by
  rcases h with hnil | ⟨attempts, life, hstory, hlife⟩
  · simp at hnil
  · cases before with
    | nil => simp at hstory
    | cons x before => exact hlife.ends (List.cons.inj hstory).2.symm

/-- The crowd without its first packet. -/
def orphaned (n : Nat) : PacketResender :=
  ⟨⟨none :: List.replicate n (some (.new [] 1 1)), List.replicate (n + 1) 0, [0]⟩, n + 1⟩

theorem crowd_remove (n : Nat) : ((crowd 1 (n + 1) (n + 1)).remove ⟨0, 0⟩ : Outcome Unit _) =
    .ok (some (.new [] 1 1), orphaned n) := rfl

theorem crowd_recorded (n : Nat) : ∃ diary,
    stepAll record (crowding σ 1 n) (some {}, fun _ => []) = (some (crowd 1 n n), diary) := by
  have grows {m : Nat} (h : m ≤ n) : ∃ diary, stepAll record (.raiseCapacity n ::
      List.replicate m (.add (fun _ => []) 1 1 : Call σ)) (some {}, fun _ => []) =
        (some (crowd 1 m n), diary) := by
    induction m with
    | zero => exact ⟨fun _ => [], by simp [stepAll, record, call, crowd, Diary.after]⟩
    | succ m ih =>
      obtain ⟨diary, hdiary⟩ := ih (by omega)
      rw [List.replicate_succ', ← List.cons_append, step_all_append, hdiary]
      simp only [stepAll, record, call, crowd_add (Nat.lt_of_succ_le h), Option.map_some,
        Option.getD_some]
      exact ⟨_, rfl⟩
  exact grows (Nat.le_refl n)

/-- A packet in a slot whose index is cut off goes out again although its key was removed. -/
theorem orphaned_emits {n : Nat} (h : 2 ^ 32 ≤ n) : .emitted ∈ (orphaned n).turns 1 ⟨0, 0⟩ := by
  have time : (orphaned n).inTime 1 = true := by
    simp only [inTime, orphaned, List.all_cons, List.all_replicate]
    split <;> rfl
  have hslot : (orphaned n).packets.values[2 ^ 32]? = some (some (.new [] 1 1)) := by
    have hlt : 2 ^ 32 - 1 < n := by omega
    rw [show 2 ^ 32 = (2 ^ 32 - 1) + 1 from rfl, orphaned, List.getElem?_cons_succ,
      List.getElem?_replicate, if_pos hlt]
  have hkey : (orphaned n).keyAt (2 ^ 32) = ⟨0, 0⟩ := by
    have hlt : 2 ^ 32 < n + 1 := by omega
    rw [keyAt, orphaned, List.getElem?_replicate, if_pos hlt]
    rfl
  have hmem := mem_due_from (i := 0) time hslot rfl
  rw [Nat.zero_add] at hmem
  refine List.mem_flatMap.mpr ⟨_, List.mem_filter.mpr ⟨hmem, decide_eq_true hkey⟩, ?_⟩
  rw [turn, if_pos ((emission_iff hmem).mpr (by decide))]
  exact List.mem_cons_of_mem _ (List.mem_append_left _ List.mem_cons_self)

/-- The removal of the last packet of a crowd by its key removes the first one in its place. -/
theorem crowd_overflows {n : Nat} (h : 2 ^ 32 ≤ n) : ∃ before,
    (stepAll record (crowding Unit 1 (n + 1) ++ [.remove ⟨0, 0⟩, .update 1 (fun _ => id) ()])
      (some {}, fun _ => [])).2 ⟨0, 0⟩ = before ++ .removed :: (orphaned n).turns 1 ⟨0, 0⟩ ∧
    ¬ AtEach record (fun s c s' => Faithful s c ∧ Budgeted s')
      (crowding Unit 1 (n + 1) ++ [.remove ⟨0, 0⟩, .update 1 (fun _ => id) ()])
        (some {}, fun _ => []) := by
  obtain ⟨diary, hdiary⟩ := crowd_recorded (σ := Unit) (n + 1)
  have removed : record (some (crowd 1 (n + 1) (n + 1)), diary) (.remove ⟨0, 0⟩ : Call Unit) =
      some (some (orphaned n), fun k => if k = ⟨0, 0⟩ then diary k ++ [.removed] else diary k) := by
    simp only [record, call, Diary.after, crowd_remove, Outcome.toOption, Option.map_some]
  have ticked (d : Diary) : record (some (orphaned n), d) (.update 1 (fun _ => id) () : Call Unit) =
      some ((orphaned n).call (.update 1 (fun _ => id) () : Call Unit),
        fun k => d k ++ (orphaned n).turns 1 k) := rfl
  have story : (if (⟨0, 0⟩ : SlotMapKey) = ⟨0, 0⟩ then diary ⟨0, 0⟩ ++ [Happening.removed]
      else diary ⟨0, 0⟩) ++ (orphaned n).turns 1 ⟨0, 0⟩ =
        diary ⟨0, 0⟩ ++ .removed :: (orphaned n).turns 1 ⟨0, 0⟩ := by
    rw [if_pos rfl, List.append_assoc]
    rfl
  rw [step_all_append, at_each_append, hdiary]
  refine ⟨diary ⟨0, 0⟩, ?_, ?_⟩
  · simp only [stepAll, removed, ticked, Option.getD_some]
    exact story
  · simp only [AtEach, removed, ticked]
    rintro ⟨_, _, ⟨_, budgeted⟩, _⟩
    have allotted : Allotted (diary ⟨0, 0⟩ ++ .removed :: (orphaned n).turns 1 ⟨0, 0⟩) :=
      story ▸ budgeted.allotted ⟨0, 0⟩
    have emits := orphaned_emits h
    rw [allotted.ends] at emits
    exact List.not_mem_nil emits

/-- With one packet more than there are indices a packet goes out after its key was removed. -/
theorem removed_packet_emitted : ∃ (calls : List (Call Unit)) (before after : List Happening),
    (stepAll record calls (some {}, fun _ => [])).2 ⟨0, 0⟩ = before ++ .removed :: after ∧
      .emitted ∈ after ∧
      ¬ AtEach record (fun s c s' => Faithful s c ∧ Budgeted s') calls (some {}, fun _ => []) := by
  obtain ⟨before, story, broken⟩ := crowd_overflows (Nat.le_refl (2 ^ 32))
  exact ⟨_, before, _, story, orphaned_emits (Nat.le_refl _), broken⟩

end

end Theta.PacketResender
