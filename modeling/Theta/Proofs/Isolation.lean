import Theta.Net.Lane
import Theta.Proofs.Events

namespace Theta
open Lib

section
variable {Addr : Type} [DecidableEq Addr] {addr other : Addr} {provider : ChannelProvider}
  {created now : Nat} {s s' : EventLoop Addr}

@[simp] theorem addressed_append (packets more : List (Addr × Bytes)) :
    addressed addr (packets ++ more) = addressed addr packets ++ addressed addr more :=
  List.filterMap_append

@[simp] theorem addressed_posted (m m' : Endpoint) :
    addressed addr (EventLoop.posted other m m') = if other = addr then fresh m m' else [] := by
  unfold addressed EventLoop.posted fresh
  rw [List.filterMap_map]
  by_cases h : other = addr
  · simp [h]
  · simp [h]

/-- What two answers come to one after the other; only the second one may be reported. -/
theorem Lane.answer_after {lane lane' : Lane} {first second : Answer}
    (h : lane.answer first = some lane') (unseen : first.connected = false) :
    lane.answer (first.after second) = lane'.answer second := by
  rw [Lane.answer] at h
  split at h
  · cases h
  · cases h
    simp only [Lane.answer, Answer.after, unseen, Bool.false_eq_true, if_false, List.append_assoc]
    rfl

namespace EventLoop

/-- A call of the connection of one address, as another address sees it. -/
theorem lane_put_other (h : other ≠ addr) (client : Client) (before : Bool) (m m' : Endpoint) :
    (s.put other client before m m').lane addr = s.lane addr := by
  unfold lane put
  simp only [Table.get_insert, if_neg (Ne.symm h), addressed_append, addressed_posted, if_neg h,
    List.append_nil, Lane.mk.injEq, true_and, and_true]
  split
  · simp [UdpConnectionEvent.report?, h]
  · rfl

/-- A call of the connection of one address, as this address sees it. -/
theorem lane_put (client : Client) (before : Bool) (m m' : Endpoint) :
    (s.lane addr).answer ⟨some m', fresh m m', !before && m'.state = .transfer, false⟩ =
        some ((s.put addr client before m m').lane addr) := by
  unfold lane put Lane.answer
  simp only [Table.get_insert, if_pos, addressed_append, addressed_posted, Option.map_some,
    Bool.false_eq_true, if_false, Option.some.injEq, Lane.mk.injEq, true_and, and_true]
  split
  · simp [UdpConnectionEvent.report?]
  · rfl

/-- The connection that is made is the one of the answer, and nobody else sees it. -/
theorem make_connection_lane {s1 : EventLoop Addr} {made : Option Client}
    (new : s.connections.get addr = none)
    (h : s.makeConnection provider created addr = some (s1, made)) :
    (s.lane addr).answer (Answer.make provider created) = some (s1.lane addr) ∧
      (Answer.make provider created).connection = made.map Client.connection ∧
      ∀ other, other ≠ addr → s1.lane other = s.lane other := by
  unfold Answer.make
  rcases hinit : initializeConnection provider (.fresh created) with ⟨r, m⟩
  simp only [makeConnection, hinit] at h
  cases r with
  | ok u =>
    cases h
    refine ⟨?_, rfl, fun other hne => ?_⟩
    · simp [lane, Lane.answer, Table.get_insert]
    · simp [lane, Table.get_insert, hne, Ne.symm hne]
  | err e =>
    cases h
    refine ⟨?_, rfl, fun other hne => ?_⟩
    · simp [lane, Lane.answer, new]
    · simp [lane, Ne.symm hne]
  | panic => cases h

/-- A datagram of a live connection. -/
theorem read_message_lane {payload : Bytes} {before : Bool} {client : Client}
    (h : s.readMessage provider now addr payload before client = some s') :
    (s.lane addr).answer (Answer.read provider now payload before client.connection) =
        some (s'.lane addr) ∧
      (∀ other, other ≠ addr → s'.lane other = s.lane other) := by
  unfold readMessage at h
  unfold Answer.read
  rcases hrun : handleMessage provider now payload client.connection with ⟨r, m⟩
  rw [hrun] at h
  cases r with
  | panic => cases h
  | ok u =>
    cases h
    exact ⟨lane_put client before _ m, fun other hne => lane_put_other (Ne.symm hne) _ _ _ _⟩
  | err e =>
    cases h
    exact ⟨lane_put client before _ m, fun other hne => lane_put_other (Ne.symm hne) _ _ _ _⟩

/-- A datagram whose address has no connection yet. -/
theorem read_new_lane {payload : Bytes} (new : s.connections.get addr = none)
    (h : s.handleEvent provider created now (.read payload addr) = some s') :
    (s.lane addr).answer (Answer.respond provider created now (.read payload) none) =
        some (s'.lane addr) ∧
      (∀ other, other ≠ addr → s'.lane other = s.lane other) := by
  rw [handleEvent, new] at h
  cases hmake : s.makeConnection provider created addr with
  | none =>
    rw [hmake] at h
    cases h
  | some made =>
    obtain ⟨s1, made⟩ := made
    obtain ⟨own, live, others⟩ := make_connection_lane new hmake
    rw [hmake] at h
    unfold Answer.respond
    cases made with
    | none =>
      cases h
      simp only [live, Option.map_none]
      exact ⟨own, others⟩
    | some client =>
      simp only [live, Option.map_some]
      obtain ⟨read, others'⟩ := read_message_lane h
      refine ⟨?_, fun other hne => (others' other hne).trans (others other hne)⟩
      have unseen : (Answer.make provider created).connected = false := by
        unfold Answer.make
        split <;> rfl
      rw [Lane.answer_after own unseen]
      exact read

/-- An event is answered by the connection of its address, and by no other one. -/
theorem handle_event_lane {event : UdpEvent Addr} {request : Request}
    (h : s.handleEvent provider created now event = some s')
    (own : event.request = some (addr, request)) :
    (s.lane addr).answer
        (Answer.respond provider created now request (s.lane addr).connection) =
        some (s'.lane addr) ∧
      (∀ other, other ≠ addr → s'.lane other = s.lane other) := by
  cases event with
  | read payload addr =>
    cases own
    cases hget : s.connections.get addr with
    | none =>
      have none : (s.lane addr).connection = none := by simp [lane, hget]
      rw [none]
      exact read_new_lane hget h
    | some client =>
      have live : (s.lane addr).connection = some client.connection := by simp [lane, hget]
      rw [live]
      rw [handleEvent, hget] at h
      exact read_message_lane h
  | closeConnection addr =>
    cases own
    cases h
    refine ⟨?_, fun other hne => ?_⟩
    · simp [lane, Answer.respond, Lane.answer, Table.get_remove]
    · simp [lane, Table.get_remove, hne]
  | closeServer => cases own
  | connect addr =>
    cases own
    cases hget : s.connections.get addr with
    | none =>
      have none : (s.lane addr).connection = none := by simp [lane, hget]
      rw [handleEvent, hget] at h
      obtain ⟨⟨s1, made⟩, hmake, rfl⟩ := Option.map_eq_some_iff.mp h
      obtain ⟨own, _, others⟩ := make_connection_lane hget hmake
      rw [none]
      exact ⟨own, others⟩
    | some client =>
      have live : (s.lane addr).connection = some client.connection := by simp [lane, hget]
      rw [handleEvent, hget] at h
      cases h
      rw [live]
      refine ⟨?_, fun other _ => rfl⟩
      simp [Answer.respond, Lane.answer, ← live]
  | send channel payload addr =>
    cases own
    cases hget : s.connections.get addr with
    | none =>
      have none : (s.lane addr).connection = none := by simp [lane, hget]
      rw [handleEvent, hget] at h
      cases h
      rw [none]
      refine ⟨?_, fun other _ => rfl⟩
      simp [Answer.respond, Lane.answer, ← none]
    | some client =>
      have live : (s.lane addr).connection = some client.connection := by simp [lane, hget]
      rw [live]
      simp only [handleEvent, hget] at h
      simp only [Answer.respond, Answer.send]
      rcases hrun : sendEvent provider channel payload client.connection with ⟨r, m⟩
      rw [hrun] at h
      cases r with
      | panic => cases h
      | ok u =>
        cases h
        exact ⟨lane_put client _ _ m, fun other hne => lane_put_other (Ne.symm hne) _ _ _ _⟩
      | err e =>
        cases h
        exact ⟨lane_put client _ _ m, fun other hne => lane_put_other (Ne.symm hne) _ _ _ _⟩

omit [DecidableEq Addr] in
/-- What a tick gives to the packet senders. -/
theorem noted_posts {time0 : Nat} (posts : Addr → Client → List (Addr × Bytes))
    (entries : List (Addr × Client)) (noted : List Addr) (buffer : List (Addr × Bytes)) :
    (entries.foldl (fun acc e => if stale time0 e.2 then (acc.1 ++ [e.1], acc.2)
      else (acc.1, acc.2 ++ posts e.1 e.2)) (noted, buffer)).2 =
      buffer ++ entries.flatMap (fun e => if stale time0 e.2 then [] else posts e.1 e.2) := by
  induction entries generalizing noted buffer with
  | nil => simp
  | cons e rest ih =>
    rw [List.foldl_cons, List.flatMap_cons]
    by_cases hs : stale time0 e.2 = true
    · rw [if_pos hs, if_pos hs, ih, List.nil_append]
    · rw [if_neg hs, if_neg hs, ih, List.append_assoc]

theorem tick_posts {elapsed : Nat} (h : s.tick elapsed now = some s')
    (due : (elapsed - s.time0) % 2 ^ 64 > deltaMin) :
    s'.time0 = now ∧ s'.closed = s.closed ∧
      s'.buffer = s.buffer ++ s.connections.entries.flatMap (fun e => if stale now e.2 then []
        else posted e.1 e.2.connection (updateConnection
          (BitVec.ofNat 32 ((elapsed - s.time0) % 2 ^ 64)) e.2.connection).2) := by
  simp only [tick, if_pos due] at h
  split at h
  · cases h
  · rename_i connections toRemove buffer visited
    cases h
    obtain ⟨_, hacc, _⟩ := Table.visit_spec (fun _ _ _ _ hbody => maintain_body hbody) visited
    exact ⟨rfl, rfl, (congrArg Prod.snd hacc).trans (noted_posts (fun addr client =>
      posted addr client.connection (updateConnection _ client.connection).2) _ [] s.buffer)⟩

/-- The connection of an address after a tick that is due. -/
theorem tick_connection {elapsed : Nat} (h : s.tick elapsed now = some s')
    (due : (elapsed - s.time0) % 2 ^ 64 > deltaMin) :
    s'.connections.get addr = (s.connections.get addr).bind (fun client =>
      if stale now client then none
      else some (maintained (BitVec.ofNat 32 ((elapsed - s.time0) % 2 ^ 64)) client)) := by
  apply Option.ext
  intro client'
  rw [Table.get_eq_some, (tick_due h due).1, List.mem_map, Option.bind_eq_some_iff]
  constructor
  · intro ⟨e, he, heq⟩
    obtain ⟨hmem, hs⟩ := List.mem_filter.mp he
    cases heq
    exact ⟨e.2, Table.get_eq_some.mpr hmem, by simpa using hs⟩
  · intro ⟨client, hget, hclient⟩
    obtain ⟨hs, rfl⟩ : stale now client = false ∧ maintained _ client = client' := by
      simpa using hclient
    exact ⟨(addr, client), List.mem_filter.mpr ⟨Table.get_eq_some.mp hget, by simp [hs]⟩, rfl⟩

theorem tick_addressed {elapsed : Nat} (h : s.tick elapsed now = some s')
    (due : (elapsed - s.time0) % 2 ^ 64 > deltaMin) :
    addressed addr s'.buffer = addressed addr s.buffer ++
      ((s.connections.get addr).map (fun client => if stale now client then []
        else fresh client.connection (updateConnection
          (BitVec.ofNat 32 ((elapsed - s.time0) % 2 ^ 64)) client.connection).2)).getD [] := by
  rw [(tick_posts h due).2.2, addressed_append]
  congr 1
  unfold addressed
  rw [List.filterMap_flatMap, Table.flat_map_get s.connections addr]
  · congr 2
    funext client
    split
    · rfl
    · exact (addressed_posted client.connection _).trans (if_pos rfl)
  · intro e _ hne
    split
    · rfl
    · exact (addressed_posted e.2.connection _).trans (if_neg hne)

theorem tick_reports {elapsed : Nat} (h : s.tick elapsed now = some s')
    (due : (elapsed - s.time0) % 2 ^ 64 > deltaMin) :
    s'.newConnections.filterMap (UdpConnectionEvent.report? addr) =
      s.newConnections.filterMap (UdpConnectionEvent.report? addr) ++
        ((s.connections.get addr).map (fun client => if stale now client then [.timedOut]
          else [])).getD [] := by
  rw [(tick_due h due).2.1, List.filterMap_append]
  congr 1
  rw [List.filterMap_map, List.filterMap_filter, List.filterMap_eq_flatMap_toList,
    Table.flat_map_get s.connections addr]
  · congr 2
    funext client
    cases stale now client
    · rfl
    · simp [UdpConnectionEvent.report?]
  · intro e _ hne
    cases stale now e.2
    · rfl
    · simp [UdpConnectionEvent.report?, hne]

/-- Under an address, a tick does what it does to the connection of this address. -/
theorem tick_lane {elapsed : Nat} (h : s.tick elapsed now = some s') :
    (s.lane addr).tick elapsed now = some (s'.lane addr) := by
  by_cases due : (elapsed - s.time0) % 2 ^ 64 > deltaMin
  · have hlane : s'.lane addr = ⟨_, _, _, _, _⟩ := rfl
    rw [tick_connection h due, tick_addressed h due, tick_reports h due, (tick_posts h due).1,
      (tick_posts h due).2.1] at hlane
    have returns := (tick_due h due).2.2.2
    rw [hlane]
    refine (if_pos due).trans ?_
    dsimp only [lane]
    generalize BitVec.ofNat 32 ((elapsed - s.time0) % 2 ^ 64) = delta at returns ⊢
    cases hget : s.connections.get addr with
    | none => simp
    | some client =>
      have returns := returns _ (Table.get_eq_some.mp hget)
      by_cases hs : stale now client = true
      · have old : client.connection.lastTimeReceivedPacket - now > connectionTimeout := by
          simpa [stale] using hs
        simp [hs, old]
      · rw [Bool.not_eq_true] at hs
        have young : ¬ client.connection.lastTimeReceivedPacket - now > connectionTimeout := by
          simpa [stale] using hs
        simp only [Option.map_some, if_neg young, Lane.update]
        rcases hrun : updateConnection delta client.connection with ⟨r, m⟩
        cases r with
        | panic => exact absurd (congrArg Prod.fst hrun) (returns hs)
        | ok u => simp [hs, maintained, hrun]
        | err e => simp [hs, maintained, hrun]
  · simp only [EventLoop.tick, if_neg due] at h
    cases h
    exact if_neg due

end EventLoop

omit [DecidableEq Addr] in
theorem UdpEvent.request_none {event : UdpEvent Addr} :
    event.request = none ↔ event = .closeServer := by
  cases event <;> simp [UdpEvent.request]

/-- The loop keeps its connections apart. -/
theorem lanes_separate (provider : ChannelProvider) (addr : Addr) :
    Separate (EventLoop.Turns provider) (Lane.step provider) (EventLoop.lane addr)
      (Turn.lane? addr) where
  own := by
    intro s turn t own step hpick
    cases step with
    | event created now event s s' running h =>
      refine (if_neg (by simp [EventLoop.lane, running])).trans ?_
      cases hrequest : event.request with
      | none =>
        simp only [Turn.lane?, hrequest, Option.some.injEq] at hpick
        obtain rfl := UdpEvent.request_none.mp hrequest
        subst hpick
        cases h
        rfl
      | some r =>
        obtain ⟨addr', request⟩ := r
        simp only [Turn.lane?, hrequest, Option.ite_none_right_eq_some, Option.some.injEq] at hpick
        obtain ⟨rfl, rfl⟩ := hpick
        exact (EventLoop.handle_event_lane h hrequest).1
    | tick elapsed now s s' running h =>
      cases hpick
      refine (if_neg (by simp [EventLoop.lane, running])).trans ?_
      exact EventLoop.tick_lane h
    | rehash s connections same => cases hpick
  other := by
    intro s turn t step hpick
    cases step with
    | event created now event s s' running h =>
      cases hrequest : event.request with
      | none => simp [Turn.lane?, hrequest] at hpick
      | some r =>
        obtain ⟨addr', request⟩ := r
        simp only [Turn.lane?, hrequest] at hpick
        have hne : addr ≠ addr' := by
          intro same
          rw [if_pos same.symm] at hpick
          cases hpick
        exact (EventLoop.handle_event_lane h hrequest).2 addr hne
    | tick elapsed now s s' running h => cases hpick
    | rehash s connections same =>
      unfold EventLoop.lane
      rw [same.get]

/-- A connection, what it sends and what is reported of it depend on the datagrams and requests of
its own address and on the ticks, and on nothing that the loop does for other addresses. -/
theorem connections_isolated {turns turns' : List (Turn Addr)} {s s' t t' : EventLoop Addr}
    (run : Trace (EventLoop.Turns provider) turns s t)
    (run' : Trace (EventLoop.Turns provider) turns' s' t')
    (start : s.lane addr = s'.lane addr)
    (same : turns.filterMap (Turn.lane? addr) = turns'.filterMap (Turn.lane? addr)) :
    t.lane addr = t'.lane addr ∧
      (turns.filterMap (Turn.lane? addr)).foldlM (Lane.step provider) (s.lane addr) =
        some (t.lane addr) := by
  have separate := lanes_separate provider addr
  exact ⟨separate.agrees run run' start same, separate.projects run⟩

end

/-- One peer is connected to and waited for, with another one beside it and without. -/
def crowdedTurns : List (Turn Bool) :=
  [.event 0 0 (.connect true), .event 1 1 (.connect false), .event 2 2 (.read [10] false),
    .tick 30 30]

def aloneTurns : List (Turn Bool) := [.event 0 0 (.connect true), .rehash, .tick 30 30]

def afterTurns (turns : List (Turn Bool)) : EventLoop Bool :=
  (EventLoop.turnAll builtinProvider turns (.start 0)).getD (.start 0)

theorem connections_isolated_crowded :
    (afterTurns crowdedTurns).lane true = (afterTurns aloneTurns).lane true ∧
      (crowdedTurns.filterMap (Turn.lane? true)).foldlM (Lane.step builtinProvider)
        ((EventLoop.start 0 : EventLoop Bool).lane true) =
        some ((afterTurns crowdedTurns).lane true) := by
  have ran (turns : List (Turn Bool))
      (h : EventLoop.turnAll builtinProvider turns (.start 0) ≠ none) :
      Trace (EventLoop.Turns builtinProvider) turns (.start 0) (afterTurns turns) :=
    turn_all_trace (Option.getD_of_ne_none h (.start 0)).symm
  exact connections_isolated (ran crowdedTurns (by decide +kernel))
    (ran aloneTurns (by decide +kernel)) rfl rfl

end Theta
