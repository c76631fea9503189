import Theta.Proofs.Acknowledgements
import Theta.Proofs.Emissions
import Theta.Proofs.Events
import Theta.Proofs.Numbering

namespace Theta
open Lib

theorem send_each (packets : List (Nat × ReliableBufferedPacket)) (m : Endpoint) :
    forM packets (fun e => sendDatagram e.2.payload) m =
      (.ok (), { m with log := m.log ++ packets.map (fun e => .sent e.2.payload) }) := by
  induction packets generalizing m with
  | nil =>
    rw [List.map_nil, List.append_nil]
    rfl
  | cons e rest ih =>
    rw [List.forM_cons]
    refine (Act.bind_of_ok (show sendDatagram e.2.payload m = (.ok (), _) from rfl)).trans ?_
    rw [ih, List.map_cons, List.append_assoc]
    rfl

/-- A tick sends the packets that are due and have an attempt left, up to a clock that runs over. -/
theorem update_sends (delta : U32) (m : Endpoint) :
    m.resender.update delta (fun packet => sendDatagram packet.payload) m =
      (if m.resender.inTime delta then .ok (m.resender.ticked delta) else .panic,
        { m with log := m.log ++
          (m.resender.emissions delta).map (fun e => .sent e.2.payload) }) := by
  rw [PacketResender.update_eq, Act.bind_of_ok (send_each (m.resender.emissions delta) m)]
  split <;> rfl

/-- A tick can update the connection: no clock of its resender runs over, its acknowledgement
channel has an id, and after the tick the resender has a number left for the acknowledgements. -/
structure Updatable (delta : U32) (m : Endpoint) : Prop where
  clocks : m.resender.inTime delta = true
  numbered : m.localInner.ackChannelId?.isSome
  takes : m.ackPacket.channelId.toNat < 2 ^ 31 →
    (m.resender.ticked delta).packets.vacant.takes m.resender.capacity 1 = true

section
variable {m : Endpoint} {delta : U32}

/-- A flush goes through or is refused, unless the resender has no number left for it. -/
theorem flush_returns_iff {id : U32} (hid : m.localInner.ackChannelId? = some id) (hc : m.Compact) :
    (ConnectionAcknowledgeBuffer.flush id m).1 ≠ .panic ↔
      (m.ackPacket.channelId.toNat < 2 ^ 31 →
        m.resender.packets.vacant.takes m.resender.capacity 1 = true) := by
  have own : m.ackPacket.channelId = m.ackLocalId id := by
    rw [← ack_channel_id hid]
    rfl
  rw [own]
  by_cases small : (m.ackLocalId id).toNat < 2 ^ 31
  · have hlen : m.acknowledgeBuffer.length ≤ maxNonSegmentedPayloadLen := hc
    have whole : packetCount m.acknowledgeBuffer = 1 := by
      rw [packetCount, if_neg (Nat.not_lt_of_le hlen)]
    have within : m.acknowledgeBuffer.length ≤ 65536 * (maxPacketLen - maxPacketMetadataLen) :=
      Nat.le_trans hlen (by decide)
    have returns : (transmit ⟨m.ackLocalId id, ackChannel⟩ none m.acknowledgeBuffer m).1 ≠ .panic ↔
        _ := transmit_returns_iff small
    have hflush : ConnectionAcknowledgeBuffer.flush id m =
        (transmit ⟨m.ackLocalId id, ackChannel⟩ none m.acknowledgeBuffer >>= fun _ =>
          Act.modify (fun m => { m with acknowledgeBuffer := [] }) : Call Unit) m := rfl
    have same : (ConnectionAcknowledgeBuffer.flush id m).1 = .panic ↔
        (transmit ⟨m.ackLocalId id, ackChannel⟩ none m.acknowledgeBuffer m).1 = .panic := by
      rw [hflush, Act.bind_apply]
      rcases transmit ⟨m.ackLocalId id, ackChannel⟩ none m.acknowledgeBuffer m with ⟨r, t⟩
      cases r <;> simp
    simp only [small, true_imp_iff]
    rw [ne_eq, same, ← ne_eq, returns, whole]
    exact ⟨fun h => h.2 rfl, fun h => ⟨within, fun _ => h⟩⟩
  · rw [flush_run hc, if_neg small]
    exact iff_of_true (by simp) (fun h => absurd h small)

/-- The update of a connection panics for no other reason. -/
theorem update_returns_iff (hc : m.Compact) :
    (updateConnection delta m).1 ≠ .panic ↔ Updatable delta m := by
  have update := update_sends delta m
  by_cases time : m.resender.inTime delta = true
  swap
  · rw [if_neg time] at update
    rw [updateConnection, Act.bind_of_ok (Act.get_apply m), Act.bind_of_panic update]
    simp only [ne_eq, not_true_eq_false, false_iff]
    exact fun h => time h.clocks
  rw [if_pos time] at update
  rw [updateConnection, Act.bind_of_ok (Act.get_apply m), Act.bind_of_ok update]
  simp only [Act.bind_apply, Act.modify_apply, localAckChannelId, Act.get_apply, Act.lift_apply]
  cases hid : m.localInner.ackChannelId? with
  | none =>
    simp only [Outcome.ofOption, ne_eq, not_true_eq_false, false_iff]
    intro h
    have numbered := h.numbered
    rw [hid] at numbered
    cases numbered
  | some id =>
    simp only [Outcome.ofOption]
    have hticked : (m.resender.ticked delta).capacity = m.resender.capacity := rfl
    have flush := flush_returns_iff (m := { m with
      resender := m.resender.ticked delta
      log := m.log ++ (m.resender.emissions delta).map (fun e => .sent e.2.payload) }) hid hc
    rw [flush]
    constructor
    · exact fun takes => ⟨time, by rw [hid]; rfl, takes⟩
    · exact fun h => h.takes

end

section
variable {Addr : Type} [DecidableEq Addr] {provider : ChannelProvider} {clock : Nat}
  {s : EventLoop Addr}

/-- The last packet of a connection was received more than the timeout before an instant. -/
def silent (t : Nat) (client : Client) : Bool :=
  t - client.connection.lastTimeReceivedPacket > connectionTimeout

/-- A tick removes and reports the silent connections, and updates the others. -/
structure TimesOut (delta : U32) (t : Nat) (s s' : EventLoop Addr) : Prop where
  connections : s'.connections.entries = (s.connections.entries.filter (fun e => !silent t e.2)).map
    (fun e => (e.1, EventLoop.maintained delta e.2))
  events : s'.newConnections = s.newConnections ++
    (s.connections.entries.filter (fun e => silent t e.2)).map (fun e => .timedOut e.1)

/-- No connection is stale at an instant that is not before its last packet. -/
theorem Looping.fresh (h : Looping provider clock s) {now : Nat} (later : clock ≤ now) :
    ∀ e ∈ s.connections.entries, EventLoop.stale now e.2 = false := by
  intro e he
  have htime := h.sound.times e he
  simp only [EventLoop.stale, decide_eq_false_iff_not]
  omega

/-- A maintenance tick whose connections can all be updated returns. -/
theorem tick_returns (h : Looping provider clock s) {elapsed now : Nat} (later : clock ≤ now)
    (updatable : ∀ e ∈ s.connections.entries,
      Updatable (BitVec.ofNat 32 ((elapsed - s.time0) % 2 ^ 64)) e.2.connection)
    (due : (elapsed - s.time0) % 2 ^ 64 > deltaMin) : ∃ s', s.tick elapsed now = some s' := by
  have body : ∀ e ∈ s.connections.entries, ∀ acc, ∃ r, EventLoop.maintain
      (BitVec.ofNat 32 ((elapsed - s.time0) % 2 ^ 64)) now e.1 e.2 acc = some r := by
    intro e he acc
    have fresh := h.fresh later e he
    simp only [EventLoop.stale, decide_eq_false_iff_not] at fresh
    have compact := (h.sound.reachable e he).passed.compact
    have returns := (update_returns_iff compact).mpr (updatable e he)
    obtain ⟨toRemove, buffer⟩ := acc
    rw [EventLoop.maintain, if_neg fresh]
    rcases hrun : updateConnection (BitVec.ofNat 32 ((elapsed - s.time0) % 2 ^ 64))
        e.2.connection with ⟨r, m⟩
    rw [hrun] at returns
    cases r with
    | panic => exact absurd rfl returns
    | ok u => exact ⟨_, rfl⟩
    | err e => exact ⟨_, rfl⟩
  obtain ⟨⟨connections, toRemove, buffer⟩, visited⟩ := Table.visit_returns body ([], s.buffer)
  simp only [EventLoop.tick, if_pos due, visited]
  exact ⟨_, rfl⟩

/-- A maintenance tick of a run returns and does what it should exactly when no connection is
silent and all of them can be updated. -/
theorem tick_times_out_iff (h : Looping provider clock s) {elapsed now : Nat}
    (later : clock ≤ elapsed) (later' : elapsed ≤ now)
    (due : (elapsed - s.time0) % 2 ^ 64 > deltaMin) :
    (∃ s', s.tick elapsed now = some s' ∧
      TimesOut (BitVec.ofNat 32 ((elapsed - s.time0) % 2 ^ 64)) now s s') ↔
    ∀ e ∈ s.connections.entries, silent now e.2 = false ∧
      Updatable (BitVec.ofNat 32 ((elapsed - s.time0) % 2 ^ 64)) e.2.connection := by
  have fresh := h.fresh (Nat.le_trans later later')
  have all : s.connections.entries.filter (fun e => !EventLoop.stale now e.2) =
      s.connections.entries := List.filter_eq_self.mpr (fun e he => by rw [fresh e he]; rfl)
  have none : s.connections.entries.filter (fun e => EventLoop.stale now e.2) = [] :=
    List.filter_eq_nil_iff.mpr (fun e he => by rw [fresh e he]; exact Bool.false_ne_true)
  constructor
  · rintro ⟨s', ticked, timed⟩ e he
    obtain ⟨_, hevents, _, hreturns⟩ := EventLoop.tick_due ticked due
    rw [none, List.map_nil, List.append_nil] at hevents
    have compact := (h.sound.reachable e he).passed.compact
    refine ⟨?_, (update_returns_iff compact).mp (hreturns e he (fresh e he))⟩
    have hnil := timed.events
    rw [hevents, List.self_eq_append_right, List.map_eq_nil_iff] at hnil
    have hne := List.filter_eq_nil_iff.mp hnil e he
    exact Bool.eq_false_of_not_eq_true hne
  · intro fit
    obtain ⟨s', ticked⟩ := tick_returns h (Nat.le_trans later later') (fun e he => (fit e he).2) due
    obtain ⟨hentries, hevents, _, _⟩ := EventLoop.tick_due ticked due
    rw [all] at hentries
    rw [none, List.map_nil, List.append_nil] at hevents
    refine ⟨s', ticked, ?_, ?_⟩
    · rw [hentries, List.filter_eq_self.mpr (fun e he => by rw [(fit e he).1]; rfl)]
    · have hnil : s.connections.entries.filter (fun e => silent now e.2) = [] :=
        List.filter_eq_nil_iff.mpr (fun e he => by rw [(fit e he).1]; exact Bool.false_ne_true)
      rw [hevents, hnil, List.map_nil, List.append_nil]

end

/-- A peer is connected to, and never answers. -/
def waiting : EventLoop Unit :=
  (EventLoop.handleAll builtinProvider 0 [.connect ()] (.start 0)).getD (.start 0)

theorem waiting_looping : Looping builtinProvider 0 waiting := by
  have handled : (EventLoop.handleAll builtinProvider 0 [.connect ()]
      (.start 0 : EventLoop Unit)).isSome = true := by decide +kernel
  unfold waiting
  obtain ⟨s, hs⟩ := Option.isSome_iff_exists.mp handled
  rw [hs]
  exact (Looping.start 0).handle_all hs

/-- The loop after a tick at one instant. -/
def waitingUntil (t : Nat) : EventLoop Unit := (waiting.tick t t).getD waiting

theorem tick_times_out_waiting :
    (∃ s', waiting.tick 26 26 = some s' ∧
      TimesOut (BitVec.ofNat 32 ((26 - waiting.time0) % 2 ^ 64)) 26 waiting s') ↔
    ∀ e ∈ waiting.connections.entries, silent 26 e.2 = false ∧
      Updatable (BitVec.ofNat 32 ((26 - waiting.time0) % 2 ^ 64)) e.2.connection := by
  have due : (26 - waiting.time0) % 2 ^ 64 > deltaMin := by decide +kernel
  exact tick_times_out_iff waiting_looping (Nat.zero_le _) (Nat.le_refl _) due

/-- More than 30 seconds after its last packet a connection is neither removed nor reported. -/
theorem silent_connection_kept :
    Looping builtinProvider 0 waiting ∧ waiting.tick 30026 30026 = some (waitingUntil 30026) ∧
      (waiting.connections.entries.all (fun e => silent 30026 e.2)) = true ∧
      (waitingUntil 30026).connections.entries.length = 1 ∧
      (waitingUntil 30026).newConnections = [] ∧
      ¬ ∃ s', waiting.tick 30026 30026 = some s' ∧ TimesOut 30026 30026 waiting s' := by
  have returned : (waiting.tick 30026 30026).isSome = true := by decide +kernel
  have ticked : waiting.tick 30026 30026 = some (waitingUntil 30026) := by
    unfold waitingUntil
    obtain ⟨s, hs⟩ := Option.isSome_iff_exists.mp returned
    rw [hs]
    rfl
  have all : (waiting.connections.entries.all (fun e => silent 30026 e.2)) = true := by
    decide +kernel
  have kept : (waitingUntil 30026).connections.entries.length = 1 := by decide +kernel
  have unreported : (waitingUntil 30026).newConnections = [] := by decide +kernel
  have due : (waiting.connections.entries.filter (fun e => silent 30026 e.2)).length = 1 := by
    decide +kernel
  refine ⟨waiting_looping, ticked, all, kept, unreported, fun ⟨s', hs', timed⟩ => ?_⟩
  rw [ticked, Option.some.injEq] at hs'
  subst hs'
  have hlen := congrArg List.length timed.events
  rw [unreported, List.length_append, List.length_map, due, List.length_nil] at hlen
  omega

end Theta
