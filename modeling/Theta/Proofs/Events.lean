import Theta.Net.Udp
import Theta.Proofs.Frames

namespace Theta
open Lib Relation

theorem handle_message_stays (p : ChannelProvider) (now : Nat) (d : Bytes) {m : Endpoint}
    (hc : m.Compact) (hst : m.state = .transfer) :
    (handleMessage p now d m).2.state = .transfer := by
  have run : ReflTransGen (Move (working p)) m (handleMessage p now d m).2 := handle_message_work hc
  exact transfer_stays run hst

theorem update_connection_state {delta : U32} {m : Endpoint} (hc : m.Compact) :
    (updateConnection delta m).2.state = m.state :=
  (same_receipts flushing_quiet (update_connection_moves hc (fun _ => ⟨rfl, rfl⟩))).state

namespace EventLoop
variable {Addr : Type} [DecidableEq Addr]

/-- A `Connected` event of this address. -/
def announces (addr : Addr) : UdpConnectionEvent Addr → Bool
  | .connected addr' _ => addr' = addr
  | .timedOut _ => false

/-- A `Connected` event with these buffers. -/
def carries (buffer : Nat) : UdpConnectionEvent Addr → Bool
  | .connected _ buffer' => buffer' = buffer
  | .timedOut _ => false

/-- The `Connected` events that a client should have. -/
def report (addr : Addr) (client : Client) : List (UdpConnectionEvent Addr) :=
  if client.connection.state = .transfer then [.connected addr client.buffer] else []

/-- Every live connection that is in the transfer stage has been reported once, with its own
buffers, and no other one. -/
structure Reported (s : EventLoop Addr) : Prop where
  since : ∀ e ∈ s.connections.entries, e.2.since ≤ s.newConnections.length
  buffer : ∀ e ∈ s.connections.entries, e.2.buffer < s.buffers
  pushed : ∀ addr buffer, .connected addr buffer ∈ s.newConnections → buffer < s.buffers
  own : ∀ e ∈ s.connections.entries, ∀ e' ∈ s.connections.entries,
    e.2.buffer = e'.2.buffer → e.1 = e'.1
  once : ∀ e ∈ s.connections.entries,
    (s.newConnections.drop e.2.since).filter (announces e.1) = report e.1 e.2
  only : ∀ e ∈ s.connections.entries, s.newConnections.filter (carries e.2.buffer) = report e.1 e.2

/-- A client that was there before, with the same buffers and in the same stage. -/
structure Remains (client client' : Client) : Prop where
  since : client'.since = client.since
  buffer : client'.buffer = client.buffer
  stage : client'.connection.state = .transfer ↔ client.connection.state = .transfer

omit [DecidableEq Addr] in
theorem Remains.report {client client' : Client} (h : Remains client client') (addr : Addr) :
    report addr client' = report addr client := by
  unfold EventLoop.report
  simp only [h.buffer, h.stage]

/-- Connections that are removed, and events of removals, leave the reports as they are. -/
theorem Reported.remains {s s' : EventLoop Addr} (h : s.Reported)
    (clients : ∀ e' ∈ s'.connections.entries, ∃ client, (e'.1, client) ∈ s.connections.entries ∧
      Remains client e'.2)
    (events : List Addr) (pushed : s'.newConnections = s.newConnections ++ events.map .timedOut)
    (more : s.buffers ≤ s'.buffers) : s'.Reported := by
  have silent (f : UdpConnectionEvent Addr → Bool) (hf : ∀ addr, f (.timedOut addr) = false) :
      (events.map UdpConnectionEvent.timedOut).filter f = [] := by
    rw [List.filter_eq_nil_iff]
    intro event hevent
    obtain ⟨addr, _, rfl⟩ := List.mem_map.mp hevent
    rw [hf]
    exact Bool.false_ne_true
  constructor
  · intro e' he'
    obtain ⟨client, he, hr⟩ := clients e' he'
    have hle : client.since ≤ s.newConnections.length := h.since _ he
    rw [hr.since, pushed, List.length_append]
    omega
  · intro e' he'
    obtain ⟨client, he, hr⟩ := clients e' he'
    have hlt : client.buffer < s.buffers := h.buffer _ he
    rw [hr.buffer]
    omega
  · intro addr buffer hmem
    rw [pushed, List.mem_append] at hmem
    rcases hmem with hmem | hmem
    · exact Nat.lt_of_lt_of_le (h.pushed addr buffer hmem) more
    · obtain ⟨_, _, he⟩ := List.mem_map.mp hmem
      cases he
  · intro e1 he1 e2 he2 hsame
    obtain ⟨c1, h1, hr1⟩ := clients e1 he1
    obtain ⟨c2, h2, hr2⟩ := clients e2 he2
    have hbuffer : c1.buffer = c2.buffer := by rw [← hr1.buffer, ← hr2.buffer, hsame]
    exact h.own (e1.1, c1) h1 (e2.1, c2) h2 hbuffer
  · intro e' he'
    obtain ⟨client, he, hr⟩ := clients e' he'
    have hle : client.since ≤ s.newConnections.length := h.since _ he
    rw [hr.report, hr.since, pushed, List.drop_append_of_le_length hle, List.filter_append,
      silent _ (fun _ => rfl), List.append_nil]
    exact h.once _ he
  · intro e' he'
    obtain ⟨client, he, hr⟩ := clients e' he'
    rw [hr.report, hr.buffer, pushed, List.filter_append, silent _ (fun _ => rfl), List.append_nil]
    exact h.only _ he

/-- A connection after a call that does not leave the transfer stage. -/
theorem Reported.put {s : EventLoop Addr} {addr : Addr} {client : Client} (h : s.Reported)
    (live : (addr, client) ∈ s.connections.entries) (before after : Endpoint)
    (stays : client.connection.state = .transfer → after.state = .transfer) :
    (s.put addr client (client.connection.state = .transfer) before after).Reported := by
  by_cases switches : client.connection.state ≠ .transfer ∧ after.state = .transfer
  · obtain ⟨hbefore, hafter⟩ := switches
    have hnew : (s.put addr client (client.connection.state = .transfer) before
        after).newConnections = s.newConnections ++ [.connected addr client.buffer] := by
      simp [EventLoop.put, hbefore, hafter]
    have hreport : report addr client = [] := if_neg hbefore
    have clients : ∀ e ∈ (s.put addr client (client.connection.state = .transfer) before
        after).connections.entries, e = (addr, { client with connection := after }) ∨
          (e ∈ s.connections.entries ∧ e.1 ≠ addr) := fun e he => Table.mem_insert.mp he
    have hnow : report addr { client with connection := after } =
        [.connected addr client.buffer] := if_pos hafter
    constructor
    · intro e he
      rw [hnew, List.length_append]
      rcases clients e he with rfl | ⟨he, _⟩
      · exact Nat.le_add_right_of_le (h.since (addr, client) live)
      · exact Nat.le_add_right_of_le (h.since _ he)
    · intro e he
      rcases clients e he with rfl | ⟨he, _⟩
      · exact h.buffer (addr, client) live
      · exact h.buffer _ he
    · intro a b hmem
      rw [hnew, List.mem_append, List.mem_singleton] at hmem
      rcases hmem with hmem | he
      · exact h.pushed a b hmem
      · cases he
        exact h.buffer _ live
    · intro e1 he1 e2 he2 hsame
      rcases clients e1 he1 with rfl | ⟨he1, _⟩ <;> rcases clients e2 he2 with rfl | ⟨he2, _⟩
      · rfl
      · exact h.own (addr, client) live e2 he2 hsame
      · exact h.own e1 he1 (addr, client) live hsame
      · exact h.own e1 he1 e2 he2 hsame
    · intro e he
      rw [hnew]
      rcases clients e he with rfl | ⟨he, hne⟩
      · have honce := h.once _ live
        rw [hreport] at honce
        rw [List.drop_append_of_le_length (h.since _ live), List.filter_append, honce, hnow]
        simp [announces]
      · rw [List.drop_append_of_le_length (h.since _ he), List.filter_append, h.once _ he]
        simp [announces, Ne.symm hne]
    · intro e he
      rw [hnew, List.filter_append]
      rcases clients e he with rfl | ⟨he, hne⟩
      · have honly := h.only _ live
        rw [hreport] at honly
        rw [honly, hnow]
        simp [carries]
      · have hbuffer : client.buffer ≠ e.2.buffer :=
          fun hsame => hne (h.own (addr, client) live e he hsame).symm
        rw [h.only _ he]
        simp [carries, hbuffer]
  · have hstage : after.state = .transfer ↔ client.connection.state = .transfer := by
      refine ⟨fun hafter => ?_, stays⟩
      by_contra hbefore
      exact switches ⟨hbefore, hafter⟩
    refine h.remains (fun e he => ?_) [] ?_ (Nat.le_refl _)
    · rcases Table.mem_insert.mp he with rfl | ⟨he, _⟩
      · exact ⟨client, live, rfl, rfl, hstage⟩
      · exact ⟨e.2, he, rfl, rfl, Iff.rfl⟩
    · by_cases hst : client.connection.state = .transfer <;>
        simp [EventLoop.put, hst, hstage]

/-- A new connection is in the registration stage, and its buffers are its own. -/
theorem Reported.make {s s' : EventLoop Addr} {provider : ChannelProvider} {created : Nat}
    {addr : Addr} {made : Option Client} (h : s.Reported)
    (new : s.makeConnection provider created addr = some (s', made)) :
    s'.Reported ∧ ∀ client, made = some client →
      (addr, client) ∈ s'.connections.entries ∧ Reachable provider client.connection ∧
        client.connection.state ≠ .transfer := by
  unfold makeConnection at new
  simp only at new
  split at new
  · rename_i m hinit
    cases new
    have hstate : m.state ≠ .transfer := by
      obtain ⟨key, hst⟩ := initialize_state hinit
      rw [hst]
      simp
    refine ⟨⟨?_, ?_, ?_, ?_, ?_, ?_⟩, fun client hclient => ?_⟩
    · intro e he
      rcases Table.mem_insert.mp he with rfl | ⟨he, _⟩
      · exact Nat.le_refl _
      · exact h.since e he
    · intro e he
      rcases Table.mem_insert.mp he with rfl | ⟨he, _⟩
      · exact Nat.lt_succ_self _
      · exact Nat.lt_succ_of_lt (h.buffer e he)
    · exact fun a b hmem => Nat.lt_succ_of_lt (h.pushed a b hmem)
    · intro e1 he1 e2 he2 hsame
      rcases Table.mem_insert.mp he1 with rfl | ⟨he1, _⟩ <;>
        rcases Table.mem_insert.mp he2 with rfl | ⟨he2, _⟩
      · rfl
      · exact absurd hsame.symm (Nat.ne_of_lt (h.buffer e2 he2))
      · exact absurd hsame (Nat.ne_of_lt (h.buffer e1 he1))
      · exact h.own e1 he1 e2 he2 hsame
    · intro e he
      rcases Table.mem_insert.mp he with rfl | ⟨he, _⟩
      · simp [report, hstate]
      · exact h.once e he
    · intro e he
      rcases Table.mem_insert.mp he with rfl | ⟨he, _⟩
      · have hnone : s.newConnections.filter (carries s.buffers) = [] := by
          refine List.filter_eq_nil_iff.mpr (fun event hevent => ?_)
          cases event with
          | connected a b =>
            have hlt := h.pushed a b hevent
            simp [carries, Nat.ne_of_lt hlt]
          | timedOut a => simp [carries]
        simp only [report, hstate, if_false]
        exact hnone
      · exact h.only e he
    · cases hclient
      exact ⟨Table.mem_insert.mpr (Or.inl rfl), .initialized created m hinit, hstate⟩
  · cases new
    refine ⟨h.remains (fun e he => ⟨e.2, he, rfl, rfl, Iff.rfl⟩) [] (List.append_nil _).symm
      (Nat.le_succ _), fun client hclient => ?_⟩
    cases hclient
  · cases new

/-- What holds of the loop at an instant: its connections are reachable ones, whose packets were
received before, and the events report them. -/
structure Sound (provider : ChannelProvider) (clock : Nat) (s : EventLoop Addr) : Prop where
  reported : s.Reported
  reachable : ∀ e ∈ s.connections.entries, Reachable provider e.2.connection
  times : ∀ e ∈ s.connections.entries, e.2.connection.lastTimeReceivedPacket ≤ clock

section
variable {provider : ChannelProvider} {clock created now : Nat} {s s' : EventLoop Addr}
  {addr : Addr} {client : Client}

theorem Sound.later (h : s.Sound provider clock) (later : clock ≤ now) : s.Sound provider now :=
  ⟨h.reported, h.reachable, fun e he => Nat.le_trans (h.times e he) later⟩

/-- One call of a live connection. -/
theorem Sound.put (input : Input) {after : Endpoint} (h : s.Sound provider now)
    (live : (addr, client) ∈ s.connections.entries)
    (returns : Returns provider input client.connection after)
    (stays : client.connection.state = .transfer → after.state = .transfer)
    (time : after.lastTimeReceivedPacket = client.connection.lastTimeReceivedPacket ∨
      after.lastTimeReceivedPacket = now) :
    (s.put addr client (client.connection.state = .transfer) client.connection
      after).Sound provider now := by
  refine ⟨h.reported.put live _ _ stays, fun e he => ?_, fun e he => ?_⟩
  · rcases Table.mem_insert.mp he with rfl | ⟨he, _⟩
    · exact .step input _ _ (h.reachable _ live) returns
    · exact h.reachable e he
  · rcases Table.mem_insert.mp he with rfl | ⟨he, _⟩
    · have hbefore : client.connection.lastTimeReceivedPacket ≤ now := h.times _ live
      rcases time with htime | htime
      · exact htime ▸ hbefore
      · exact Nat.le_of_eq htime
    · exact h.times e he

theorem Sound.read {payload : Bytes} (h : s.Sound provider now)
    (live : (addr, client) ∈ s.connections.entries)
    (read : s.readMessage provider now addr payload (client.connection.state = .transfer) client =
      some s') : s'.Sound provider now := by
  have hc := (h.reachable _ live).passed.compact
  rcases hrun : handleMessage provider now payload client.connection with ⟨r, m⟩
  have hm : (handleMessage provider now payload client.connection).2 = m := by rw [hrun]
  have stays := handle_message_stays provider now payload hc
  have time := handle_message_time provider now payload client.connection
  rw [hm] at stays time
  have done (hr : r ≠ .panic) : (s.put addr client (client.connection.state = .transfer)
      client.connection m).Sound provider now :=
    h.put (.read now payload) live ⟨by simpa [perform, hrun] using hr, hm⟩ stays time
  unfold readMessage at read
  rw [hrun] at read
  cases r with
  | panic => cases read
  | ok u =>
    cases read
    exact done (by simp)
  | err e =>
    cases read
    exact done (by simp)

theorem Sound.make {made : Option Client} (h : s.Sound provider now) (later : created ≤ now)
    (new : s.makeConnection provider created addr = some (s', made)) : s'.Sound provider now := by
  refine ⟨(h.reported.make new).1, fun e he => ?_, fun e he => ?_⟩ <;>
    unfold makeConnection at new <;> simp only at new <;> split at new
  · rename_i m hinit
    cases new
    rcases Table.mem_insert.mp he with rfl | ⟨he, _⟩
    · exact .initialized created m hinit
    · exact h.reachable e he
  · cases new
    exact h.reachable e he
  · cases new
  · rename_i m hinit
    cases new
    rcases Table.mem_insert.mp he with rfl | ⟨he, _⟩
    · obtain ⟨_, _, _, _, rfl⟩ := initialize_opened hinit
      exact later
    · exact h.times e he
  · cases new
    exact h.times e he
  · cases new

theorem Sound.event {event : UdpEvent Addr} (h : s.Sound provider now) (later : created ≤ now)
    (handled : s.handleEvent provider created now event = some s') : s'.Sound provider now := by
  unfold handleEvent at handled
  cases event with
  | read payload addr =>
    simp only at handled
    cases hget : s.connections.get addr with
    | some client =>
      rw [hget] at handled
      exact h.read (Table.get_eq_some.mp hget) handled
    | none =>
      rw [hget] at handled
      rcases hmake : s.makeConnection provider created addr with _ | ⟨s1, made⟩
      · rw [hmake] at handled
        cases handled
      · rw [hmake] at handled
        have hs1 := h.make later hmake
        cases made with
        | none =>
          cases handled
          exact hs1
        | some client =>
          obtain ⟨live, _, hstate⟩ := (h.reported.make hmake).2 client rfl
          have hread : s1.readMessage provider now addr payload (client.connection.state = .transfer)
              client = some s' := by
            simpa [Endpoint.fresh, ConnectionState.default, hstate] using handled
          exact hs1.read live hread
  | closeConnection addr =>
    cases handled
    refine ⟨h.reported.remains (fun e he => ?_) [] (List.append_nil _).symm (Nat.le_refl _),
      fun e he => h.reachable e (Table.mem_remove.mp he).1,
      fun e he => h.times e (Table.mem_remove.mp he).1⟩
    exact ⟨e.2, (Table.mem_remove.mp he).1, rfl, rfl, Iff.rfl⟩
  | closeServer =>
    cases handled
    exact ⟨h.reported.remains (fun e he => ⟨e.2, he, rfl, rfl, Iff.rfl⟩) []
      (List.append_nil _).symm (Nat.le_refl _), h.reachable, h.times⟩
  | connect addr =>
    simp only at handled
    cases hget : s.connections.get addr with
    | some client =>
      rw [hget] at handled
      cases handled
      exact h
    | none =>
      rw [hget] at handled
      obtain ⟨⟨s1, made⟩, hmake, rfl⟩ := Option.map_eq_some_iff.mp handled
      exact h.make later hmake
  | send channel payload addr =>
    simp only at handled
    cases hget : s.connections.get addr with
    | none =>
      rw [hget] at handled
      cases handled
      exact h
    | some client =>
      rw [hget] at handled
      have live := Table.get_eq_some.mp hget
      rcases hrun : sendEvent provider channel payload client.connection with ⟨r, m⟩
      have hm : (sendEvent provider channel payload client.connection).2 = m := by rw [hrun]
      have hquiet := (send_event_quiet provider channel payload client.connection).1.state
      have htime := (send_event_follows same_time_tolerant provider channel payload).holds
        client.connection
      rw [hm] at hquiet htime
      have done (hr : r ≠ .panic) : (s.put addr client (client.connection.state = .transfer)
          client.connection m).Sound provider now :=
        h.put (.send channel payload) live ⟨by simpa [perform, hrun] using hr, hm⟩
          (fun hst => hquiet.trans hst) (Or.inl htime)
      dsimp only at handled
      rw [hrun] at handled
      cases r with
      | panic => cases handled
      | ok u =>
        cases handled
        exact done (by simp)
      | err e =>
        cases handled
        exact done (by simp)

end

/-- A connection whose last packet the code takes for too old at an instant. -/
def stale (time0 : Nat) (client : Client) : Bool :=
  client.connection.lastTimeReceivedPacket - time0 > connectionTimeout

/-- A connection after its maintenance. -/
def maintained (delta : U32) (client : Client) : Client :=
  { client with connection := (updateConnection delta client.connection).2 }

omit [DecidableEq Addr] in
theorem maintain_body {delta : U32} {time0 : Nat} {addr : Addr} {client : Client}
    {acc : List Addr × List (Addr × Bytes)} {r : Client × List Addr × List (Addr × Bytes)}
    (h : maintain delta time0 addr client acc = some r) :
    (stale time0 client = false → (updateConnection delta client.connection).1 ≠ .panic) ∧
      r = (if stale time0 client then client else maintained delta client,
        if stale time0 client then (acc.1 ++ [addr], acc.2)
        else (acc.1, acc.2 ++ posted addr client.connection
          (updateConnection delta client.connection).2)) := by
  obtain ⟨toRemove, buffer⟩ := acc
  unfold maintain at h
  dsimp only at h
  split at h
  · rename_i hstale
    cases h
    have hs : stale time0 client = true := by simpa [stale] using hstale
    simp [hs]
  · rename_i hfresh
    have hs : stale time0 client = false := by simpa [stale] using hfresh
    rcases hrun : updateConnection delta client.connection with ⟨r, m⟩
    rw [hrun] at h
    cases r with
    | panic => cases h
    | ok u =>
      cases h
      simp [hs, maintained, hrun]
    | err e =>
      cases h
      simp [hs, maintained, hrun]

omit [DecidableEq Addr] in
/-- The addresses that a tick notes are those of the stale connections. -/
theorem noted_addresses {time0 : Nat} (posts : Addr → Client → List (Addr × Bytes))
    (entries : List (Addr × Client)) (noted : List Addr) (buffer : List (Addr × Bytes)) :
    (entries.foldl (fun acc e => if stale time0 e.2 then (acc.1 ++ [e.1], acc.2)
      else (acc.1, acc.2 ++ posts e.1 e.2)) (noted, buffer)).1 =
      noted ++ (entries.filter (fun e => stale time0 e.2)).map Prod.fst := by
  induction entries generalizing noted buffer with
  | nil => simp
  | cons e rest ih =>
    rw [List.foldl_cons]
    by_cases hs : stale time0 e.2 = true
    · rw [if_pos hs, ih, List.filter_cons, if_pos hs, List.map_cons, List.append_assoc]
      rfl
    · rw [if_neg hs, ih, List.filter_cons, if_neg hs]

/-- What is left after the stale connections are removed. -/
theorem unnoted_entries {time0 : Nat} {g : Client → Client} (t : Table Addr Client) :
    (t.entries.map (fun e => (e.1, if stale time0 e.2 then e.2 else g e.2))).filter
        (fun e => e.1 ∉ (t.entries.filter (fun e => stale time0 e.2)).map Prod.fst) =
      (t.entries.filter (fun e => !stale time0 e.2)).map (fun e => (e.1, g e.2)) := by
  have noted (e : Addr × Client) (he : e ∈ t.entries) :
      e.1 ∉ (t.entries.filter (fun e => stale time0 e.2)).map Prod.fst ↔
        stale time0 e.2 = false := by
    rw [← Bool.not_eq_true, not_iff_not, List.mem_map]
    constructor
    · rintro ⟨e', he', hkey⟩
      obtain ⟨hmem, hs⟩ := List.mem_filter.mp he'
      have hsame := List.inj_on_of_nodup_map t.nodup hmem he hkey
      exact hsame ▸ hs
    · exact fun hs => ⟨e, List.mem_filter.mpr ⟨he, hs⟩, rfl⟩
  rw [List.filter_map]
  have hfilter : t.entries.filter ((fun e => decide (e.1 ∉ (t.entries.filter
      (fun e => stale time0 e.2)).map Prod.fst)) ∘ (fun e => (e.1, if stale time0 e.2 then e.2
        else g e.2))) = t.entries.filter (fun e => !stale time0 e.2) := by
    refine List.filter_congr (fun e he => ?_)
    rw [Function.comp_apply, Bool.eq_iff_iff, decide_eq_true_eq, noted e he, Bool.not_eq_true']
  rw [hfilter]
  refine List.map_congr_left (fun e he => ?_)
  have hs := (List.mem_filter.mp he).2
  rw [Bool.not_eq_true'] at hs
  rw [hs]
  rfl

/-- What a due tick does. -/
theorem tick_due {s s' : EventLoop Addr} {elapsed now : Nat} (h : s.tick elapsed now = some s')
    (due : (elapsed - s.time0) % 2 ^ 64 > deltaMin) :
    s'.connections.entries = (s.connections.entries.filter (fun e => !stale now e.2)).map
        (fun e => (e.1, maintained (BitVec.ofNat 32 ((elapsed - s.time0) % 2 ^ 64)) e.2)) ∧
      s'.newConnections = s.newConnections ++
        (s.connections.entries.filter (fun e => stale now e.2)).map (fun e => .timedOut e.1) ∧
      s'.buffers = s.buffers ∧
      ∀ e ∈ s.connections.entries, stale now e.2 = false →
        (updateConnection (BitVec.ofNat 32 ((elapsed - s.time0) % 2 ^ 64)) e.2.connection).1 ≠
          .panic := by
  simp only [tick, if_pos due] at h
  split at h
  · cases h
  · rename_i connections toRemove buffer visited
    cases h
    obtain ⟨hentries, hacc, hreturns⟩ := Table.visit_spec
      (fun _ _ _ _ hbody => maintain_body hbody) visited
    have hnoted := (congrArg Prod.fst hacc).trans (noted_addresses (fun addr client =>
      posted addr client.connection (updateConnection _ client.connection).2) _ [] s.buffer)
    rw [List.nil_append] at hnoted
    dsimp only at hnoted
    refine ⟨?_, ?_, rfl, hreturns⟩
    · simp only [Table.removeAll, hentries, hnoted]
      exact unnoted_entries s.connections
    · rw [hnoted, List.map_map]
      rfl

theorem Sound.tick {provider : ChannelProvider} {s s' : EventLoop Addr} {elapsed now : Nat}
    (h : s.Sound provider now) (ticked : s.tick elapsed now = some s') : s'.Sound provider now := by
  by_cases due : (elapsed - s.time0) % 2 ^ 64 > deltaMin
  · obtain ⟨hentries, hevents, hbuffers, hreturns⟩ := tick_due ticked due
    generalize BitVec.ofNat 32 ((elapsed - s.time0) % 2 ^ 64) = delta at hentries hreturns
    have clients : ∀ e' ∈ s'.connections.entries, ∃ client,
        (e'.1, client) ∈ s.connections.entries ∧ stale now client = false ∧
          e'.2 = maintained delta client := by
      intro e' he'
      rw [hentries] at he'
      obtain ⟨e, he, rfl⟩ := List.mem_map.mp he'
      obtain ⟨hmem, hs⟩ := List.mem_filter.mp he
      exact ⟨e.2, hmem, by simpa using hs, rfl⟩
    have hpushed : s'.newConnections = s.newConnections ++
        ((s.connections.entries.filter (fun e => stale now e.2)).map Prod.fst).map .timedOut := by
      rw [hevents, List.map_map]
      rfl
    refine ⟨h.reported.remains (fun e' he' => ?_) _ hpushed (Nat.le_of_eq hbuffers.symm),
      fun e' he' => ?_, fun e' he' => ?_⟩
    · obtain ⟨client, hmem, _, he⟩ := clients e' he'
      refine ⟨client, hmem, ?_⟩
      rw [he]
      have hc := (h.reachable _ hmem).passed.compact
      exact ⟨rfl, rfl, by rw [maintained, update_connection_state hc]⟩
    · obtain ⟨client, hmem, hs, he⟩ := clients e' he'
      rw [he]
      exact .step (.tick delta) _ _ (h.reachable _ hmem) ⟨hreturns _ hmem hs, rfl⟩
    · obtain ⟨client, hmem, _, he⟩ := clients e' he'
      rw [he, maintained, (update_connection_same_time delta).holds]
      exact h.times _ hmem
  · rw [EventLoop.tick] at ticked
    simp only [if_neg due] at ticked
    cases ticked
    exact h

end EventLoop

section
variable {Addr : Type} [DecidableEq Addr] {provider : ChannelProvider} {clock : Nat}
  {s : EventLoop Addr}

theorem start_sound (now : Nat) : (EventLoop.start now : EventLoop Addr).Sound provider now := by
  have none (e : Addr × Client) : e ∉ (EventLoop.start now : EventLoop Addr).connections.entries :=
    List.not_mem_nil
  refine ⟨⟨fun e he => absurd he (none e), fun e he => absurd he (none e),
    fun _ _ hpushed => absurd hpushed List.not_mem_nil, fun e he => absurd he (none e),
    fun e he => absurd he (none e), fun e he => absurd he (none e)⟩,
    fun e he => absurd he (none e), fun e he => absurd he (none e)⟩

theorem Looping.sound (h : Looping provider clock s) : s.Sound provider clock := by
  induction h with
  | start now => exact start_sound now
  | event clock created now s s' event _ _ later later' h ih =>
    exact (ih.later (Nat.le_trans later later')).event later' h
  | tick clock elapsed now s s' _ _ later later' h ih =>
    exact (ih.later (Nat.le_trans later later')).tick h
  | rehash clock s connections _ same ih =>
    have hmem {e : Addr × Client} (he : e ∈ connections.entries) : e ∈ s.connections.entries :=
      same.mem_iff.mpr he
    refine ⟨ih.reported.remains (fun e he => ⟨e.2, hmem he, rfl, rfl, Iff.rfl⟩) []
      (List.append_nil _).symm (Nat.le_refl _), fun e he => ih.reachable e (hmem he),
      fun e he => ih.times e (hmem he)⟩

/-- Since a live connection was made, one `Connected` event of its address has been pushed if it
is in the transfer stage, and none otherwise; no other event carries its buffers. -/
theorem connected_reported_once (h : Looping provider clock s) {addr : Addr} {client : Client}
    (live : s.connections.get addr = some client) :
    (s.newConnections.drop client.since).filter (EventLoop.announces addr) =
        (if client.connection.state = .transfer then [.connected addr client.buffer] else []) ∧
      s.newConnections.filter (EventLoop.carries client.buffer) =
        (if client.connection.state = .transfer then [.connected addr client.buffer] else []) := by
  have hmem := Table.get_eq_some.mp live
  exact ⟨h.sound.reported.once _ hmem, h.sound.reported.only _ hmem⟩

/-- Events one after the other at one instant, as long as the loop goes on. -/
def EventLoop.handleAll (provider : ChannelProvider) (now : Nat) :
    List (UdpEvent Addr) → EventLoop Addr → Option (EventLoop Addr)
  | [], s => some s
  | event :: rest, s =>
    if s.closed then none
    else (s.handleEvent provider now now event).bind (handleAll provider now rest)

theorem Looping.handle_all {events : List (UdpEvent Addr)} {s' : EventLoop Addr}
    (h : Looping provider clock s) (handled : s.handleAll provider clock events = some s') :
    Looping provider clock s' := by
  induction events generalizing s with
  | nil =>
    cases handled
    exact h
  | cons event rest ih =>
    rw [EventLoop.handleAll] at handled
    split at handled
    · cases handled
    · rename_i running
      obtain ⟨s1, hs1, hrest⟩ := Option.bind_eq_some_iff.mp handled
      exact ih (.event clock clock clock s s1 event h (Bool.eq_false_of_not_eq_true running)
        (Nat.le_refl _) (Nat.le_refl _) hs1) hrest

end

/-- A peer with the built-in channels is connected to, registers and is switched. -/
def greeting : List (UdpEvent Unit) :=
  .connect () :: announced.datagrams.map (.read · ()) ++ [.read [10] ()]

def greeted : EventLoop Unit :=
  (EventLoop.handleAll builtinProvider 0 greeting (.start 0)).getD (.start 0)

theorem greeted_looping : Looping builtinProvider 0 greeted := by
  have handled : (EventLoop.handleAll builtinProvider 0 greeting (.start 0)).isSome = true := by
    decide +kernel
  unfold greeted
  obtain ⟨s, hs⟩ := Option.isSome_iff_exists.mp handled
  rw [hs]
  exact (Looping.start 0).handle_all hs

def greetedClient : Client := (greeted.connections.get ()).getD ⟨.fresh 0, 0, 0⟩

theorem connected_reported_once_greeted :
    (greeted.newConnections.drop greetedClient.since).filter (EventLoop.announces ()) =
        (if greetedClient.connection.state = .transfer then [.connected () greetedClient.buffer]
          else []) ∧
      greeted.newConnections.filter (EventLoop.carries greetedClient.buffer) =
        (if greetedClient.connection.state = .transfer then [.connected () greetedClient.buffer]
          else []) := by
  have there : (greeted.connections.get ()).isSome = true := by decide +kernel
  have live : greeted.connections.get () = some greetedClient := by
    unfold greetedClient
    obtain ⟨client, hclient⟩ := Option.isSome_iff_exists.mp there
    rw [hclient]
    rfl
  exact connected_reported_once greeted_looping live

example : greetedClient.connection.state = .transfer ∧ greeted.newConnections.length = 1 := by
  decide +kernel

end Theta
