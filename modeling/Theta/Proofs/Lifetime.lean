import Theta.Proofs.Initial

namespace Theta
open Lib Relation

def Event.call? (channel : U32) : Event → Option Bytes
  | .called c payload => if c = channel then some payload else none
  | _ => none

/-- The payloads of a channel's send requests so far. -/
def Endpoint.calls (m : Endpoint) (channel : U32) : List Bytes :=
  m.log.filterMap (Event.call? channel)

/-- A packet of the latest request on its channel, after its order was counted. -/
structure Requested (p : ChannelProvider) (m : Endpoint) (base : Packet) (kind : Channel) :
    Prop where
  request : ∃ channel payload, Addressed p m channel ⟨base.channelId, kind⟩ ∧
    (m.calls channel).getLast? = some payload ∧
    (payload.length ≤ maxNonSegmentedPayloadLen → base.segment = none ∧ base.payload = payload)
  key : base.resendKey = none
  indexed : ∀ x, base.segment = some x → x.segment < x.segmentCount
  unordered : kind.isOrdered = false → base.order = none
  ordered : kind.isOrdered = true → ∃ order, base.order = some order ∧
    (m.orders.get m.state base.channelId : Outcome ConnectionError _) = .ok (order + 1)

/-- Everything that the calls of a live connection may do. -/
def working (p : ChannelProvider) : Scope where
  sends m base kind := (base = m.ackPacket ∧ kind = ackChannel) ∨ Requested p m base kind
  records := ReadsKey p
  acks _ := True
  joins := True
  switches := True
  handles := True
  registers := True
  holds := True

/-- One change of a live connection: a move of one of its calls, or a send request,
which counts the order of its channel unless that panics. -/
inductive Work (p : ChannelProvider) : Endpoint → Endpoint → Prop where
  | move (m m' : Endpoint) (h : Move (working p) m m') : Work p m m'
  | request (m : Endpoint) (channel : U32) (payload : Bytes) (kind : ConnectionChannel)
      (addressed : Addressed p m channel kind) (unordered : kind.channel.isOrdered = false) :
      Work p m { m with log := m.log ++ [.called channel payload] }
  | count (m : Endpoint) (channel : U32) (payload : Bytes) (kind : ConnectionChannel)
      (order : U32) (orders : ChannelData U32)
      (addressed : Addressed p m channel kind) (ordered : kind.channel.isOrdered = true)
      (get : (m.orders.get m.state kind.localId : Outcome ConnectionError _) = .ok order)
      (write : (m.orders.write m.state kind.localId (order + 1) : Outcome ConnectionError _) =
        .ok orders) :
      Work p m { m with orders := orders, log := m.log ++ [.called channel payload] }
  | abandon (m : Endpoint) (channel : U32) (payload : Bytes) (kind : ConnectionChannel)
      (addressed : Addressed p m channel kind)
      (panics : nextOrder kind { m with log := m.log ++ [.called channel payload] } =
        (.panic, { m with log := m.log ++ [.called channel payload] })) :
      Work p m { m with log := m.log ++ [.called channel payload] }

theorem Move.rescope {s t : Scope} {m m' : Endpoint} (h : Move s m m')
    (sends : ∀ base kind, s.sends m base kind → t.sends m base kind)
    (records : ∀ key d, s.records m key d → t.records m key d)
    (acks : ∀ key, s.acks key → t.acks key) (joins : s.joins → t.joins)
    (switches : s.switches → t.switches) (handles : s.handles → t.handles)
    (registers : s.registers → t.registers) (holds : s.holds → t.holds) : Move t m m' := by
  cases h with
  | issue base channel reliable key resender packet hs hid hseg hk hadd hget =>
    exact .issue m base channel reliable key resender packet (sends _ _ hs) hid hseg hk hadd hget
  | send base channel hs hid hseg hk => exact .send m base channel (sends _ _ hs) hid hseg hk
  | flushed => exact .flushed m
  | buffer key d known room => exact .buffer m key d known room
  | count => exact .count m
  | record key d hr new => exact .record m key d (records _ _ hr) new
  | join joiner hj => exact .join m joiner (joins hj)
  | switch lastKey complete hw => exact .switch m lastKey complete (switches hw)
  | confirm received key last hk => exact .confirm m received key last (acks _ hk)
  | release key packet resender remove hk =>
    exact .release m key packet resender remove (acks _ hk)
  | consume packet hd => exact .consume m packet (handles hd)
  | hand packet hr => exact .hand m packet (registers hr)
  | finish received lastKey stage hr => exact .finish m received lastKey stage (registers hr)
  | register received lastKey id globalId name mapper stage hi hr =>
    exact .register m received lastKey id globalId name mapper stage hi (registers hr)
  | hold orderers hh => exact .hold m orderers (holds hh)
  | push globalId packet stage hd => exact .push m globalId packet stage (handles hd)
  | touch now => exact .touch m now
  | resend packet held => exact .resend m packet held
  | clock delta packets func before after visited =>
    exact .clock m delta packets func before after visited

/-- No move is a send request. -/
theorem Move.same_calls {s : Scope} {m m' : Endpoint} (h : Move s m m') (channel : U32) :
    m'.calls channel = m.calls channel := by
  cases h <;> simp [Endpoint.calls, Event.call?, Endpoint.switched]

theorem moves_same_calls {s : Scope} {m m' : Endpoint} (h : ReflTransGen (Move s) m m')
    (channel : U32) : m'.calls channel = m.calls channel := by
  induction h with
  | refl => rfl
  | tail _ h ih => exact (h.same_calls channel).trans ih

/-- The packets of one request and nothing else. -/
def sending (channel : ConnectionChannel) (order : Option U32) (payload : Bytes) : Scope where
  sends _ base kind := kind = channel.channel ∧ base.channelId = channel.localId ∧
    base.order = order ∧ base.resendKey = none ∧
    (∀ x, base.segment = some x → x.segment < x.segmentCount) ∧
    (payload.length ≤ maxNonSegmentedPayloadLen → base.segment = none ∧ base.payload = payload)
  records _ _ _ := False
  acks _ := False

theorem sending_quiet {channel : ConnectionChannel} {order : Option U32} {payload : Bytes} :
    Quiet (sending channel order payload) :=
  ⟨id, id, id, id, fun _ => id⟩

theorem transmit_sending (channel : ConnectionChannel) (order : Option U32) (payload : Bytes)
    (m : Endpoint) :
    ReflTransGen (Move (sending channel order payload)) m (transmit channel order payload m).2 :=
  transmit_moves (fun _ => ⟨rfl, rfl, rfl, rfl, (fun _ hx => by cases hx), fun _ => ⟨rfl, rfl⟩⟩)
    (fun hlt _ _ _ hi => ⟨rfl, rfl, rfl, rfl, (fun _ hx => by cases hx; exact hi),
      fun hle => absurd hle (Nat.not_le_of_lt hlt)⟩)

/-- A send request receives nothing. -/
theorem send_event_quiet (p : ChannelProvider) (channel : U32) (payload : Bytes) (m : Endpoint) :
    SameReceipts m (sendEvent p channel payload m).2 ∧
      (sendEvent p channel payload m).2.resendKeyDuplicateChecker = m.resendKeyDuplicateChecker ∧
      m.log <+: (sendEvent p channel payload m).2.log := by
  refine send_event_ends (P := fun t => SameReceipts m t ∧
    t.resendKeyDuplicateChecker = m.resendKeyDuplicateChecker ∧ m.log <+: t.log)
    ⟨.refl m, rfl, List.prefix_refl _⟩ (fun _ => ?_) (fun kind order t ht => ?_)
  · exact ⟨⟨rfl, rfl, rfl, rfl⟩, rfl, List.prefix_append _ _⟩
  · have hmoves := transmit_sending kind order payload t
    exact ⟨ht.1.trans (same_receipts sending_quiet hmoves),
      (same_checker (fun _ _ _ => id) id hmoves).trans ht.2.1, ht.2.2.trans (log_grows hmoves)⟩

section
variable {p : ChannelProvider}

theorem work_of_moves {m m' : Endpoint} (h : ReflTransGen (Move (working p)) m m') :
    ReflTransGen (Work p) m m' :=
  h.lift id (fun _ _ hm => .move _ _ hm)

theorem read_packet_compact {d : Bytes} {m : Endpoint} (hc : m.Compact) :
    (readPacket p d m).2.Compact :=
  moves_compact (read_packet_moves (s := working p) trivial m) hc

theorem handle_message_work {now : Nat} {d : Bytes} {m : Endpoint} (hc : m.Compact) :
    ReflTransGen (Move (working p)) m (handleMessage p now d m).2 :=
  handle_message_moves (read_packet_compact hc) trivial trivial (fun _ => Or.inl ⟨rfl, rfl⟩)
    (fun _ _ h => h) (fun _ _ _ m' _ =>
      deliver_moves trivial trivial (fun _ _ _ _ => trivial) trivial trivial m')

theorem calls_called (m : Endpoint) (channel : U32) (payload : Bytes) (orders : ChannelData U32) :
    Endpoint.calls { m with orders := orders, log := m.log ++ [.called channel payload] } channel =
      m.calls channel ++ [payload] := by
  simp [Endpoint.calls, Event.call?]

/-- The packets of a request, once its order is taken. -/
theorem transmit_work {kind : ConnectionChannel} {order : Option U32} {channel : U32}
    {payload : Bytes} {m m' : Endpoint} (addressed : Addressed p m channel kind)
    (called : (m.calls channel).getLast? = some payload)
    (unordered : kind.channel.isOrdered = false → order = none)
    (ordered : kind.channel.isOrdered = true → ∃ o, order = some o ∧
      (m.orders.get m.state kind.localId : Outcome ConnectionError _) = .ok (o + 1))
    (h : ReflTransGen (Move (sending kind order payload)) m m') :
    ReflTransGen (Move (working p)) m m' := by
  induction h with
  | refl => exact .refl
  | tail hrun hstep ih =>
    rename_i m1 m2
    refine ih.tail (hstep.rescope ?_ (fun _ _ => False.elim) (fun _ => False.elim) False.elim
      False.elim False.elim False.elim False.elim)
    rintro base k ⟨rfl, hid, rfl, hkey, hindexed, hwhole⟩
    obtain ⟨hinner, horders⟩ := moves_fixed hrun
    have hstate := (same_receipts sending_quiet hrun).state
    refine Or.inr ⟨⟨channel, payload, ?_, ?_, hwhole⟩, hkey, hindexed, unordered, fun ho => ?_⟩
    · rw [hid]
      unfold Addressed
      rw [hinner, hstate]
      exact addressed
    · rw [moves_same_calls hrun]
      exact called
    · rw [hid, hstate, horders]
      exact ordered ho

theorem send_event_work (channel : U32) (payload : Bytes) (m : Endpoint) :
    ReflTransGen (Work p) m (sendEvent p channel payload m).2 := by
  rcases send_event_cases p channel payload m with ⟨_, h⟩ | ⟨kind, haddr, h⟩
  · rw [h]
  rw [h]
  have hsame : Addressed p { m with log := m.log ++ [.called channel payload] } channel kind :=
    haddr
  rw [Act.bind_pure_state, sendPacket]
  rcases next_order_cases kind { m with log := m.log ++ [.called channel payload] } with
    hn | ⟨ho, hn⟩ | ⟨order, orders, ho, hget, hwrite, hn⟩
  · rw [Act.bind_of_panic hn]
    exact .single (.abandon m channel payload kind haddr hn)
  · rw [Act.bind_of_ok hn]
    refine .head (.request m channel payload kind haddr ho) (work_of_moves ?_)
    refine transmit_work hsame ?_ (fun _ => rfl) (fun h => ?_) (transmit_sending kind none payload _)
    · have hcalls := calls_called m channel payload m.orders
      rw [hcalls, List.getLast?_append]
      rfl
    · rw [ho] at h
      cases h
  · rw [Act.bind_of_ok hn]
    refine .head (.count m channel payload kind order orders haddr ho hget hwrite)
      (work_of_moves ?_)
    refine transmit_work (m := { m with
      orders := orders, log := m.log ++ [.called channel payload] }) hsame ?_ (fun h => ?_)
      (fun _ => ⟨order, rfl, ?_⟩) (transmit_sending kind (some order) payload _)
    · have hcalls := calls_called m channel payload orders
      rw [hcalls, List.getLast?_append]
      rfl
    · rw [ho] at h
      cases h
    · exact ChannelData.get_write hwrite

theorem perform_work {input : Input} {m : Endpoint} (hc : m.Compact) :
    ReflTransGen (Work p) m (perform p input m).2 := by
  cases input with
  | read now d => exact work_of_moves (handle_message_work hc)
  | tick delta => exact work_of_moves (update_connection_moves hc (fun _ => Or.inl ⟨rfl, rfl⟩))
  | send channel payload => exact send_event_work channel payload m

theorem Work.compact {m m' : Endpoint} (h : Work p m m') (hc : m.Compact) : m'.Compact := by
  cases h with
  | move _ h => exact h.compact hc
  | _ => exact hc

theorem Setup.compact {channels : List (String × U32)} {m m' : Endpoint}
    (h : Setup channels m m') (hc : m.Compact) : m'.Compact := by
  cases h with
  | move _ h => exact h.compact hc
  | _ => exact hc

/-- A state that a connection passes through, also in the middle of a call. -/
def Passed (p : ChannelProvider) (m : Endpoint) : Prop :=
  ∃ now m0, ReflTransGen (Setup (sortedChannels p)) (.fresh now) m0 ∧ ReflTransGen (Work p) m0 m

theorem Passed.invariant {P : Endpoint → Prop} {m : Endpoint} (h : Passed p m)
    (fresh : ∀ now, P (.fresh now)) (setup : ∀ m m', Setup (sortedChannels p) m m' → P m → P m')
    (work : ∀ m m', Work p m m' → P m → P m') : P m := by
  obtain ⟨now, m0, hs, hw⟩ := h
  exact invariant_of_step work hw (invariant_of_step setup hs (fresh now))

theorem Passed.compact {m : Endpoint} (h : Passed p m) : m.Compact :=
  h.invariant (fun _ => Nat.zero_le _) (fun _ _ h => h.compact) (fun _ _ h => h.compact)

theorem Passed.work {m m' : Endpoint} (h : Passed p m) (hw : ReflTransGen (Work p) m m') :
    Passed p m' := by
  obtain ⟨now, m0, hs, before⟩ := h
  exact ⟨now, m0, hs, before.trans hw⟩

theorem Passed.perform {input : Input} {m : Endpoint} (h : Passed p m) :
    Passed p (perform p input m).2 :=
  Passed.work h (perform_work h.compact)

theorem passed_initialize (now : Nat) : Passed p (initializeConnection p (.fresh now)).2 :=
  ⟨now, _, initialize_setup p now, .refl⟩

theorem Reachable.passed {m : Endpoint} (h : Reachable p m) : Passed p m := by
  induction h with
  | initialized now m h =>
    have hp := passed_initialize (p := p) now
    rwa [h] at hp
  | step input m m' _ h ih => exact h.2 ▸ ih.perform

end

end Theta
