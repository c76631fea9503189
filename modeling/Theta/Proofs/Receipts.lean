import Theta.Net.Pair
import Theta.Proofs.Rings
import Theta.Proofs.Segmentation

namespace Theta
open Lib Relation

namespace GlobalChannelData

theorem get_modify (d : GlobalChannelData T) (id other : U32) (f : T → T) :
    (d.modify id f).get other = if other = id then (d.get id).map f else d.get other := by
  unfold get modify
  rw [List.getElem?_modify]
  by_cases h : other = id
  · subst h
    rw [if_pos rfl]
    cases d.values[other.toNat]? with
    | none => rfl
    | some slot => cases slot <;> simp
  · have hne : id.toNat ≠ other.toNat := fun he => h (BitVec.eq_of_toNat_eq he).symm
    simp [h, hne]

theorem get_insert (d : GlobalChannelData T) (id other : U32) (value : T) :
    (d.insert id value).get other = if other = id then some value else d.get other := by
  unfold get insert
  have hlen : id.toNat < (resize d.values (id.toNat + 1) none).length := by
    rw [resize_length]
    omega
  rw [List.getElem?_set]
  by_cases he : other = id
  · subst he
    rw [if_pos rfl, if_pos rfl, if_pos hlen]
    rfl
  · have hne : id.toNat ≠ other.toNat := fun h => he (BitVec.eq_of_toNat_eq h.symm)
    rw [if_neg hne, if_neg he, resize_get]
    split
    · rfl
    · rename_i hout
      rw [List.getElem?_eq_none (Nat.le_of_not_lt hout)]
      split <;> rfl

end GlobalChannelData

section
variable {p : ChannelProvider} {globalId : U32} {channel : ConnectionChannel} {m m' : Endpoint}

/-- A transfer stage that has gone on: what was handed on stays so. -/
structure Onward (m m' : Endpoint) : Prop where
  state : m'.state = .transfer
  notLocalInner : m'.notLocalInner = m.notLocalInner
  log : m.log <+: m'.log
  buffers : ∀ g buffer, m.buffers.get g = some buffer →
    ∃ buffer', m'.buffers.get g = some buffer' ∧ buffer <+: buffer'

/-- It has recorded no key and was given no segment. -/
structure Later (m m' : Endpoint) : Prop extends Onward m m' where
  checker : m'.resendKeyDuplicateChecker = m.resendKeyDuplicateChecker
  joiner : m'.joiner = m.joiner

theorem Onward.trans {m1 m2 m3 : Endpoint} (h1 : Onward m1 m2) (h2 : Onward m2 m3) :
    Onward m1 m3 := by
  refine ⟨h2.state, h2.notLocalInner.trans h1.notLocalInner, h1.log.trans h2.log,
    fun g buffer hb => ?_⟩
  obtain ⟨b2, hb2, hp2⟩ := h1.buffers g buffer hb
  obtain ⟨b3, hb3, hp3⟩ := h2.buffers g b2 hb2
  exact ⟨b3, hb3, hp2.trans hp3⟩

theorem Onward.of_same (same : SameReceipts m m') (hst : m.state = .transfer)
    (hlog : m.log <+: m'.log) : Onward m m' :=
  ⟨same.state.trans hst, same.notLocalInner, hlog,
    fun _ buffer hb => ⟨buffer, same.buffers ▸ hb, List.prefix_refl _⟩⟩

theorem Later.refl (h : m.state = .transfer) : Later m m :=
  ⟨.of_same (.refl m) h (List.prefix_refl _), rfl, rfl⟩

theorem Later.trans {m1 m2 m3 : Endpoint} (h1 : Later m1 m2) (h2 : Later m2 m3) : Later m1 m3 :=
  ⟨h1.toOnward.trans h2.toOnward, h2.checker.trans h1.checker, h2.joiner.trans h1.joiner⟩

theorem Move.later (h : Move handlingOnly m m') (hst : m.state = .transfer) : Later m m' := by
  have same (hlog : m.log <+: m'.log) (hstate : m'.state = m.state)
      (hmap : m'.notLocalInner = m.notLocalInner)
      (hc : m'.resendKeyDuplicateChecker = m.resendKeyDuplicateChecker)
      (hj : m'.joiner = m.joiner) (hb : m'.buffers = m.buffers) : Later m m' :=
    ⟨⟨hstate.trans hst, hmap, hlog, fun g buffer hg => ⟨buffer, hb ▸ hg, List.prefix_refl _⟩⟩, hc,
      hj⟩
  have hlog := h.log_grows
  cases h with
  | record _ _ hr _ => exact hr.elim
  | join _ hj => exact hj.elim
  | switch _ complete _ =>
    rw [hst] at complete
    cases complete
  | confirm _ _ last _ =>
    rw [hst] at last
    cases last
  | finish _ _ _ hr => exact hr.elim
  | register _ _ _ _ _ _ _ _ hr => exact hr.elim
  | hold _ hh => exact hh.elim
  | push g packet _ _ =>
    refine ⟨⟨hst, rfl, List.prefix_refl _, fun g' buffer hg => ?_⟩, rfl, rfl⟩
    simp only [GlobalChannelData.get_modify]
    by_cases he : g' = g
    · subst he
      exact ⟨buffer ++ [packet], by rw [if_pos rfl, hg]; rfl, List.prefix_append _ _⟩
    · exact ⟨buffer, by rw [if_neg he, hg], List.prefix_refl _⟩
  | _ => exact same hlog rfl rfl rfl rfl rfl

theorem later_of_moves (h : ReflTransGen (Move handlingOnly) m m') (hst : m.state = .transfer) :
    Later m m' := by
  induction h with
  | refl => exact .refl hst
  | tail _ h ih => exact ih.trans (h.later ih.state)

/-- In the transfer stage a datagram reads the same while the other side's channels do. -/
theorem read_packet_same {d : Bytes} (hst : m.state = .transfer) (hst' : m'.state = .transfer)
    (hmap : m'.notLocalInner = m.notLocalInner) :
    (readPacket p d m').1 = (readPacket p d m).1 := by
  cases hd : PrimaryPacketMetadata.decode d with
  | err e => simp [readPacket, decoding, Act.bind_apply, hd, Outcome.mapErr]
  | panic => simp [readPacket, decoding, Act.bind_apply, hd, Outcome.mapErr]
  | ok r =>
    have settled {t : Endpoint} (ht : t.state = .transfer) : (readPacket p d t).1 =
        parsePacket p .transfer t.notLocalInner r.1 r.2 := by
      obtain ⟨t', ⟨hs, _⟩ | ⟨_, rfl⟩, h⟩ : ∃ t', _ ∧ readPacket p d t = _ := read_packet_decoded hd
      · exact absurd hs (not_speculates_transfer ht)
      · rw [h, ht]
    rw [settled hst, settled hst', hmap]

/-- Handing on the packets of one datagram. -/
def delivering : Scope where
  sends _ _ _ := False
  records _ _ _ := False
  acks _ := True
  switches := True
  handles := True
  registers := True
  holds := True

theorem deliver_delivering (p : ChannelProvider) (globalId : U32) (channel : ConnectionChannel)
    (order : Option U32) (payload : Bytes) (m : Endpoint) :
    ReflTransGen (Move delivering) m (deliver p globalId channel order payload m).2 :=
  deliver_moves trivial trivial (fun _ _ _ _ => trivial) trivial trivial m

/-- A stage that is left without recording starts the next one with no key recorded. -/
theorem Move.emptied {s : Scope} (hr : ∀ m key d, ¬ s.records m key d) (h : Move s m m')
    (hm : m.state = .transfer → m.resendKeyDuplicateChecker.set = []) :
    m'.state = .transfer → m'.resendKeyDuplicateChecker.set = [] := by
  cases h with
  | record key d records _ => exact absurd records (hr m key d)
  | switch => exact fun _ => rfl
  | confirm _ _ last _ => exact fun hst => by cases hst
  | finish _ _ _ _ => exact fun hst => by cases hst
  | _ => exact hm

theorem emptied {s : Scope} (hr : ∀ m key d, ¬ s.records m key d)
    (h : ReflTransGen (Move s) m m')
    (hm : m.state = .transfer → m.resendKeyDuplicateChecker.set = []) :
    m'.state = .transfer → m'.resendKeyDuplicateChecker.set = [] := by
  induction h with
  | refl => exact hm
  | tail _ h ih => exact h.emptied hr ih

/-- Acknowledging a new key adds it to the checker, whatever becomes of the acknowledgement. -/
theorem acknowledge_new_checker {d : Bytes} {key : SlotMapKey} (hc : m.Compact)
    (hnew : key ∉ m.resendKeyDuplicateChecker.set) :
    (acknowledgeIfNeeded d (some key) m).2.resendKeyDuplicateChecker.set =
        key :: m.resendKeyDuplicateChecker.set ∧
      .recorded key d ∈ (acknowledgeIfNeeded d (some key) m).2.log := by
  have hmoves : ReflTransGen (Move flushing) (m.recording key d)
      (acknowledgeIfNeeded d (some key) m).2 := by
    rw [acknowledge_new hnew]
    exact acknowledge_new_moves hc (fun _ => ⟨rfl, rfl⟩)
  refine ⟨congrArg SlotSet.set (same_checker (fun _ _ _ => id) id hmoves), ?_⟩
  exact (log_grows hmoves).subset (by simp [Endpoint.recording])

end

theorem chat_order :
    (DefaultChannelProvider.new.add "chat" chat.channel DefaultChannelProvider.new_fits).nameToId.Perm
      (DefaultChannelProvider.new.add "chat" chat.channel DefaultChannelProvider.new_fits).nameToId :=
  .refl _

/-- The provider of `chatProvider`, as the registry of a peer. -/
def chatRegistry : Registry where
  toDefaultChannelProvider := DefaultChannelProvider.new.add "chat" chat.channel
    DefaultChannelProvider.new_fits
  all := _
  order := chat_order
  few := by decide

/-- Two peers complete the handshake, and the left one sends nine messages: one more than the
window of the right one. -/
def nineSent : List (Side × Deed) :=
  [(.left, .establish 0), (.right, .establish 0)] ++
    (List.range 4).map (fun i => (.left, .read 1 i)) ++
    (List.range 4).map (fun i => (.right, .read 1 i)) ++
    [(.left, .tick 1), (.right, .tick 1), (.left, .read 2 4), (.right, .read 2 4)] ++
    (List.range 9).map (fun i => (.left, .send 2 [UInt8.ofNat i]))

def chatting (schedule : List (Side × Deed)) : Peer × Peer :=
  (exchangeAll chatRegistry chatRegistry anyInput anyInput schedule ({}, {})).getD ({}, {})

end Theta
