import Theta.Net.Channel
import Theta.Util.SlotMap

namespace Theta
open Lib

def nullChannelId : U32 := 1 <<< 31
def ackChannelIdRegistrationStage : U32 := nullChannelId - 1
def channelManagementChannelIdRegistrationStage : U32 := ackChannelIdRegistrationStage - 1

def ackChannelName : String := "__ack"
def channelManagementChannelName : String := "__channel"

def ackChannel : Channel where
  reliability := some { resendInterval := 750, resendAttempts := -1, additionalCapacity := 300 }
  orderability := none
  frequency := ChannelFrequency.high

def channelManagementChannel : Channel where
  reliability := some { resendInterval := 100, resendAttempts := -1, additionalCapacity := 300 }
  orderability := some { capacity := 1000 }
  frequency := ChannelFrequency.never

structure ChannelProvider where
  byId : U32 → Option Channel
  byName : String → Option U32
  all : List (String × U32)

/-- A name keeps the id of its last registration; the ids count the registrations. -/
structure DefaultChannelProvider where
  channels : List Channel
  nameToId : List (String × U32)
  names_nodup : (nameToId.map Prod.fst).Nodup
  ids_nodup : (nameToId.map Prod.snd).Nodup
  ids_lt : ∀ e ∈ nameToId, e.2.toNat < channels.length

namespace DefaultChannelProvider

def empty : DefaultChannelProvider := ⟨[], [], by simp, by simp, by simp⟩

/-- The entries once a name has got the next id. -/
def added (p : DefaultChannelProvider) (name : String) : List (String × U32) :=
  (name, BitVec.ofNat 32 p.channels.length) :: p.nameToId.filter (fun e => e.1 ≠ name)

section
variable (p : DefaultChannelProvider) (name : String) (channel : Channel)

theorem added_names_nodup : ((p.added name).map Prod.fst).Nodup := by
  rw [added, List.map_cons, List.nodup_cons]
  refine ⟨?_, p.names_nodup.sublist (List.filter_sublist.map _)⟩
  intro h
  obtain ⟨e, he, hn⟩ := List.mem_map.mp h
  simp only [List.mem_filter, decide_eq_true_eq] at he
  exact he.2 hn

theorem added_ids_nodup (fits : p.channels.length ≤ nullChannelId.toNat) :
    ((p.added name).map Prod.snd).Nodup := by
  rw [added, List.map_cons, List.nodup_cons]
  refine ⟨?_, p.ids_nodup.sublist (List.filter_sublist.map _)⟩
  intro h
  obtain ⟨e, he, hn⟩ := List.mem_map.mp h
  have hlt := p.ids_lt e (List.mem_of_mem_filter he)
  have hnull : nullChannelId.toNat = 2 ^ 31 := rfl
  rw [hn, BitVec.toNat_ofNat, Nat.mod_eq_of_lt (by omega)] at hlt
  omega

theorem added_ids_lt (fits : p.channels.length ≤ nullChannelId.toNat) :
    ∀ e ∈ p.added name, e.2.toNat < (p.channels ++ [channel]).length := by
  have hnull : nullChannelId.toNat = 2 ^ 31 := rfl
  intro e he
  rw [List.length_append, List.length_singleton]
  rcases List.mem_cons.mp he with rfl | he
  · rw [BitVec.toNat_ofNat, Nat.mod_eq_of_lt (by omega)]
    omega
  · have := p.ids_lt e (List.mem_of_mem_filter he)
    omega

end

/-- `ChannelId::new` asserts that the number of channels so far is at most the null id. -/
def add (p : DefaultChannelProvider) (name : String) (channel : Channel)
    (fits : p.channels.length ≤ nullChannelId.toNat) : DefaultChannelProvider where
  channels := p.channels ++ [channel]
  nameToId := (name, BitVec.ofNat 32 p.channels.length) ::
    p.nameToId.filter (fun e => e.1 ≠ name)
  names_nodup := p.added_names_nodup name
  ids_nodup := p.added_ids_nodup name fits
  ids_lt := p.added_ids_lt name channel fits

def new : DefaultChannelProvider :=
  (empty.add ackChannelName ackChannel (by decide)).add
    channelManagementChannelName channelManagementChannel (by decide)

theorem new_fits : new.channels.length ≤ nullChannelId.toNat := by decide

/-- The hash map's iteration order is any order of its entries. -/
def asProvider (p : DefaultChannelProvider) (all : List (String × U32))
    (_order : all.Perm p.nameToId) : ChannelProvider where
  byId id := p.channels[id.toNat]?
  byName name := p.nameToId.lookup name
  all := all

end DefaultChannelProvider

inductive ConnectionState where
  | registration (receivedLastPacket : Bool) (lastPacketResendKey : Option SlotMapKey)
  | transfer
  deriving DecidableEq, Repr

namespace ConnectionState

def default : ConnectionState := .registration false none

/-- The state after the attempt and whether it was switched. -/
def convertToTransferIfPossible : ConnectionState → ConnectionState × Bool
  | .registration true none => (.transfer, true)
  | state => (state, false)

end ConnectionState

/-- The two maps of one direction; the direction itself is a phantom of the source's types. -/
structure ConnectionIdMapperInner where
  globalIdToLocalId : List U32 := []
  localIdToGlobalId : List U32 := []
  ackChannelId : U32 := nullChannelId
  channelManagementChannelId : U32 := nullChannelId
  deriving DecidableEq, Repr

/-- `Vec::resize` to a length that is not below the present one. -/
def resize (v : List α) (len : Nat) (fill : α) : List α :=
  v ++ List.replicate (len - v.length) fill

namespace ConnectionIdMapperInner

/-- Ids of the registration stage, which stand for themselves. -/
def registrationId (id : U32) : Option U32 :=
  if id = ackChannelIdRegistrationStage ∨ id = channelManagementChannelIdRegistrationStage then
    some id
  else none

def localId (m : ConnectionIdMapperInner) (state : ConnectionState) (globalId : U32) :
    Option U32 :=
  match state with
  | .registration _ _ => registrationId globalId
  | .transfer => m.globalIdToLocalId[globalId.toNat]?.filter (fun id => id ≠ nullChannelId)

def globalId (m : ConnectionIdMapperInner) (state : ConnectionState) (localId : U32) :
    Option U32 :=
  match state with
  | .registration _ _ => registrationId localId
  | .transfer => m.localIdToGlobalId[localId.toNat]?

def shift (localId id : U32) : U32 := if id ≠ nullChannelId ∧ id > localId then id + 1 else id

def insert (m : ConnectionIdMapperInner) (localId globalId : U32) (name : String) :
    Option ConnectionIdMapperInner :=
  if localId.toNat > m.localIdToGlobalId.length then none
  else some {
    localIdToGlobalId := m.localIdToGlobalId.insertIdx localId.toNat globalId
    globalIdToLocalId :=
      (resize m.globalIdToLocalId (globalId.toNat + 1) nullChannelId).set globalId.toNat localId
    ackChannelId :=
      if name = ackChannelName then localId else shift localId m.ackChannelId
    channelManagementChannelId :=
      if name = channelManagementChannelName then localId
      else shift localId m.channelManagementChannelId }

def nonNull (id : U32) : Option U32 := if id = nullChannelId then none else some id

def ackChannelId? (m : ConnectionIdMapperInner) : Option U32 := nonNull m.ackChannelId

def channelManagementChannelId? (m : ConnectionIdMapperInner) : Option U32 :=
  nonNull m.channelManagementChannelId

end ConnectionIdMapperInner

structure ConnectionChannel where
  localId : U32
  channel : Channel
  deriving DecidableEq, Repr

def ConnectionChannel.new (state : ConnectionState) (localId globalId : U32)
    (provider : ChannelProvider) : Option ConnectionChannel :=
  (match state with
    | .registration _ _ =>
      if localId = ackChannelIdRegistrationStage then some ackChannel
      else if localId = channelManagementChannelIdRegistrationStage then
        some channelManagementChannel
      else none
    | .transfer => provider.byId globalId).map (⟨localId, ·⟩)

structure ChannelData (T : Type) where
  basicStage : List T := []
  ackChannelRegistrationStage : T
  channelManagementRegistrationStage : T
  deriving DecidableEq, Repr

namespace ChannelData

/-- `get` and the read through `get_mut`. -/
def get (d : ChannelData T) (state : ConnectionState) (id : U32) : Outcome ε T :=
  match state with
  | .registration _ _ =>
    if id = ackChannelIdRegistrationStage then .ok d.ackChannelRegistrationStage
    else if id = channelManagementChannelIdRegistrationStage then
      .ok d.channelManagementRegistrationStage
    else .panic
  | .transfer => Outcome.ofOption d.basicStage[id.toNat]?

/-- The write through `get_mut`. -/
def write (d : ChannelData T) (state : ConnectionState) (id : U32) (value : T) :
    Outcome ε (ChannelData T) :=
  match state with
  | .registration _ _ =>
    if id = ackChannelIdRegistrationStage then .ok { d with ackChannelRegistrationStage := value }
    else if id = channelManagementChannelIdRegistrationStage then
      .ok { d with channelManagementRegistrationStage := value }
    else .panic
  | .transfer =>
    if id.toNat < d.basicStage.length then
      .ok { d with basicStage := d.basicStage.set id.toNat value }
    else .panic

/-- `set` in the transfer stage, which makes room with defaults. -/
def setTransfer (d : ChannelData T) (fill : T) (id : U32) (value : T) : ChannelData T :=
  { d with basicStage := (resize d.basicStage (id.toNat + 1) fill).set id.toNat value }

end ChannelData

structure GlobalChannelData (T : Type) where
  values : List (Option T) := []
  deriving DecidableEq, Repr

namespace GlobalChannelData

def get (d : GlobalChannelData T) (id : U32) : Option T := d.values[id.toNat]?.join

def insert (d : GlobalChannelData T) (id : U32) (value : T) : GlobalChannelData T :=
  ⟨(resize d.values (id.toNat + 1) none).set id.toNat (some value)⟩

/-- The write through an element of the map. -/
def modify (d : GlobalChannelData T) (id : U32) (f : T → T) : GlobalChannelData T :=
  ⟨d.values.modify id.toNat (Option.map f)⟩

end GlobalChannelData

end Theta
