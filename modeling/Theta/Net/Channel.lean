import Theta.Proto

namespace Theta

structure ReliableChannel where
  resendInterval : U32
  resendAttempts : U32
  additionalCapacity : Nat
  interval_nonzero : resendInterval ≠ 0 := by decide
  deriving DecidableEq, Repr

structure OrderedChannel where
  capacity : Nat
  capacity_nonzero : capacity ≠ 0 := by decide
  capacity_usize : capacity < usizeModulus := by decide
  deriving DecidableEq, Repr

structure Channel where
  reliability : Option ReliableChannel
  orderability : Option OrderedChannel
  frequency : U32
  deriving DecidableEq, Repr

namespace ChannelFrequency

def high : U32 := 1 <<< 20
def never : U32 := 0

end ChannelFrequency

namespace Channel

def isOrdered (c : Channel) : Bool := c.orderability.isSome

def isReliable (c : Channel) : Bool := c.reliability.isSome

end Channel

end Theta
