import Mathlib.Data.List.Basic

namespace Theta

/-- The queue behind the lock of a channel. -/
structure ManyToSingleChannel (T : Type) where
  values : List T := []
  deriving DecidableEq, Repr

namespace ManyToSingleChannel
variable {T : Type}

def push (channel : ManyToSingleChannel T) (value : T) : ManyToSingleChannel T :=
  ⟨channel.values ++ [value]⟩

def pushMany (channel : ManyToSingleChannel T) (values : List T) : ManyToSingleChannel T :=
  values.foldl push channel

/-- The loop of `wait_and_take_bunch`, over the values that are left and the bunch so far. -/
def takeLoop (capacity : Nat) : List T → List T → List T × List T
  | [], bunch => ([], bunch)
  | value :: values, bunch =>
    if capacity = bunch.length then (value :: values, bunch)
    else takeLoop capacity values (bunch ++ [value])

/-- What `wait_and_take_bunch` does when its wait has ended, for a bunch that has been drained. -/
def takeBunch (capacity : Nat) (channel : ManyToSingleChannel T) :
    ManyToSingleChannel T × List T :=
  let (values, bunch) := takeLoop capacity channel.values []
  (⟨values⟩, bunch)

@[simp] theorem push_values (channel : ManyToSingleChannel T) (value : T) :
    (channel.push value).values = channel.values ++ [value] := rfl

@[simp] theorem push_many_values (channel : ManyToSingleChannel T) (values : List T) :
    (channel.pushMany values).values = channel.values ++ values := by
  unfold pushMany
  induction values generalizing channel with
  | nil => simp
  | cons value rest ih => simp [ih]

/-- Values leave in the order in which they came, up to the capacity of the bunch. -/
theorem take_loop_eq {capacity : Nat} (values bunch : List T) (h : bunch.length ≤ capacity) :
    takeLoop capacity values bunch =
      (values.drop (capacity - bunch.length), bunch ++ values.take (capacity - bunch.length)) := by
  induction values generalizing bunch with
  | nil => simp [takeLoop]
  | cons value values ih =>
    rw [takeLoop]
    split
    · rename_i full
      simp [full]
    · obtain ⟨room, hroom⟩ : ∃ room, capacity - bunch.length = room + 1 :=
        ⟨capacity - bunch.length - 1, by omega⟩
      have hnext : capacity - (bunch ++ [value]).length = room := by
        rw [List.length_append, List.length_singleton]
        omega
      rw [ih (bunch ++ [value]) (by rw [List.length_append, List.length_singleton]; omega), hnext,
        hroom, List.drop_succ_cons, List.take_succ_cons, List.append_assoc]
      rfl

theorem take_bunch_eq (capacity : Nat) (channel : ManyToSingleChannel T) :
    channel.takeBunch capacity = (⟨channel.values.drop capacity⟩, channel.values.take capacity) := by
  simp [takeBunch, take_loop_eq]

end ManyToSingleChannel

end Theta
