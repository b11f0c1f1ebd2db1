import Corio.Foundation.Machine
import Mathlib.Logic.Function.Basic

/-! # The queue of the logger

`AsyncLogger::LogQueue`, an atomic access a step, for any threads that push and pop. Its
counters are words and wrap around. The tickets they stand for are counted beside them.
-/

namespace Corio.Logging

/-- `std::size_t`. -/
abbrev Word := BitVec 64

/-- A capacity that the constructor accepts, and not 1. -/
structure Capacity where
  bits : Nat
  two_le : 1 ≤ bits
  fits : bits < 64

namespace Capacity

def size (capacity : Capacity) : Nat := 2 ^ capacity.bits

/-- `mask_`. -/
def mask (capacity : Capacity) : Word := BitVec.ofNat 64 (capacity.size - 1)

end Capacity

structure Slot (α : Type) where
  sequence : Word
  /-- A pointer that may be null. -/
  payload : Option α
  deriving DecidableEq, Repr

/-- Where a thread is in `push` or `pop`. Beside a loaded counter stands how many tickets
    had been won then, beside a won ticket its number. -/
inductive QueuePc (α : Type) where
  | idle
  /-- At the load of `tail_`. -/
  | loadingTail (entry : α)
  /-- At the load of the slot's sequence. -/
  | pushReading (entry : α) (pos : Word) (since : Nat)
  /-- At the compare-exchange on `tail_`. -/
  | pushSwapping (entry : α) (pos : Word) (since : Nat)
  /-- At the store of the payload. -/
  | storing (entry : α) (pos : Word) (ticket : Nat)
  /-- At the store of the slot's sequence. -/
  | publishing (pos : Word) (ticket : Nat)
  | pushed (done : Bool)
  | loadingHead
  | popReading (pos : Word) (since : Nat)
  | popSwapping (pos : Word) (since : Nat)
  /-- At the exchange of the payload. -/
  | exchanging (pos : Word) (ticket : Nat)
  /-- At the store of the slot's sequence. -/
  | releasing (pos : Word) (ticket : Nat) (entry : Option α)
  /-- Returned, with an entry exactly if the result is true. -/
  | popped (entry : Option α)
  deriving DecidableEq, Repr

namespace QueuePc

/-- Outside of `push` and `pop`. -/
def Outside {α : Type} : QueuePc α → Prop
  | .idle | .pushed _ | .popped _ => True
  | _ => False

instance {α : Type} (pc : QueuePc α) : Decidable pc.Outside := by
  unfold Outside
  split <;> infer_instance

end QueuePc

structure LogQueue (ι α : Type) where
  slots : Word → Slot α
  head : Word
  tail : Word
  thread : ι → QueuePc α
  /-- The entries by the tickets of `tail_` that their pushes won. -/
  won : List α
  /-- How many tickets of `head_` were won. -/
  taken : Nat
  /-- What each pop that won a ticket returned. -/
  results : List (Nat × Option α)

namespace LogQueue

variable {ι α : Type} [DecidableEq ι] (capacity : Capacity)

/-- The queue as it is constructed. -/
def construct (ι α : Type) : LogQueue ι α :=
  ⟨fun i => ⟨i, none⟩, 0, 0, fun _ => .idle, [], 0, []⟩

def goto (q : LogQueue ι α) (i : ι) (pc : QueuePc α) : LogQueue ι α :=
  { q with thread := Function.update q.thread i pc }

/-- The slot for a position. -/
def slot (q : LogQueue ι α) (pos : Word) : Slot α := q.slots (pos &&& capacity.mask)

def setSlot (q : LogQueue ι α) (pos : Word) (slot : Slot α) : LogQueue ι α :=
  { q with slots := Function.update q.slots (pos &&& capacity.mask) slot }

/-- `static_cast<std::intptr_t>(seq) - static_cast<std::intptr_t>(pos)`. Where the difference of
    signed numbers overflows, which is undefined, it is taken to wrap around. -/
def diff (seq pos : Word) : Int := (seq - pos).toInt

/-- The next access of a thread. The compare-exchange may fail for no reason. -/
def advance (q : LogQueue ι α) (i : ι) (spurious : Bool) : Option (LogQueue ι α) :=
  match q.thread i with
  | .idle | .pushed _ | .popped _ => none
  | .loadingTail entry => some (q.goto i (.pushReading entry q.tail q.won.length))
  | .pushReading entry pos since =>
      let diff := diff (q.slot capacity pos).sequence pos
      if diff = 0 then some (q.goto i (.pushSwapping entry pos since))
      else if diff < 0 then some (q.goto i (.pushed false))
      else some (q.goto i (.loadingTail entry))
  | .pushSwapping entry pos _ =>
      if q.tail = pos ∧ spurious = false then
        some ({ q with tail := pos + 1, won := q.won ++ [entry] }.goto i
          (.storing entry pos q.won.length))
      else some (q.goto i (.pushReading entry q.tail q.won.length))
  | .storing entry pos ticket =>
      some ((q.setSlot capacity pos { q.slot capacity pos with payload := some entry }).goto i
        (.publishing pos ticket))
  | .publishing pos _ =>
      some ((q.setSlot capacity pos { q.slot capacity pos with sequence := pos + 1 }).goto i
        (.pushed true))
  | .loadingHead => some (q.goto i (.popReading q.head q.taken))
  | .popReading pos since =>
      let diff := diff (q.slot capacity pos).sequence (pos + 1)
      if diff = 0 then some (q.goto i (.popSwapping pos since))
      else if diff < 0 then some (q.goto i (.popped none))
      else some (q.goto i .loadingHead)
  | .popSwapping pos _ =>
      if q.head = pos ∧ spurious = false then
        some ({ q with head := pos + 1, taken := q.taken + 1 }.goto i (.exchanging pos q.taken))
      else some (q.goto i (.popReading q.head q.taken))
  | .exchanging pos ticket =>
      let slot := q.slot capacity pos
      some ((q.setSlot capacity pos { slot with payload := none }).goto i
        (.releasing pos ticket slot.payload))
  | .releasing pos ticket entry =>
      let slot := q.slot capacity pos
      some ({ q.setSlot capacity pos { slot with sequence := pos + capacity.mask + 1 } with
              results := q.results ++ [(ticket, entry)] }.goto i (.popped entry))

end LogQueue

inductive QueueStep (ι α : Type) where
  /-- A thread calls `push`, with a pointer that is not null. -/
  | push (i : ι) (entry : α)
  | pop (i : ι)
  | advance (i : ι) (spurious : Bool)

def logQueue (ι α : Type) [DecidableEq ι] (capacity : Capacity) :
    Machine (LogQueue ι α) (QueueStep ι α) where
  init := .construct ι α
  step q action :=
    match action with
    | .push i entry =>
        if (q.thread i).Outside then some (q.goto i (.loadingTail entry)) else none
    | .pop i => if (q.thread i).Outside then some (q.goto i .loadingHead) else none
    | .advance i spurious => q.advance capacity i spurious

end Corio.Logging
