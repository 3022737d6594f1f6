import Reckoner.Utf8

/-!
Sinks for written text. A sink may have a capacity in bytes. A write that does not fit keeps the
bytes that do, and fails.
-/

namespace Reckoner

structure Sink where
  capacity : Option Nat
  held : List UInt8

namespace Sink

def empty (capacity : Option Nat) : Sink := ⟨capacity, []⟩

/-- The bytes that a sink with the given capacity keeps of all that is written to it. -/
def keep (capacity : Option Nat) (bytes : List UInt8) : List UInt8 :=
  match capacity with
  | none => bytes
  | some n => bytes.take n

/-- The sink after a write, and whether all of the text fitted. -/
def write (s : Sink) (text : String) : Sink × Bool :=
  let bytes := s.held ++ Utf8.encode text
  let kept := keep s.capacity bytes
  (⟨s.capacity, kept⟩, kept.length == bytes.length)

theorem keep_nil (capacity : Option Nat) : keep capacity [] = [] := by
  cases capacity with
  | none => rfl
  | some n => exact List.take_nil

/-- A sink that kept a part of what came first keeps as much of the whole as if it had come at
once. -/
theorem keep_keep_append (capacity : Option Nat) (a b : List UInt8) :
    keep capacity (keep capacity a ++ b) = keep capacity (a ++ b) := by
  cases capacity with
  | none => rfl
  | some n =>
    simp only [keep, List.take_append, List.length_take, List.take_take, Nat.min_self]
    rcases Nat.le_total n a.length with h | h
    · simp [Nat.min_eq_left h, Nat.sub_eq_zero_of_le h]
    · simp [Nat.min_eq_right h]

end Sink

end Reckoner
