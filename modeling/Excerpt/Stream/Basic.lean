import Excerpt.Line

/-!
This module contains the two ends of a stream, a source of lines and a sink for texts, and the faults of the outside
world: reading or writing works a number of times and then fails, every time from then on.
-/

namespace Excerpt

inductive ReadFault
  | inputOutput
  | interrupt
  deriving DecidableEq, Repr

inductive WriteFault
  | brokenPipe
  | noSpace
  deriving DecidableEq, Repr

def WriteFault.message : WriteFault → Text
  | .brokenPipe => "Broken pipe".toList
  | .noSpace => "No space left on device".toList

structure Fault (κ : Type) where
  after : Nat
  kind : κ
  deriving DecidableEq, Repr

/--
Attempts one operation. It fails if the fault is due; otherwise the fault has come one operation closer.
-/
def Fault.attempt {κ : Type} : Option (Fault κ) → Except κ (Option (Fault κ))
  | none => .ok none
  | some ⟨0, kind⟩ => .error kind
  | some ⟨after + 1, kind⟩ => .ok (some ⟨after, kind⟩)

@[simp]
theorem Fault.attempt_none {κ : Type} : Fault.attempt (none : Option (Fault κ)) = .ok none := rfl

/--
What is left to read, line by line with terminators. To find that nothing is left counts as a read.
-/
structure Source where
  lines : List Bytes
  fault : Option (Fault ReadFault) := none
  deriving DecidableEq, Repr

namespace Source

def ofBytes (data : Bytes) (fault : Option (Fault ReadFault) := none) : Source := ⟨Line.split data, fault⟩

/--
How many bytes are left to read.
-/
def size (source : Source) : Nat := source.lines.flatten.length

@[simp]
theorem size_ofBytes {data : Bytes} {fault : Option (Fault ReadFault)} : (ofBytes data fault).size = data.length := by
  simp [ofBytes, size]

end Source

/--
What can still be written. The texts themselves are collected by whoever writes them.
-/
structure Sink where
  fault : Option (Fault WriteFault) := none
  deriving DecidableEq, Repr

end Excerpt
