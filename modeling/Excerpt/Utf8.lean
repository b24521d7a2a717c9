import Excerpt.Text.Basic

/-!
This module contains UTF-8 in both directions: the encoder, and a decoder for arbitrary bytes that shows every
maximal ill-formed part as one replacement character. The decoder works byte by byte; between two bytes it only
knows whether it stands inside a character, and what the next byte may be.
-/

namespace Excerpt.Utf8

def encode (s : Text) : Bytes := s.flatMap String.utf8EncodeChar

@[simp]
theorem encode_nil : encode [] = [] := rfl

theorem encode_cons {c : Char} {s : Text} : encode (c :: s) = String.utf8EncodeChar c ++ encode s := rfl

@[simp]
theorem encode_append {s t : Text} : encode (s ++ t) = encode s ++ encode t := by
  simp [encode]

def replacement : Char := '\uFFFD'

inductive State
  | ready
  /--
  A character has begun: `value` are its bits so far, the next byte has to lie between `low` and `high`, and `more`
  continuation bytes follow that one.
  -/
  | inside (value : Nat) (low high : UInt8) (more : Nat)
  deriving DecidableEq, Repr

/--
Reads a byte where no character has begun. The bounds on the second byte rule out overlong forms, surrogates and
values past U+10FFFF.
-/
def begin (byte : UInt8) : Text × State :=
  if byte < 0x80 then ([Char.ofNat byte.toNat], .ready)
  else if byte < 0xC2 then ([replacement], .ready)
  else if byte < 0xE0 then ([], .inside (byte.toNat - 0xC0) 0x80 0xBF 0)
  else if byte = 0xE0 then ([], .inside 0x0 0xA0 0xBF 1)
  else if byte = 0xED then ([], .inside 0xD 0x80 0x9F 1)
  else if byte < 0xF0 then ([], .inside (byte.toNat - 0xE0) 0x80 0xBF 1)
  else if byte = 0xF0 then ([], .inside 0x0 0x90 0xBF 2)
  else if byte < 0xF4 then ([], .inside (byte.toNat - 0xF0) 0x80 0xBF 2)
  else if byte = 0xF4 then ([], .inside 0x4 0x80 0x8F 2)
  else ([replacement], .ready)

/--
Reads one byte: the characters that are settled by it, and the next state. A byte that cannot continue the
character at hand settles that one as ill-formed and is then read as a first byte.
-/
def step : State → UInt8 → Text × State
  | .ready, byte => begin byte
  | .inside value low high more, byte =>
    if low ≤ byte ∧ byte ≤ high then
      let value := value * 64 + (byte.toNat - 0x80)
      match more with
      | 0 => ([Char.ofNat value], .ready)
      | more + 1 => ([], .inside value 0x80 0xBF more)
    else
      (replacement :: (begin byte).1, (begin byte).2)

def run (state : State) : Bytes → Text × State
  | [] => ([], state)
  | byte :: data =>
    let (settled, state) := step state byte
    let (rest, state) := run state data
    (settled ++ rest, state)

theorem run_append {state : State} {data more : Bytes} :
    run state (data ++ more)
      = ((run state data).1 ++ (run (run state data).2 more).1, (run (run state data).2 more).2) := by
  induction data generalizing state with
  | nil => simp [run]
  | cons byte data ih => simp [run, ih]

def State.close : State → Text
  | .ready => []
  | .inside .. => [replacement]

def decode (data : Bytes) : Text :=
  let (settled, state) := run .ready data
  settled ++ state.close

@[simp]
theorem decode_nil : decode [] = [] := rfl

theorem decode_append {data more : Bytes} (h : (run .ready data).2 = .ready) :
    decode (data ++ more) = decode data ++ decode more := by
  simp [decode, run_append, h, State.close]

end Excerpt.Utf8
