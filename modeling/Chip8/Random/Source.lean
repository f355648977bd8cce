import Chip8.Random.ChaCha
import Chip8.Word

/-!
# Random bytes

A machine draws its random bytes from one stream, which a seed determines. The stream is a function
from places to bytes, and a source is a key and a place in the stream.
-/

namespace Chip8.Random

def nextState (s : UInt64) : UInt64 :=
  s * 6364136223846793005 + 11634580027462260723

/-- The word that a state gives: its upper bits folded together, turned by its top five. -/
def spread (s : UInt64) : UInt32 :=
  ChaCha.rotateRight (((s >>> 18 ^^^ s) >>> 27).toUInt32) (s >>> 59).toUInt32

def states (s : UInt64) : Nat → List UInt64
  | 0 => []
  | n + 1 => nextState s :: states (nextState s) n

theorem length_states (s : UInt64) (n : Nat) : (states s n).length = n := by
  induction n generalizing s with
  | zero => rfl
  | succ n ih => simp [states, ih]

def key (seed : UInt64) : ChaCha.Key :=
  ⟨((states seed 8).map spread).toArray, by simp [length_states]⟩

/-- The byte at a place in the stream: the low byte of the word there, sixteen words to a block. -/
def byteAt (key : ChaCha.Key) (place : Nat) : Byte :=
  (ChaCha.block 6 key (place / 16))[ChaCha.place place].toUInt8

structure Source where
  key : ChaCha.Key
  drawn : Nat
  deriving DecidableEq

namespace Source

def ofSeed (seed : UInt64) : Source :=
  ⟨Random.key seed, 0⟩

def peek (s : Source) : Byte :=
  byteAt s.key s.drawn

def advance (s : Source) : Source :=
  { s with drawn := s.drawn + 1 }

end Source

end Chip8.Random
