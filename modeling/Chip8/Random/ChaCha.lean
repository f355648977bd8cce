/-!
# The ChaCha block function

A block of sixteen 32-bit words is computed from a key and the number of the block: constants, key,
counter and zeros are laid out in a square, mixed by columns and diagonals, and added to what they
were.
-/

namespace Chip8.ChaCha

abbrev Block := Vector UInt32 16

abbrev Key := Vector UInt32 8

def rotateLeft (w : UInt32) (k : UInt32) : UInt32 :=
  w <<< k ||| w >>> (32 - k)

def rotateRight (w : UInt32) (k : UInt32) : UInt32 :=
  w >>> k ||| w <<< (32 - k)

theorem mod_size_lt (n : Nat) : n % 16 < 16 := by
  omega

def place (n : Nat) : Fin 16 :=
  ⟨n % 16, mod_size_lt n⟩

def mix (a b c d : Fin 16) (s : Block) : Block :=
  let s := s.set a (s[a] + s[b])
  let s := s.set d (rotateLeft (s[d] ^^^ s[a]) 16)
  let s := s.set c (s[c] + s[d])
  let s := s.set b (rotateLeft (s[b] ^^^ s[c]) 12)
  let s := s.set a (s[a] + s[b])
  let s := s.set d (rotateLeft (s[d] ^^^ s[a]) 8)
  let s := s.set c (s[c] + s[d])
  s.set b (rotateLeft (s[b] ^^^ s[c]) 7)

def quarterRound (a b c d : Nat) (s : Block) : Block :=
  mix (place a) (place b) (place c) (place d) s

def doubleRound (s : Block) : Block :=
  let s := quarterRound 0 4 8 12 s
  let s := quarterRound 1 5 9 13 s
  let s := quarterRound 2 6 10 14 s
  let s := quarterRound 3 7 11 15 s
  let s := quarterRound 0 5 10 15 s
  let s := quarterRound 1 6 11 12 s
  let s := quarterRound 2 7 8 13 s
  quarterRound 3 4 9 14 s

/-- The words before mixing: four constants, the key, the 64-bit counter with its low word first,
and two zeros. -/
def layout (key : Key) (counter : Nat) : Block :=
  #v[0x61707865, 0x3320646E, 0x79622D32, 0x6B206574,
     key[0], key[1], key[2], key[3], key[4], key[5], key[6], key[7],
     UInt32.ofNat counter, UInt32.ofNat (counter >>> 32), 0, 0]

/-- The block of the given number after `n` double rounds. -/
def block (n : Nat) (key : Key) (counter : Nat) : Block :=
  let first := layout key counter
  Vector.zipWith (· + ·) (Nat.repeat doubleRound n first) first

end Chip8.ChaCha
