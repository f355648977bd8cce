import Chip8.Register

/-!
# Instructions

The instruction set. An instruction names the registers, the byte, the address or the height that it
works on; how it is spelled as a word or as text is a matter of the modules beside this one.
-/

namespace Chip8

inductive Combination where
  | copy
  | or
  | and
  | xor
  | add
  /-- The first less the second; the flag is raised unless that borrows. -/
  | sub
  /-- The second shifted right; the flag is the bit shifted out. -/
  | shiftRight
  /-- The second less the first; the flag is raised unless that borrows. -/
  | subFrom
  /-- The second shifted left; the flag is the bit shifted out. -/
  | shiftLeft
  deriving DecidableEq

inductive Instruction where
  | system (target : Address)
  | clearScreen
  | ret
  | jump (target : Address)
  | call (target : Address)
  | skipIfByte (x : Register) (byte : Byte)
  | skipUnlessByte (x : Register) (byte : Byte)
  | skipIfSame (x y : Register)
  | skipUnlessSame (x y : Register)
  | load (x : Register) (byte : Byte)
  | addByte (x : Register) (byte : Byte)
  | combine (how : Combination) (x y : Register)
  | loadIndex (target : Address)
  /-- Jump past an address by the value of `V0`. -/
  | jumpPast (target : Address)
  | random (x : Register) (mask : Byte)
  | draw (x y : Register) (height : Fin 16)
  | skipIfKey (x : Register)
  | skipUnlessKey (x : Register)
  | readDelay (x : Register)
  | awaitKey (x : Register)
  | setDelay (x : Register)
  | setSound (x : Register)
  | addIndex (x : Register)
  | loadGlyph (x : Register)
  | storeDecimal (x : Register)
  | storeUpTo (x : Register)
  | loadUpTo (x : Register)
  deriving DecidableEq

inductive Operator where
  | system
  | clearScreen
  | ret
  | jump
  | call
  | skipIfByte
  | skipUnlessByte
  | skipIfSame
  | skipUnlessSame
  | load
  | addByte
  | combine (how : Combination)
  | loadIndex
  | jumpPast
  | random
  | draw
  | skipIfKey
  | skipUnlessKey
  | readDelay
  | awaitKey
  | setDelay
  | setSound
  | addIndex
  | loadGlyph
  | storeDecimal
  | storeUpTo
  | loadUpTo
  deriving DecidableEq

end Chip8
