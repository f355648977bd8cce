import Chip8.Debugger.Session

/-!
# What a host does to a machine

Every way in which a host can change a machine, as data. A machine is reachable if a list of
operations leads to it from a machine that was just made.
-/

namespace Chip8

inductive Operation where
  | loadWords (words : List Word)
  | loadRom (rom : List Byte)
  | write (a : Address) (b : Byte)
  | writeWord (a : Address) (w : Word)
  | setRegister (x : Register) (b : Byte)
  | setPc (a : Address)
  | setIndex (a : Address)
  | setDelay (b : Byte)
  | setSound (b : Byte)
  | setLastRandom (b : Byte)
  | push (a : Address)
  | pop
  | drawRandom
  | changeScreen (change : Screen → Screen)
  | press (k : Key)
  | release (k : Key)
  | clearKeys
  | attach (f : Frontend)
  | detach
  | requestClose
  | observeClose
  | advanceClock (elapsed : Nat)
  /-- Pass over a word without carrying it out. -/
  | fetch
  | step
  | steps (n : Nat)
  | run (bound : Nat)
  | service
  | debug (read : Reader) (input : List Byte)

namespace Machine

def after (m : Machine) : Operation → Machine
  | .loadWords words => m.loadWords words
  | .loadRom rom => m.loadRom rom
  | .write a b => m.write a b
  | .writeWord a w => m.writeWord a w
  | .setRegister x b => m.setRegister x b
  | .setPc a => m.setPc a
  | .setIndex a => m.setIndex a
  | .setDelay b => m.setDelay b
  | .setSound b => m.setSound b
  | .setLastRandom b => m.setLastRandom b
  | .push a => m.push a
  | .pop => m.pop
  | .drawRandom => m.drawRandom
  | .changeScreen change => m.changeScreen change
  | .press k => m.press k
  | .release k => m.release k
  | .clearKeys => m.clearKeys
  | .attach f => m.attach f
  | .detach => m.detach
  | .requestClose => m.requestClose
  | .observeClose => m.observeClose
  | .advanceClock elapsed => m.advanceClock elapsed
  | .fetch => m.passWord
  | .step => m.step
  | .steps n => steps n m
  | .run bound => (runFor bound m).2
  | .service => m.service
  | .debug read input => (Debugger.Session.run read m input).machine

def afterAll (m : Machine) (ops : List Operation) : Machine :=
  ops.foldl after m

end Machine

end Chip8
