import Chip8.Notice
import Chip8.Processor.Basic

/-!
# Carrying out an instruction

`execute` says what each instruction does to a processor whose program counter already points past
it. An instruction that waits for a key cannot be finished by the processor alone, so its effect
names the register that wants the key.
-/

namespace Chip8

structure Effect where
  processor : Processor
  /-- The register that a key is awaited for. -/
  awaits : Option Register := none
  notices : List Notice := []
  deriving DecidableEq

/-- The result for the first register and, if the flag changes, whether it is raised. -/
def Combination.apply (how : Combination) (a b : Byte) : Byte × Option Bool :=
  match how with
  | copy => (b, none)
  | or => (a ||| b, some false)
  | and => (a &&& b, some false)
  | xor => (a ^^^ b, some false)
  | add => (a + b, some (decide (256 ≤ a.toNat + b.toNat)))
  | sub => (a - b, some (decide (b ≤ a)))
  | shiftRight => (b >>> 1, some (decide (b.toNat % 2 = 1)))
  | subFrom => (b - a, some (decide (a ≤ b)))
  | shiftLeft => (b <<< 1, some (decide (128 ≤ b.toNat)))

/-- Combines two registers; the flag is written last, so that it stays where it is also the first
register. -/
def Registers.combine (v : Registers) (how : Combination) (x y : Register) : Registers :=
  let (result, flag) := how.apply (v.get x) (v.get y)
  let written := v.set x result
  match flag with
  | none => written
  | some raised => written.setFlag raised

def Registers.loadUpTo (v : Registers) (x : Register) (m : Memory) (a : Address) : Registers :=
  x.upTo.foldl (fun v r => v.set r (m.read (a.advance r.index.val))) v

theorem Registers.get_foldl_set (f : Register → Byte) (xs : List Register) (v : Registers)
    (r : Register) :
    (xs.foldl (fun v x => v.set x (f x)) v).get r = if r ∈ xs then f r else v.get r := by
  induction xs generalizing v with
  | nil => simp
  | cons x xs ih =>
    rw [List.foldl_cons, ih, get_set]
    grind

theorem Registers.get_loadUpTo (v : Registers) (x : Register) (m : Memory) (a : Address)
    (r : Register) :
    (v.loadUpTo x m a).get r =
      if r.index ≤ x.index then m.read (a.advance r.index.val) else v.get r := by
  unfold loadUpTo
  rw [get_foldl_set (fun r => m.read (a.advance r.index.val))]
  simp only [Register.mem_upTo]

def Byte.decimalDigits (b : Byte) : List Byte :=
  [b / 100, b / 10 % 10, b % 10]

namespace Processor

def keyIn (p : Processor) (x : Register) : Key :=
  .ofNat (p.v.get x).toNat

/-- Draws the sprite at the index. The corner is read before the flag is written. -/
def drawSprite (p : Processor) (x y : Register) (height : Fin 16) : Processor :=
  let sprite := p.memory.readAll p.index height.val
  let (screen, collided) := p.screen.draw (p.v.get x).toNat (p.v.get y).toNat sprite
  { p with v := p.v.setFlag collided, screen := screen, redraw := true }

def passTransfer (p : Processor) (x : Register) : Processor :=
  if p.advancesIndex then { p with index := p.index.advance (x.index.val + 1) } else p

theorem passTransfer_eq (p : Processor) (x : Register) :
    p.passTransfer x =
      { p with
        index := if p.advancesIndex then p.index.advance (x.index.val + 1) else p.index } := by
  unfold passTransfer
  split <;> rfl

def execute (p : Processor) : Instruction → Effect
  | .system target => { processor := p, notices := [.systemIgnored target] }
  | .clearScreen => { processor := { p with screen := .blank, redraw := true } }
  | .ret => { processor := { p with pc := p.stack.pop.1.address, stack := p.stack.pop.2 } }
  | .jump target => { processor := { p with pc := target } }
  | .call target =>
    { processor := { p with stack := p.stack.push p.pc.toWord, pc := target }
      notices := Notice.ofPush p.stack p.pc.toWord }
  | .skipIfByte x byte => { processor := p.skipIf (p.v.get x == byte) }
  | .skipUnlessByte x byte => { processor := p.skipIf (p.v.get x != byte) }
  | .skipIfSame x y => { processor := p.skipIf (p.v.get x == p.v.get y) }
  | .skipUnlessSame x y => { processor := p.skipIf (p.v.get x != p.v.get y) }
  | .load x byte => { processor := p.setRegister x byte }
  | .addByte x byte => { processor := p.setRegister x (p.v.get x + byte) }
  | .combine how x y => { processor := { p with v := p.v.combine how x y } }
  | .loadIndex target => { processor := { p with index := target } }
  | .jumpPast target => { processor := { p with pc := target.advance (p.v.get .first).toNat } }
  | .random x mask =>
    let drawn := p.drawRandom
    { processor := drawn.setRegister x (drawn.lastRandom &&& mask) }
  | .draw x y height => { processor := p.drawSprite x y height }
  | .skipIfKey x => { processor := p.skipIf (p.keypad.isDown (p.keyIn x)) }
  | .skipUnlessKey x => { processor := p.skipIf (!p.keypad.isDown (p.keyIn x)) }
  | .readDelay x => { processor := p.setRegister x p.timers.delay }
  | .awaitKey x => { processor := p, awaits := some x }
  | .setDelay x => { processor := { p with timers.delay := p.v.get x } }
  | .setSound x => { processor := { p with timers.sound := p.v.get x } }
  | .addIndex x => { processor := { p with index := p.index.advance (p.v.get x).toNat } }
  | .loadGlyph x =>
    { processor := { p with index := Font.glyph (Numeral.lastDigit (p.v.get x).toNat) } }
  | .storeDecimal x =>
    { processor := { p with memory := p.memory.writeAll p.index (p.v.get x).decimalDigits } }
  | .storeUpTo x =>
    let stored := { p with memory := p.memory.writeAll p.index (x.upTo.map p.v.get) }
    { processor := stored.passTransfer x }
  | .loadUpTo x =>
    let loaded := { p with v := p.v.loadUpTo x p.memory p.index }
    { processor := loaded.passTransfer x }

def handle? (p : Processor) (w : Word) : Option Effect :=
  (Instruction.decode? w).map p.execute

theorem exists_of_handle? {p : Processor} {w : Word} {e : Effect} (handled : p.handle? w = some e) :
    ∃ i, Instruction.decode? w = some i ∧ p.execute i = e := by
  unfold handle? at handled
  exact Option.map_eq_some_iff.1 handled

theorem handle?_encode (p : Processor) {i : Instruction} (proper : i.IsProper) :
    p.handle? i.encode = some (p.execute i) := by
  unfold handle?
  rw [Instruction.decode?_encode proper]
  rfl

end Processor

end Chip8
