import Chip8.Proofs.Checked.Machine
import Chip8.Proofs.Checked.Screen

/-!
# Steps of the checked machine

Each handler on words, with every sum and every access checked, and what it agrees with. Main
statement: `step_spec`.
-/

namespace Chip8.Checked.Bare

/-! ## Instructions -/

def skipIf (b : Bare) (condition : Bool) : Bare :=
  if condition then b.passWord else b

def passTransfer (b : Bare) (x : Register) : Option Bare :=
  if b.rest.advancesIndex then do
    let past ← sum b.index (UInt16.ofNat x.index.val)
    let next ← sum past 1
    some { b with index := mask next }
  else some b

def glyph (byte : Byte) : Option Word := do
  let offset ← product (byte &&& 0xF).toUInt16 5
  sum 0x050 offset

def loadGlyph (b : Bare) (byte : Byte) : Option Bare := do
  let place ← glyph byte
  some { b with index := place }

def addIndex (b : Bare) (byte : Byte) : Option Bare := do
  let next ← sum b.index byte.toUInt16
  some { b with index := mask next }

def jumpPast (b : Bare) (target : Word) (byte : Byte) : Option Bare := do
  let past ← sum target byte.toUInt16
  some { b with pc := mask past }

def drawSprite (b : Bare) (x y : Register) (height : Fin 16) : Option Bare := do
  let sprite ← (List.range height.val).mapM fun k => read b.rest.memory (b.index + UInt16.ofNat k)
  let drawn ← drawRows (b.rest.v.get x).toNat (b.rest.v.get y).toNat 0 (b.rest.screen, false) sprite
  some { b with
    rest := { b.rest with
      v := b.rest.v.setFlag drawn.2, screen := drawn.1, redraw := true } }

/-- Carries out the instruction of a word. An address is cut out of the word. -/
def carryOut (b : Bare) (w : Word) : Instruction → Option Bare
  | .ret => do
    let (top, b) ← b.pop
    some { b with pc := mask top }
  | .jump _ => some { b with pc := mask w }
  | .call _ => do
    let b ← b.push b.pc
    some { b with pc := mask w }
  | .skipIfByte x byte => some (b.skipIf (b.rest.v.get x == byte))
  | .skipUnlessByte x byte => some (b.skipIf (b.rest.v.get x != byte))
  | .skipIfSame x y => some (b.skipIf (b.rest.v.get x == b.rest.v.get y))
  | .skipUnlessSame x y => some (b.skipIf (b.rest.v.get x != b.rest.v.get y))
  | .skipIfKey x => some (b.skipIf (b.rest.keypad.isDown (b.rest.keyIn x)))
  | .skipUnlessKey x => some (b.skipIf (!b.rest.keypad.isDown (b.rest.keyIn x)))
  | .loadIndex _ => some { b with index := mask w }
  | .jumpPast _ => b.jumpPast (mask w) (b.rest.v.get .first)
  | .draw x y height => b.drawSprite x y height
  | .addIndex x => b.addIndex (b.rest.v.get x)
  | .loadGlyph x => b.loadGlyph (b.rest.v.get x)
  | .storeDecimal x => do
    let memory ← writeAll b.rest.memory b.index (b.rest.v.get x).decimalDigits
    some { b with rest := { b.rest with memory := memory } }
  | .storeUpTo x => do
    let memory ← storeAll b.rest.v b.index b.rest.memory x.upTo
    passTransfer { b with rest := { b.rest with memory := memory } } x
  | .loadUpTo x => do
    let v ← loadAll b.rest.memory b.index b.rest.v x.upTo
    passTransfer { b with rest := { b.rest with v := v } } x
  | i => some { b with rest := b.rest.carryOut i }

/-! ## Handlers are safe -/

theorem address_of_encode {group : Nat} (proper : group < 16) {target : Address} {w : Word}
    (encoded : Word.ofAddress group target = w) : w.address = target := by
  rw [← encoded]
  exact (Word.fields_ofAddress proper target).2

theorem skipIf_spec {b : Bare} (inside : b.InRange) (condition : Bool) :
    Shows (some (b.skipIf condition))
      { b.view with toProcessor := b.view.toProcessor.skipIf condition } := by
  cases condition with
  | false => exact .of_inRange inside rfl
  | true => exact passWord_spec inside

theorem advance_spec {b : Bare} (inside : b.InRange) (k : Word) (small : k.toNat ≤ 0xFF) :
    ∃ next, sum b.index k = some next ∧ next.toNat = b.index.toNat + k.toNat ∧
      next.address = b.view.index.advance k.toNat := by
  have bound : b.index.toNat ≤ 4095 := UInt16.le_iff_toNat_le.1 inside.index
  refine ⟨b.index + k, sum_of_lt (by omega), ?_, address_add b.index k⟩
  rw [UInt16.toNat_add]
  omega

theorem passTransfer_spec {b : Bare} (inside : b.InRange) (x : Register) :
    Shows (b.passTransfer x) { b.view with toProcessor := b.view.toProcessor.passTransfer x } := by
  unfold passTransfer Processor.passTransfer
  show Shows _ { b.view with toProcessor := if b.rest.advancesIndex then _ else _ }
  cases b.rest.advancesIndex with
  | false => exact .of_inRange inside rfl
  | true =>
    have bound := x.index.isLt
    have number : (UInt16.ofNat x.index.val).toNat = x.index.val :=
      UInt16.toNat_ofNat_of_lt' (show x.index.val < 65536 by omega)
    obtain ⟨past, summed, value, -⟩ :=
      advance_spec inside (UInt16.ofNat x.index.val) (by omega)
    have index : b.index.toNat ≤ 4095 := UInt16.le_iff_toNat_le.1 inside.index
    have fits : past.toNat + (1 : Word).toNat < 65536 := by
      rw [value, number]
      have : (1 : Word).toNat = 1 := rfl
      omega
    have next : (past + 1).address = b.view.index.advance (x.index.val + 1) := by
      apply Fin.ext
      have : (1 : Word).toNat = 1 := rfl
      rw [address_add, Address.val_advance, val_address, value, number]
      simp only [this, Address.val_advance, view, onto, val_address]
      omega
    have moved := setIndex_spec inside (past + 1)
    rw [next] at moved
    simp only [summed, sum_of_lt fits, Option.bind_eq_bind, Option.bind_some, if_true]
    exact moved

theorem glyph_spec (byte : Byte) :
    ∃ place, glyph byte = some place ∧ place ≤ 0xFFF ∧
      place.address = Font.glyph (Numeral.lastDigit byte.toNat) := by
  generalize hd : (byte &&& 0xF).toUInt16 = digit
  have value : digit.toNat = byte.toNat % 16 := by
    rw [← hd, UInt8.toNat_toUInt16, UInt8.toNat_and]
    exact Nat.and_two_pow_sub_one_eq_mod byte.toNat 4
  have five : (5 : Word).toNat = 5 := rfl
  have base : (0x050 : Word).toNat = 0x050 := rfl
  have offset : (digit * 5).toNat = digit.toNat * 5 := by
    rw [UInt16.toNat_mul, five]
    omega
  have place : (0x050 + digit * 5).toNat = 0x050 + digit.toNat * 5 := by
    rw [UInt16.toNat_add]
    omega
  refine ⟨0x050 + digit * 5, ?_, UInt16.le_iff_toNat_le.2 ?_, Fin.ext ?_⟩
  · unfold glyph
    rw [hd, product_of_lt (by rw [five]; omega)]
    exact sum_of_lt (by omega)
  · have : (0xFFF : Word).toNat = 0xFFF := rfl
    omega
  · rw [val_address, place, value]
    rfl

theorem loadGlyph_spec {b : Bare} (inside : b.InRange) (byte : Byte) :
    Shows (b.loadGlyph byte) (b.view.setIndex (Font.glyph (Numeral.lastDigit byte.toNat))) := by
  obtain ⟨place, found, small, same⟩ := glyph_spec byte
  have moved := setIndex_spec inside place
  rw [mask_of_le small, same] at moved
  unfold loadGlyph
  rw [found]
  exact moved

theorem addIndex_spec {b : Bare} (inside : b.InRange) (byte : Byte) :
    Shows (b.addIndex byte) (b.view.setIndex (b.view.index.advance byte.toNat)) := by
  have small := byte.toNat_lt
  obtain ⟨next, summed, -, place⟩ := advance_spec inside byte.toUInt16
    (by rw [UInt8.toNat_toUInt16]; omega)
  have moved := setIndex_spec inside next
  rw [place, UInt8.toNat_toUInt16] at moved
  unfold addIndex
  rw [summed]
  exact moved

theorem jumpPast_spec {b : Bare} (inside : b.InRange) (w : Word) (byte : Byte) :
    Shows (b.jumpPast (mask w) byte) (b.view.setPc (w.address.advance byte.toNat)) := by
  have small := byte.toNat_lt
  have bound := mask_lt w
  have jumped := setPc_spec inside (mask w + byte.toUInt16)
  rw [address_add, address_mask, UInt8.toNat_toUInt16] at jumped
  unfold jumpPast
  rw [sum_of_lt (by rw [UInt8.toNat_toUInt16]; omega)]
  exact jumped

theorem sprite_spec (m : Memory) (a : Word) (height : Nat) :
    ((List.range height).mapM fun k => read m (a + UInt16.ofNat k)) =
      some (m.readAll a.address height) := by
  simp only [read_spec, address_add_ofNat]
  exact List.mapM_pure

theorem drawSprite_spec {b : Bare} (inside : b.InRange) (x y : Register) (height : Fin 16) :
    Shows (b.drawSprite x y height)
      { b.view with toProcessor := b.view.toProcessor.drawSprite x y height } := by
  have wide := (b.rest.v.get x).toNat_lt
  have high := (b.rest.v.get y).toNat_lt
  have rows : (b.rest.memory.readAll b.index.address height.val).length < 16 := by
    simp [Memory.readAll]
  unfold drawSprite
  simp only [sprite_spec, Option.bind_eq_bind, Option.bind_some]
  rw [drawRows_spec _ _ _ (by omega) (by omega)]
  exact .of_inRange (inside.onto _) rfl

theorem carryOut_spec {b : Bare} (inside : b.InRange) {w : Word} {i : Instruction}
    (decoded : Instruction.decode? w = some i) :
    Shows (b.carryOut w i) (b.view.carryOut i) := by
  have encoded := Instruction.encode_of_decode? decoded
  cases i with
  | ret =>
    obtain ⟨top, left, popped, inside', rfl, shown⟩ := pop_spec inside
    have returned := setPc_spec inside' b.view.stack.top
    simp only [carryOut, popped, Option.bind_eq_bind, Option.bind_some]
    rw [shown] at returned
    exact returned
  | jump target =>
    have jumped := setPc_spec inside w
    rw [address_of_encode (by decide) encoded] at jumped
    exact jumped
  | call target =>
    refine (push_spec inside inside.pc).bind ?_
    intro pushed inside' shown
    have jumped := setPc_spec inside' w
    rw [address_of_encode (by decide) encoded, shown, ← inside.toWord_pc] at jumped
    exact jumped
  | skipIfByte x byte => exact skipIf_spec inside _
  | skipUnlessByte x byte => exact skipIf_spec inside _
  | skipIfSame x y => exact skipIf_spec inside _
  | skipUnlessSame x y => exact skipIf_spec inside _
  | skipIfKey x => exact skipIf_spec inside _
  | skipUnlessKey x => exact skipIf_spec inside _
  | loadIndex target =>
    have loaded := setIndex_spec inside w
    rw [address_of_encode (by decide) encoded] at loaded
    exact loaded
  | jumpPast target =>
    have jumped := jumpPast_spec inside w (b.rest.v.get .first)
    rw [address_of_encode (by decide) encoded] at jumped
    exact jumped
  | draw x y height => exact drawSprite_spec inside x y height
  | addIndex x => exact addIndex_spec inside (b.rest.v.get x)
  | loadGlyph x => exact loadGlyph_spec inside (b.rest.v.get x)
  | storeDecimal x =>
    simp only [carryOut, writeAll_spec, Option.bind_eq_bind, Option.bind_some]
    exact .of_inRange (inside.onto _) rfl
  | storeUpTo x =>
    simp only [carryOut, storeAll_upTo, Option.bind_eq_bind, Option.bind_some]
    exact passTransfer_spec (inside.onto _) x
  | loadUpTo x =>
    simp only [carryOut, loadAll_spec, Option.bind_eq_bind, Option.bind_some]
    exact passTransfer_spec (inside.onto _) x
  | awaitKey x => exact .of_inRange (inside.onto _) (awaitKey_onto b b.rest x).symm
  | system _ | clearScreen | load _ _ | addByte _ _ | combine _ _ _ | random _ _ | readDelay _
  | setDelay _ | setSound _ => exact .of_inRange (inside.onto _) rfl

/-! ## Steps -/

def service (b : Bare) : Bare :=
  { b with rest := b.rest.service }

def fetch (b : Bare) : Option (Word × Bare) := do
  let w ← readWord b.rest.memory b.pc
  some (w, b.passWord)

def perform (b : Bare) : Option Bare := do
  let (w, passed) ← b.fetch
  let fetched := passed.report [.executing b.pc.address w]
  match Instruction.decode? w with
  | some i => fetched.carryOut w i
  | none => some { fetched with rest := fetched.rest.recordFault ⟨w, b.pc.address⟩ }

def step (b : Bare) : Option Bare := do
  let done ← b.perform
  some done.service

def steps : Nat → Bare → Option Bare
  | 0, b => some b
  | n + 1, b => if b.rest.fault.isSome then some b else do steps n (← b.step)

def runFor : Nat → Bare → Option Bare
  | 0, b => some b
  | bound + 1, b =>
    if b.rest.fault.isSome then some b
    else
      let observed := { b with rest := b.rest.observeClose }
      if observed.rest.closing then some observed else do runFor bound (← observed.step)

/-! ## Steps are safe -/

theorem service_spec {b : Bare} (inside : b.InRange) : Shows (some b.service) b.view.service :=
  .of_inRange (inside.onto _) (service_onto b b.rest).symm

theorem fetch_spec (b : Bare) : b.fetch = some (b.view.nextWord, b.passWord) := by
  unfold fetch
  rw [readWord_spec]
  rfl

theorem perform_spec {b : Bare} (inside : b.InRange) : Shows b.perform b.view.perform := by
  let fetched := b.passWord.report [.executing b.pc.address b.view.nextWord]
  have inside' : fetched.InRange := (inside.withPc _).onto _
  have shown : fetched.view = b.view.fetched :=
    congrArg (Machine.report · [.executing b.pc.address b.view.nextWord]) b.view_passWord
  unfold perform Machine.perform
  rw [fetch_spec]
  simp only [Option.bind_eq_bind, Option.bind_some]
  cases decoded : Instruction.decode? b.view.nextWord with
  | some i =>
    have done := carryOut_spec inside' decoded
    rw [shown] at done
    exact done
  | none =>
    refine .of_inRange (inside'.onto _) ?_
    exact congrArg (Machine.recordFault · ⟨b.view.nextWord, b.pc.address⟩) shown

theorem step_spec {b : Bare} (inside : b.InRange) : Shows b.step b.view.step := by
  refine (perform_spec inside).bind ?_
  intro done inside' shown
  have serviced := service_spec inside'
  rw [shown] at serviced
  exact serviced

theorem steps_spec (n : Nat) {b : Bare} (inside : b.InRange) :
    Shows (b.steps n) (Machine.steps n b.view) := by
  induction n generalizing b with
  | zero => exact .of_inRange inside rfl
  | succ n ih =>
    unfold steps Machine.steps
    show Shows _ (if b.rest.fault.isSome then _ else _)
    split
    · exact .of_inRange inside rfl
    · refine (step_spec inside).bind ?_
      intro b' inside' shown
      rw [← shown]
      exact ih inside'

theorem runFor_spec (bound : Nat) {b : Bare} (inside : b.InRange) :
    Shows (b.runFor bound) (Machine.runFor bound b.view).2 := by
  induction bound generalizing b with
  | zero => exact .of_inRange inside rfl
  | succ bound ih =>
    unfold runFor Machine.runFor
    have same : b.view.fault = b.rest.fault := rfl
    rw [same]
    cases b.rest.fault with
    | some f => exact .of_inRange inside rfl
    | none =>
      have inside' : InRange { b with rest := b.rest.observeClose } := inside.onto _
      have closing : b.view.observeClose.closing = b.rest.observeClose.closing := rfl
      simp only [closing]
      cases b.rest.observeClose.closing with
      | true => exact .of_inRange inside' rfl
      | false =>
        refine (step_spec inside').bind ?_
        intro b' inside'' shown
        have later := ih inside''
        rw [shown] at later
        exact later

end Chip8.Checked.Bare
