import Chip8.Processor.Execution

/-!
# Checked words and memory

Here an address is a word of sixteen bits, cut down to twelve where memory is touched. A sum that its
type cannot hold and an index outside its array give nothing at all. Each function comes with the
one of the machine that it agrees with.
-/

namespace Chip8.Checked

/-! ## Words -/

def mask (w : Word) : Word :=
  w &&& 0x0FFF

def sum (a b : Word) : Option Word :=
  if a.toNat + b.toNat < 65536 then some (a + b) else none

def product (a b : Word) : Option Word :=
  if a.toNat * b.toNat < 65536 then some (a * b) else none

theorem toNat_mask (w : Word) : (mask w).toNat = w.toNat % 4096 := by
  unfold mask
  rw [UInt16.toNat_and]
  exact Nat.and_two_pow_sub_one_eq_mod w.toNat 12

theorem mask_lt (w : Word) : (mask w).toNat < 4096 := by
  rw [toNat_mask]
  exact Nat.mod_lt _ (by decide)

theorem mask_le (w : Word) : mask w ≤ 0xFFF :=
  UInt16.le_iff_toNat_le.2 (Nat.le_of_lt_succ (mask_lt w))

theorem mask_of_le {w : Word} (small : w ≤ 0xFFF) : mask w = w := by
  have bound : w.toNat ≤ 4095 := UInt16.le_iff_toNat_le.1 small
  apply UInt16.toNat.inj
  rw [toNat_mask]
  omega

@[simp] theorem val_address (w : Word) : w.address.val = w.toNat % 4096 := rfl

@[simp] theorem address_mask (w : Word) : (mask w).address = w.address := by
  apply Fin.ext
  simp [toNat_mask]

theorem toWord_address (w : Word) : w.address.toWord = mask w := by
  apply UInt16.toNat.inj
  rw [Address.toNat_toWord, val_address, toNat_mask]

/-- A sum that wraps at sixteen bits wraps at twelve as well. -/
theorem address_add (w k : Word) : (w + k).address = w.address.advance k.toNat := by
  apply Fin.ext
  simp only [val_address, UInt16.toNat_add, Address.val_advance]
  omega

theorem address_add_ofNat (w : Word) (k : Nat) :
    (w + UInt16.ofNat k).address = w.address.advance k := by
  apply Fin.ext
  simp only [address_add, Address.val_advance, UInt16.toNat_ofNat']
  omega

theorem sum_of_lt {a b : Word} (fits : a.toNat + b.toNat < 65536) : sum a b = some (a + b) :=
  if_pos fits

theorem product_of_lt {a b : Word} (fits : a.toNat * b.toNat < 65536) :
    product a b = some (a * b) :=
  if_pos fits

/-! ## Bytes -/

def read (m : Memory) (a : Word) : Option Byte :=
  m.bytes[(mask a).toNat]?

def writeAt (m : Memory) (i : Nat) (b : Byte) : Option Memory :=
  if h : i < 4096 then some ⟨m.bytes.set i b⟩ else none

def write (m : Memory) (a : Word) (b : Byte) : Option Memory :=
  writeAt m (mask a).toNat b

def writeAll (m : Memory) (a : Word) : List Byte → Option Memory
  | [] => some m
  | b :: rest => do writeAll (← write m a b) (a + 1) rest

/-- Copies bytes to an index on, which is not cut down. -/
def copyTo (m : Memory) (i : Nat) : List Byte → Option Memory
  | [] => some m
  | b :: rest => do copyTo (← writeAt m i b) (i + 1) rest

theorem read_spec (m : Memory) (a : Word) : read m a = some (m.read a.address) := by
  unfold read Memory.read
  simp only [toNat_mask]
  exact Vector.getElem?_eq_getElem _

theorem writeAt_spec (m : Memory) {i : Nat} (h : i < 4096) (b : Byte) :
    writeAt m i b = some (m.write (Address.ofNat i) b) := by
  unfold writeAt Memory.write
  rw [dif_pos h]
  simp [Nat.mod_eq_of_lt h]

theorem write_spec (m : Memory) (a : Word) (b : Byte) :
    write m a b = some (m.write a.address b) := by
  unfold write
  rw [writeAt_spec m (mask_lt a) b, toNat_mask]
  congr 2
  apply Fin.ext
  simp

theorem writeAll_spec (m : Memory) (a : Word) (bytes : List Byte) :
    writeAll m a bytes = some (m.writeAll a.address bytes) := by
  induction bytes generalizing m a with
  | nil => rfl
  | cons b rest ih =>
    simp only [writeAll, write_spec, Option.bind_eq_bind, Option.bind_some, ih, address_add]
    rfl

theorem copyTo_spec (m : Memory) (i : Nat) (bytes : List Byte) (room : i + bytes.length ≤ 4096) :
    copyTo m i bytes = some (m.writeAll (Address.ofNat i) bytes) := by
  induction bytes generalizing m i with
  | nil => rfl
  | cons b rest ih =>
    simp only [List.length_cons] at room
    have next : (Address.ofNat i).advance 1 = Address.ofNat (i + 1) := by
      apply Fin.ext
      simp
    simp only [copyTo, writeAt_spec m (show i < 4096 by omega), Option.bind_eq_bind,
      Option.bind_some]
    rw [ih _ (i + 1) (by omega), Memory.writeAll, next]

/-! ## Words in memory -/

def readWord (m : Memory) (a : Word) : Option Word := do
  let high ← read m a
  let low ← read m (a + 1)
  some (Word.ofBytes high low)

def writeWord (m : Memory) (a w : Word) : Option Memory := do
  write (← write m a w.high) (a + 1) w.low

def writeWords (m : Memory) (a : Word) : List Word → Option Memory
  | [] => some m
  | w :: rest => do writeWords (← writeWord m a w) (mask (a + 2)) rest

theorem readWord_spec (m : Memory) (a : Word) : readWord m a = some (m.readWord a.address) := by
  unfold readWord
  simp only [read_spec, address_add]
  rfl

theorem writeWord_spec (m : Memory) (a w : Word) :
    writeWord m a w = some (m.writeWord a.address w) := by
  unfold writeWord
  simp only [write_spec, address_add]
  rfl

theorem writeWords_spec (m : Memory) (a : Word) (words : List Word) :
    writeWords m a words =
      some (words.foldl (fun (m, a) w => (m.writeWord a w, a.advance 2)) (m, a.address)).1 := by
  induction words generalizing m a with
  | nil => rfl
  | cons w rest ih =>
    simp only [writeWords, writeWord_spec, Option.bind_eq_bind, Option.bind_some, ih, address_mask,
      address_add]
    rfl

/-! ## The store and the load of several registers -/

def storeAll (v : Registers) (a : Word) (m : Memory) (registers : List Register) : Option Memory :=
  registers.foldlM (fun m r => write m (a + UInt16.ofNat r.index.val) (v.get r)) m

def loadAll (m : Memory) (a : Word) (v : Registers) (registers : List Register) :
    Option Registers :=
  registers.foldlM (fun v r => do some (v.set r (← read m (a + UInt16.ofNat r.index.val)))) v

theorem storeAll_spec (v : Registers) (a : Word) (m : Memory) {n : Nat} (few : n ≤ 16) :
    storeAll v a m ((List.range n).map .ofNat) =
      some (m.writeAll a.address (((List.range n).map .ofNat).map v.get)) := by
  unfold storeAll
  induction n with
  | zero => rfl
  | succ n ih =>
    have place : (Register.ofNat n).index.val = n := by
      rw [Register.index_ofNat, Nat.mod_eq_of_lt (by omega)]
    rw [List.range_succ, List.map_append, List.map_append, List.foldlM_append, ih (by omega),
      Memory.writeAll_append]
    simp only [Option.bind_eq_bind, Option.bind_some, List.map_cons, List.map_nil,
      List.foldlM_cons, List.foldlM_nil, write_spec, address_add_ofNat, place, List.length_map,
      List.length_range]
    rfl

theorem storeAll_upTo (v : Registers) (a : Word) (m : Memory) (x : Register) :
    storeAll v a m x.upTo = some (m.writeAll a.address (x.upTo.map v.get)) :=
  storeAll_spec v a m (Nat.succ_le_of_lt x.index.isLt)

theorem loadAll_spec (m : Memory) (a : Word) (v : Registers) (x : Register) :
    loadAll m a v x.upTo = some (v.loadUpTo x m a.address) := by
  unfold loadAll Registers.loadUpTo
  simp only [read_spec, address_add_ofNat]
  exact List.foldlM_pure

end Chip8.Checked
