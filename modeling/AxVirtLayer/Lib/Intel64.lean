import Mathlib.Data.BitVec
import Mathlib.Logic.Function.Basic

/-!
# Decoding Intel 64 instructions

The decoder of 64-bit mode for the two-operand instructions `ADD`, `OR`, `AND`, `SUB` and
`MOV` with a ModRM byte: the operand size prefix `66H` and the address size prefix `67H`,
the REX prefix, the opcode, the ModRM and SIB bytes and the displacement; and the effect
of the instructions between registers.
-/

namespace AxVirtLayer.Lib.Intel64

/-- A byte of an instruction. -/
abbrev Byte := BitVec 8

/-! ## Instructions -/

/-- The operations. -/
inductive Op
  | add
  | or
  | and
  | sub
  | mov
deriving DecidableEq, Repr

/-- The operand sizes. -/
inductive Size
  | b8
  | b16
  | b32
  | b64
deriving DecidableEq, Repr

/-- The bits of an operand of a size. -/
def Size.bits : Size → ℕ
  | b8 => 8
  | b16 => 16
  | b32 => 32
  | b64 => 64

/-- A register operand: the low part of a register, or one of `AH`, `CH`, `DH`, `BH`. -/
inductive Reg
  | low (n : ℕ)
  | high (n : ℕ)
deriving DecidableEq, Repr

/-- The number of the register an operand is a part of. -/
def Reg.num : Reg → ℕ
  | low n => n
  | high n => n

/-- The base of an address. -/
inductive Base
  | none
  | reg (n : ℕ)
  | rip
deriving DecidableEq, Repr

/-- A memory operand; the index comes with the binary logarithm of its scale. -/
structure Mem where
  addr32 : Bool
  base : Base
  index : Option (ℕ × ℕ)
  disp : BitVec 64
deriving DecidableEq, Repr

/-- The operand the ModRM byte names by its mode. -/
inductive RM
  | reg (r : Reg)
  | mem (m : Mem)
deriving DecidableEq, Repr

/-- An instruction; `toReg` says that the register operand is the destination. -/
structure Insn where
  op : Op
  size : Size
  toReg : Bool
  reg : Reg
  rm : RM
deriving DecidableEq, Repr

/-! ## Decoding -/

/-- The legacy prefixes seen. -/
structure Prefixes where
  opSize : Bool
  addrSize : Bool
deriving DecidableEq, Repr

/-- The legacy prefixes at the front. -/
def takeLegacy (p : Prefixes) : List Byte → Prefixes × List Byte
  | [] => (p, [])
  | b :: bs =>
    if b = 0x66#8 then takeLegacy { p with opSize := true } bs
    else if b = 0x67#8 then takeLegacy { p with addrSize := true } bs
    else (p, b :: bs)

/-- The bits of a REX prefix. -/
structure Rex where
  w : Bool
  r : Bool
  x : Bool
  b : Bool
deriving DecidableEq, Repr

/-- The byte is a REX prefix. -/
def isRex (b : Byte) : Bool := decide (b >>> 4 = 4#8)

/-- The bits of a REX prefix byte. -/
def rexOf (b : Byte) : Rex := ⟨b.getLsbD 3, b.getLsbD 2, b.getLsbD 1, b.getLsbD 0⟩

/-- The REX prefix at the front. -/
def takeRex : List Byte → Option Rex × List Byte
  | [] => (none, [])
  | b :: bs => if isRex b then (some (rexOf b), bs) else (none, b :: bs)

/-- An opcode byte: operation, direction, and whether the operands are wider than a byte. -/
structure Row where
  op : Op
  toReg : Bool
  wide : Bool
deriving DecidableEq, Repr

/-- The operation of an opcode byte, by its upper six bits. -/
def opOf (b : Byte) : Option Op :=
  if b &&& 0xfc#8 = 0x00#8 then some .add
  else if b &&& 0xfc#8 = 0x08#8 then some .or
  else if b &&& 0xfc#8 = 0x20#8 then some .and
  else if b &&& 0xfc#8 = 0x28#8 then some .sub
  else if b &&& 0xfc#8 = 0x88#8 then some .mov
  else none

/-- The row of an opcode byte. -/
def rowOf (b : Byte) : Option Row := (opOf b).map fun op => ⟨op, b.getLsbD 1, b.getLsbD 0⟩

/-- The operand size: `REX.W` goes before the operand size prefix. -/
def sizeOf (p : Prefixes) (rex : Option Rex) (row : Row) : Size :=
  if !row.wide then .b8
  else if (rex.map Rex.w).getD false then .b64
  else if p.opSize then .b16
  else .b32

/-- The register with a number: without a REX prefix the byte registers 4 to 7 are the
second bytes of the registers 0 to 3. -/
def regOf (size : Size) (rex : Option Rex) (n : ℕ) : Reg :=
  if size = .b8 ∧ rex = none ∧ 4 ≤ n then .high (n - 4) else .low n

/-- A three-bit field with its extension bit. -/
def extend (ext : Bool) (n : ℕ) : ℕ := if ext then n + 8 else n

/-- The field `mod`, `scale` of a ModRM or SIB byte. -/
def topField (b : Byte) : ℕ := (b >>> 6).toNat

/-- The field `reg`, `index` of a ModRM or SIB byte. -/
def midField (b : Byte) : ℕ := ((b >>> 3) &&& 7#8).toNat

/-- The field `rm`, `base` of a ModRM or SIB byte. -/
def lowField (b : Byte) : ℕ := (b &&& 7#8).toNat

/-- A sign extended displacement of one byte. -/
def takeDisp8 : List Byte → Option (BitVec 64 × List Byte)
  | b :: bs => some (b.signExtend 64, bs)
  | [] => none

/-- A sign extended little endian displacement of four bytes. -/
def takeDisp32 : List Byte → Option (BitVec 64 × List Byte)
  | b₀ :: b₁ :: b₂ :: b₃ :: bs => some ((b₃ ++ b₂ ++ b₁ ++ b₀).signExtend 64, bs)
  | _ => none

/-- The displacement a mode asks for. -/
def takeDisp (mod : ℕ) (bs : List Byte) : Option (BitVec 64 × List Byte) :=
  if mod = 1 then takeDisp8 bs
  else if mod = 2 then takeDisp32 bs
  else some (0, bs)

/-- A memory operand with a SIB byte. -/
def takeSib (addr32 : Bool) (rex : Rex) (mod : ℕ) : List Byte → Option (Mem × List Byte)
  | [] => none
  | s :: bs =>
    let idx := extend rex.x (midField s)
    let index := if idx = 4 then none else some (idx, topField s)
    if lowField s = 5 ∧ mod = 0 then
      (takeDisp32 bs).map fun (disp, rest) => (⟨addr32, .none, index, disp⟩, rest)
    else
      (takeDisp mod bs).map fun (disp, rest) =>
        (⟨addr32, .reg (extend rex.b (lowField s)), index, disp⟩, rest)

/-- A memory operand, after the ModRM byte `m`. -/
def takeMem (addr32 : Bool) (rex : Rex) (m : Byte) (bs : List Byte) :
    Option (Mem × List Byte) :=
  if lowField m = 4 then takeSib addr32 rex (topField m) bs
  else if lowField m = 5 ∧ topField m = 0 then
    (takeDisp32 bs).map fun (disp, rest) => (⟨addr32, .rip, none, disp⟩, rest)
  else
    (takeDisp (topField m) bs).map fun (disp, rest) =>
      (⟨addr32, .reg (extend rex.b (lowField m)), none, disp⟩, rest)

/-- The operand the ModRM byte `m` names by its mode. -/
def takeRM (size : Size) (addr32 : Bool) (rex : Option Rex) (m : Byte) (bs : List Byte) :
    Option (RM × List Byte) :=
  let bits := rex.getD ⟨false, false, false, false⟩
  if topField m = 3 then some (.reg (regOf size rex (extend bits.b (lowField m))), bs)
  else (takeMem addr32 bits m bs).map fun (mem, rest) => (.mem mem, rest)

/-- The part of an instruction after its opcode. -/
def takeOperands (p : Prefixes) (rex : Option Rex) (row : Row) :
    List Byte → Option (Insn × List Byte)
  | [] => none
  | m :: bs =>
    let size := sizeOf p rex row
    let bits := rex.getD ⟨false, false, false, false⟩
    (takeRM size p.addrSize rex m bs).map fun (rm, rest) =>
      (⟨row.op, size, row.toReg, regOf size rex (extend bits.r (midField m)), rm⟩, rest)

/-- The instruction at the front and the bytes after it. -/
def decode (bs : List Byte) : Option (Insn × List Byte) :=
  let (p, bs) := takeLegacy ⟨false, false⟩ bs
  let (rex, bs) := takeRex bs
  match bs with
  | [] => none
  | b :: bs => (rowOf b).bind fun row => takeOperands p rex row bs

/-- The instructions of a sequence of bytes, at most `fuel` of them. -/
def decodeAllFuel : ℕ → List Byte → Option (List Insn)
  | _, [] => some []
  | 0, _ :: _ => none
  | fuel + 1, b :: bs =>
    (decode (b :: bs)).bind fun (insn, rest) => (decodeAllFuel fuel rest).map (insn :: ·)

/-- The instructions of a sequence of bytes. -/
def decodeAll (bs : List Byte) : Option (List Insn) := decodeAllFuel bs.length bs

/-! ## Decoding what an encoder writes -/

/-- A byte that an encoder leaves out when it is zero. -/
def nz (b : Byte) : List Byte := if b = 0#8 then [] else [b]

@[simp] lemma nz_zero : nz 0#8 = [] := rfl

lemma nz_of_ne {b : Byte} (h : b ≠ 0#8) : nz b = [b] := if_neg h

/-- An opcode byte is neither a prefix nor a REX prefix. -/
lemma rowOf_some {b : Byte} {row : Row} (h : rowOf b = some row) :
    b ≠ 0x66#8 ∧ b ≠ 0x67#8 ∧ isRex b = false := by
  have hall : ∀ b : Byte, (rowOf b).isSome = true → b ≠ 0x66#8 ∧ b ≠ 0x67#8 ∧ isRex b = false := by
    decide +kernel
  exact hall b (by simp [h])

/-- A REX prefix is not a legacy prefix. -/
lemma ne_of_isRex {b : Byte} (h : isRex b = true) : b ≠ 0x66#8 ∧ b ≠ 0x67#8 ∧ b ≠ 0#8 := by
  revert b
  decide +kernel

/-- Decoding an opcode after at most one legacy prefix and at most one REX prefix. -/
lemma decode_nz {leg rex b : Byte} {row : Row} (hleg : leg = 0#8 ∨ leg = 0x66#8 ∨ leg = 0x67#8)
    (hrex : rex = 0#8 ∨ isRex rex = true) (hrow : rowOf b = some row) (tail : List Byte) :
    decode (nz leg ++ (nz rex ++ b :: tail)) =
      takeOperands ⟨decide (leg = 0x66#8), decide (leg = 0x67#8)⟩
        (if rex = 0#8 then none else some (rexOf rex)) row tail := by
  obtain ⟨h66, h67, hnot⟩ := rowOf_some hrow
  have hafter : ∀ p, takeLegacy p (nz rex ++ b :: tail) = (p, nz rex ++ b :: tail) := by
    intro p
    rcases hrex with rfl | hrex
    · rw [nz_zero, List.nil_append, takeLegacy, if_neg h66, if_neg h67]
    · obtain ⟨hr66, hr67, hr0⟩ := ne_of_isRex hrex
      rw [nz_of_ne hr0, List.singleton_append, takeLegacy, if_neg hr66, if_neg hr67]
  have hfront : takeLegacy ⟨false, false⟩ (nz leg ++ (nz rex ++ b :: tail)) =
      (⟨decide (leg = 0x66#8), decide (leg = 0x67#8)⟩, nz rex ++ b :: tail) := by
    rcases hleg with rfl | rfl | rfl
    · exact hafter _
    · exact hafter _
    · exact hafter _
  have hr : takeRex (nz rex ++ b :: tail) =
      (if rex = 0#8 then none else some (rexOf rex), b :: tail) := by
    rcases hrex with rfl | hrex
    · rw [nz_zero, List.nil_append, takeRex, if_neg (by simp [hnot]), if_pos rfl]
    · obtain ⟨-, -, hr0⟩ := ne_of_isRex hrex
      rw [nz_of_ne hr0, List.singleton_append, takeRex, if_pos hrex, if_neg hr0]
  rw [decode, hfront]
  simp only [hr, hrow, Option.bind_some]

/-- A REX prefix byte with given bits. -/
def rexByte (rex : Rex) : Byte :=
  0x40#8 ||| (BitVec.ofBool rex.w).setWidth 8 <<< 3 ||| (BitVec.ofBool rex.r).setWidth 8 <<< 2 |||
    (BitVec.ofBool rex.x).setWidth 8 <<< 1 ||| (BitVec.ofBool rex.b).setWidth 8

/-- A ModRM or SIB byte with given fields. -/
def fieldsByte (top mid low : ℕ) : Byte :=
  BitVec.ofNat 8 (64 * top + 8 * mid + low)

lemma fields_fieldsByte {top mid low : ℕ} (ht : top < 4) (hm : mid < 8) (hl : low < 8) :
    topField (fieldsByte top mid low) = top ∧ midField (fieldsByte top mid low) = mid ∧
      lowField (fieldsByte top mid low) = low := by
  have hall : ∀ top < 4, ∀ mid < 8, ∀ low < 8,
      topField (fieldsByte top mid low) = top ∧ midField (fieldsByte top mid low) = mid ∧
        lowField (fieldsByte top mid low) = low := by
    decide +kernel
  exact hall top ht mid hm low hl

lemma fieldsByte_eq_zero {top mid low : ℕ} (ht : top < 4) (hm : mid < 8) (hl : low < 8) :
    fieldsByte top mid low = 0#8 ↔ top = 0 ∧ mid = 0 ∧ low = 0 := by
  constructor
  · intro h
    obtain ⟨h₁, h₂, h₃⟩ := fields_fieldsByte ht hm hl
    rw [h] at h₁ h₂ h₃
    exact ⟨h₁.symm, h₂.symm, h₃.symm⟩
  · rintro ⟨rfl, rfl, rfl⟩
    rfl

/-- Chunks of bytes that each decode to one instruction decode to the list of them. -/
lemma decodeAll_flatMap {ι : Type} {enc : ι → List Byte} {insn : ι → Insn} {is : List ι}
    (h : ∀ i ∈ is, ∀ tail, decode (enc i ++ tail) = some (insn i, tail)) :
    decodeAll (is.flatMap enc) = some (is.map insn) := by
  have hne : ∀ i ∈ is, enc i ≠ [] := by
    intro i hi hnil
    have hdecode := h i hi []
    rw [hnil] at hdecode
    cases hdecode
  have hfuel : ∀ fuel, is.length ≤ fuel →
      decodeAllFuel fuel (is.flatMap enc) = some (is.map insn) := by
    induction is with
    | nil =>
      intro fuel _
      cases fuel <;> rfl
    | cons i is ih =>
      intro fuel hlen
      obtain ⟨fuel, rfl⟩ : ∃ k, fuel = k + 1 := ⟨fuel - 1, by simp at hlen; omega⟩
      have hhead := h i List.mem_cons_self (is.flatMap enc)
      have htail := ih (fun j hj => h j (List.mem_cons_of_mem _ hj))
        (fun j hj => hne j (List.mem_cons_of_mem _ hj)) fuel (by simpa using hlen)
      obtain ⟨b, bs, hcons⟩ := List.exists_cons_of_ne_nil (hne i List.mem_cons_self)
      rw [List.flatMap_cons, hcons, List.cons_append, decodeAllFuel, ← List.cons_append, ← hcons,
        hhead]
      simp [htail]
  refine hfuel _ ?_
  clear hfuel h
  induction is with
  | nil => exact Nat.zero_le _
  | cons i is ih =>
    have hpos := List.length_pos_iff.2 (hne i List.mem_cons_self)
    have hrest := ih fun j hj => hne j (List.mem_cons_of_mem _ hj)
    rw [List.flatMap_cons, List.length_append, List.length_cons]
    omega

/-! ## Execution -/

/-- A file of 64-bit registers. -/
abbrev RegFile := ℕ → BitVec 64

/-- The value of a register operand. -/
def readReg (ρ : RegFile) (size : Size) : Reg → BitVec size.bits
  | .low n => (ρ n).setWidth size.bits
  | .high n => (ρ n >>> 8).setWidth size.bits

/-- A register after a write to its low part: 32-bit values are zero extended, shorter ones
leave the rest of the register alone. -/
def mergeLow (size : Size) (old : BitVec 64) (v : BitVec size.bits) : BitVec 64 :=
  match size with
  | .b8 => (old &&& ~~~0xff#64) ||| v.setWidth 64
  | .b16 => (old &&& ~~~0xffff#64) ||| v.setWidth 64
  | .b32 => v.setWidth 64
  | .b64 => v.setWidth 64

/-- A write to a register operand. -/
def writeReg (ρ : RegFile) (size : Size) (v : BitVec size.bits) : Reg → RegFile
  | .low n => Function.update ρ n (mergeLow size (ρ n) v)
  | .high n => Function.update ρ n ((ρ n &&& ~~~0xff00#64) ||| ((v.setWidth 8).setWidth 64 <<< 8))

/-- The value an operation computes from destination and source. -/
def Op.eval {n : ℕ} (a b : BitVec n) : Op → BitVec n
  | .add => a + b
  | .or => a ||| b
  | .and => a &&& b
  | .sub => a - b
  | .mov => b

/-- An operation on two register operands. -/
def execReg (ρ : RegFile) (op : Op) (size : Size) (dest src : Reg) : RegFile :=
  writeReg ρ size (op.eval (readReg ρ size dest) (readReg ρ size src)) dest

/-- The effect of an instruction between registers, the flags aside. -/
def exec (ρ : RegFile) (insn : Insn) : Option RegFile :=
  match insn.rm with
  | .reg rm => some (if insn.toReg then execReg ρ insn.op insn.size insn.reg rm
      else execReg ρ insn.op insn.size rm insn.reg)
  | .mem _ => none

/-- The effect of a list of instructions, in order. -/
def execAll (ρ : RegFile) (insns : List Insn) : Option RegFile := insns.foldlM exec ρ

/-- The operations commute with truncation. -/
lemma Op.eval_setWidth {n w : ℕ} (h : w ≤ n) (a b : BitVec n) (op : Op) :
    (op.eval a b).setWidth w = op.eval (a.setWidth w) (b.setWidth w) := by
  cases op
  · exact BitVec.setWidth_add a b h
  · exact BitVec.setWidth_or
  · exact BitVec.setWidth_and
  · show (a - b).setWidth w = a.setWidth w - b.setWidth w
    rw [BitVec.sub_eq_add_neg, BitVec.sub_eq_add_neg, BitVec.setWidth_add _ _ h,
      BitVec.setWidth_neg_of_le h]
  · rfl

/-- The low byte of a register after a write of a byte. -/
lemma mergeLow_b8_setWidth (old : BitVec 64) (v : BitVec 8) :
    (mergeLow .b8 old v).setWidth 8 = v := by
  have hold : (old &&& ~~~0xff#64).setWidth 8 = 0#8 := by
    rw [BitVec.setWidth_and, show (~~~0xff#64).setWidth 8 = 0#8 by decide, BitVec.and_zero]
  show ((old &&& ~~~0xff#64) ||| v.setWidth 64).setWidth 8 = v
  rw [BitVec.setWidth_or, hold, BitVec.zero_or, BitVec.setWidth_setWidth_of_le _ (by decide),
    BitVec.setWidth_eq]

/-- A write leaves the other registers alone. -/
lemma writeReg_of_ne (ρ : RegFile) (size : Size) (v : BitVec size.bits) {reg : Reg} {r : ℕ}
    (h : reg.num ≠ r) : writeReg ρ size v reg r = ρ r := by
  cases reg
  · exact Function.update_of_ne (Ne.symm h) _ _
  · exact Function.update_of_ne (Ne.symm h) _ _

/-- A register put together from its low byte and the rest. -/
lemma or_low_byte (x : BitVec 64) : (x &&& ~~~0xff#64) ||| (x.setWidth 8).setWidth 64 = x := by
  have hmask : ∀ i < 64, (~~~0xff#64).getLsbD i = decide (8 ≤ i) := by decide
  refine BitVec.eq_of_getLsbD_eq fun i hi => ?_
  rw [BitVec.getLsbD_or, BitVec.getLsbD_and, hmask i hi, BitVec.getLsbD_setWidth,
    BitVec.getLsbD_setWidth]
  by_cases h : i < 8
  · simp [h, hi]
  · simp [h, Nat.not_lt.1 h]

/-- A register put together from its second byte and the rest. -/
lemma or_high_byte (x : BitVec 64) : (x &&& ~~~0xff00#64) |||
    ((((x >>> 8).setWidth 8).setWidth 8).setWidth 64 <<< 8) = x := by
  have hmask : ∀ i < 64, (~~~0xff00#64).getLsbD i = decide (i < 8 ∨ 16 ≤ i) := by decide
  refine BitVec.eq_of_getLsbD_eq fun i hi => ?_
  rw [BitVec.getLsbD_or, BitVec.getLsbD_and, hmask i hi, BitVec.getLsbD_shiftLeft,
    BitVec.getLsbD_setWidth, BitVec.setWidth_eq, BitVec.getLsbD_setWidth,
    BitVec.getLsbD_ushiftRight]
  by_cases h : 8 ≤ i ∧ i < 16
  · have hsub : 8 + (i - 8) = i := by omega
    have hlt : i - 8 < 8 := by omega
    simp [Nat.not_lt.2 h.1, Nat.not_le.2 h.2, hsub, hlt, hi]
    omega
  · have hout : ¬ i - 8 < 8 ∨ i < 8 := by omega
    have hmem : i < 8 ∨ 16 ≤ i := by omega
    rcases hout with hout | hout
    · simp [hmem, hout]
    · simp [hout]

/-- Writing back the byte of a register changes nothing. -/
lemma writeReg_readReg_b8 (ρ : RegFile) (reg : Reg) :
    writeReg ρ .b8 (readReg ρ .b8 reg) reg = ρ := by
  cases reg with
  | low n =>
    exact (congrArg (Function.update ρ n) (or_low_byte (ρ n))).trans (Function.update_eq_self n ρ)
  | high n =>
    exact (congrArg (Function.update ρ n) (or_high_byte (ρ n))).trans (Function.update_eq_self n ρ)

end AxVirtLayer.Lib.Intel64
