import Mathlib.Tactic.IntervalCases

/-!
# Register maps of the guest and of the host

The architectures (`mte/arch.h`), the register roles and register maps (`mte/cpu.h`),
and the two maps the translator is shipped with: the MIPS32 guest
(`mips32_cpu.c`) and the Intel 64 host (`i64_cpu.c`).

The `value` field of a register descriptor is a placeholder that every table sets to
zero and nothing reads; it is left out.
-/

namespace AxVirtLayer

/-- The architectures of `enum mte_arch`. -/
inductive MteArch
  | intel64
  | mips32
deriving DecidableEq, Repr

/-- `MTE_ISA_TWO_OP`: most instructions have the form `opcode r0, r1`. -/
def mteIsaTwoOp : BitVec 32 := 1

/-- `MTE_ISA_THREE_OP`: most instructions have the form `r0 = opcode r1, r2`. -/
def mteIsaThreeOp : BitVec 32 := 2

/-- The value of an architecture: its form in the top byte. -/
def MteArch.val : MteArch → BitVec 32
  | intel64 => (mteIsaTwoOp <<< 24) ||| 1
  | mips32 => (mteIsaThreeOp <<< 24) ||| 2

/-- `MTE_ARCH_ISA_FORM`. -/
def mteArchIsaForm (arch : MteArch) : BitVec 32 := (arch.val >>> 24) &&& 0xff

/-- `enum cpu_reg_role`. -/
inductive CpuRegRole
  | regReturn
  | regTemp
  | regPreserve
  | regStack
  | regStackPtr
  | regFramePtr
  | regMemPtr
deriving DecidableEq, Repr, Inhabited

/-- `struct cpu_reg_desc`. -/
structure CpuRegDesc where
  /-- Architecture specific register identifier. -/
  id : ℕ
  /-- The role of the register. -/
  role : CpuRegRole
deriving DecidableEq, Repr, Inhabited

/-- `struct cpu_reg_map`. -/
structure CpuRegMap where
  /-- Register count. -/
  regCount : ℕ
  /-- Max register width. -/
  regWidth : ℕ
  /-- Role to bitmap, four words of 64 bits for each role. -/
  roleMap : CpuRegRole → Fin 4 → BitVec 64
  /-- Register array. -/
  root : List CpuRegDesc

/-- The entry of the register array at an index. -/
def CpuRegMap.reg (m : CpuRegMap) (i : ℕ) : CpuRegDesc := m.root.getD i default

/-- A role bitmap that only uses its first word. -/
def lowWord (w : BitVec 64) : Fin 4 → BitVec 64
  | 0 => w
  | _ => 0

/-! ## The MIPS32 guest -/

/-- `_MIPS32_CPU_REG_ROLE_MAP`. -/
def mips32CpuRegRoleMap : CpuRegRole → Fin 4 → BitVec 64
  | .regPreserve => lowWord 0x0CFF0001
  | .regTemp => lowWord 0x0300FE02
  | .regReturn => lowWord 0x8000000C
  | .regStack => lowWord 0x000000F0
  | .regFramePtr => lowWord 0x10000000
  | .regStackPtr => lowWord 0x20000000
  | .regMemPtr => lowWord 0x40000000

/-- `_MIPS32_CPU_REG_MAP`. -/
def mips32CpuRegMap : CpuRegMap where
  regCount := 32
  regWidth := 32
  roleMap := mips32CpuRegRoleMap
  root :=
    [⟨0, .regPreserve⟩, ⟨1, .regTemp⟩, ⟨2, .regReturn⟩, ⟨3, .regReturn⟩,
     ⟨4, .regStack⟩, ⟨5, .regStack⟩, ⟨6, .regStack⟩, ⟨7, .regStack⟩,
     ⟨8, .regTemp⟩, ⟨9, .regTemp⟩, ⟨10, .regTemp⟩, ⟨11, .regTemp⟩,
     ⟨12, .regTemp⟩, ⟨13, .regTemp⟩, ⟨14, .regTemp⟩, ⟨15, .regTemp⟩,
     ⟨16, .regPreserve⟩, ⟨17, .regPreserve⟩, ⟨18, .regPreserve⟩, ⟨19, .regPreserve⟩,
     ⟨20, .regPreserve⟩, ⟨21, .regPreserve⟩, ⟨22, .regPreserve⟩, ⟨23, .regPreserve⟩,
     ⟨24, .regTemp⟩, ⟨25, .regTemp⟩, ⟨26, .regPreserve⟩, ⟨27, .regPreserve⟩,
     ⟨28, .regFramePtr⟩, ⟨29, .regStackPtr⟩, ⟨30, .regMemPtr⟩, ⟨31, .regReturn⟩]

/-! ## The Intel 64 host -/

/-- `_I64_CPU_REG_ROLE_MAP`.  The table has no entry for `REG_MEM_PTR`. -/
def i64CpuRegRoleMap : CpuRegRole → Fin 4 → BitVec 64
  | .regReturn => lowWord 0x0001
  | .regStack => lowWord 0x03C6
  | .regPreserve => lowWord 0xF008
  | .regStackPtr => lowWord 0x0010
  | .regFramePtr => lowWord 0x0020
  | .regTemp => lowWord 0x0C00
  | .regMemPtr => lowWord 0

/-- `_I64_CPU_REG_MAP`.  The ids are `I64_rAX & 0x1f` and so on: the number of the
register. -/
def i64CpuRegMap : CpuRegMap where
  regCount := 16
  regWidth := 64
  roleMap := i64CpuRegRoleMap
  root :=
    [⟨0, .regReturn⟩, ⟨1, .regStack⟩, ⟨2, .regStack⟩, ⟨3, .regPreserve⟩,
     ⟨4, .regStackPtr⟩, ⟨5, .regFramePtr⟩, ⟨6, .regStack⟩, ⟨7, .regStack⟩,
     ⟨8, .regStack⟩, ⟨9, .regStack⟩, ⟨10, .regTemp⟩, ⟨11, .regTemp⟩,
     ⟨12, .regPreserve⟩, ⟨13, .regPreserve⟩, ⟨14, .regPreserve⟩, ⟨15, .regPreserve⟩]

lemma mips32CpuRegMap_reg_id {i : ℕ} (hi : i < 32) : (mips32CpuRegMap.reg i).id = i := by
  interval_cases i <;> rfl

lemma i64CpuRegMap_reg_id {i : ℕ} (hi : i < 16) : (i64CpuRegMap.reg i).id = i := by
  interval_cases i <;> rfl

end AxVirtLayer
