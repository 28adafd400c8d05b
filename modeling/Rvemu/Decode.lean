/-
The decoder, `decode.c`.

`decodeInst` is the nested switch of `decode_inst`, cut at the cases of its outer
two levels: one function for each compressed quadrant and one for each opcode of
the fourth.  Each of them reads the operands with the reader of its format and
then picks the instruction type.

Every path builds a fresh record, with one exception that the model keeps: `ecall`
only sets two fields of the record it was given.
-/
import Rvemu.Types

namespace Rvemu

/-! ### Fields of a 32-bit word -/

def quadrant (data : BitVec 32) : BitVec 32 := (data >>> 0) &&& 0x3

def opcode (data : BitVec 32) : BitVec 32 := (data >>> 2) &&& 0x1f
def rd (data : BitVec 32) : BitVec 32 := (data >>> 7) &&& 0x1f
def rs1 (data : BitVec 32) : BitVec 32 := (data >>> 15) &&& 0x1f
def rs2 (data : BitVec 32) : BitVec 32 := (data >>> 20) &&& 0x1f
def rs3 (data : BitVec 32) : BitVec 32 := (data >>> 27) &&& 0x1f
def funct2 (data : BitVec 32) : BitVec 32 := (data >>> 25) &&& 0x3
def funct3 (data : BitVec 32) : BitVec 32 := (data >>> 12) &&& 0x7
def funct7 (data : BitVec 32) : BitVec 32 := (data >>> 25) &&& 0x7f
def imm116 (data : BitVec 32) : BitVec 32 := (data >>> 26) &&& 0x3f

/-- A register number, stored in one of the `int8_t` fields. -/
def regNo (x : BitVec 32) : RegNo := x.setWidth 5

/-! ### Readers of the 32-bit formats -/

def instUtypeRead (data : BitVec 32) : Inst :=
  { imm := data &&& 0xfffff000, rd := regNo (rd data) }

def instItypeRead (data : BitVec 32) : Inst :=
  { imm := data.sshiftRight 20, rs1 := regNo (rs1 data), rd := regNo (rd data) }

def instJtypeRead (data : BitVec 32) : Inst :=
  let imm20 := (data >>> 31) &&& 0x1
  let imm101 := (data >>> 21) &&& 0x3ff
  let imm11 := (data >>> 20) &&& 0x1
  let imm1912 := (data >>> 12) &&& 0xff
  let imm := (imm20 <<< 20) ||| (imm1912 <<< 12) ||| (imm11 <<< 11) ||| (imm101 <<< 1)
  { imm := (imm <<< 11).sshiftRight 11, rd := regNo (rd data) }

def instBtypeRead (data : BitVec 32) : Inst :=
  let imm12 := (data >>> 31) &&& 0x1
  let imm105 := (data >>> 25) &&& 0x3f
  let imm41 := (data >>> 8) &&& 0xf
  let imm11 := (data >>> 7) &&& 0x1
  let imm := (imm12 <<< 12) ||| (imm11 <<< 11) ||| (imm105 <<< 5) ||| (imm41 <<< 1)
  { imm := (imm <<< 19).sshiftRight 19, rs1 := regNo (rs1 data), rs2 := regNo (rs2 data) }

def instRtypeRead (data : BitVec 32) : Inst :=
  { rs1 := regNo (rs1 data), rs2 := regNo (rs2 data), rd := regNo (rd data) }

def instStypeRead (data : BitVec 32) : Inst :=
  let imm115 := (data >>> 25) &&& 0x7f
  let imm40 := (data >>> 7) &&& 0x1f
  let imm := (imm115 <<< 5) ||| imm40
  { imm := (imm <<< 20).sshiftRight 20, rs1 := regNo (rs1 data), rs2 := regNo (rs2 data) }

def instCsrtypeRead (data : BitVec 32) : Inst :=
  { csr := (data >>> 20).setWidth 16, rs1 := regNo (rs1 data), rd := regNo (rd data) }

def instFprtypeRead (data : BitVec 32) : Inst :=
  { rs1 := regNo (rs1 data), rs2 := regNo (rs2 data), rs3 := regNo (rs3 data),
    rd := regNo (rd data) }

/-! ### Fields of a compressed word

The readers take the low half of the word; the masks are applied after it has been
promoted back to 32 bits.
-/

def copcode (data : BitVec 32) : BitVec 32 := (data >>> 13) &&& 0x7
def cfunct1 (data : BitVec 32) : BitVec 32 := (data >>> 12) &&& 0x1
def cfunct2low (data : BitVec 32) : BitVec 32 := (data >>> 5) &&& 0x3
def cfunct2high (data : BitVec 32) : BitVec 32 := (data >>> 10) &&& 0x3
def rp1 (data : BitVec 32) : BitVec 32 := (data >>> 7) &&& 0x7
def rp2 (data : BitVec 32) : BitVec 32 := (data >>> 2) &&& 0x7
def rc1 (data : BitVec 32) : BitVec 32 := (data >>> 7) &&& 0x1f
def rc2 (data : BitVec 32) : BitVec 32 := (data >>> 2) &&& 0x1f

/-! ### Readers of the compressed formats -/

def instCatypeRead (half : BitVec 16) : Inst :=
  let data := half.setWidth 32
  { rd := regNo (rp1 data + 8), rs2 := regNo (rp2 data + 8), rvc := true }

def instCrtypeRead (half : BitVec 16) : Inst :=
  let data := half.setWidth 32
  { rs1 := regNo (rc1 data), rs2 := regNo (rc2 data), rvc := true }

def instCitypeRead (half : BitVec 16) : Inst :=
  let data := half.setWidth 32
  let imm40 := (data >>> 2) &&& 0x1f
  let imm5 := (data >>> 12) &&& 0x1
  let imm := (imm5 <<< 5) ||| imm40
  { imm := (imm <<< 26).sshiftRight 26, rd := regNo (rc1 data), rvc := true }

def instCitypeRead2 (half : BitVec 16) : Inst :=
  let data := half.setWidth 32
  let imm86 := (data >>> 2) &&& 0x7
  let imm43 := (data >>> 5) &&& 0x3
  let imm5 := (data >>> 12) &&& 0x1
  { imm := (imm86 <<< 6) ||| (imm43 <<< 3) ||| (imm5 <<< 5), rd := regNo (rc1 data), rvc := true }

def instCitypeRead3 (half : BitVec 16) : Inst :=
  let data := half.setWidth 32
  let imm5 := (data >>> 2) &&& 0x1
  let imm87 := (data >>> 3) &&& 0x3
  let imm6 := (data >>> 5) &&& 0x1
  let imm4 := (data >>> 6) &&& 0x1
  let imm9 := (data >>> 12) &&& 0x1
  let imm := (imm5 <<< 5) ||| (imm87 <<< 7) ||| (imm6 <<< 6) ||| (imm4 <<< 4) ||| (imm9 <<< 9)
  { imm := (imm <<< 22).sshiftRight 22, rd := regNo (rc1 data), rvc := true }

def instCitypeRead4 (half : BitVec 16) : Inst :=
  let data := half.setWidth 32
  let imm5 := (data >>> 12) &&& 0x1
  let imm42 := (data >>> 4) &&& 0x7
  let imm76 := (data >>> 2) &&& 0x3
  { imm := (imm5 <<< 5) ||| (imm42 <<< 2) ||| (imm76 <<< 6), rd := regNo (rc1 data), rvc := true }

def instCitypeRead5 (half : BitVec 16) : Inst :=
  let data := half.setWidth 32
  let imm1612 := (data >>> 2) &&& 0x1f
  let imm17 := (data >>> 12) &&& 0x1
  let imm := (imm1612 <<< 12) ||| (imm17 <<< 17)
  { imm := (imm <<< 14).sshiftRight 14, rd := regNo (rc1 data), rvc := true }

def instCbtypeRead (half : BitVec 16) : Inst :=
  let data := half.setWidth 32
  let imm5 := (data >>> 2) &&& 0x1
  let imm21 := (data >>> 3) &&& 0x3
  let imm76 := (data >>> 5) &&& 0x3
  let imm43 := (data >>> 10) &&& 0x3
  let imm8 := (data >>> 12) &&& 0x1
  let imm :=
    (imm8 <<< 8) ||| (imm76 <<< 6) ||| (imm5 <<< 5) ||| (imm43 <<< 3) ||| (imm21 <<< 1)
  { imm := (imm <<< 23).sshiftRight 23, rs1 := regNo (rp1 data + 8), rvc := true }

def instCbtypeRead2 (half : BitVec 16) : Inst :=
  let data := half.setWidth 32
  let imm40 := (data >>> 2) &&& 0x1f
  let imm5 := (data >>> 12) &&& 0x1
  let imm := (imm5 <<< 5) ||| imm40
  { imm := (imm <<< 26).sshiftRight 26, rd := regNo (rp1 data + 8), rvc := true }

def instCstypeRead (half : BitVec 16) : Inst :=
  let data := half.setWidth 32
  let imm76 := (data >>> 5) &&& 0x3
  let imm53 := (data >>> 10) &&& 0x7
  { imm := (imm76 <<< 6) ||| (imm53 <<< 3), rs1 := regNo (rp1 data + 8),
    rs2 := regNo (rp2 data + 8), rvc := true }

def instCstypeRead2 (half : BitVec 16) : Inst :=
  let data := half.setWidth 32
  let imm6 := (data >>> 5) &&& 0x1
  let imm2 := (data >>> 6) &&& 0x1
  let imm53 := (data >>> 10) &&& 0x7
  { imm := (imm6 <<< 6) ||| (imm2 <<< 2) ||| (imm53 <<< 3), rs1 := regNo (rp1 data + 8),
    rs2 := regNo (rp2 data + 8), rvc := true }

def instCjtypeRead (half : BitVec 16) : Inst :=
  let data := half.setWidth 32
  let imm5 := (data >>> 2) &&& 0x1
  let imm31 := (data >>> 3) &&& 0x7
  let imm7 := (data >>> 6) &&& 0x1
  let imm6 := (data >>> 7) &&& 0x1
  let imm10 := (data >>> 8) &&& 0x1
  let imm98 := (data >>> 9) &&& 0x3
  let imm4 := (data >>> 11) &&& 0x1
  let imm11 := (data >>> 12) &&& 0x1
  let imm := (imm5 <<< 5) ||| (imm31 <<< 1) ||| (imm7 <<< 7) ||| (imm6 <<< 6) |||
    (imm10 <<< 10) ||| (imm98 <<< 8) ||| (imm4 <<< 4) ||| (imm11 <<< 11)
  { imm := (imm <<< 20).sshiftRight 20, rvc := true }

def instCltypeRead (half : BitVec 16) : Inst :=
  let data := half.setWidth 32
  let imm6 := (data >>> 5) &&& 0x1
  let imm2 := (data >>> 6) &&& 0x1
  let imm53 := (data >>> 10) &&& 0x7
  { imm := (imm6 <<< 6) ||| (imm2 <<< 2) ||| (imm53 <<< 3), rs1 := regNo (rp1 data + 8),
    rd := regNo (rp2 data + 8), rvc := true }

def instCltypeRead2 (half : BitVec 16) : Inst :=
  let data := half.setWidth 32
  let imm76 := (data >>> 5) &&& 0x3
  let imm53 := (data >>> 10) &&& 0x7
  { imm := (imm76 <<< 6) ||| (imm53 <<< 3), rs1 := regNo (rp1 data + 8),
    rd := regNo (rp2 data + 8), rvc := true }

def instCsstypeRead (half : BitVec 16) : Inst :=
  let data := half.setWidth 32
  let imm86 := (data >>> 7) &&& 0x7
  let imm53 := (data >>> 10) &&& 0x7
  { imm := (imm86 <<< 6) ||| (imm53 <<< 3), rs2 := regNo (rc2 data), rvc := true }

def instCsstypeRead2 (half : BitVec 16) : Inst :=
  let data := half.setWidth 32
  let imm76 := (data >>> 7) &&& 0x3
  let imm52 := (data >>> 9) &&& 0xf
  { imm := (imm76 <<< 6) ||| (imm52 <<< 2), rs2 := regNo (rc2 data), rvc := true }

def instCiwtypeRead (half : BitVec 16) : Inst :=
  let data := half.setWidth 32
  let imm3 := (data >>> 5) &&& 0x1
  let imm2 := (data >>> 6) &&& 0x1
  let imm96 := (data >>> 7) &&& 0xf
  let imm54 := (data >>> 11) &&& 0x3
  { imm := (imm3 <<< 3) ||| (imm2 <<< 2) ||| (imm96 <<< 6) ||| (imm54 <<< 4),
    rd := regNo (rp2 data + 8), rvc := true }

/-! ### Quadrants 0, 1 and 2 -/

def decodeQuadrant0 (data : BitVec 32) : Except Stop Inst :=
  let half := data.setWidth 16
  match (copcode data).toNat with
  | 0x0 => do -- C.ADDI4SPN
    let inst := { instCiwtypeRead half with rs1 := Reg.sp, type := .addi }
    assertThat (inst.imm != 0) "inst->imm != 0"
    .ok inst
  | 0x1 => .ok { instCltypeRead2 half with type := .fld } -- C.FLD
  | 0x2 => .ok { instCltypeRead half with type := .lw } -- C.LW
  | 0x3 => .ok { instCltypeRead2 half with type := .ld } -- C.LD
  | 0x5 => .ok { instCstypeRead half with type := .fsd } -- C.FSD
  | 0x6 => .ok { instCstypeRead2 half with type := .sw } -- C.SW
  | 0x7 => .ok { instCstypeRead half with type := .sd } -- C.SD
  -- the word is printed on standard output before this
  | _ => .error (.fatal "unimplemented")

/-- `C.SRLI`, `C.SRAI`, `C.ANDI` and the register-register operations. -/
def decodeCAlu (data : BitVec 32) : Except Stop Inst :=
  let half := data.setWidth 16
  let immInst := { instCbtypeRead2 half with rs1 := (instCbtypeRead2 half).rd }
  let regInst := { instCatypeRead half with rs1 := (instCatypeRead half).rd }
  match (cfunct2high data).toNat with
  | 0x0 => .ok { immInst with type := .srli } -- C.SRLI
  | 0x1 => .ok { immInst with type := .srai } -- C.SRAI
  | 0x2 => .ok { immInst with type := .andi } -- C.ANDI
  | 0x3 =>
    match (cfunct1 data).toNat with
    | 0x0 =>
      match (cfunct2low data).toNat with
      | 0x0 => .ok { regInst with type := .sub } -- C.SUB
      | 0x1 => .ok { regInst with type := .xor } -- C.XOR
      | 0x2 => .ok { regInst with type := .or } -- C.OR
      | 0x3 => .ok { regInst with type := .and } -- C.AND
      | _ => unreachable
    | 0x1 =>
      match (cfunct2low data).toNat with
      | 0x0 => .ok { regInst with type := .subw } -- C.SUBW
      | 0x1 => .ok { regInst with type := .addw } -- C.ADDW
      | _ => unreachable
    | _ => unreachable
  | _ => unreachable

def decodeQuadrant1 (data : BitVec 32) : Except Stop Inst :=
  let half := data.setWidth 16
  let ci := instCitypeRead half
  match (copcode data).toNat with
  | 0x0 => .ok { ci with rs1 := ci.rd, type := .addi } -- C.ADDI
  | 0x1 => do -- C.ADDIW
    assertThat (ci.rd != 0) "inst->rd != 0"
    .ok { ci with rs1 := ci.rd, type := .addiw }
  | 0x2 => .ok { ci with rs1 := Reg.zero, type := .addi } -- C.LI
  | 0x3 =>
    if rc1 data = 2 then do -- C.ADDI16SP
      let inst := instCitypeRead3 half
      assertThat (inst.imm != 0) "inst->imm != 0"
      .ok { inst with rs1 := inst.rd, type := .addi }
    else do -- C.LUI
      let inst := instCitypeRead5 half
      assertThat (inst.imm != 0) "inst->imm != 0"
      .ok { inst with type := .lui }
  | 0x4 => decodeCAlu data
  | 0x5 => -- C.J
    .ok { instCjtypeRead half with rd := Reg.zero, type := .jal, continueExec := true }
  | 0x6 => .ok { instCbtypeRead half with rs2 := Reg.zero, type := .beq } -- C.BEQZ
  | 0x7 => .ok { instCbtypeRead half with rs2 := Reg.zero, type := .bne } -- C.BNEZ
  | _ => .error (.fatal "unrecognized copcode")

/-- `C.JR`, `C.MV`, `C.EBREAK`, `C.JALR` and `C.ADD`. -/
def decodeCJump (data : BitVec 32) : Except Stop Inst :=
  let inst := instCrtypeRead (data.setWidth 16)
  match (cfunct1 data).toNat with
  | 0x0 =>
    if inst.rs2 = 0 then do -- C.JR
      assertThat (inst.rs1 != 0) "inst->rs1 != 0"
      .ok { inst with rd := Reg.zero, type := .jalr, continueExec := true }
    else -- C.MV
      .ok { inst with rd := inst.rs1, rs1 := Reg.zero, type := .add }
  | 0x1 =>
    if inst.rs1 = 0 ∧ inst.rs2 = 0 then -- C.EBREAK
      .error (.fatal "unimplmented")
    else if inst.rs2 = 0 then -- C.JALR
      .ok { inst with rd := Reg.ra, type := .jalr, continueExec := true }
    else -- C.ADD
      .ok { inst with rd := inst.rs1, type := .add }
  | _ => unreachable

def decodeQuadrant2 (data : BitVec 32) : Except Stop Inst :=
  let half := data.setWidth 16
  match (copcode data).toNat with
  | 0x0 => -- C.SLLI
    .ok { instCitypeRead half with rs1 := (instCitypeRead half).rd, type := .slli }
  | 0x1 => .ok { instCitypeRead2 half with rs1 := Reg.sp, type := .fld } -- C.FLDSP
  | 0x2 => do -- C.LWSP
    let inst := instCitypeRead4 half
    assertThat (inst.rd != 0) "inst->rd != 0"
    .ok { inst with rs1 := Reg.sp, type := .lw }
  | 0x3 => do -- C.LDSP
    let inst := instCitypeRead2 half
    assertThat (inst.rd != 0) "inst->rd != 0"
    .ok { inst with rs1 := Reg.sp, type := .ld }
  | 0x4 => decodeCJump data
  | 0x5 => .ok { instCsstypeRead half with rs1 := Reg.sp, type := .fsd } -- C.FSDSP
  | 0x6 => .ok { instCsstypeRead2 half with rs1 := Reg.sp, type := .sw } -- C.SWSP
  | 0x7 => .ok { instCsstypeRead half with rs1 := Reg.sp, type := .sd } -- C.SDSP
  | _ => .error (.fatal "unrecognized copcode")

/-! ### Quadrant 3, by opcode -/

def decodeLoad (data : BitVec 32) : Except Stop Inst :=
  let inst := instItypeRead data
  match (funct3 data).toNat with
  | 0x0 => .ok { inst with type := .lb }
  | 0x1 => .ok { inst with type := .lh }
  | 0x2 => .ok { inst with type := .lw }
  | 0x3 => .ok { inst with type := .ld }
  | 0x4 => .ok { inst with type := .lbu }
  | 0x5 => .ok { inst with type := .lhu }
  | 0x6 => .ok { inst with type := .lwu }
  | _ => unreachable

def decodeLoadFp (data : BitVec 32) : Except Stop Inst :=
  let inst := instItypeRead data
  match (funct3 data).toNat with
  | 0x2 => .ok { inst with type := .flw }
  | 0x3 => .ok { inst with type := .fld }
  | _ => unreachable

def decodeMiscMem (data : BitVec 32) : Except Stop Inst :=
  match (funct3 data).toNat with
  | 0x0 => .ok { type := .fence }
  | 0x1 => .ok { type := .fence_i }
  | _ => unreachable

def decodeOpImm (data : BitVec 32) : Except Stop Inst :=
  let inst := instItypeRead data
  match (funct3 data).toNat with
  | 0x0 => .ok { inst with type := .addi }
  | 0x1 => if imm116 data = 0 then .ok { inst with type := .slli } else unreachable
  | 0x2 => .ok { inst with type := .slti }
  | 0x3 => .ok { inst with type := .sltiu }
  | 0x4 => .ok { inst with type := .xori }
  | 0x5 =>
    if imm116 data = 0x0 then .ok { inst with type := .srli }
    else if imm116 data = 0x10 then .ok { inst with type := .srai }
    else unreachable
  | 0x6 => .ok { inst with type := .ori }
  | 0x7 => .ok { inst with type := .andi }
  | _ => .error (.fatal "unrecognized funct3")

def decodeOpImm32 (data : BitVec 32) : Except Stop Inst :=
  let inst := instItypeRead data
  match (funct3 data).toNat with
  | 0x0 => .ok { inst with type := .addiw }
  | 0x1 => do
    assertThat (funct7 data == 0) "funct7 == 0"
    .ok { inst with type := .slliw }
  | 0x5 =>
    match (funct7 data).toNat with
    | 0x0 => .ok { inst with type := .srliw }
    | 0x20 => .ok { inst with type := .sraiw }
    | _ => unreachable
  | _ => .error (.fatal "unimplemented")

def decodeStore (data : BitVec 32) : Except Stop Inst :=
  let inst := instStypeRead data
  match (funct3 data).toNat with
  | 0x0 => .ok { inst with type := .sb }
  | 0x1 => .ok { inst with type := .sh }
  | 0x2 => .ok { inst with type := .sw }
  | 0x3 => .ok { inst with type := .sd }
  | _ => unreachable

def decodeStoreFp (data : BitVec 32) : Except Stop Inst :=
  let inst := instStypeRead data
  match (funct3 data).toNat with
  | 0x2 => .ok { inst with type := .fsw }
  | 0x3 => .ok { inst with type := .fsd }
  | _ => unreachable

def decodeOp (data : BitVec 32) : Except Stop Inst :=
  let inst := instRtypeRead data
  match (funct7 data).toNat with
  | 0x0 =>
    match (funct3 data).toNat with
    | 0x0 => .ok { inst with type := .add }
    | 0x1 => .ok { inst with type := .sll }
    | 0x2 => .ok { inst with type := .slt }
    | 0x3 => .ok { inst with type := .sltu }
    | 0x4 => .ok { inst with type := .xor }
    | 0x5 => .ok { inst with type := .srl }
    | 0x6 => .ok { inst with type := .or }
    | 0x7 => .ok { inst with type := .and }
    | _ => unreachable
  | 0x1 =>
    match (funct3 data).toNat with
    | 0x0 => .ok { inst with type := .mul }
    | 0x1 => .ok { inst with type := .mulh }
    | 0x2 => .ok { inst with type := .mulhsu }
    | 0x3 => .ok { inst with type := .mulhu }
    | 0x4 => .ok { inst with type := .div }
    | 0x5 => .ok { inst with type := .divu }
    | 0x6 => .ok { inst with type := .rem }
    | 0x7 => .ok { inst with type := .remu }
    | _ => unreachable
  | 0x20 =>
    match (funct3 data).toNat with
    | 0x0 => .ok { inst with type := .sub }
    | 0x5 => .ok { inst with type := .sra }
    | _ => unreachable
  | _ => unreachable

def decodeOp32 (data : BitVec 32) : Except Stop Inst :=
  let inst := instRtypeRead data
  match (funct7 data).toNat with
  | 0x0 =>
    match (funct3 data).toNat with
    | 0x0 => .ok { inst with type := .addw }
    | 0x1 => .ok { inst with type := .sllw }
    | 0x5 => .ok { inst with type := .srlw }
    | _ => unreachable
  | 0x1 =>
    match (funct3 data).toNat with
    | 0x0 => .ok { inst with type := .mulw }
    | 0x4 => .ok { inst with type := .divw }
    | 0x5 => .ok { inst with type := .divuw }
    | 0x6 => .ok { inst with type := .remw }
    | 0x7 => .ok { inst with type := .remuw }
    | _ => unreachable
  | 0x20 =>
    match (funct3 data).toNat with
    | 0x0 => .ok { inst with type := .subw }
    | 0x5 => .ok { inst with type := .sraw }
    | _ => unreachable
  | _ => unreachable

/-- The four fused multiply-add opcodes differ only in the two types they pick. -/
def decodeFma (single double : InstType) (data : BitVec 32) : Except Stop Inst :=
  let inst := instFprtypeRead data
  match (funct2 data).toNat with
  | 0x0 => .ok { inst with type := single }
  | 0x1 => .ok { inst with type := double }
  | _ => unreachable

/-- Three-way choice on `funct3`, for the sign injections and the comparisons. -/
def decodeFunct3 (inst : Inst) (data : BitVec 32) (t0 t1 t2 : InstType) : Except Stop Inst :=
  match (funct3 data).toNat with
  | 0x0 => .ok { inst with type := t0 }
  | 0x1 => .ok { inst with type := t1 }
  | 0x2 => .ok { inst with type := t2 }
  | _ => unreachable

/-- Two-way choice on `funct3`, for the minima, the moves and the classifications. -/
def decodeFunct3Pair (inst : Inst) (data : BitVec 32) (t0 t1 : InstType) : Except Stop Inst :=
  match (funct3 data).toNat with
  | 0x0 => .ok { inst with type := t0 }
  | 0x1 => .ok { inst with type := t1 }
  | _ => unreachable

/-- Choice on the `rs2` field, for the conversions to and from integers. -/
def decodeFcvt (inst : Inst) (data : BitVec 32) (w wu l lu : InstType) : Except Stop Inst :=
  match (rs2 data).toNat with
  | 0x0 => .ok { inst with type := w }
  | 0x1 => .ok { inst with type := wu }
  | 0x2 => .ok { inst with type := l }
  | 0x3 => .ok { inst with type := lu }
  | _ => unreachable

def decodeOpFp (data : BitVec 32) : Except Stop Inst :=
  let inst := instRtypeRead data
  match (funct7 data).toNat with
  | 0x0 => .ok { inst with type := .fadd_s }
  | 0x1 => .ok { inst with type := .fadd_d }
  | 0x4 => .ok { inst with type := .fsub_s }
  | 0x5 => .ok { inst with type := .fsub_d }
  | 0x8 => .ok { inst with type := .fmul_s }
  | 0x9 => .ok { inst with type := .fmul_d }
  | 0xc => .ok { inst with type := .fdiv_s }
  | 0xd => .ok { inst with type := .fdiv_d }
  | 0x10 => decodeFunct3 inst data .fsgnj_s .fsgnjn_s .fsgnjx_s
  | 0x11 => decodeFunct3 inst data .fsgnj_d .fsgnjn_d .fsgnjx_d
  | 0x14 => decodeFunct3Pair inst data .fmin_s .fmax_s
  | 0x15 => decodeFunct3Pair inst data .fmin_d .fmax_d
  | 0x20 => do
    assertThat (rs2 data == 1) "RS2(data) == 1"
    .ok { inst with type := .fcvt_s_d }
  | 0x21 => do
    assertThat (rs2 data == 0) "RS2(data) == 0"
    .ok { inst with type := .fcvt_d_s }
  | 0x2c => do
    assertThat (inst.rs2 == 0) "inst->rs2 == 0"
    .ok { inst with type := .fsqrt_s }
  | 0x2d => do
    assertThat (inst.rs2 == 0) "inst->rs2 == 0"
    .ok { inst with type := .fsqrt_d }
  | 0x50 => decodeFunct3 inst data .fle_s .flt_s .feq_s
  | 0x51 => decodeFunct3 inst data .fle_d .flt_d .feq_d
  | 0x60 => decodeFcvt inst data .fcvt_w_s .fcvt_wu_s .fcvt_l_s .fcvt_lu_s
  | 0x61 => decodeFcvt inst data .fcvt_w_d .fcvt_wu_d .fcvt_l_d .fcvt_lu_d
  | 0x68 => decodeFcvt inst data .fcvt_s_w .fcvt_s_wu .fcvt_s_l .fcvt_s_lu
  | 0x69 => decodeFcvt inst data .fcvt_d_w .fcvt_d_wu .fcvt_d_l .fcvt_d_lu
  | 0x70 => do
    assertThat (rs2 data == 0) "RS2(data) == 0"
    decodeFunct3Pair inst data .fmv_x_w .fclass_s
  | 0x71 => do
    assertThat (rs2 data == 0) "RS2(data) == 0"
    decodeFunct3Pair inst data .fmv_x_d .fclass_d
  | 0x78 => do
    assertThat (rs2 data == 0 && funct3 data == 0) "RS2(data) == 0 && FUNCT3(data) == 0"
    .ok { inst with type := .fmv_w_x }
  | 0x79 => do
    assertThat (rs2 data == 0 && funct3 data == 0) "RS2(data) == 0 && FUNCT3(data) == 0"
    .ok { inst with type := .fmv_d_x }
  | _ => unreachable

def decodeBranch (data : BitVec 32) : Except Stop Inst :=
  let inst := instBtypeRead data
  match (funct3 data).toNat with
  | 0x0 => .ok { inst with type := .beq }
  | 0x1 => .ok { inst with type := .bne }
  | 0x4 => .ok { inst with type := .blt }
  | 0x5 => .ok { inst with type := .bge }
  | 0x6 => .ok { inst with type := .bltu }
  | 0x7 => .ok { inst with type := .bgeu }
  | _ => unreachable

def decodeSystem (inst : Inst) (data : BitVec 32) : Except Stop Inst :=
  if data = 0x73 then -- the record keeps whatever else it held
    .ok { inst with type := .ecall, continueExec := true }
  else
    let inst := instCsrtypeRead data
    match (funct3 data).toNat with
    | 0x1 => .ok { inst with type := .csrrw }
    | 0x2 => .ok { inst with type := .csrrs }
    | 0x3 => .ok { inst with type := .csrrc }
    | 0x5 => .ok { inst with type := .csrrwi }
    | 0x6 => .ok { inst with type := .csrrsi }
    | 0x7 => .ok { inst with type := .csrrci }
    | _ => unreachable

def decodeQuadrant3 (inst : Inst) (data : BitVec 32) : Except Stop Inst :=
  match (opcode data).toNat with
  | 0x0 => decodeLoad data
  | 0x1 => decodeLoadFp data
  | 0x3 => decodeMiscMem data
  | 0x4 => decodeOpImm data
  | 0x5 => .ok { instUtypeRead data with type := .auipc }
  | 0x6 => decodeOpImm32 data
  | 0x8 => decodeStore data
  | 0x9 => decodeStoreFp data
  | 0xc => decodeOp data
  | 0xd => .ok { instUtypeRead data with type := .lui }
  | 0xe => decodeOp32 data
  | 0x10 => decodeFma .fmadd_s .fmadd_d data
  | 0x11 => decodeFma .fmsub_s .fmsub_d data
  | 0x12 => decodeFma .fnmsub_s .fnmsub_d data
  | 0x13 => decodeFma .fnmadd_s .fnmadd_d data
  | 0x14 => decodeOpFp data
  | 0x18 => decodeBranch data
  | 0x19 => .ok { instItypeRead data with type := .jalr, continueExec := true }
  | 0x1b => .ok { instJtypeRead data with type := .jal, continueExec := true }
  | 0x1c => decodeSystem inst data
  | _ => unreachable

/-- `decode_inst`: the record after decoding `data` into `inst`. -/
def decodeInst (inst : Inst) (data : BitVec 32) : Except Stop Inst :=
  match (quadrant data).toNat with
  | 0x0 => decodeQuadrant0 data
  | 0x1 => decodeQuadrant1 data
  | 0x2 => decodeQuadrant2 data
  | 0x3 => decodeQuadrant3 inst data
  | _ => unreachable

end Rvemu
