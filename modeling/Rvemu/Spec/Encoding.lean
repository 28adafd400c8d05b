/-
The 32-bit instruction encodings of the RISC-V user-level specification.

A format says which fields of the word are fixed, and to what; the others hold the
operands.  `format` is the specification's table for the instructions of the
enumeration: RV64I, M, F, D, Zicsr and Zifencei.  From a format come both the
encoder (`assemble`) and the test whether a word has the fixed fields of an
instruction (`Fixed`), so the two cannot disagree about a constant.

Branch and jump offsets are held as the specification numbers them from bit one
up: `imm12` is `imm[12:1]` of a branch and `imm20` is `imm[20:1]` of a jump.
-/
import Rvemu.Types
import Rvemu.Lib.BitField

namespace Rvemu.Spec

open BitField

/-- The operands an instruction may have; each format uses some of them. -/
structure Operands where
  rd : BitVec 5 := 0
  rs1 : BitVec 5 := 0
  rs2 : BitVec 5 := 0
  rs3 : BitVec 5 := 0
  rm : BitVec 3 := 0
  imm12 : BitVec 12 := 0
  imm20 : BitVec 20 := 0
  shamt : BitVec 6 := 0
  csr : BitVec 12 := 0
  deriving DecidableEq, Repr

/-- The layouts of an instruction word, with their fixed fields. -/
inductive Format
  /-- `rd`, `rs1`, `rs2`. -/
  | r (op : BitVec 7) (f3 : BitVec 3) (f7 : BitVec 7)
  /-- `rd`, `rs1`, `rs2` and a rounding mode. -/
  | rRm (op : BitVec 7) (f7 : BitVec 7)
  /-- `rd`, `rs1`, with the `rs2` field selecting the operation. -/
  | rUnary (op : BitVec 7) (f3 : BitVec 3) (f7 : BitVec 7) (sel : BitVec 5)
  /-- `rd`, `rs1` and a rounding mode, with the `rs2` field selecting the operation. -/
  | rUnaryRm (op : BitVec 7) (f7 : BitVec 7) (sel : BitVec 5)
  /-- `rd`, `rs1`, `rs2`, `rs3` and a rounding mode. -/
  | r4 (op : BitVec 7) (f2 : BitVec 2)
  /-- `rd`, `rs1` and a 12-bit immediate. -/
  | i (op : BitVec 7) (f3 : BitVec 3)
  /-- `rd`, `rs1` and a 6-bit shift amount. -/
  | shift (op : BitVec 7) (f3 : BitVec 3) (f6 : BitVec 6)
  /-- `rd`, `rs1` and a 5-bit shift amount. -/
  | shiftW (op : BitVec 7) (f3 : BitVec 3) (f7 : BitVec 7)
  /-- `rs1`, `rs2` and a 12-bit immediate in two pieces. -/
  | s (op : BitVec 7) (f3 : BitVec 3)
  /-- `rs1`, `rs2` and a branch offset in four pieces. -/
  | b (op : BitVec 7) (f3 : BitVec 3)
  /-- `rd` and the upper 20 bits of an immediate. -/
  | u (op : BitVec 7)
  /-- `rd` and a jump offset in four pieces. -/
  | j (op : BitVec 7)
  /-- `rd`, `rs1` or a 5-bit immediate in its place, and a CSR number. -/
  | csr (op : BitVec 7) (f3 : BitVec 3)
  /-- A fence; its remaining fields are ignored. -/
  | fence (op : BitVec 7) (f3 : BitVec 3)
  /-- One word. -/
  | word (w : BitVec 32)

namespace Format

/-- The word that encodes the operands. -/
def assemble : Format → Operands → BitVec 32
  | r op f3 f7, o =>
      place f7 25 ||| place o.rs2 20 ||| place o.rs1 15 ||| place f3 12 ||| place o.rd 7 |||
        place op 0
  | rRm op f7, o =>
      place f7 25 ||| place o.rs2 20 ||| place o.rs1 15 ||| place o.rm 12 ||| place o.rd 7 |||
        place op 0
  | rUnary op f3 f7 sel, o =>
      place f7 25 ||| place sel 20 ||| place o.rs1 15 ||| place f3 12 ||| place o.rd 7 |||
        place op 0
  | rUnaryRm op f7 sel, o =>
      place f7 25 ||| place sel 20 ||| place o.rs1 15 ||| place o.rm 12 ||| place o.rd 7 |||
        place op 0
  | r4 op f2, o =>
      place o.rs3 27 ||| place f2 25 ||| place o.rs2 20 ||| place o.rs1 15 ||| place o.rm 12 |||
        place o.rd 7 ||| place op 0
  | i op f3, o =>
      place o.imm12 20 ||| place o.rs1 15 ||| place f3 12 ||| place o.rd 7 ||| place op 0
  | shift op f3 f6, o =>
      place f6 26 ||| place o.shamt 20 ||| place o.rs1 15 ||| place f3 12 ||| place o.rd 7 |||
        place op 0
  | shiftW op f3 f7, o =>
      place f7 25 ||| place (o.shamt.extractLsb' 0 5) 20 ||| place o.rs1 15 ||| place f3 12 |||
        place o.rd 7 ||| place op 0
  | s op f3, o =>
      place (o.imm12.extractLsb' 5 7) 25 ||| place o.rs2 20 ||| place o.rs1 15 ||| place f3 12 |||
        place (o.imm12.extractLsb' 0 5) 7 ||| place op 0
  | b op f3, o =>
      place (o.imm12.extractLsb' 11 1) 31 ||| place (o.imm12.extractLsb' 4 6) 25 |||
        place o.rs2 20 ||| place o.rs1 15 ||| place f3 12 |||
        place (o.imm12.extractLsb' 0 4) 8 ||| place (o.imm12.extractLsb' 10 1) 7 ||| place op 0
  | u op, o => place o.imm20 12 ||| place o.rd 7 ||| place op 0
  | j op, o =>
      place (o.imm20.extractLsb' 19 1) 31 ||| place (o.imm20.extractLsb' 0 10) 21 |||
        place (o.imm20.extractLsb' 10 1) 20 ||| place (o.imm20.extractLsb' 11 8) 12 |||
        place o.rd 7 ||| place op 0
  | csr op f3, o =>
      place o.csr 20 ||| place o.rs1 15 ||| place f3 12 ||| place o.rd 7 ||| place op 0
  | fence op f3, o =>
      place o.imm12 20 ||| place o.rs1 15 ||| place f3 12 ||| place o.rd 7 ||| place op 0
  | word w, _ => w

/-- `w` has the fixed fields of the format. -/
def Fixed : Format → BitVec 32 → Prop
  | r op f3 f7, w =>
      w.extractLsb' 0 7 = op ∧ w.extractLsb' 12 3 = f3 ∧ w.extractLsb' 25 7 = f7
  | rRm op f7, w => w.extractLsb' 0 7 = op ∧ w.extractLsb' 25 7 = f7
  | rUnary op f3 f7 sel, w =>
      w.extractLsb' 0 7 = op ∧ w.extractLsb' 12 3 = f3 ∧ w.extractLsb' 25 7 = f7 ∧
        w.extractLsb' 20 5 = sel
  | rUnaryRm op f7 sel, w =>
      w.extractLsb' 0 7 = op ∧ w.extractLsb' 25 7 = f7 ∧ w.extractLsb' 20 5 = sel
  | r4 op f2, w => w.extractLsb' 0 7 = op ∧ w.extractLsb' 25 2 = f2
  | i op f3, w => w.extractLsb' 0 7 = op ∧ w.extractLsb' 12 3 = f3
  | shift op f3 f6, w =>
      w.extractLsb' 0 7 = op ∧ w.extractLsb' 12 3 = f3 ∧ w.extractLsb' 26 6 = f6
  | shiftW op f3 f7, w =>
      w.extractLsb' 0 7 = op ∧ w.extractLsb' 12 3 = f3 ∧ w.extractLsb' 25 7 = f7
  | s op f3, w => w.extractLsb' 0 7 = op ∧ w.extractLsb' 12 3 = f3
  | b op f3, w => w.extractLsb' 0 7 = op ∧ w.extractLsb' 12 3 = f3
  | u op, w => w.extractLsb' 0 7 = op
  | j op, w => w.extractLsb' 0 7 = op
  | csr op f3, w => w.extractLsb' 0 7 = op ∧ w.extractLsb' 12 3 = f3
  | fence op f3, w => w.extractLsb' 0 7 = op ∧ w.extractLsb' 12 3 = f3
  | word v, w => w = v

instance (f : Format) (w : BitVec 32) : Decidable (f.Fixed w) := by
  cases f <;> dsimp only [Fixed] <;> infer_instance

end Format

/-- The specification's table. -/
def format : InstType → Format
  | .lb => .i 0b0000011 0b000
  | .lh => .i 0b0000011 0b001
  | .lw => .i 0b0000011 0b010
  | .ld => .i 0b0000011 0b011
  | .lbu => .i 0b0000011 0b100
  | .lhu => .i 0b0000011 0b101
  | .lwu => .i 0b0000011 0b110
  | .fence => .fence 0b0001111 0b000
  | .fence_i => .fence 0b0001111 0b001
  | .addi => .i 0b0010011 0b000
  | .slli => .shift 0b0010011 0b001 0b000000
  | .slti => .i 0b0010011 0b010
  | .sltiu => .i 0b0010011 0b011
  | .xori => .i 0b0010011 0b100
  | .srli => .shift 0b0010011 0b101 0b000000
  | .srai => .shift 0b0010011 0b101 0b010000
  | .ori => .i 0b0010011 0b110
  | .andi => .i 0b0010011 0b111
  | .auipc => .u 0b0010111
  | .addiw => .i 0b0011011 0b000
  | .slliw => .shiftW 0b0011011 0b001 0b0000000
  | .srliw => .shiftW 0b0011011 0b101 0b0000000
  | .sraiw => .shiftW 0b0011011 0b101 0b0100000
  | .sb => .s 0b0100011 0b000
  | .sh => .s 0b0100011 0b001
  | .sw => .s 0b0100011 0b010
  | .sd => .s 0b0100011 0b011
  | .add => .r 0b0110011 0b000 0b0000000
  | .sll => .r 0b0110011 0b001 0b0000000
  | .slt => .r 0b0110011 0b010 0b0000000
  | .sltu => .r 0b0110011 0b011 0b0000000
  | .xor => .r 0b0110011 0b100 0b0000000
  | .srl => .r 0b0110011 0b101 0b0000000
  | .or => .r 0b0110011 0b110 0b0000000
  | .and => .r 0b0110011 0b111 0b0000000
  | .mul => .r 0b0110011 0b000 0b0000001
  | .mulh => .r 0b0110011 0b001 0b0000001
  | .mulhsu => .r 0b0110011 0b010 0b0000001
  | .mulhu => .r 0b0110011 0b011 0b0000001
  | .div => .r 0b0110011 0b100 0b0000001
  | .divu => .r 0b0110011 0b101 0b0000001
  | .rem => .r 0b0110011 0b110 0b0000001
  | .remu => .r 0b0110011 0b111 0b0000001
  | .sub => .r 0b0110011 0b000 0b0100000
  | .sra => .r 0b0110011 0b101 0b0100000
  | .lui => .u 0b0110111
  | .addw => .r 0b0111011 0b000 0b0000000
  | .sllw => .r 0b0111011 0b001 0b0000000
  | .srlw => .r 0b0111011 0b101 0b0000000
  | .mulw => .r 0b0111011 0b000 0b0000001
  | .divw => .r 0b0111011 0b100 0b0000001
  | .divuw => .r 0b0111011 0b101 0b0000001
  | .remw => .r 0b0111011 0b110 0b0000001
  | .remuw => .r 0b0111011 0b111 0b0000001
  | .subw => .r 0b0111011 0b000 0b0100000
  | .sraw => .r 0b0111011 0b101 0b0100000
  | .beq => .b 0b1100011 0b000
  | .bne => .b 0b1100011 0b001
  | .blt => .b 0b1100011 0b100
  | .bge => .b 0b1100011 0b101
  | .bltu => .b 0b1100011 0b110
  | .bgeu => .b 0b1100011 0b111
  | .jalr => .i 0b1100111 0b000
  | .jal => .j 0b1101111
  | .ecall => .word 0x00000073
  | .csrrc => .csr 0b1110011 0b011
  | .csrrci => .csr 0b1110011 0b111
  | .csrrs => .csr 0b1110011 0b010
  | .csrrsi => .csr 0b1110011 0b110
  | .csrrw => .csr 0b1110011 0b001
  | .csrrwi => .csr 0b1110011 0b101
  | .flw => .i 0b0000111 0b010
  | .fsw => .s 0b0100111 0b010
  | .fmadd_s => .r4 0b1000011 0b00
  | .fmsub_s => .r4 0b1000111 0b00
  | .fnmsub_s => .r4 0b1001011 0b00
  | .fnmadd_s => .r4 0b1001111 0b00
  | .fadd_s => .rRm 0b1010011 0b0000000
  | .fsub_s => .rRm 0b1010011 0b0000100
  | .fmul_s => .rRm 0b1010011 0b0001000
  | .fdiv_s => .rRm 0b1010011 0b0001100
  | .fsqrt_s => .rUnaryRm 0b1010011 0b0101100 0b00000
  | .fsgnj_s => .r 0b1010011 0b000 0b0010000
  | .fsgnjn_s => .r 0b1010011 0b001 0b0010000
  | .fsgnjx_s => .r 0b1010011 0b010 0b0010000
  | .fmin_s => .r 0b1010011 0b000 0b0010100
  | .fmax_s => .r 0b1010011 0b001 0b0010100
  | .fcvt_w_s => .rUnaryRm 0b1010011 0b1100000 0b00000
  | .fcvt_wu_s => .rUnaryRm 0b1010011 0b1100000 0b00001
  | .fmv_x_w => .rUnary 0b1010011 0b000 0b1110000 0b00000
  | .feq_s => .r 0b1010011 0b010 0b1010000
  | .flt_s => .r 0b1010011 0b001 0b1010000
  | .fle_s => .r 0b1010011 0b000 0b1010000
  | .fclass_s => .rUnary 0b1010011 0b001 0b1110000 0b00000
  | .fcvt_s_w => .rUnaryRm 0b1010011 0b1101000 0b00000
  | .fcvt_s_wu => .rUnaryRm 0b1010011 0b1101000 0b00001
  | .fmv_w_x => .rUnary 0b1010011 0b000 0b1111000 0b00000
  | .fcvt_l_s => .rUnaryRm 0b1010011 0b1100000 0b00010
  | .fcvt_lu_s => .rUnaryRm 0b1010011 0b1100000 0b00011
  | .fcvt_s_l => .rUnaryRm 0b1010011 0b1101000 0b00010
  | .fcvt_s_lu => .rUnaryRm 0b1010011 0b1101000 0b00011
  | .fld => .i 0b0000111 0b011
  | .fsd => .s 0b0100111 0b011
  | .fmadd_d => .r4 0b1000011 0b01
  | .fmsub_d => .r4 0b1000111 0b01
  | .fnmsub_d => .r4 0b1001011 0b01
  | .fnmadd_d => .r4 0b1001111 0b01
  | .fadd_d => .rRm 0b1010011 0b0000001
  | .fsub_d => .rRm 0b1010011 0b0000101
  | .fmul_d => .rRm 0b1010011 0b0001001
  | .fdiv_d => .rRm 0b1010011 0b0001101
  | .fsqrt_d => .rUnaryRm 0b1010011 0b0101101 0b00000
  | .fsgnj_d => .r 0b1010011 0b000 0b0010001
  | .fsgnjn_d => .r 0b1010011 0b001 0b0010001
  | .fsgnjx_d => .r 0b1010011 0b010 0b0010001
  | .fmin_d => .r 0b1010011 0b000 0b0010101
  | .fmax_d => .r 0b1010011 0b001 0b0010101
  | .fcvt_s_d => .rUnaryRm 0b1010011 0b0100000 0b00001
  | .fcvt_d_s => .rUnaryRm 0b1010011 0b0100001 0b00000
  | .feq_d => .r 0b1010011 0b010 0b1010001
  | .flt_d => .r 0b1010011 0b001 0b1010001
  | .fle_d => .r 0b1010011 0b000 0b1010001
  | .fclass_d => .rUnary 0b1010011 0b001 0b1110001 0b00000
  | .fcvt_w_d => .rUnaryRm 0b1010011 0b1100001 0b00000
  | .fcvt_wu_d => .rUnaryRm 0b1010011 0b1100001 0b00001
  | .fcvt_d_w => .rUnaryRm 0b1010011 0b1101001 0b00000
  | .fcvt_d_wu => .rUnaryRm 0b1010011 0b1101001 0b00001
  | .fcvt_l_d => .rUnaryRm 0b1010011 0b1100001 0b00010
  | .fcvt_lu_d => .rUnaryRm 0b1010011 0b1100001 0b00011
  | .fmv_x_d => .rUnary 0b1010011 0b000 0b1110001 0b00000
  | .fcvt_d_l => .rUnaryRm 0b1010011 0b1101001 0b00010
  | .fcvt_d_lu => .rUnaryRm 0b1010011 0b1101001 0b00011
  | .fmv_d_x => .rUnary 0b1010011 0b000 0b1111001 0b00000

/-- The word encoding instruction `t` with operands `o`. -/
def encode (t : InstType) (o : Operands) : BitVec 32 := (format t).assemble o

end Rvemu.Spec
