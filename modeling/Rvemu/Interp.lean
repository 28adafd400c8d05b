/-
The instruction handlers and the block interpreter, `interp.c`.

A handler takes the state and the decoded record and returns both: the branches
write the record too.  The handlers that a `FUNC` macro of the source generates
are applications of one function to the expression they pass to the macro, and
the table `funcs` lists them in the order of the enumeration, as the source does.

`exec_block_interp` loops until an instruction asks to leave the block.  Here the
loop takes the number of instructions it may still execute and hands back what is
left of it; running out is a result of its own, not an error.
-/
import Rvemu.Decode
import Rvemu.InterpUtil

namespace Rvemu

/-- `func_t`. -/
abbrev Handler := State → Inst → Except Stop (State × Inst)

/-- `%lx`. -/
def hex (x : Word) : String := String.ofList (Nat.toDigits 16 x.toNat)

/-- `%02x`. -/
def hexByte (x : BitVec 8) : String :=
  String.ofList (Nat.toDigits 16 (x.toNat / 16) ++ Nat.toDigits 16 (x.toNat % 16))

/-- The debug output some handlers make when a value looks suspicious. -/
def State.debug (s : State) (cond : Bool) (text : String) : State :=
  if cond then s.eprint text else s

/-- `(int64_t)(int32_t)x`. -/
def sext32 (x : Word) : Word := (x.setWidth 32).signExtend 64

def funcEmpty : Handler := fun s inst => .ok (s, inst)

/-! ### Loads -/

def loadFunc (n : Nat) (conv : BitVec (8 * n) → Word) : Handler := fun s inst => do
  let addr := s.gp inst.rs1 + inst.imm.signExtend 64
  let raw ← s.load addr n
  let val := conv raw
  let s := s.setGp inst.rd val
  .ok (s.debug (inst.rd == 1 && val == 0)
    ("DEBUG: ra loaded with 0 from addr " ++ hex addr ++ " (pc=" ++ hex s.pc ++ ")\n"), inst)

def funcLb : Handler := loadFunc 1 fun x => x.signExtend 64
def funcLh : Handler := loadFunc 2 fun x => x.signExtend 64
def funcLw : Handler := loadFunc 4 fun x => x.signExtend 64
def funcLd : Handler := loadFunc 8 fun x => x
def funcLbu : Handler := loadFunc 1 fun x => x.setWidth 64
def funcLhu : Handler := loadFunc 2 fun x => x.setWidth 64
def funcLwu : Handler := loadFunc 4 fun x => x.setWidth 64

/-! ### Operations with an immediate -/

def aluImmFunc (expr : Word → Word → Word) : Handler := fun s inst =>
  let rs1 := s.gp inst.rs1
  let imm := inst.imm.signExtend 64
  let res := expr rs1 imm
  let s := s.setGp inst.rd res
  .ok (s.debug (inst.rd == 1 && res == 0)
    ("DEBUG: ra set to 0 by ALU at pc=" ++ hex s.pc ++ "\n"), inst)

def funcAddi : Handler := aluImmFunc fun rs1 imm => rs1 + imm
def funcSlli : Handler := aluImmFunc fun rs1 imm => rs1 <<< (imm &&& 0x3f)
def funcSlti : Handler := aluImmFunc fun rs1 imm => cbool (rs1.slt imm)
def funcSltiu : Handler := aluImmFunc fun rs1 imm => cbool (rs1.ult imm)
def funcXori : Handler := aluImmFunc fun rs1 imm => rs1 ^^^ imm
def funcSrli : Handler := aluImmFunc fun rs1 imm => rs1 >>> (imm &&& 0x3f)
def funcSrai : Handler := aluImmFunc fun rs1 imm => rs1.sshiftRight (imm &&& 0x3f).toNat
def funcOri : Handler := aluImmFunc fun rs1 imm => rs1 ||| imm
def funcAndi : Handler := aluImmFunc fun rs1 imm => rs1 &&& imm
def funcAddiw : Handler := aluImmFunc fun rs1 imm => sext32 (rs1 + imm)
def funcSlliw : Handler := aluImmFunc fun rs1 imm => sext32 (rs1 <<< (imm &&& 0x1f))
def funcSrliw : Handler :=
  aluImmFunc fun rs1 imm => (rs1.setWidth 32 >>> (imm &&& 0x1f)).signExtend 64
def funcSraiw : Handler :=
  aluImmFunc fun rs1 imm => ((rs1.setWidth 32).sshiftRight (imm &&& 0x1f).toNat).signExtend 64

def funcAuipc : Handler := fun s inst =>
  .ok (s.setGp inst.rd (s.pc + inst.imm.signExtend 64), inst)

/-! ### Stores -/

def storeFunc (n : Nat) : Handler := fun s inst => do
  let rs1 := s.gp inst.rs1
  let rs2 := s.gp inst.rs2
  let addr := rs1 + inst.imm.signExtend 64
  let s ← s.store addr n (rs2.setWidth (8 * n))
  .ok (s.debug (addr == 0x201bc30)
    ("DEBUG: store to " ++ hex addr ++ " val=" ++ hex rs2 ++ " at pc=" ++ hex s.pc ++ "\n"), inst)

def funcSb : Handler := storeFunc 1
def funcSh : Handler := storeFunc 2
def funcSw : Handler := storeFunc 4
def funcSd : Handler := storeFunc 8

/-! ### Operations on two registers -/

/-- C's signed division, which traps where the quotient does not exist. -/
def hostSdiv (a b : Word) : Except Stop Word :=
  if b = 0 ∨ (a = BitVec.intMin 64 ∧ b = -1) then .error .fpe else .ok (a.sdiv b)

/-- C's signed remainder, which traps where the division does. -/
def hostSrem (a b : Word) : Except Stop Word :=
  if b = 0 ∨ (a = BitVec.intMin 64 ∧ b = -1) then .error .fpe else .ok (a.srem b)

/-- C's unsigned division. -/
def hostUdiv {w : Nat} (a b : BitVec w) : Except Stop (BitVec w) :=
  if b = 0 then .error .fpe else .ok (a / b)

/-- C's unsigned remainder. -/
def hostUrem {w : Nat} (a b : BitVec w) : Except Stop (BitVec w) :=
  if b = 0 then .error .fpe else .ok (a % b)

/-- The general form, for an expression whose evaluation may trap. -/
def trapAluFunc (expr : Word → Word → Except Stop Word) : Handler := fun s inst => do
  let rs1 := s.gp inst.rs1
  let rs2 := s.gp inst.rs2
  let res ← expr rs1 rs2
  .ok (s.setGp inst.rd res, inst)

def aluFunc (expr : Word → Word → Word) : Handler := fun s inst =>
  let rs1 := s.gp inst.rs1
  let rs2 := s.gp inst.rs2
  .ok (s.setGp inst.rd (expr rs1 rs2), inst)

def funcAdd : Handler := aluFunc fun rs1 rs2 => rs1 + rs2
def funcSll : Handler := aluFunc fun rs1 rs2 => rs1 <<< (rs2 &&& 0x3f)
def funcSlt : Handler := aluFunc fun rs1 rs2 => cbool (rs1.slt rs2)
def funcSltu : Handler := aluFunc fun rs1 rs2 => cbool (rs1.ult rs2)
def funcXor : Handler := aluFunc fun rs1 rs2 => rs1 ^^^ rs2
def funcSrl : Handler := aluFunc fun rs1 rs2 => rs1 >>> (rs2 &&& 0x3f)
def funcOr : Handler := aluFunc fun rs1 rs2 => rs1 ||| rs2
def funcAnd : Handler := aluFunc fun rs1 rs2 => rs1 &&& rs2
def funcMul : Handler := aluFunc fun rs1 rs2 => rs1 * rs2
def funcMulh : Handler := aluFunc mulh
def funcMulhsu : Handler := aluFunc mulhsu
def funcMulhu : Handler := aluFunc mulhu
def funcSub : Handler := aluFunc fun rs1 rs2 => rs1 - rs2
def funcSra : Handler := aluFunc fun rs1 rs2 => rs1.sshiftRight (rs2 &&& 0x3f).toNat

def funcRemu : Handler := trapAluFunc fun rs1 rs2 =>
  if rs2 = 0 then .ok rs1 else hostUrem rs1 rs2

def funcAddw : Handler := aluFunc fun rs1 rs2 => sext32 (rs1 + rs2)
def funcSllw : Handler := aluFunc fun rs1 rs2 => sext32 (rs1 <<< (rs2 &&& 0x1f))
def funcSrlw : Handler :=
  aluFunc fun rs1 rs2 => (rs1.setWidth 32 >>> (rs2 &&& 0x1f)).signExtend 64
def funcMulw : Handler := aluFunc fun rs1 rs2 => sext32 (rs1 * rs2)

def funcDivw : Handler := trapAluFunc fun rs1 rs2 =>
  if rs2 = 0 then .ok (-1) else do
    let q ← hostSdiv (sext32 rs1) (sext32 rs2)
    .ok (sext32 q)

def funcDivuw : Handler := trapAluFunc fun rs1 rs2 =>
  if rs2 = 0 then .ok (-1) else do
    let q ← hostUdiv (rs1.setWidth 32) (rs2.setWidth 32)
    .ok (q.signExtend 64)

def funcRemw : Handler := trapAluFunc fun rs1 rs2 =>
  if rs2 = 0 then .ok (sext32 rs1) else do
    let r ← hostSrem (sext32 rs1) (sext32 rs2)
    .ok (sext32 r)

def funcRemuw : Handler := trapAluFunc fun rs1 rs2 =>
  if rs2 = 0 then .ok (sext32 rs1) else do
    let r ← hostUrem (rs1.setWidth 32) (rs2.setWidth 32)
    .ok (r.signExtend 64)

def funcSubw : Handler := aluFunc fun rs1 rs2 => sext32 (rs1 - rs2)
def funcSraw : Handler :=
  aluFunc fun rs1 rs2 => ((rs1.setWidth 32).sshiftRight (rs2 &&& 0x1f).toNat).signExtend 64

def funcDiv : Handler := trapAluFunc fun rs1 rs2 =>
  if rs2 = 0 then .ok (-1)
  else if rs1 = BitVec.intMin 64 ∧ rs2 = -1 then .ok (BitVec.intMin 64)
  else hostSdiv rs1 rs2

def funcDivu : Handler := trapAluFunc fun rs1 rs2 =>
  if rs2 = 0 then .ok (-1) else hostUdiv rs1 rs2

def funcRem : Handler := trapAluFunc fun rs1 rs2 =>
  if rs2 = 0 then .ok rs1
  else if rs1 = BitVec.intMin 64 ∧ rs2 = -1 then .ok 0
  else hostSrem rs1 rs2

def funcLui : Handler := fun s inst => .ok (s.setGp inst.rd (inst.imm.signExtend 64), inst)

/-! ### Branches, jumps and the environment call -/

def branchFunc (expr : Word → Word → Bool) : Handler := fun s inst =>
  let rs1 := s.gp inst.rs1
  let rs2 := s.gp inst.rs2
  let targetAddr := s.pc + inst.imm.signExtend 64
  if expr rs1 rs2 then
    .ok ({ s with reenterPc := targetAddr, pc := targetAddr, exitReason := .directBranch },
      { inst with continueExec := true })
  else .ok (s, inst)

def funcBeq : Handler := branchFunc fun rs1 rs2 => rs1 == rs2
def funcBne : Handler := branchFunc fun rs1 rs2 => rs1 != rs2
def funcBlt : Handler := branchFunc fun rs1 rs2 => rs1.slt rs2
def funcBge : Handler := branchFunc fun rs1 rs2 => !rs1.slt rs2
def funcBltu : Handler := branchFunc fun rs1 rs2 => rs1.ult rs2
def funcBgeu : Handler := branchFunc fun rs1 rs2 => !rs1.ult rs2

def funcJalr : Handler := fun s inst => do
  let rs1 := s.gp inst.rs1
  let s := s.setGp inst.rd (s.pc + if inst.rvc then 2 else 4)
  let s := { s with
    exitReason := .indirectBranch
    reenterPc := (rs1 + inst.imm.signExtend 64) &&& ~~~1 }
  if s.reenterPc = 0 then do
    let p ← s.load s.pc 4
    let s := s.eprint ("DEBUG: jalr to 0 at pc=" ++ hex s.pc ++ ". rs1_reg=" ++
      toString inst.rs1.toNat ++ " rs1_val=" ++ hex rs1 ++ ", imm=" ++ toString inst.imm.toInt ++
      ", sp=" ++ hex (s.gp 2) ++ "\n")
    .ok (s.eprint ("Inst bytes: " ++ hexByte (p.extractLsb' 0 8) ++ " " ++
      hexByte (p.extractLsb' 8 8) ++ " " ++ hexByte (p.extractLsb' 16 8) ++ " " ++
      hexByte (p.extractLsb' 24 8) ++ "\n"), inst)
  else .ok (s, inst)

def funcJal : Handler := fun s inst =>
  let s := s.setGp inst.rd (s.pc + if inst.rvc then 2 else 4)
  let target := s.pc + inst.imm.signExtend 64
  .ok ({ s with reenterPc := target, pc := target, exitReason := .directBranch }, inst)

def funcEcall : Handler := fun s inst =>
  .ok ({ s with exitReason := .ecall, reenterPc := s.pc + 4 }, inst)

/-! ### CSR instructions

All six accept `fflags`, `frm` and `fcsr` and read them as zero.
-/

def csrFunc : Handler := fun s inst =>
  match inst.csr.toNat with
  | 0x001 => .ok (s.setGp inst.rd 0, inst)
  | 0x002 => .ok (s.setGp inst.rd 0, inst)
  | 0x003 => .ok (s.setGp inst.rd 0, inst)
  | _ => .error (.fatal "unsupported csr")

def funcCsrrw : Handler := csrFunc
def funcCsrrs : Handler := csrFunc
def funcCsrrc : Handler := csrFunc
def funcCsrrwi : Handler := csrFunc
def funcCsrrsi : Handler := csrFunc
def funcCsrrci : Handler := csrFunc

/-! ### Floating-point loads and stores -/

/-- `(uint64_t)-1 << 32`. -/
def upperOnes : Word := (-1 : Word) <<< 32

def funcFlw : Handler := fun s inst => do
  let addr := s.gp inst.rs1 + inst.imm.signExtend 64
  let raw ← s.load addr 4
  .ok (s.setFp inst.rd ((s.fp inst.rd).setV (raw.setWidth 64 ||| upperOnes)), inst)

def funcFld : Handler := fun s inst => do
  let addr := s.gp inst.rs1 + inst.imm.signExtend 64
  let raw ← s.load addr 8
  .ok (s.setFp inst.rd ((s.fp inst.rd).setV raw), inst)

def storeFpFunc (n : Nat) : Handler := fun s inst => do
  let rs1 := s.gp inst.rs1
  let rs2 := (s.fp inst.rs2).v
  let s ← s.store (rs1 + inst.imm.signExtend 64) n (rs2.setWidth (8 * n))
  .ok (s, inst)

def funcFsw : Handler := storeFpFunc 4
def funcFsd : Handler := storeFpFunc 8

/-! ### Floating-point arithmetic -/

section

variable (fpu : HostFpu)

def fma32Func (expr : F32 → F32 → F32 → F32) : Handler := fun s inst =>
  let rs1 := (s.fp inst.rs1).f
  let rs2 := (s.fp inst.rs2).f
  let rs3 := (s.fp inst.rs3).f
  .ok (s.setFp inst.rd ((s.fp inst.rd).setF (expr rs1 rs2 rs3)), inst)

def funcFmaddS : Handler := fma32Func fun rs1 rs2 rs3 => fpu.add32 (fpu.mul32 rs1 rs2) rs3
def funcFmsubS : Handler := fma32Func fun rs1 rs2 rs3 => fpu.sub32 (fpu.mul32 rs1 rs2) rs3
def funcFnmsubS : Handler :=
  fma32Func fun rs1 rs2 rs3 => fpu.add32 (fpu.neg32 (fpu.mul32 rs1 rs2)) rs3
def funcFnmaddS : Handler :=
  fma32Func fun rs1 rs2 rs3 => fpu.sub32 (fpu.neg32 (fpu.mul32 rs1 rs2)) rs3

def fma64Func (expr : F64 → F64 → F64 → F64) : Handler := fun s inst =>
  let rs1 := (s.fp inst.rs1).d
  let rs2 := (s.fp inst.rs2).d
  let rs3 := (s.fp inst.rs3).d
  .ok (s.setFp inst.rd ((s.fp inst.rd).setD (expr rs1 rs2 rs3)), inst)

def funcFmaddD : Handler := fma64Func fun rs1 rs2 rs3 => fpu.add64 (fpu.mul64 rs1 rs2) rs3
def funcFmsubD : Handler := fma64Func fun rs1 rs2 rs3 => fpu.sub64 (fpu.mul64 rs1 rs2) rs3
def funcFnmsubD : Handler :=
  fma64Func fun rs1 rs2 rs3 => fpu.add64 (fpu.neg64 (fpu.mul64 rs1 rs2)) rs3
def funcFnmaddD : Handler :=
  fma64Func fun rs1 rs2 rs3 => fpu.sub64 (fpu.neg64 (fpu.mul64 rs1 rs2)) rs3

def fp32Func (expr : F32 → F32 → F32) : Handler := fun s inst =>
  let rs1 := (s.fp inst.rs1).f
  let rs2 := (s.fp inst.rs2).f
  .ok (s.setFp inst.rd ((s.fp inst.rd).setF (expr rs1 rs2)), inst)

def funcFaddS : Handler := fp32Func fun rs1 rs2 => fpu.add32 rs1 rs2
def funcFsubS : Handler := fp32Func fun rs1 rs2 => fpu.sub32 rs1 rs2
def funcFmulS : Handler := fp32Func fun rs1 rs2 => fpu.mul32 rs1 rs2
def funcFdivS : Handler := fp32Func fun rs1 rs2 => fpu.div32 rs1 rs2
def funcFsqrtS : Handler := fp32Func fun rs1 _ => fpu.sqrtf rs1
def funcFminS : Handler := fp32Func fun rs1 rs2 => if fpu.lt32 rs1 rs2 then rs1 else rs2
def funcFmaxS : Handler := fp32Func fun rs1 rs2 => if fpu.gt32 rs1 rs2 then rs1 else rs2

def fp64Func (expr : F64 → F64 → F64) : Handler := fun s inst =>
  let rs1 := (s.fp inst.rs1).d
  let rs2 := (s.fp inst.rs2).d
  .ok (s.setFp inst.rd ((s.fp inst.rd).setD (expr rs1 rs2)), inst)

def funcFaddD : Handler := fp64Func fun rs1 rs2 => fpu.add64 rs1 rs2
def funcFsubD : Handler := fp64Func fun rs1 rs2 => fpu.sub64 rs1 rs2
def funcFmulD : Handler := fp64Func fun rs1 rs2 => fpu.mul64 rs1 rs2
def funcFdivD : Handler := fp64Func fun rs1 rs2 => fpu.div64 rs1 rs2
def funcFsqrtD : Handler := fp64Func fun rs1 _ => fpu.sqrt rs1
def funcFminD : Handler := fp64Func fun rs1 rs2 => if fpu.lt64 rs1 rs2 then rs1 else rs2
def funcFmaxD : Handler := fp64Func fun rs1 rs2 => if fpu.gt64 rs1 rs2 then rs1 else rs2

/-! ### Sign injection -/

def fsgnj32Func (n x : Bool) : Handler := fun s inst =>
  let rs1 := (s.fp inst.rs1).w
  let rs2 := (s.fp inst.rs2).w
  .ok (s.setFp inst.rd
    ((s.fp inst.rd).setV ((fsgnj32 rs1 rs2 n x).setWidth 64 ||| upperOnes)), inst)

def funcFsgnjS : Handler := fsgnj32Func false false
def funcFsgnjnS : Handler := fsgnj32Func true false
def funcFsgnjxS : Handler := fsgnj32Func false true

def fsgnj64Func (n x : Bool) : Handler := fun s inst =>
  let rs1 := (s.fp inst.rs1).v
  let rs2 := (s.fp inst.rs2).v
  .ok (s.setFp inst.rd ((s.fp inst.rd).setV (fsgnj64 rs1 rs2 n x)), inst)

def funcFsgnjD : Handler := fsgnj64Func false false
def funcFsgnjnD : Handler := fsgnj64Func true false
def funcFsgnjxD : Handler := fsgnj64Func false true

/-! ### Conversions, moves, comparisons and classification -/

/-- An integer register computed from one floating-point register. -/
def fpToGpFunc (expr : FpReg → Word) : Handler := fun s inst =>
  .ok (s.setGp inst.rd (expr (s.fp inst.rs1)), inst)

/-- A single-precision result computed from one integer register. -/
def gpToF32Func (expr : Word → F32) : Handler := fun s inst =>
  .ok (s.setFp inst.rd ((s.fp inst.rd).setF (expr (s.gp inst.rs1))), inst)

/-- A double-precision result computed from one integer register. -/
def gpToF64Func (expr : Word → F64) : Handler := fun s inst =>
  .ok (s.setFp inst.rd ((s.fp inst.rd).setD (expr (s.gp inst.rs1))), inst)

def funcFcvtWS : Handler := fpToGpFunc fun r => sext32 (fpu.llrintf r.f)
def funcFcvtWuS : Handler := fpToGpFunc fun r => sext32 (fpu.llrintf r.f)
def funcFcvtWD : Handler := fpToGpFunc fun r => sext32 (fpu.llrint r.d)
def funcFcvtWuD : Handler := fpToGpFunc fun r => sext32 (fpu.llrint r.d)

def funcFcvtSW : Handler := gpToF32Func fun x => fpu.f32OfI32 (x.setWidth 32)
def funcFcvtSWu : Handler := gpToF32Func fun x => fpu.f32OfU32 (x.setWidth 32)
def funcFcvtDW : Handler := gpToF64Func fun x => fpu.f64OfI32 (x.setWidth 32)
def funcFcvtDWu : Handler := gpToF64Func fun x => fpu.f64OfU32 (x.setWidth 32)

def funcFmvXW : Handler := fpToGpFunc fun r => r.w.signExtend 64

def funcFmvWX : Handler := fun s inst =>
  .ok (s.setFp inst.rd ((s.fp inst.rd).setW ((s.gp inst.rs1).setWidth 32)), inst)

def funcFmvXD : Handler := fpToGpFunc fun r => r.v

def funcFmvDX : Handler := fun s inst =>
  .ok (s.setFp inst.rd ((s.fp inst.rd).setV (s.gp inst.rs1)), inst)

def fcmp32Func (expr : F32 → F32 → Bool) : Handler := fun s inst =>
  let rs1 := (s.fp inst.rs1).f
  let rs2 := (s.fp inst.rs2).f
  .ok (s.setGp inst.rd (cbool (expr rs1 rs2)), inst)

def funcFeqS : Handler := fcmp32Func fpu.eq32
def funcFltS : Handler := fcmp32Func fpu.lt32
def funcFleS : Handler := fcmp32Func fpu.le32

def fcmp64Func (expr : F64 → F64 → Bool) : Handler := fun s inst =>
  let rs1 := (s.fp inst.rs1).d
  let rs2 := (s.fp inst.rs2).d
  .ok (s.setGp inst.rd (cbool (expr rs1 rs2)), inst)

def funcFeqD : Handler := fcmp64Func fpu.eq64
def funcFltD : Handler := fcmp64Func fpu.lt64
def funcFleD : Handler := fcmp64Func fpu.le64

def funcFclassS : Handler := fpToGpFunc fun r => (f32Classify r.f).setWidth 64
def funcFclassD : Handler := fpToGpFunc fun r => (f64Classify r.d).setWidth 64

def funcFcvtLS : Handler := fpToGpFunc fun r => fpu.llrintf r.f
def funcFcvtLuS : Handler := fpToGpFunc fun r => fpu.llrintf r.f
def funcFcvtLD : Handler := fpToGpFunc fun r => fpu.llrint r.d
def funcFcvtLuD : Handler := fpToGpFunc fun r => fpu.llrint r.d

def funcFcvtSL : Handler := gpToF32Func fpu.f32OfI64
def funcFcvtSLu : Handler := gpToF32Func fpu.f32OfU64
def funcFcvtDL : Handler := gpToF64Func fpu.f64OfI64
def funcFcvtDLu : Handler := gpToF64Func fpu.f64OfU64

def funcFcvtSD : Handler := fun s inst =>
  .ok (s.setFp inst.rd ((s.fp inst.rd).setF (fpu.f32OfF64 (s.fp inst.rs1).d)), inst)

def funcFcvtDS : Handler := fun s inst =>
  .ok (s.setFp inst.rd ((s.fp inst.rd).setD (fpu.f64OfF32 (s.fp inst.rs1).f)), inst)

/-! ### The table -/

/-- `funcs`, in the order of the source. -/
def funcs : List Handler := [
  funcLb, funcLh, funcLw, funcLd,
  funcLbu, funcLhu, funcLwu,
  funcEmpty, -- fence
  funcEmpty, -- fence_i
  funcAddi, funcSlli, funcSlti, funcSltiu,
  funcXori, funcSrli, funcSrai, funcOri,
  funcAndi, funcAuipc, funcAddiw, funcSlliw,
  funcSrliw, funcSraiw, funcSb, funcSh,
  funcSw, funcSd, funcAdd, funcSll,
  funcSlt, funcSltu, funcXor, funcSrl,
  funcOr, funcAnd, funcMul, funcMulh,
  funcMulhsu, funcMulhu, funcDiv, funcDivu,
  funcRem, funcRemu, funcSub, funcSra,
  funcLui, funcAddw, funcSllw, funcSrlw,
  funcMulw, funcDivw, funcDivuw, funcRemw,
  funcRemuw, funcSubw, funcSraw, funcBeq,
  funcBne, funcBlt, funcBge, funcBltu,
  funcBgeu, funcJalr, funcJal, funcEcall,
  funcCsrrw, funcCsrrs, funcCsrrc, funcCsrrwi,
  funcCsrrsi, funcCsrrci, funcFlw, funcFsw,
  funcFmaddS fpu, funcFmsubS fpu, funcFnmsubS fpu, funcFnmaddS fpu,
  funcFaddS fpu, funcFsubS fpu, funcFmulS fpu, funcFdivS fpu,
  funcFsqrtS fpu, funcFsgnjS, funcFsgnjnS, funcFsgnjxS,
  funcFminS fpu, funcFmaxS fpu, funcFcvtWS fpu, funcFcvtWuS fpu,
  funcFmvXW, funcFeqS fpu, funcFltS fpu, funcFleS fpu,
  funcFclassS, funcFcvtSW fpu, funcFcvtSWu fpu, funcFmvWX,
  funcFcvtLS fpu, funcFcvtLuS fpu, funcFcvtSL fpu, funcFcvtSLu fpu,
  funcFld, funcFsd, funcFmaddD fpu, funcFmsubD fpu,
  funcFnmsubD fpu, funcFnmaddD fpu, funcFaddD fpu, funcFsubD fpu,
  funcFmulD fpu, funcFdivD fpu, funcFsqrtD fpu, funcFsgnjD,
  funcFsgnjnD, funcFsgnjxD, funcFminD fpu, funcFmaxD fpu,
  funcFcvtSD fpu, funcFcvtDS fpu, funcFeqD fpu, funcFltD fpu,
  funcFleD fpu, funcFclassD, funcFcvtWD fpu, funcFcvtWuD fpu,
  funcFcvtDW fpu, funcFcvtDWu fpu, funcFcvtLD fpu, funcFcvtLuD fpu,
  funcFmvXD, funcFcvtDL fpu, funcFcvtDLu fpu, funcFmvDX]

/-- `funcs[type]`; the table has an entry for every type. -/
def func (t : InstType) : Handler := (funcs fpu).getD t.ctorIdx funcEmpty

/-! ### The block interpreter -/

/-- What the loop body does with the fetched word: decode, execute, reset `x0`. -/
def execWord (rawData : BitVec 32) (s : State) (inst : Inst) : Except Stop (State × Inst) := do
  let inst ← decodeInst inst rawData
  let (s, inst) ← func fpu inst.type s inst
  .ok (s.setGp Reg.zero 0, inst)

/-- One pass through the loop body, up to the test. -/
def execIter (s : State) (inst : Inst) : Except Stop (State × Inst) := do
  let rawData ← s.load s.pc 4
  execWord fpu rawData s inst

/-- The length by which the loop advances `pc`. -/
def Inst.length (inst : Inst) : Word := if inst.rvc then 2 else 4

/-- How a loop with a budget of instructions ends. -/
inductive Loop (α : Type)
  /-- The budget is spent; the loop would go on from here. -/
  | running (a : α)
  /-- The loop was left with some of the budget unspent. -/
  | left (budget : Nat) (a : α)

/-- `exec_block_interp`, allowed `budget` instructions. -/
def execBlockInterp : Nat → State → Inst → Except Stop (Loop (State × Inst))
  | 0, s, inst => .ok (.running (s, inst))
  | budget + 1, s, inst => do
      let (s, inst) ← execIter fpu s inst
      if inst.continueExec then .ok (.left budget (s, inst))
      else execBlockInterp budget { s with pc := s.pc + inst.length } inst

end

end Rvemu
