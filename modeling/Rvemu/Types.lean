/-
The data the emulator works on: `rvemu.h`, `regs.h` and `types.h`.

Registers, immediates and addresses are machine words of the widths the C types
have.  A register number is five bits wide, so that an index into either register
file cannot be out of range.  The floating-point values `f32` and `f64` are their
bit patterns; what the host's floating-point unit computes on them is the
parameter `HostFpu`.

`World` is what the C code reaches without naming it: the address space of the
emulator process, its output, the descriptors it has given up, whether standard error
is still there, and a count of the calls made to the host, by which the host's
answers are told apart.
-/
import Rvemu.Lib.Memory

namespace Rvemu

open Memory

/-- `uint64_t`; also a guest or host address. -/
abbrev Word := BitVec 64

/-- `f32`, by its bits. -/
abbrev F32 := BitVec 32

/-- `f64`, by its bits. -/
abbrev F64 := BitVec 64

/-- The number of a general or floating-point register. -/
abbrev RegNo := BitVec 5

/-! ### How the emulator process ends -/

/-- Every way the process stops other than by running on. -/
inductive Stop
  /-- `fatal`: the message on standard error, then `exit(1)`. -/
  | fatal (msg : String)
  /-- A failed `assert`. -/
  | assertFail (expr : String)
  /-- An access to host memory that is not mapped, or not for that use, or that has nothing
  behind it. -/
  | segv (addr : Word)
  /-- A signal that the host sends the process during a call. -/
  | signal (no : BitVec 32)
  /-- A host integer division by zero, or one that overflows. -/
  | fpe
  /-- `exit(code)`, as the guest asked. -/
  | exit (code : BitVec 32)
  deriving DecidableEq, Repr

/-- `assert(cond)`. -/
def assertThat (cond : Bool) (expr : String) : Except Stop Unit :=
  if cond then .ok () else .error (.assertFail expr)

/-- `unreachable()`. -/
def unreachable {α : Type} : Except Stop α := .error (.fatal "unreachable")

/-! ### Registers

`Reg` holds the entries of `enum gp_reg_type_t` that the code names.
-/

namespace Reg

def zero : RegNo := 0
def ra : RegNo := 1
def sp : RegNo := 2
def a0 : RegNo := 10
def a1 : RegNo := 11
def a2 : RegNo := 12
def a3 : RegNo := 13
def a7 : RegNo := 17

end Reg

/-- `fp_reg_t`: eight bytes, of which `w` and `f` are the lower four. -/
structure FpReg where
  v : Word
  deriving DecidableEq, Repr, Inhabited

namespace FpReg

def w (r : FpReg) : BitVec 32 := r.v.setWidth 32

def f (r : FpReg) : F32 := r.v.setWidth 32

def d (r : FpReg) : F64 := r.v

/-- Assigning `.w` leaves the upper four bytes of the union as they are. -/
def setW (r : FpReg) (x : BitVec 32) : FpReg := { v := r.v.extractLsb' 32 32 ++ x }

/-- Assigning `.f` leaves the upper four bytes of the union as they are. -/
def setF (r : FpReg) (x : F32) : FpReg := { v := r.v.extractLsb' 32 32 ++ x }

def setD (_ : FpReg) (x : F64) : FpReg := { v := x }

def setV (_ : FpReg) (x : Word) : FpReg := { v := x }

end FpReg

/-! ### Instructions -/

/-- `enum inst_type_t`, in its order. -/
inductive InstType
  | lb | lh | lw | ld | lbu | lhu | lwu
  | fence | fence_i
  | addi | slli | slti | sltiu | xori | srli | srai | ori | andi
  | auipc | addiw | slliw | srliw | sraiw
  | sb | sh | sw | sd
  | add | sll | slt | sltu | xor | srl | or | and
  | mul | mulh | mulhsu | mulhu | div | divu | rem | remu
  | sub | sra | lui
  | addw | sllw | srlw | mulw | divw | divuw | remw | remuw | subw | sraw
  | beq | bne | blt | bge | bltu | bgeu
  | jalr | jal | ecall
  | csrrc | csrrci | csrrs | csrrsi | csrrw | csrrwi
  | flw | fsw
  | fmadd_s | fmsub_s | fnmsub_s | fnmadd_s
  | fadd_s | fsub_s | fmul_s | fdiv_s | fsqrt_s
  | fsgnj_s | fsgnjn_s | fsgnjx_s | fmin_s | fmax_s
  | fcvt_w_s | fcvt_wu_s | fmv_x_w | feq_s | flt_s | fle_s | fclass_s
  | fcvt_s_w | fcvt_s_wu | fmv_w_x | fcvt_l_s | fcvt_lu_s | fcvt_s_l | fcvt_s_lu
  | fld | fsd
  | fmadd_d | fmsub_d | fnmsub_d | fnmadd_d
  | fadd_d | fsub_d | fmul_d | fdiv_d | fsqrt_d
  | fsgnj_d | fsgnjn_d | fsgnjx_d | fmin_d | fmax_d
  | fcvt_s_d | fcvt_d_s | feq_d | flt_d | fle_d | fclass_d
  | fcvt_w_d | fcvt_wu_d | fcvt_d_w | fcvt_d_wu | fcvt_l_d | fcvt_lu_d
  | fmv_x_d | fcvt_d_l | fcvt_d_lu | fmv_d_x
  deriving DecidableEq, Repr

/-- `inst_t`: a decoded instruction.  A field a reader does not set is zero. -/
structure Inst where
  rd : RegNo := 0
  rs1 : RegNo := 0
  rs2 : RegNo := 0
  rs3 : RegNo := 0
  imm : BitVec 32 := 0
  csr : BitVec 16 := 0
  type : InstType := .lb
  rvc : Bool := false
  continueExec : Bool := false
  deriving DecidableEq, Repr

/-- `enum exit_reason_t`. -/
inductive ExitReason
  | none
  | directBranch
  | indirectBranch
  | ecall
  deriving DecidableEq, Repr, Inhabited

/-! ### The machine -/

/-- Bytes the process has written to one of its descriptors. -/
structure Output where
  fd : BitVec 32
  bytes : List (BitVec 8)
  deriving DecidableEq, Repr

/-- What lies outside the emulator's own variables. -/
structure World where
  /-- The address space of the emulator process, by host address. -/
  mem : Mem 64
  /-- What has been written so far, the oldest first. -/
  out : List Output
  /-- The descriptors the host has been asked to close, the oldest first. -/
  closed : List (BitVec 32)
  /-- Descriptor 2 is closed, or open and not for writing. -/
  stderrShut : Bool
  /-- How many calls the host has answered. -/
  clock : Nat
  deriving Inhabited

/-- `state_t`, and the world around it. -/
structure State where
  exitReason : ExitReason
  /-- Where the next block starts. -/
  reenterPc : Word
  gpRegs : RegNo → Word
  fpRegs : RegNo → FpReg
  pc : Word
  world : World
  deriving Inhabited

/-- `mmu_t`. -/
structure Mmu where
  entry : Word
  /-- The end of what is mapped for the guest, as a host address. -/
  hostAlloc : Word
  /-- The guest's program break. -/
  guestAlloc : Word
  /-- The end of the ELF image; fixed once the program is loaded. -/
  base : Word
  deriving DecidableEq, Repr

/-- `machine_t`, and the static instruction record of `exec_block_interp`. -/
structure Machine where
  state : State
  mmu : Mmu
  inst : Inst

/-- `GUEST_MEMORY_OFFSET`. -/
def guestMemoryOffset : Word := 0x088800000000

/-- `TO_HOST`. -/
def toHost (addr : Word) : Word := addr + guestMemoryOffset

/-- `TO_GUEST`. -/
def toGuest (addr : Word) : Word := addr - guestMemoryOffset

/-! ### Reading and writing the state -/

namespace State

def gp (s : State) (r : RegNo) : Word := s.gpRegs r

def fp (s : State) (r : RegNo) : FpReg := s.fpRegs r

def setGp (s : State) (r : RegNo) (v : Word) : State :=
  { s with gpRegs := Function.update s.gpRegs r v }

def setFp (s : State) (r : RegNo) (v : FpReg) : State :=
  { s with fpRegs := Function.update s.fpRegs r v }

/-- A dereference of `TO_HOST(addr)` as a value of `n` bytes. -/
def load (s : State) (addr : Word) (n : Nat) : Except Stop (BitVec (8 * n)) :=
  (s.world.mem.load (toHost addr) n).mapError .segv

/-- An assignment through `TO_HOST(addr)` of a value of `n` bytes. -/
def store (s : State) (addr : Word) (n : Nat) (v : BitVec (8 * n)) : Except Stop State :=
  match s.world.mem.store (toHost addr) n v with
  | .ok m => .ok { s with world := { s.world with mem := m } }
  | .error a => .error (.segv a)

/-- `fprintf(stderr, text)`; the text is lost where standard error does not take it. -/
def eprint (s : State) (text : String) : State :=
  { s with
    world := { s.world with
      out := if s.world.stderrShut then s.world.out
        else s.world.out ++
          [{ fd := 2, bytes := text.toList.map fun c => BitVec.ofNat 8 c.toNat }] } }

end State

/-! ### The host's floating-point unit -/

/-- The C operators and library functions on `float` and `double`, on bit patterns. -/
structure HostFpu where
  add32 : F32 → F32 → F32
  sub32 : F32 → F32 → F32
  mul32 : F32 → F32 → F32
  div32 : F32 → F32 → F32
  neg32 : F32 → F32
  sqrtf : F32 → F32
  eq32 : F32 → F32 → Bool
  lt32 : F32 → F32 → Bool
  le32 : F32 → F32 → Bool
  gt32 : F32 → F32 → Bool
  llrintf : F32 → Word
  add64 : F64 → F64 → F64
  sub64 : F64 → F64 → F64
  mul64 : F64 → F64 → F64
  div64 : F64 → F64 → F64
  neg64 : F64 → F64
  sqrt : F64 → F64
  eq64 : F64 → F64 → Bool
  lt64 : F64 → F64 → Bool
  le64 : F64 → F64 → Bool
  gt64 : F64 → F64 → Bool
  llrint : F64 → Word
  /-- `(f32)` of an `int32_t`, `uint32_t`, `int64_t`, `uint64_t` and `f64`. -/
  f32OfI32 : BitVec 32 → F32
  f32OfU32 : BitVec 32 → F32
  f32OfI64 : Word → F32
  f32OfU64 : Word → F32
  f32OfF64 : F64 → F32
  /-- `(f64)` of an `int32_t`, `uint32_t`, `int64_t`, `uint64_t` and `f32`. -/
  f64OfI32 : BitVec 32 → F64
  f64OfU32 : BitVec 32 → F64
  f64OfI64 : Word → F64
  f64OfU64 : Word → F64
  f64OfF32 : F32 → F64
  deriving Inhabited

end Rvemu
