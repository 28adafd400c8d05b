/-
The conversions to integers, the minimum and maximum and the classification of RV64F
and RV64D, as the RISC-V user-level specification defines them.

A conversion rounds the exact value in the given mode; what does not fit the
integer type becomes the bound it lies beyond, and what is not a number the greatest
integer.  32-bit results are sign-extended, those of the unsigned forms too.

The minimum and the maximum prefer a number to what is not one, put the negative
zero below the positive one, and give the canonical NaN when there is no number.

A classification is a mask with one bit set, that of the operand's class.
-/
import Rvemu.Types
import Rvemu.Lib.Ieee
import Rvemu.Lib.Rounding
import Mathlib.Data.Rat.Floor

namespace Rvemu.Spec

open Ieee (Datum datum IsNan IsZero sign canonicalNan binary32 binary64)

inductive Precision
  | single
  | double
  deriving DecidableEq, Repr

/-- The interchange format of a precision. -/
def Precision.ieee : Precision → Ieee.Format
  | .single => binary32
  | .double => binary64

/-- A register as an operand; of a single-precision one the lower half. -/
def operand : (p : Precision) → FpReg → p.ieee.Bits
  | .single, r => r.f
  | .double, r => r.d

/-! ### Conversions -/

/-- The integer types a floating-point number can be converted to. -/
inductive IntType
  | w
  | wu
  | l
  | lu
  deriving DecidableEq, Repr

namespace IntType

def bits : IntType → Nat
  | w | wu => 32
  | l | lu => 64

def isSigned : IntType → Bool
  | w | l => true
  | wu | lu => false

def min (t : IntType) : ℤ := if t.isSigned then -2 ^ (t.bits - 1) else 0

def max (t : IntType) : ℤ := if t.isSigned then 2 ^ (t.bits - 1) - 1 else 2 ^ t.bits - 1

def Fits (t : IntType) (n : ℤ) : Prop := t.min ≤ n ∧ n ≤ t.max

instance (t : IntType) (n : ℤ) : Decidable (t.Fits n) := inferInstanceAs (Decidable (_ ∧ _))

/-- The integer a datum is converted to in the rounding mode `round`. -/
def convert (t : IntType) (round : ℚ → ℤ) : Datum → ℤ
  | .nan => t.max
  | .inf neg => if neg then t.min else t.max
  | .finite q => Rounding.saturate t.min t.max (round q)

/-- The register an integer of the type is written to. -/
def word (t : IntType) (n : ℤ) : Word := (BitVec.ofInt t.bits n).signExtend 64

end IntType

/-- The instruction that converts from a precision to an integer type. -/
def fcvt : Precision → IntType → InstType
  | .single, .w => .fcvt_w_s
  | .single, .wu => .fcvt_wu_s
  | .single, .l => .fcvt_l_s
  | .single, .lu => .fcvt_lu_s
  | .double, .w => .fcvt_w_d
  | .double, .wu => .fcvt_wu_d
  | .double, .l => .fcvt_l_d
  | .double, .lu => .fcvt_lu_d

/-- The rounding mode toward zero, in an instruction word. -/
def rtz : BitVec 3 := 0b001

/-! ### Minimum and maximum -/

variable {F : Ieee.Format}

/-- The negative zero and the positive one. -/
def ZeroBelow (x y : F.Bits) : Prop :=
  IsZero x ∧ IsZero y ∧ sign x = true ∧ sign y = false

instance (x y : F.Bits) : Decidable (ZeroBelow x y) := inferInstanceAs (Decidable (_ ∧ _))

/-- The order of the data, with the negative zero below the positive one. -/
def Below (x y : F.Bits) : Prop := (datum x).Less (datum y) ∨ ZeroBelow x y

instance (x y : F.Bits) : Decidable (Below x y) := inferInstanceAs (Decidable (_ ∨ _))

/-- The first of two numbers if it is the one wanted, and the second if not; of a number and
something that is not one, the number. -/
def select (first : Prop) [Decidable first] (x y : F.Bits) : F.Bits :=
  if IsNan x then if IsNan y then canonicalNan F else y
  else if IsNan y then x
  else if first then x
  else y

def minimumNumber (x y : F.Bits) : F.Bits := select (Below x y) x y

def maximumNumber (x y : F.Bits) : F.Bits := select (Below y x) x y

inductive Extremum
  | min
  | max
  deriving DecidableEq, Repr

def Extremum.number : Extremum → F.Bits → F.Bits → F.Bits
  | .min => minimumNumber
  | .max => maximumNumber

/-- The instruction that computes an extremum in a precision. -/
def fminmax : Precision → Extremum → InstType
  | .single, .min => .fmin_s
  | .single, .max => .fmax_s
  | .double, .min => .fmin_d
  | .double, .max => .fmax_d

/-! ### Classification -/

/-- The bit of a class. -/
def fclassBit : Ieee.NumberClass → Nat
  | .negInf => 0
  | .negNormal => 1
  | .negSubnormal => 2
  | .negZero => 3
  | .posZero => 4
  | .posSubnormal => 5
  | .posNormal => 6
  | .posInf => 7
  | .signalingNan => 8
  | .quietNan => 9

/-- The mask of a class. -/
def fclassMask (c : Ieee.NumberClass) : BitVec 16 := BitVec.twoPow 16 (fclassBit c)

end Rvemu.Spec
