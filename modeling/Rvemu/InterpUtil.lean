/-
`interp_util.h`: wide multiplication, sign injection and classification.

Signed arithmetic wraps here, as it does where the compiler makes nothing of an
overflow.  `mulhChecked` and `mulhsuChecked` are the same functions under the rules
of C, which has no result then.
-/
import Rvemu.Lib.Checked
import Rvemu.Types

namespace Rvemu

/-! ### The high half of a product -/

/-- The high word of an unsigned product, by 32-bit halves. -/
def mulhu (a b : Word) : Word :=
  let a0 : Word := (a.setWidth 32).setWidth 64
  let a1 : Word := a >>> 32
  let b0 : Word := (b.setWidth 32).setWidth 64
  let b1 : Word := b >>> 32
  let t := a1 * b0 + ((a0 * b0) >>> 32)
  let y1 : BitVec 32 := t.setWidth 32
  let y2 : BitVec 32 := (t >>> 32).setWidth 32
  let t := a0 * b1 + y1.setWidth 64
  -- the source assigns `y1` once more here and never reads it
  let t := a1 * b1 + y2.setWidth 64 + (t >>> 32)
  let y2 : BitVec 32 := t.setWidth 32
  let y3 : BitVec 32 := (t >>> 32).setWidth 32
  (y3.setWidth 64 <<< 32) ||| y2.setWidth 64

/-- A C truth value as an integer. -/
def cbool (b : Bool) : Word := if b then 1 else 0

def mulh (a b : Word) : Word :=
  let negate := a.slt 0 != b.slt 0
  let res := mulhu (if a.slt 0 then -a else a) (if b.slt 0 then -b else b)
  if negate then ~~~res + cbool (a * b == 0) else res

def mulhsu (a b : Word) : Word :=
  let negate := a.slt 0
  let res := mulhu (if a.slt 0 then -a else a) b
  if negate then ~~~res + cbool (a * b == 0) else res

/-- `x < 0 ? -x : x`, or nothing if the negation overflows. -/
def absChecked (x : Word) : Option Word := if x.slt 0 then Checked.neg x else some x

/-- `mulh`, or nothing if one of its operations on `int64_t` overflows. -/
def mulhChecked (a b : Word) : Option Word := do
  let negate := a.slt 0 != b.slt 0
  let x ← absChecked a
  let y ← absChecked b
  let res := mulhu x y
  if negate then (Checked.mul a b).map fun product => ~~~res + cbool (product == 0) else some res

/-- `mulhsu` in the same way.  Its second operand is unsigned, and so is the product. -/
def mulhsuChecked (a b : Word) : Option Word := do
  let negate := a.slt 0
  let x ← absChecked a
  let res := mulhu x b
  some (if negate then ~~~res + cbool (a * b == 0) else res)

/-! ### Sign injection -/

/-- `fsgnj32` and `fsgnj64`: the sign comes from `b`, complemented by `n` or
combined with that of `a` by `x`. -/
def fsgnj {w : Nat} (sign a b : BitVec w) (n x : Bool) : BitVec w :=
  let v := if x then a else if n then sign else 0
  (a &&& ~~~sign) ||| ((v ^^^ b) &&& sign)

def fsgnj32 (a b : BitVec 32) (n x : Bool) : BitVec 32 := fsgnj (1 <<< 31) a b n x

def fsgnj64 (a b : BitVec 64) (n x : Bool) : BitVec 64 := fsgnj (1 <<< 63) a b n x

/-! ### Classification -/

/-- The mask both classifiers return, from what they find out about the value. -/
def classMask (sign infOrNaN subnormalOrZero fracZero isNaN isSNaN : Bool) : BitVec 16 :=
  let bit (b : Bool) (k : Nat) : BitVec 16 := (if b then 1 else 0) <<< k
  bit (sign && infOrNaN && fracZero) 0 |||
  bit (sign && !infOrNaN && !subnormalOrZero) 1 |||
  bit (sign && subnormalOrZero && !fracZero) 2 |||
  bit (sign && subnormalOrZero && fracZero) 3 |||
  bit (!sign && infOrNaN && fracZero) 7 |||
  bit (!sign && !infOrNaN && !subnormalOrZero) 6 |||
  bit (!sign && subnormalOrZero && !fracZero) 5 |||
  bit (!sign && subnormalOrZero && fracZero) 4 |||
  bit (isNaN && isSNaN) 8 ||| bit (isNaN && !isSNaN) 9

def f32Classify (ui : F32) : BitVec 16 :=
  let infOrNaN := ((ui >>> 23) &&& 0xff) == 0xff
  let subnormalOrZero := ((ui >>> 23) &&& 0xff) == 0
  let sign := (ui >>> 31) != 0
  let fracZero := (ui &&& 0x007fffff) == 0
  let isNaN := (~~~ui &&& 0x7f800000) == 0 && (ui &&& 0x007fffff) != 0
  let isSNaN := (ui &&& 0x7fc00000) == 0x7f800000 && (ui &&& 0x003fffff) != 0
  classMask sign infOrNaN subnormalOrZero fracZero isNaN isSNaN

def f64Classify (ui : F64) : BitVec 16 :=
  let infOrNaN := ((ui >>> 52) &&& 0x7ff) == 0x7ff
  let subnormalOrZero := ((ui >>> 52) &&& 0x7ff) == 0
  let sign := (ui >>> 63) != 0
  let fracZero := (ui &&& 0x000fffffffffffff) == 0
  let isNaN := (~~~ui &&& 0x7ff0000000000000) == 0 && (ui &&& 0x000fffffffffffff) != 0
  let isSNaN := (ui &&& 0x7ff8000000000000) == 0x7ff0000000000000 &&
    (ui &&& 0x0007ffffffffffff) != 0
  classMask sign infOrNaN subnormalOrZero fracZero isNaN isSNaN

end Rvemu
