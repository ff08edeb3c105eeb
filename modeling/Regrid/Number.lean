import Regrid.Scalar
import Regrid.Decimal.Shortest

/-!
# Numbers as they are given

Input numbers are whole or real, and it shows: a real never names a cell by itself, it is truncated
first. The conversions here are the only ones the library makes, and comparisons are exact.
-/

namespace Regrid

/-- A number as it was written: without or with a fractional part. -/
inductive Number where
  | whole (n : Int)
  | real (x : Float)

namespace Number

instance (n : Nat) : OfNat Number n := ⟨whole n⟩

/-- The nearest binary number. -/
def toFloat : Number → Float
  | whole n => Float.ofInt n
  | real x => x

/-- Whether a number was written with a fractional part. -/
def isReal : Number → Bool
  | whole _ => false
  | real _ => true

/-- Why a number names no integer. -/
inductive NotInteger where
  /-- It is no number. -/
  | undefined
  /-- It is too large. -/
  | tooLarge
  deriving DecidableEq, Repr

/-- The integer next to a number on the side of zero. -/
def truncate : Number → Except NotInteger Int
  | whole n => .ok n
  | real x =>
    match Decimal.Binary.ofFloat x with
    | .undefined => .error .undefined
    | .infinite _ => .error .tooLarge
    | b => .ok (b.truncate?.getD 0)

/-- The integer nearest to a number; of two equally near the even one. -/
def round : Number → Except NotInteger Int
  | whole n => .ok n
  | real x =>
    match Decimal.Binary.ofFloat x with
    | .undefined => .error .undefined
    | .infinite _ => .error .tooLarge
    | b => .ok (b.round?.getD 0)

/-- The least integer of 64 bits with sign. -/
def leastInt64 : Int := -(Decimal.twoTo 63)

/-- Whether an integer fits into 64 bits with sign. -/
def inInt64 (n : Int) : Bool :=
  leastInt64 ≤ n && n < -leastInt64

/-- The truncated number as a stored identifier, which has 64 bits. -/
def identifier : Number → Except NotInteger Int
  | whole n => if inInt64 n then .ok n else .error .tooLarge
  | real x => do
    let n ← (real x).truncate
    if inInt64 n then .ok n else .error .tooLarge

/-- The exact value of a finite number. -/
def toRat? : Number → Option Rat
  | whole n => some n
  | real x => (Decimal.Binary.ofFloat x).toRat?

/-- How a number compares with another one, exactly. One that is none compares with nothing. -/
def compare? (x y : Number) : Option Ordering :=
  match x.toRat?, y.toRat? with
  | some p, some q => some (if p < q then .lt else if p = q then .eq else .gt)
  | p, q =>
    -- one of them is infinite or no number, and to that all finite numbers are alike
    let a := if p.isSome then 0.0 else x.toFloat
    let b := if q.isSome then 0.0 else y.toFloat
    if a < b then some .lt else if a == b then some .eq else if b < a then some .gt else none

/-- Whether a number is below an integer. -/
def below (x : Number) (n : Int) : Bool := x.compare? (whole n) == some .lt

/-- Whether a number is above an integer. -/
def above (x : Number) (n : Int) : Bool := x.compare? (whole n) == some .gt

/-- Whether an integer is at most a number. -/
def atLeast (x : Number) (n : Int) : Bool := x.above n || x.compare? (whole n) == some .eq

/-- Whether a number differs from zero; one that is no number does. -/
def isTrue : Number → Bool
  | whole n => n != 0
  | real x => x != 0

/-- The text of a number: a whole one in plain digits, a real one as its shortest decimal. -/
def text : Number → String
  | whole n => toString n
  | real x => Decimal.shortest x

end Number

end Regrid
