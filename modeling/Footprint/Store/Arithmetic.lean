import Footprint.Decimal.Reading
import Footprint.Store.Equality
import Footprint.Value.Fault

set_option autoImplicit false

/-!
The arithmetic operators. Booleans count as 0 and 1, integers have 64 bits and overflow is a fault,
and an integer beside a float becomes one. Sequences can be joined and repeated.
-/

namespace Footprint

/-- The longest sequence that an operator makes: items, or bytes of a string. -/
def maxLength : Nat := 10000000

def checkLength (n : Nat) : Except Fault Unit := if n > maxLength then .error .tooLong else .ok ()

/-- An integer as a value, if it has 64 bits. -/
def narrow (n : Int) : Except Fault Value :=
  match Decimal.narrow? n with
  | some w => .ok (.int w)
  | none => .error .integerOverflow

/-- The quotient rounded to the floor, in 64-bit arithmetic: that toward zero, less one if something
remains and the signs differ. -/
def integerQuotient (a b : Int64) : Except Fault Value :=
  match Decimal.narrow? (a.toInt.tdiv b.toInt) with
  | some q => .ok (.int (if a % b ≠ 0 ∧ ¬(a < 0 ↔ b < 0) then q - 1 else q))
  | none => .error .integerOverflow

/-- The remainder with the sign of the divisor, in 64-bit arithmetic. -/
def integerRemainder (a b : Int64) : Int64 :=
  let r := a % b
  if r ≠ 0 ∧ ¬(r < 0 ↔ b < 0) then r + b else r

/-- A product, if it has 64 bits. -/
def product? (a b : Int64) : Option Int64 := Decimal.narrow? (a.toInt * b.toInt)

/-- `acc` times a power of `base` by repeated squaring, if each product on the way has 64 bits. -/
def scaledPower? (acc base : Int64) (exponent : Nat) : Option Int64 :=
  if exponent = 0 then some acc
  else
    (if exponent % 2 = 1 then product? acc base else some acc).bind fun acc =>
      if exponent = 1 then some acc
      else (product? base base).bind fun square => scaledPower? acc square (exponent / 2)
termination_by exponent

/-- A power with an exponent of at most 32 bits. -/
def integerPower (a b : Int64) : Except Fault Value :=
  let exponent := b.toInt.toNat
  if exponent ≥ Nat.pow 2 32 then .error .integerOverflow
  else
    match scaledPower? 1 a exponent with
    | some n => .ok (.int n)
    | none => .error .integerOverflow

def integerOp (op : BinaryOp) (a b : Int64) : Except Fault Value :=
  match op with
  | .add => narrow (a.toInt + b.toInt)
  | .sub => narrow (a.toInt - b.toInt)
  | .mul => narrow (a.toInt * b.toInt)
  | .div =>
    if b = 0 then .error .divisionByZero
    else .ok (.float (Binary64.ofInt64 a / Binary64.ofInt64 b))
  | .floorDiv => if b = 0 then .error .integerFloorByZero else integerQuotient a b
  | .mod => if b = 0 then .error .integerModuloByZero else .ok (.int (integerRemainder a b))
  | .pow =>
    if b < 0 then
      if a = 0 then .error .zeroToNegativePower
      else .ok (.float ((Binary64.ofInt64 a).pow (Binary64.ofInt64 b)))
    else integerPower a b

def floatModulo (x y : Float) : Float :=
  let r := Binary64.rem x y
  if r != 0.0 && (r < 0.0) != (y < 0.0) then r + y else r

def floatOp (op : BinaryOp) (x y : Float) : Except Fault Value :=
  match op with
  | .add => .ok (.float (x + y))
  | .sub => .ok (.float (x - y))
  | .mul => .ok (.float (x * y))
  | .div => if y == 0.0 then .error .floatDivisionByZero else .ok (.float (x / y))
  | .floorDiv => if y == 0.0 then .error .floatFloorByZero else .ok (.float (x / y).floor)
  | .mod => if y == 0.0 then .error .floatModuloByZero else .ok (.float (floatModulo x y))
  | .pow =>
    if x == 0.0 && y < 0.0 then .error .zeroToNegativePower
    else if x < 0.0 && Binary64.hasFraction y then .error .complexResult
    else .ok (.float (x.pow y))

/-- How often a sequence of `size` items is written to have it so many times: not at all for a
negative number, nor if it is empty, since it is then its own repetition. -/
def rounds (size : Nat) (times : Int64) : Nat := if size = 0 then 0 else times.toInt.toNat

namespace Store

/-- A sequence repeated so many times, not at all for a negative number. -/
def repeated (s : Store) (v : Value) (times : Int64) : Except Fault (Edit Value) :=
  match v with
  | .str t => do
    let n := rounds t.utf8ByteSize times
    checkLength (t.utf8ByteSize * n)
    return Edit.value (.str (n.repeat (· ++ t) ""))
  | .list r => do
    let items := s.items r
    let n := rounds items.size times
    checkLength (items.size * n)
    return newList (n.repeat (· ++ items) #[])
  | .tuple _ items => do
    let n := rounds items.length times
    checkLength (items.length * n)
    return newTuple (List.replicate n items).flatten
  | v => .error (.repetition v.typeName)

/-- Two values of which one at least is no number, joined. -/
def joined (s : Store) (a b : Value) : Except Fault (Edit Value) :=
  match a, b with
  | .str t, .str u => do
    checkLength (t.utf8ByteSize + u.utf8ByteSize)
    return Edit.value (.str (t ++ u))
  | .list r, .list q => do
    let items := s.items r ++ s.items q
    checkLength items.size
    return newList items
  | .tuple _ xs, .tuple _ ys => do
    checkLength (xs.length + ys.length)
    return newTuple (xs ++ ys)
  | a, b =>
    if a.isSequence then .error (.concatenation a.typeName b.typeName)
    else .error (.operands .add a.typeName b.typeName)

/-- An operator on two values of which one at least is no number. -/
def sequenceOp (s : Store) (op : BinaryOp) (a b : Value) : Except Fault (Edit Value) :=
  let repeatBy (v times : Value) : Except Fault (Edit Value) :=
    match times.asInt? with
    | some n => s.repeated v n
    | none => .error (.repetition times.typeName)
  match op with
  | .add => s.joined a b
  | .mul =>
    if a.isSequence then repeatBy a b
    else if b.isSequence then repeatBy b a
    else .error (.operands op a.typeName b.typeName)
  | _ => .error (.operands op a.typeName b.typeName)

def binary (s : Store) (op : BinaryOp) (a b : Value) : Except Fault (Edit Value) :=
  match a.asInt?, b.asInt? with
  | some m, some n => (integerOp op m n).map Edit.value
  | _, _ =>
    match a.asFloat?, b.asFloat? with
    | some x, some y => (floatOp op x y).map Edit.value
    | _, _ => s.sequenceOp op a b

def unary (s : Store) (op : UnaryOp) (a : Value) : Except Fault Value :=
  match op with
  | .not => .ok (.bool (!s.isTruthy a))
  | .neg =>
    match a with
    | .float x => .ok (.float (-x))
    | v =>
      match v.asInt? with
      | some n => narrow (-n.toInt)
      | none => .error (.unaryOperand op v.typeName)
  | .pos =>
    match a with
    | .float x => .ok (.float x)
    | v =>
      match v.asInt? with
      | some n => .ok (.int n)
      | none => .error (.unaryOperand op v.typeName)

end Store

end Footprint
