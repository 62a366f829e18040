import RegisterMachine.Word
import RegisterMachine.Text.Blank
/-! Number literals: reading them from a token, and writing words in decimal. -/
namespace RegisterMachine

inductive Radix where
  | binary | octal | decimal | hexadecimal
  deriving DecidableEq, Repr

namespace Radix

def base : Radix → Nat
  | .binary => 2
  | .octal => 8
  | .decimal => 10
  | .hexadecimal => 16

end Radix

namespace Numeral

inductive Reading where
  | other
  /-- Like a number in this radix, but with a wrong digit, with none, or beyond a word. -/
  | malformed (radix : Radix)
  | value (w : Word)
  deriving DecidableEq, Repr

def digit? (c : Char) : Option Nat :=
  if '0' ≤ c ∧ c ≤ '9' then some (c.toNat - '0'.toNat)
  else if 'a' ≤ c ∧ c ≤ 'f' then some (c.toNat - 'a'.toNat + 10)
  else if 'A' ≤ c ∧ c ≤ 'F' then some (c.toNat - 'A'.toNat + 10)
  else none

def digitsFrom? (base : Nat) (n : Nat) : List Char → Option Nat
  | [] => some n
  | c :: rest =>
    match digit? c with
    | none => none
    | some d => if d < base then digitsFrom? base (n * base + d) rest else none

def magnitude? (base : Nat) : List Char → Option Nat
  | [] => none
  | digits => digitsFrom? base 0 digits

def word? (n : Int) : Option Word :=
  if -2147483648 ≤ n ∧ n ≤ 2147483647 then some (Int32.ofInt n) else none

/-- Tells the sign from the digits: whether there is one, and whether it is a minus. -/
def takeSign : Token → Bool × Bool × List Char
  | '-' :: rest => (true, true, rest)
  | '+' :: rest => (true, false, rest)
  | token => (false, false, token)

def takeRadix : List Char → Radix × List Char
  | '0' :: 'b' :: rest => (.binary, rest)
  | '0' :: 'o' :: rest => (.octal, rest)
  | '0' :: 'x' :: rest => (.hexadecimal, rest)
  | digits => (.decimal, digits)

def startsWithDigit : List Char → Bool
  | [] => false
  | c :: _ => c.isDigit

/-- Reads a literal: a sign or none, a radix marker `0b`, `0o`, `0x` or none, and digits. A sign
commits the token to being a number. -/
def read (token : Token) : Reading :=
  let (signed, negative, body) := takeSign token
  if startsWithDigit body then
    let (radix, digits) := takeRadix body
    match magnitude? radix.base digits with
    | none => .malformed radix
    | some n =>
      match word? (if negative then -(n : Int) else n) with
      | none => .malformed radix
      | some w => .value w
  else if signed then .malformed .decimal
  else .other

def write (w : Word) : List Char :=
  if w.toInt < 0 then '-' :: Nat.toDigits 10 w.toInt.natAbs else Nat.toDigits 10 w.toInt.natAbs

def hexByte (b : UInt8) : String :=
  String.ofList ([b.toNat / 16, b.toNat % 16].map fun d => (Nat.digitChar d).toUpper)

end Numeral

end RegisterMachine
