import RegisterMachine.Assembly.Problem
import RegisterMachine.Register
/-! Labels in source text: a leading token that ends in a colon defines one. -/
namespace RegisterMachine.Label

def isMarked (t : Token) : Bool := t.getLast? == some ':'

def startsWithDigitOrSign : Token → Bool
  | [] => false
  | c :: _ => c.isDigit || c == '-' || c == '+'

def isValid (name : Token) : Bool :=
  !(name.isEmpty || name.contains ':' || startsWithDigitOrSign name
    || (Register.ofName? name).isSome)

def read (t : Token) : Except Problem Token :=
  let name := if isMarked t then t.dropLast else t
  if isValid name then .ok name else .error (.badLabel t)

end RegisterMachine.Label
