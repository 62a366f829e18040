import RegisterMachine.Text.LetterPairs
import RegisterMachine.Text.Sigma
/-! Lower-casing of text in any script, and comparison of ASCII names in any letter case. -/
namespace RegisterMachine.Text

def lowerChar (c : Char) : List Char :=
  if c.toNat < 0x80 then [c.toLower]
  else if c = '\u0130' then ['i', '\u0307']
  else match letterRuns.find? fun r => r.contains c.toNat with
    | some r => [Char.ofNat (r.lower c.toNat)]
    | none => [c]

/-- Lowers the rest of a text; `before` is what precedes it, backwards. -/
def lowerFrom (before : List Char) : List Char → List Char
  | [] => []
  | c :: rest =>
    (if c = 'Σ' then [if sigmaEndsWord before rest then 'ς' else 'σ'] else lowerChar c)
      ++ lowerFrom (c :: before) rest

/-- The text in lower case. A capital sigma becomes the final form where it ends a word. -/
def lower (text : List Char) : List Char := lowerFrom [] text

def sameName (a b : List Char) : Bool := a.map Char.toLower == b.map Char.toLower

end RegisterMachine.Text
