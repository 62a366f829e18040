import RegisterMachine.Text.Blank
/-! Replacing every occurrence of a pattern in a text. -/
namespace RegisterMachine.Text

/-- Scans a text whose next `skip` characters belong to an occurrence that is already replaced. -/
def replaceFrom (pattern new : List Char) : Nat → List Char → List Char
  | _, [] => []
  | skip + 1, _ :: rest => replaceFrom pattern new skip rest
  | 0, c :: rest =>
    if pattern.isPrefixOf (c :: rest) then
      new ++ replaceFrom pattern new (pattern.length - 1) rest
    else c :: replaceFrom pattern new 0 rest

/-- The text with `new` in place of each occurrence of the pattern, which is not empty. Occurrences
are taken from the left and do not overlap; what is put in is not searched. -/
def replace (pattern new text : List Char) : List Char := replaceFrom pattern new 0 text

end RegisterMachine.Text
