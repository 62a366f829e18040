/-! Blank space in source text: which characters it consists of, trimming a line and cutting it
into words. -/
namespace RegisterMachine

abbrev Token := List Char

abbrev Line := List Char

namespace Text

/-- Closed ranges of the characters with the property White_Space, ascending and apart. -/
def blankRanges : List (Nat × Nat) :=
  [(0x09, 0x0D), (0x20, 0x20), (0x85, 0x85), (0xA0, 0xA0), (0x1680, 0x1680), (0x2000, 0x200A),
   (0x2028, 0x2029), (0x202F, 0x202F), (0x205F, 0x205F), (0x3000, 0x3000)]

def inRanges (ranges : List (Nat × Nat)) (n : Nat) : Bool :=
  ranges.any fun r => r.1 ≤ n && n ≤ r.2

def isBlank (c : Char) : Bool := inRanges blankRanges c.toNat

def trim (line : Line) : Line :=
  ((line.dropWhile isBlank).reverse.dropWhile isBlank).reverse

def splitWhere (p : Char → Bool) (text : List Char) : List (List Char) :=
  text.foldr (fun c pieces => if p c then [] :: pieces else pieces.modifyHead (c :: ·)) [[]]

def words (line : Line) : List Token := (splitWhere isBlank line).filter fun w => !w.isEmpty

/-- The lines of a text, which line feeds part. A carriage return in front of one is blank space at
the end of its line. -/
def lines (text : List Char) : List Line := splitWhere (· == '\n') text

theorem splitWhere_cons (p : Char → Bool) (c : Char) (text : List Char) :
    splitWhere p (c :: text) =
      if p c then [] :: splitWhere p text else (splitWhere p text).modifyHead (c :: ·) := rfl

theorem not_of_mem_splitWhere {p : Char → Bool} {text piece : List Char} {c : Char}
    (hp : piece ∈ splitWhere p text) (hc : c ∈ piece) : p c = false := by
  induction text generalizing piece with
  | nil => simp_all [splitWhere]
  | cons d rest ih =>
    rw [splitWhere_cons] at hp
    split at hp
    · rcases List.mem_cons.1 hp with rfl | hp
      · simp at hc
      · exact ih hp hc
    · rename_i hd
      cases hs : splitWhere p rest with
      | nil => simp [hs] at hp
      | cons first others =>
        rw [hs] at hp ih
        rcases List.mem_cons.1 hp with rfl | hp
        · rcases List.mem_cons.1 hc with rfl | hc
          · simpa using hd
          · exact ih List.mem_cons_self hc
        · exact ih (List.mem_cons_of_mem _ hp) hc

theorem not_isBlank_of_mem_words {line : Line} {w : Token} {c : Char} (hw : w ∈ words line)
    (hc : c ∈ w) : isBlank c = false :=
  not_of_mem_splitWhere (List.mem_filter.1 hw).1 hc

theorem ne_nil_of_mem_words {line : Line} {w : Token} (hw : w ∈ words line) : w ≠ [] := by
  simpa [words] using (List.mem_filter.1 hw).2

def quoted (t : Token) : String := s!"`{String.ofList t}`"

end Text

end RegisterMachine
