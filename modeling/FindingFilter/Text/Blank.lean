/-!
# Blank characters

The characters that count as white space, as the Unicode property `White_Space` lists them, and
the two operations on texts that depend on them. All other modules mean this set by "blank".
-/

namespace FindingFilter.Text

/-- The code points with the Unicode property `White_Space`, as closed ranges in ascending order. -/
def blankRanges : List (Nat × Nat) :=
  [(0x0009, 0x000D), (0x0020, 0x0020), (0x0085, 0x0085), (0x00A0, 0x00A0), (0x1680, 0x1680),
   (0x2000, 0x200A), (0x2028, 0x2029), (0x202F, 0x202F), (0x205F, 0x205F), (0x3000, 0x3000)]

/-- A character is blank if its code point lies in one of the ranges. -/
def isBlank (c : Char) : Bool :=
  blankRanges.any fun (lo, hi) => lo ≤ c.toNat && c.toNat ≤ hi

/-- The text without its longest blank beginning. -/
def trimStart (text : List Char) : List Char :=
  text.dropWhile isBlank

def isBlankText (text : List Char) : Bool :=
  text.all isBlank

/-- Trimming stops at the first character that is not blank. -/
theorem trimStart_cons_of_not_blank {c : Char} {text : List Char} (h : isBlank c = false) :
    trimStart (c :: text) = c :: text := by
  simp [trimStart, h]

end FindingFilter.Text
