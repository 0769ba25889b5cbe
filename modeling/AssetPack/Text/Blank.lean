/-!
# Blank characters — two notions, kept apart

Shader text is trimmed by two different rules. A *blank* is any character with the property
`White_Space`; it counts at the ends of lines and in pattern files. A *linear blank* is one of
the four characters that separate tokens inside a line: space, tab, vertical tab and form feed.
Every linear blank is a blank, line ends are blanks that are not linear, and a no-break space is
a blank that separates nothing.
-/

set_option autoImplicit false

namespace AssetPack.Text

/-- The property `White_Space`, range by range. -/
def isBlank (c : Char) : Bool :=
  ('\t' ≤ c && c ≤ '\r') || c == ' ' || c == '\x85' || c == '\xa0' || c == '\u1680' ||
    ('\u2000' ≤ c && c ≤ '\u200a') || c == '\u2028' || c == '\u2029' || c == '\u202f' ||
    c == '\u205f' || c == '\u3000'

/-- Space, tab, vertical tab and form feed: what separates two tokens of one line. -/
def isLinearBlank (c : Char) : Bool :=
  c == ' ' || c == '\t' || c == '\x0b' || c == '\x0c'

theorem isBlank_of_isLinearBlank {c : Char} (h : isLinearBlank c = true) : isBlank c = true := by
  simp only [isLinearBlank, Bool.or_eq_true, beq_iff_eq] at h
  rcases h with ((rfl | rfl) | rfl) | rfl <;> decide

/-! ## Trimming -/

/-- The text without the characters of `p` at its end. -/
def trimEndWith (p : Char → Bool) (s : List Char) : List Char :=
  (s.reverse.dropWhile p).reverse

/-- The text without the characters of `p` at either end. -/
def trimWith (p : Char → Bool) (s : List Char) : List Char :=
  trimEndWith p (s.dropWhile p)

/-- The text without blanks at its end. -/
def trimEnd (s : List Char) : List Char := trimEndWith isBlank s

/-- The text without blanks at either end. -/
def trim (s : List Char) : List Char := trimWith isBlank s

theorem trimEndWith_nil (p : Char → Bool) : trimEndWith p [] = [] := rfl

/-- What is cut from the end is a run of characters of `p`, and nothing else is lost. -/
theorem trimEndWith_append (p : Char → Bool) (s : List Char) :
    trimEndWith p s ++ (s.reverse.takeWhile p).reverse = s := by
  rw [trimEndWith, ← List.reverse_append, List.takeWhile_append_dropWhile, List.reverse_reverse]

end AssetPack.Text
