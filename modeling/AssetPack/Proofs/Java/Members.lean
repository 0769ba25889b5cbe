import AssetPack.Proofs.Text.Lines

/-!
# The members that a class declares

The static members of a class are read off its text, one line after the other. This takes no
grammar, since generated text is regular: what a class declares itself stands at a depth of one tab,
begins with its modifiers, and has the type and the name in one line up to a parenthesis or a
semicolon. Members of nested classes and statements are deeper, and a nested class begins in another
way.

That two members are the same is as the language has it: fields by name, methods by name and the
types of their parameters.
-/

set_option autoImplicit false

namespace AssetPack.Java

open Text

/-- A field, or a method with the types of its parameters. -/
inductive Member where
  | field (name : List Char)
  | method (name : List Char) (types : List (List Char))
  deriving DecidableEq

namespace Member

/-- What stands behind the last space. -/
def lastWord (s : List Char) : List Char := (s.reverse.takeWhile (· != ' ')).reverse

/-- The types in a list of parameters, each the first word of its parameter. -/
def typesOf (parameters : List Char) : List (List Char) :=
  (split ',' parameters).map fun p => (p.dropWhile (· == ' ')).takeWhile (· != ' ')

/-- What a static member of a class begins with. -/
def isDeclaration (line : List Char) : Bool :=
  "\tprivate static ".toList.isPrefixOf line || "\tpublic static ".toList.isPrefixOf line

/-- Whether the type and the name go on. -/
def goesOn (c : Char) : Bool := c != '(' && c != ';'

/-- The member that a line declares. -/
def ofLine? (line : List Char) : Option Member :=
  if isDeclaration line then
    let name := lastWord (line.takeWhile goesOn)
    match line.dropWhile goesOn with
    | '(' :: r => some (.method name (typesOf (r.takeWhile (· != ')'))))
    | ';' :: _ => some (.field name)
    | _ => none
  else none

/-- A line that does not even begin like a declaration. -/
def isQuiet (line : List Char) : Bool := line.take 2 != ['\t', 'p']

theorem ofLine?_of_isQuiet {line : List Char} (h : isQuiet line = true) : ofLine? line = none := by
  have hshort : ∀ modifiers : List Char, modifiers.take 2 = ['\t', 'p'] →
      modifiers.isPrefixOf line = false := by
    intro modifiers htake
    by_contra hnot
    rw [Bool.not_eq_false, List.isPrefixOf_iff_prefix] at hnot
    obtain ⟨rest, rfl⟩ := hnot
    have hlen := congrArg List.length htake
    rw [List.length_take] at hlen
    have hle : 2 ≤ modifiers.length := by simp at hlen; omega
    rw [isQuiet, List.take_append_of_le_length hle, htake] at h
    exact absurd h (by decide)
  have hdeclaration : isDeclaration line = false := by
    rw [isDeclaration, hshort _ (by decide), hshort _ (by decide)]
    rfl
  rw [ofLine?, hdeclaration]
  rfl

/-- What may stand in front of the name of a member. -/
def isFront (front : List Char) : Bool :=
  isDeclaration front && front.getLast? == some ' ' && front.all goesOn

theorem lastWord_append {front name : List Char} (hfront : front.getLast? = some ' ')
    (hname : ∀ c ∈ name, c.isAlphanum = true) : lastWord (front ++ name) = name := by
  have hname : ∀ c ∈ name.reverse, (c != ' ') = true := by
    intro c hc
    have hword := hname c (List.mem_reverse.mp hc)
    rw [bne_iff_ne]
    rintro rfl
    exact absurd hword (by decide)
  obtain ⟨s, rfl⟩ := List.getLast?_eq_some_iff.mp hfront
  rw [lastWord, List.reverse_append, List.reverse_append, List.reverse_singleton,
    List.takeWhile_append_of_pos hname]
  simp

theorem isDeclaration_append {front : List Char} (h : isDeclaration front = true) (r : List Char) :
    isDeclaration (front ++ r) = true := by
  rw [isDeclaration, Bool.or_eq_true, List.isPrefixOf_iff_prefix, List.isPrefixOf_iff_prefix] at h ⊢
  exact h.imp (·.trans (List.prefix_append _ _)) (·.trans (List.prefix_append _ _))

/-- The name ends at the first mark behind it. -/
theorem ofLine?_front {front name : List Char} (hfront : isFront front = true)
    (hname : ∀ c ∈ name, c.isAlphanum = true) {mark : Char} (hmark : goesOn mark = false)
    (r : List Char) :
    ofLine? (front ++ name ++ mark :: r) =
      match mark :: r with
      | '(' :: r => some (.method name (typesOf (r.takeWhile (· != ')'))))
      | ';' :: _ => some (.field name)
      | _ => none := by
  simp only [isFront, Bool.and_eq_true, beq_iff_eq, List.all_eq_true] at hfront
  obtain ⟨⟨hdeclaration, hlast⟩, hgoes⟩ := hfront
  -- Neither the front nor the name has a mark, so the line is cut at this one.
  have hall : ∀ c ∈ front ++ name, goesOn c = true := by
    intro c hc
    rcases List.mem_append.mp hc with hc | hc
    · exact hgoes c hc
    · have hword := hname c hc
      by_contra hnot
      have hcases : c = '(' ∨ c = ';' := by
        by_cases hopen : c = '('
        · exact .inl hopen
        · exact .inr (by simpa [goesOn, hopen] using hnot)
      rcases hcases with rfl | rfl <;> exact absurd hword (by decide)
  have htake : (front ++ name ++ mark :: r).takeWhile goesOn = front ++ name := by
    rw [List.takeWhile_append_of_pos hall, List.takeWhile_cons_of_neg (by simp [hmark]),
      List.append_nil]
  have hdrop : (front ++ name ++ mark :: r).dropWhile goesOn = mark :: r := by
    rw [List.dropWhile_append_of_pos hall, List.dropWhile_cons_of_neg (by simp [hmark])]
  rw [ofLine?, List.append_assoc, isDeclaration_append hdeclaration, if_pos rfl,
    ← List.append_assoc, htake, hdrop, lastWord_append hlast hname]

theorem ofLine?_field {front name : List Char} (hfront : isFront front = true)
    (hname : ∀ c ∈ name, c.isAlphanum = true) (r : List Char) :
    ofLine? (front ++ name ++ ';' :: r) = some (.field name) :=
  ofLine?_front hfront hname rfl r

theorem ofLine?_method {front name : List Char} (hfront : isFront front = true)
    (hname : ∀ c ∈ name, c.isAlphanum = true) (r : List Char) :
    ofLine? (front ++ name ++ '(' :: r) =
      some (.method name (typesOf (r.takeWhile (· != ')')))) :=
  ofLine?_front hfront hname rfl r

end Member

/-- The static members that a class declares, in order. -/
def members (text : List Char) : List Member := (splitLf text).filterMap Member.ofLine?

theorem members_endLf {lines : List (List Char)} (h : ∀ line ∈ lines, '\n' ∉ line) :
    members (endLf lines) = lines.filterMap Member.ofLine? := by
  rw [members, splitLf_endLf h, List.filterMap_append]
  exact List.append_nil _

end AssetPack.Java
