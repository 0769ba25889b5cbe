import AssetPack.Text.Numeral

/-!
# String literals of the target language

A text as a quoted literal of printable basic Latin characters. Characters that mean something in
a literal have short escapes, other characters up to U+00FF are octal, and the rest up to U+FFFF
take a numbered escape. Line ends, quotes and backslashes must never be numbered: the compiler
resolves numbered escapes before it looks for the end of the literal. Octal escapes always have
three digits, so that a digit after one is not read into it.
-/

set_option autoImplicit false

namespace AssetPack.Java.Literal

/-- A character that no literal can hold: it is outside the 16-bit range. -/
structure Unsupported where
  codePoint : Char
  deriving DecidableEq, Repr

/-- The wording of the refusal. -/
def Unsupported.message (e : Unsupported) : String :=
  let number := String.ofList (Text.upperDigits 16 4 e.codePoint.toNat)
  s!"code point U+{number} is outside the 16-bit range"

/-- The escapes with a letter or mark of their own. -/
def shortEscape? (c : Char) : Option (List Char) :=
  if c = '\n' then some ['\\', 'n']
  else if c = '\r' then some ['\\', 'r']
  else if c = '"' then some ['\\', '"']
  else if c = '\\' then some ['\\', '\\']
  else if c = '\x08' then some ['\\', 'b']
  else if c = '\t' then some ['\\', 't']
  else if c = '\x0c' then some ['\\', 'f']
  else if c = '\'' then some ['\\', '\'']
  else none

/-- One character as it stands in a literal. -/
def escape (c : Char) : Except Unsupported (List Char) :=
  match shortEscape? c with
  | some e => .ok e
  | none =>
    if 0x20 ≤ c.toNat ∧ c.toNat ≤ 0x7E then .ok [c]
    else if c.toNat ≤ 0xFF then .ok ('\\' :: Text.digits 8 3 c.toNat)
    else if c.toNat ≤ 0xFFFF then .ok ('\\' :: 'u' :: Text.digits 16 4 c.toNat)
    else .error ⟨c⟩

/-- What stands between the quotes. -/
def body : List Char → Except Unsupported (List Char)
  | [] => .ok []
  | c :: r => do
    let e ← escape c
    let rest ← body r
    return e ++ rest

/-- The literal for a text, or the first character that has none. -/
def encode (s : List Char) : Except Unsupported (List Char) := do
  return '"' :: (← body s) ++ ['"']

/-- A character that needs no escape. -/
def IsPlain (c : Char) : Prop := shortEscape? c = none ∧ 0x20 ≤ c.toNat ∧ c.toNat ≤ 0x7E

instance (c : Char) : Decidable (IsPlain c) := inferInstanceAs (Decidable (_ ∧ _))

theorem escape_of_isPlain {c : Char} (h : IsPlain c) : escape c = .ok [c] := by
  rw [escape, h.1]
  exact if_pos h.2

/-- A text that needs no escapes stands in its literal as it is. -/
theorem encode_of_plain {s : List Char} (h : ∀ c ∈ s, IsPlain c) :
    encode s = .ok ('"' :: s ++ ['"']) := by
  have hbody : body s = .ok s := by
    induction s with
    | nil => rfl
    | cons c s ih =>
      rw [List.forall_mem_cons] at h
      rw [body, escape_of_isPlain h.1, ih h.2]
      rfl
  rw [encode, hbody]
  rfl

end AssetPack.Java.Literal
