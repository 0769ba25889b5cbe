import AssetPack.Proofs.Text.Numerals
import AssetPack.Proofs.Text.PrefixCode
import AssetPack.Text.Quoted

/-!
# Quoted text is read back

A file name may hold quotes, backslashes, brackets or a whole record; quoted, it is one word that
ends at the first quote without a backslash. `readChar` reads one character of quoted text. It is
told by its first two characters which of the eight forms it has before it, so it never has to
know what follows, and no form begins with the closing quote.
-/

set_option autoImplicit false

namespace AssetPack.Text.Quoted

/-- The character that the text between two quotes begins with, and the rest. -/
def readChar : List Char → Option (Char × List Char)
  | '\\' :: '"' :: r => some ('"', r)
  | '\\' :: '\\' :: r => some ('\\', r)
  | '\\' :: 't' :: r => some ('\t', r)
  | '\\' :: 'n' :: r => some ('\n', r)
  | '\\' :: 'r' :: r => some ('\r', r)
  | '\\' :: '0' :: r => some ('\x00', r)
  | '\\' :: 'u' :: '\x7b' :: r =>
    let digits := r.takeWhile (· != '\x7d')
    (numberOf? 16 digits).map fun n => (Char.ofNat n, r.drop (digits.length + 1))
  | c :: r => some (c, r)
  | [] => none

theorem readChar_number (c : Char) (r : List Char) :
    readChar ('\\' :: 'u' :: '\x7b' :: (digits 16 1 c.toNat ++ '\x7d' :: r)) = some (c, r) := by
  have hmark : ∀ d ∈ digits 16 1 c.toNat, (d != '\x7d') = true := fun d hd =>
    of_mem_digits (P := fun d => (d != '\x7d') = true) (by decide) (by decide) (by decide) hd
  have hdigits : (digits 16 1 c.toNat ++ '\x7d' :: r).takeWhile (· != '\x7d') =
      digits 16 1 c.toNat := by
    rw [List.takeWhile_append_of_pos hmark, List.takeWhile_cons_of_neg (by simp), List.append_nil]
  have hnumber : numberOf? 16 (digits 16 1 c.toNat) = some c.toNat :=
    numberOf?_digits (by decide) (by decide) 1 c.toNat
  have hrest : (digits 16 1 c.toNat ++ '\x7d' :: r).drop ((digits 16 1 c.toNat).length + 1) =
      r := by
    rw [← List.drop_drop, List.drop_left, List.drop_one, List.tail_cons]
  rw [readChar, hdigits, hnumber, Option.map_some, hrest, Char.ofNat_toNat]

theorem readChar_self {c : Char} (hc : c ≠ '\\') (r : List Char) :
    readChar (c :: r) = some (c, r) := by
  unfold readChar
  split <;> simp_all

/-- A character is read back as it was written, whatever follows. -/
theorem readChar_escape (c : Char) (r : List Char) : readChar (escape c ++ r) = some (c, r) := by
  unfold escape
  split_ifs with hquote hbackslash htab hlf hcr hzero hunprintable
  · rw [hquote]; rfl
  · rw [hbackslash]; rfl
  · rw [htab]; rfl
  · rw [hlf]; rfl
  · rw [hcr]; rfl
  · rw [hzero]; rfl
  · simpa using readChar_number c r
  · exact readChar_self hbackslash r

theorem head?_escape_ne (c : Char) : (escape c).head? ≠ some '"' := by
  unfold escape
  split_ifs with hquote <;> simp_all

theorem escape_ne_nil (c : Char) : escape c ≠ [] := by
  unfold escape
  split_ifs <;> simp

/-- Quoted text tells its text and where it ends. -/
theorem prefixCode_encode : PrefixCode encode id := by
  -- No form of a character begins with a quote, so the first one ends the text.
  have hlist := (PrefixCode.of_reader readChar readChar_escape).list_until_mark escape_ne_nil
    head?_escape_ne
  intro s t r u h
  simpa using hlist.after ['"'] h

end AssetPack.Text.Quoted
