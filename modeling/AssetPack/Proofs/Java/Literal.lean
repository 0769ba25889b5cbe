import Mathlib.Tactic.SplitIfs
import AssetPack.Java.Literal
import AssetPack.Proofs.Java.Lexer

/-!
# Literals are read back

`encode` writes one character after the other, and the reader of `Lexer` goes through the whole
source twice. What brings the two together is that the written form of a character is closed under
both phases: phase one translates it without a look at what follows and stands afterwards where it
stood before, with an even number of backslashes in front (`translate_plain`, `translate_short`,
`translate_numbered`); phase two takes its glyphs for one character, whatever glyphs follow
(`readBody_escape`). So the induction over the text needs nothing but the rest of the source,
which is arbitrary.

Three choices of the encoder are what makes it so. A backslash is never followed by the letter `u`
unless an escape with four digits is meant. An octal escape has three digits, the first at most
three, so that no digit after it is read into it. And nothing that ends or breaks a literal is
numbered.
-/

set_option autoImplicit false

namespace AssetPack.Java.Literal

open AssetPack.Text Lexer

/-! ## Phase one -/

theorem translate_plain {c : Char} (hc : c ≠ '\\') (s : List Char) :
    Lexer.translate (c :: s) = plain c ++ Lexer.translate s := by
  simp [Lexer.translate, translateFrom, hc]

/-- A backslash and what is not the letter `u`: two characters that stand for themselves. Of two
backslashes the second has one in front of it, and what follows them has two. -/
theorem translate_short {c : Char} (hc : c ≠ 'u') (s : List Char) :
    Lexer.translate ('\\' :: c :: s) = plain '\\' ++ (plain c ++ Lexer.translate s) := by
  by_cases h : c = '\\'
  · subst h
    simp [Lexer.translate, translateFrom]
  · simp [Lexer.translate, translateFrom, hc, h]

theorem length_fourDigits {n : Nat} (hn : n < 0x10000) : (digits 16 4 n).length = 4 :=
  length_digits (by decide) (by decide) hn

theorem numberedEscape?_digits {n : Nat} (hn : n < 0x10000) (s : List Char) :
    numberedEscape? ('u' :: (digits 16 4 n ++ s)) = some (n, 5) := by
  have hlen := length_fourDigits hn
  -- The run of marks ends at once, since no digit is one.
  have hmark : (digits 16 4 n ++ s).takeWhile (· == 'u') = [] := by
    cases hd : digits 16 4 n with
    | nil => rw [hd] at hlen; exact absurd hlen (by decide)
    | cons d ds =>
      have hmem : d ∈ digits 16 4 n := by rw [hd]; exact List.mem_cons_self
      have hne : d ≠ 'u' := of_mem_digits (P := (· ≠ 'u')) (by decide) (by decide) (by decide) hmem
      simp [hne]
  have hfour : (digits 16 4 n ++ s).take 4 = digits 16 4 n := List.take_left' hlen
  have hvalue : numberOf? 16 (digits 16 4 n) = some n :=
    numberOf?_digits (by decide) (by decide) 4 n
  simp [numberedEscape?, hmark, hfour, hlen, hvalue]

theorem translateFrom_skip (t s : List Char) :
    translateFrom false t.length (t ++ s) = Lexer.translate s := by
  induction t with
  | nil => rfl
  | cons c t ih => exact ih

/-- A numbered escape is one code unit. -/
theorem translate_numbered {n : Nat} (hn : n < 0x10000) (s : List Char) :
    Lexer.translate ('\\' :: 'u' :: (digits 16 4 n ++ s)) =
      .unit n.toUInt16 ('\\' :: 'u' :: digits 16 4 n) :: Lexer.translate s := by
  have hlen : ('u' :: digits 16 4 n).length = 5 := by
    rw [List.length_cons, length_fourDigits hn]
  have htake : ('u' :: (digits 16 4 n ++ s)).take 5 = 'u' :: digits 16 4 n :=
    List.take_left' hlen
  have hskip := translateFrom_skip ('u' :: digits 16 4 n) s
  rw [hlen, List.cons_append] at hskip
  rw [Lexer.translate, translateFrom, if_pos (by simp), numberedEscape?_digits hn]
  simp only [htake, hskip]

/-! ## Phase two -/

theorem unitOf_inj {c d : Char} (hc : c.toNat ≤ 0xFFFF) (hd : d.toNat ≤ 0xFFFF) :
    unitOf c = unitOf d ↔ c = d := by
  refine ⟨fun h => ?_, fun h => h ▸ rfl⟩
  have hval := congrArg UInt16.toNat h
  simp only [unitOf, Nat.toUInt16, UInt16.toNat_ofNat'] at hval
  exact Char.ext (UInt32.toNat_inj.mp (by simp only [Char.toNat] at hc hd hval; omega))

theorem plain_of_le {c : Char} (hc : c.toNat ≤ 0xFFFF) : plain c = [.unit (unitOf c) [c]] := by
  simp [plain, units, hc]

theorem readBody_quote (spelling : List Char) (r : List Glyph) :
    readBody (.unit (unitOf '"') spelling :: r) = some ([], r) := by
  rw [readBody, if_pos rfl]

/-- A character that has no short escape is read as itself, however it is spelled. -/
theorem readBody_unit {c : Char} (hc : c.toNat ≤ 0xFFFF) (h : shortEscape? c = none)
    (spelling : List Char) (r : List Glyph) :
    readBody (.unit (unitOf c) spelling :: r) =
      (readBody r).map fun x => (unitOf c :: x.1, x.2) := by
  have hne : ∀ d : Char, shortEscape? d ≠ none → d.toNat ≤ 0xFFFF → unitOf c ≠ unitOf d := by
    intro d hd hle heq
    rw [(unitOf_inj hc hle).mp heq] at h
    exact hd h
  rw [readBody, if_neg (hne '"' (by decide) (by decide)),
    if_neg (hne '\\' (by decide) (by decide)), if_neg]
  rintro (hlf | hcr)
  · exact hne '\n' (by decide) (by decide) hlf
  · exact hne '\r' (by decide) (by decide) hcr

theorem readBody_backslash {r : List Glyph} (v : CodeUnit) (taken : Nat)
    (h : readEscape r = some (v, taken)) (spelling : List Char) :
    readBody (.unit (unitOf '\\') spelling :: r) =
      (readBody (r.drop taken)).map fun x => (v :: x.1, x.2) := by
  rw [readBody, if_neg (by decide), if_pos rfl, h]

/-! ## One character -/

/-- A short escape is a backslash and a mark that is no `u`, and is read by its mark. -/
theorem shortEscape?_eq_some {c : Char} {e : List Char} (h : shortEscape? c = some e) :
    ∃ d, e = ['\\', d] ∧ d ≠ 'u' ∧ d.toNat ≤ 0xFFFF ∧
      ∀ spelling r, readEscape (.unit (unitOf d) spelling :: r) = some (unitOf c, 1) := by
  unfold shortEscape? at h
  split_ifs at h with h₁ h₂ h₃ h₄ h₅ h₆ h₇ h₈ <;> subst c <;> obtain rfl := Option.some.inj h
  · exact ⟨'n', rfl, by decide, by decide, fun _ _ => rfl⟩
  · exact ⟨'r', rfl, by decide, by decide, fun _ _ => rfl⟩
  · exact ⟨'"', rfl, by decide, by decide, fun _ _ => rfl⟩
  · exact ⟨'\\', rfl, by decide, by decide, fun _ _ => rfl⟩
  · exact ⟨'b', rfl, by decide, by decide, fun _ _ => rfl⟩
  · exact ⟨'t', rfl, by decide, by decide, fun _ _ => rfl⟩
  · exact ⟨'f', rfl, by decide, by decide, fun _ _ => rfl⟩
  · exact ⟨'\'', rfl, by decide, by decide, fun _ _ => rfl⟩

/-- A number below 256 takes three octal digits, the first of them at most three. -/
theorem digits_eight_three {n : Nat} (hn : n ≤ 0xFF) :
    digits 8 3 n = [Nat.digitChar (n / 64), Nat.digitChar (n / 8 % 8), Nat.digitChar (n % 8)] := by
  have key : ∀ n < 256, digits 8 3 n =
      [Nat.digitChar (n / 64), Nat.digitChar (n / 8 % 8), Nat.digitChar (n % 8)] := by
    decide +kernel
  exact key n (by omega)

theorem plain_octal {d : Nat} (hd : d < 8) :
    Nat.digitChar d ≠ 'u' ∧ Nat.digitChar d ≠ '\\' ∧
      plain (Nat.digitChar d) = [.unit (unitOf (Nat.digitChar d)) [Nat.digitChar d]] ∧
      octal? (.unit (unitOf (Nat.digitChar d)) [Nat.digitChar d]) = some d := by
  have key : ∀ d < 8, Nat.digitChar d ≠ 'u' ∧ Nat.digitChar d ≠ '\\' ∧
      plain (Nat.digitChar d) = [.unit (unitOf (Nat.digitChar d)) [Nat.digitChar d]] ∧
      octal? (.unit (unitOf (Nat.digitChar d)) [Nat.digitChar d]) = some d := by
    decide
  exact key d hd

theorem readBody_octal {n : Nat} (hn : n ≤ 0xFF) (s : List Char) :
    readBody (Lexer.translate ('\\' :: (digits 8 3 n ++ s))) =
      (readBody (Lexer.translate s)).map fun x => (n.toUInt16 :: x.1, x.2) := by
  obtain ⟨hu, -, ha, ha'⟩ := plain_octal (d := n / 64) (by omega)
  obtain ⟨-, hb₀, hb, hb'⟩ := plain_octal (d := n / 8 % 8) (by omega)
  obtain ⟨-, hc₀, hc, hc'⟩ := plain_octal (d := n % 8) (by omega)
  have hnumber : n / 64 * 64 + n / 8 % 8 * 8 + n % 8 = n := by omega
  rw [digits_eight_three hn, List.cons_append, translate_short hu, List.cons_append,
    translate_plain hb₀, List.cons_append, translate_plain hc₀, ha, hb, hc]
  refine readBody_backslash n.toUInt16 3 ?_ ['\\']
  simp [readEscape, readOctal, ha', hb', hc', hnumber, show n / 64 ≤ 3 by omega]

/-- What is written for a character is read as that character, whatever follows. -/
theorem readBody_escape {c : Char} {e : List Char} (h : escape c = .ok e) (s : List Char) :
    readBody (Lexer.translate (e ++ s)) =
      (readBody (Lexer.translate s)).map fun x => (unitOf c :: x.1, x.2) := by
  unfold escape at h
  cases hshort : shortEscape? c with
  | some e' =>
    rw [hshort] at h
    obtain rfl := Except.ok.inj h
    obtain ⟨d, rfl, hu, hd, hread⟩ := shortEscape?_eq_some hshort
    rw [List.cons_append, List.cons_append, List.nil_append, translate_short hu, plain_of_le hd]
    exact readBody_backslash _ _ (hread _ _) ['\\']
  | none =>
    rw [hshort] at h
    simp only at h
    split_ifs at h with hprint hlow hhigh
    · obtain rfl := Except.ok.inj h
      have hle : c.toNat ≤ 0xFFFF := by omega
      have hne : c ≠ '\\' := by
        rintro rfl
        exact absurd hshort (by decide)
      rw [List.cons_append, List.nil_append, translate_plain hne, plain_of_le hle]
      exact readBody_unit hle hshort _ _
    · obtain rfl := Except.ok.inj h
      exact readBody_octal hlow s
    · obtain rfl := Except.ok.inj h
      rw [List.cons_append, List.cons_append, translate_numbered (by omega)]
      exact readBody_unit hhigh hshort _ _

/-- A written character is printable basic Latin. -/
theorem printable_of_mem_escape {c : Char} {e : List Char} (h : escape c = .ok e) :
    ∀ a ∈ e, 0x20 ≤ a.toNat ∧ a.toNat ≤ 0x7E := by
  have hdigit : ∀ {base width n : Nat}, 1 < base → base ≤ 16 → ∀ a ∈ digits base width n,
      0x20 ≤ a.toNat ∧ a.toNat ≤ 0x7E := fun hbase hle a ha =>
    of_mem_digits (P := fun a => 0x20 ≤ a.toNat ∧ a.toNat ≤ 0x7E) (by decide) hbase hle ha
  unfold escape at h
  cases hshort : shortEscape? c with
  | some e' =>
    rw [hshort] at h
    obtain rfl := Except.ok.inj h
    have hall : e'.all (fun a => decide (0x20 ≤ a.toNat ∧ a.toNat ≤ 0x7E)) = true := by
      unfold shortEscape? at hshort
      split_ifs at hshort <;> obtain rfl := Option.some.inj hshort <;> decide
    simpa using hall
  | none =>
    rw [hshort] at h
    simp only at h
    split_ifs at h with hprint hlow hhigh
    · obtain rfl := Except.ok.inj h
      simpa using hprint
    · obtain rfl := Except.ok.inj h
      simpa using hdigit (by decide) (by decide)
    · obtain rfl := Except.ok.inj h
      simpa using hdigit (by decide) (by decide)

/-! ## Whole texts -/

theorem escape_of_le {c : Char} (hc : c.toNat ≤ 0xFFFF) : ∃ e, escape c = .ok e := by
  unfold escape
  cases shortEscape? c with
  | some e => exact ⟨e, rfl⟩
  | none =>
    simp only
    split_ifs <;> exact ⟨_, rfl⟩

theorem escape_of_lt {c : Char} (hc : 0xFFFF < c.toNat) : escape c = .error ⟨c⟩ := by
  have hshort : shortEscape? c = none := by
    unfold shortEscape?
    split_ifs <;> first | rfl | (subst c; exact absurd hc (by decide))
  unfold escape
  rw [hshort]
  simp only
  rw [if_neg (by omega), if_neg (by omega), if_neg (by omega)]

/-- A text of characters up to U+FFFF has a body, and the body is read back up to a closing
quote. -/
theorem body_of_le {s : List Char} (h : ∀ c ∈ s, c.toNat ≤ 0xFFFF) :
    ∃ b, body s = .ok b ∧ (∀ a ∈ b, 0x20 ≤ a.toNat ∧ a.toNat ≤ 0x7E) ∧
      ∀ rest, readBody (Lexer.translate (b ++ '"' :: rest)) =
        some (s.flatMap units, Lexer.translate rest) := by
  induction s with
  | nil =>
    refine ⟨[], rfl, by simp, fun rest => ?_⟩
    rw [List.nil_append, translate_plain (by decide), plain_of_le (by decide)]
    exact readBody_quote _ _
  | cons c s ih =>
    have hc : c.toNat ≤ 0xFFFF := h c List.mem_cons_self
    obtain ⟨b, hb, hprint, hread⟩ := ih fun d hd => h d (List.mem_cons_of_mem _ hd)
    obtain ⟨e, he⟩ := escape_of_le hc
    refine ⟨e ++ b, by rw [body, he, hb]; rfl, ?_, fun rest => ?_⟩
    · intro a ha
      rcases List.mem_append.mp ha with ha | ha
      · exact printable_of_mem_escape he a ha
      · exact hprint a ha
    · rw [List.append_assoc, readBody_escape he, hread]
      simp [units, hc]

/-- The first character above U+FFFF is the one that is refused. -/
theorem body_of_lt {before after : List Char} {c : Char} (h : ∀ a ∈ before, a.toNat ≤ 0xFFFF)
    (hc : 0xFFFF < c.toNat) : body (before ++ c :: after) = .error ⟨c⟩ := by
  induction before with
  | nil => rw [List.nil_append, body, escape_of_lt hc]; rfl
  | cons a before ih =>
    obtain ⟨e, he⟩ := escape_of_le (h a List.mem_cons_self)
    rw [List.cons_append, body, he, ih fun b hb => h b (List.mem_cons_of_mem _ hb)]
    rfl

/-- A text of characters up to U+FFFF has a literal, which is read back whatever follows. -/
theorem encode_of_le {s : List Char} (h : ∀ c ∈ s, c.toNat ≤ 0xFFFF) :
    ∃ lit, encode s = .ok lit ∧ (∀ a ∈ lit, 0x20 ≤ a.toNat ∧ a.toNat ≤ 0x7E) ∧
      ∀ rest, readLiteral (lit ++ rest) = some (s.flatMap units, rest) := by
  obtain ⟨b, hb, hprint, hread⟩ := body_of_le h
  refine ⟨'"' :: b ++ ['"'], by rw [encode, hb]; rfl, ?_, fun rest => ?_⟩
  · simp only [List.forall_mem_append, List.forall_mem_cons, List.cons_append]
    exact ⟨by decide, hprint, by decide, by simp⟩
  · have hopen : Lexer.translate ('"' :: b ++ ['"'] ++ rest) =
        .unit (unitOf '"') ['"'] :: Lexer.translate (b ++ '"' :: rest) := by
      rw [List.append_assoc, List.cons_append, List.singleton_append,
        translate_plain (by decide), plain_of_le (by decide), List.singleton_append]
    rw [readLiteral, hopen]
    simp [hread, flatMap_spelling_translate]

/-- Of a text that has no literal, the refusal names the first character above U+FFFF. -/
theorem encode_of_find? {s : List Char} {c : Char}
    (h : s.find? (fun c => 0xFFFF < c.toNat) = some c) : encode s = .error ⟨c⟩ := by
  obtain ⟨hc, before, after, rfl, hbefore⟩ := List.find?_eq_some_iff_append.mp h
  have hle : ∀ a ∈ before, a.toNat ≤ 0xFFFF := by simpa using hbefore
  rw [encode, body_of_lt hle (by simpa using hc)]
  rfl

/-- **A literal is read back as the text it was written for**, whatever source follows it, and it
is printable basic Latin. A text has no literal if it has a character above U+FFFF, and the first
of these is what the refusal names. -/
theorem readLiteral_encode (t : List Char) :
    match t.find? fun c => 0xFFFF < c.toNat with
    | none => ∃ lit, encode t = .ok lit ∧ (∀ a ∈ lit, 0x20 ≤ a.toNat ∧ a.toNat ≤ 0x7E) ∧
        ∀ rest, readLiteral (lit ++ rest) = some (t.flatMap units, rest)
    | some c => encode t = .error ⟨c⟩ := by
  cases hfind : t.find? fun c => 0xFFFF < c.toNat with
  | none =>
    have hle : ∀ c ∈ t, c.toNat ≤ 0xFFFF := by simpa using hfind
    obtain ⟨b, hb, hprint, hread⟩ := body_of_le hle
    refine ⟨'"' :: b ++ ['"'], by rw [encode, hb]; rfl, ?_, fun rest => ?_⟩
    · intro a ha
      simp only [List.cons_append, List.mem_cons, List.mem_append, List.not_mem_nil, or_false] at ha
      rcases ha with rfl | ha | rfl
      · decide
      · exact hprint a ha
      · decide
    · have hopen : Lexer.translate ('"' :: b ++ ['"'] ++ rest) =
          .unit (unitOf '"') ['"'] :: Lexer.translate (b ++ '"' :: rest) := by
        rw [List.append_assoc, List.cons_append, List.singleton_append,
          translate_plain (by decide), plain_of_le (by decide), List.singleton_append]
      rw [readLiteral, hopen]
      simp [hread, flatMap_spelling_translate]
  | some c =>
    obtain ⟨hc, before, after, rfl, hbefore⟩ := List.find?_eq_some_iff_append.mp hfind
    have hle : ∀ a ∈ before, a.toNat ≤ 0xFFFF := by simpa using hbefore
    show encode (before ++ c :: after) = .error ⟨c⟩
    rw [encode, body_of_lt hle (by simpa using hc)]
    rfl

end AssetPack.Java.Literal
