import AssetPack.Proofs.Glsl.Markers
import AssetPack.Proofs.Glsl.Scanner

/-!
# The scanner finds the comments of the pieces

What the scanner has read is, at any time, the first pieces of the text, and what it has written is
what is written for them; in a comment, the last piece is seen in part (`Scanned`). What is left of the
text is cut into the other pieces of the text (`Resumes`, one line for each region). This is kept by
every round, and at the end no text is left: then the pieces that the scanner has read are all of them,
and a block comment, whose end is still to come, cannot be what it is in.

The main statement is `scanner_ends_and_finds_comments`.
-/

set_option autoImplicit false

namespace AssetPack.Glsl

open AssetPack.Text

/-! ## The line written so far -/

theorem foldl_push_of_ne {k : LineKind} (hk : k ≠ .blank) {line : List Char} (hlf : '\n' ∉ line) :
    line.foldl LineKind.push k = k := by
  induction line with
  | nil => rfl
  | cons c line ih =>
    simp only [List.mem_cons, not_or] at hlf
    rw [List.foldl_cons, push_of_ne hk (Ne.symm hlf.1), ih hlf.2]

theorem foldl_push_line {line : List Char} (hlf : '\n' ∉ line) :
    line.foldl LineKind.push .blank = .directive ↔ isDirectiveLine line = true := by
  induction line with
  | nil => simp [isDirectiveLine]
  | cons c line ih =>
    simp only [List.mem_cons, not_or] at hlf
    by_cases hc : isLinearBlank c = true
    · rw [List.foldl_cons, push_linear hc, isDirectiveLine_cons_linear hc, ih hlf.2]
    · rw [Bool.not_eq_true] at hc
      rw [List.foldl_cons, isDirectiveLine_cons hc]
      by_cases hhash : c = '#'
      · subst hhash
        have hpush : LineKind.blank.push '#' = .directive := rfl
        rw [hpush, foldl_push_of_ne (by simp) hlf.2]
        simp
      · rw [push_blank (Ne.symm hlf.1) hc hhash, foldl_push_of_ne (by simp) hlf.2]
        simp [hhash]

theorem Scanner.onDirectiveLine_iff (out : List Char) :
    Scanner.onDirectiveLine out = true ↔ out.foldl LineKind.push .blank = .directive := by
  refine splitLf_induction (P := fun out lines =>
    isDirectiveLine (lines.getLastD []) = true ↔ out.foldl LineKind.push .blank = .directive)
    ?_ ?_ out
  · intro line hlf
    exact (foldl_push_line hlf).symm
  · intro line rest _ ih
    rw [List.foldl_append, List.foldl_cons, push_lf, ← ih]
    have hlast : (line :: splitLf rest).getLastD [] = (splitLf rest).getLastD [] := by
      rw [List.getLastD_eq_getLast?, List.getLastD_eq_getLast?,
        List.getLast?_cons_of_ne_nil (splitLf_ne_nil rest)]
    rw [hlast]

/-- The kind of the line, after some pieces. -/
def lineAfter (v : Variant) (done : List Piece) : LineKind :=
  (done.flatMap (Piece.written v)).foldl LineKind.push .blank

theorem lineAfter_concat (v : Variant) (done : List Piece) (p : Piece) :
    lineAfter v (done ++ [p]) = (lineAfter v done).pushPiece v p := by
  simp [lineAfter, LineKind.pushPiece]

/-! ## Where comments start -/

/-- The indices at which comments start. -/
def commentStarts (i : Nat) : List Piece → List Nat
  | [] => []
  | .kept _ :: ps => commentStarts (i + 1) ps
  | .comment text :: ps => i :: commentStarts (i + text.length) ps

theorem commentStarts_append (i : Nat) (ps qs : List Piece) :
    commentStarts i (ps ++ qs) =
      commentStarts i ps ++ commentStarts (i + (ps.flatMap Piece.source).length) qs := by
  induction ps generalizing i with
  | nil => rfl
  | cons p ps ih =>
    cases p with
    | kept c =>
      rw [List.cons_append, commentStarts, commentStarts, ih, List.flatMap_cons, Piece.source,
        List.length_append, List.length_singleton, Nat.add_assoc]
    | comment text =>
      rw [List.cons_append, commentStarts, commentStarts, ih, List.flatMap_cons, Piece.source,
        List.length_append, Nat.add_assoc, List.cons_append]

theorem Scanner.hasBlockEnd_iff {r : List Char} :
    Scanner.hasBlockEnd r = true ↔ ['*', '/'] <:+: r := by
  fun_induction Scanner.hasBlockEnd r with
  | case1 c d r ih =>
    rw [Bool.or_eq_true, ih, closer_infix_cons_iff (c := c)]
    simp
  | case2 r hr =>
    constructor
    · intro h
      cases h
    · intro h
      have hlen := h.length_le
      match r, hr, hlen with
      | [], _, hlen => simp at hlen
      | [_], _, hlen => simp at hlen
      | c :: d :: r, hr, _ => exact absurd rfl (hr c d r)

theorem startsComment_cons_iff {c : Char} {r : List Char} :
    StartsComment (c :: r) ↔
      c = '/' ∧ (r.head? = some '/' ∨ r.head? = some '*' ∧ ['*', '/'] <:+: r.tail) := by
  constructor
  · rintro ⟨text, rest, htext, h⟩
    cases htext with
    | line =>
      simp only [List.cons_append, List.cons.injEq] at h
      rw [h.2]
      exact ⟨h.1, .inl rfl⟩
    | @block body =>
      simp only [List.cons_append, List.cons.injEq] at h
      rw [h.2]
      refine ⟨h.1, .inr ⟨rfl, body, rest, rfl⟩⟩
  · rintro ⟨rfl, hline | ⟨hblock, hend⟩⟩
    · obtain ⟨r, rfl⟩ := List.head?_eq_some_iff.mp hline
      exact startsComment_line r
    · obtain ⟨r, rfl⟩ := List.head?_eq_some_iff.mp hblock
      exact startsComment_block hend

namespace Scanner

variable {v : Variant} {text rest r : List Char} {done before : List Piece} {opened : List Nat}
  {s t : Scanner} {c : Char} {n : Nat}

/-! ## A round in code -/

theorem hasBlockEnd_drop_iff {i : Nat} :
    hasBlockEnd (text.drop (i + 2)) = true ↔ ∃ j, ClosesAt text i j := by
  rw [hasBlockEnd_iff]
  constructor
  · rintro ⟨before, after, h⟩
    refine ⟨i + 2 + before.length, by omega, ?_, ?_⟩
    · rw [← List.getElem?_drop, ← h]
      simp
    · rw [Nat.add_assoc, ← List.getElem?_drop, ← h]
      simp
  · rintro ⟨j, hij, hstar, hslash⟩
    obtain ⟨k, rfl⟩ := Nat.exists_eq_add_of_le hij
    rw [← List.getElem?_drop] at hstar
    rw [Nat.add_assoc, ← List.getElem?_drop] at hslash
    have hk := (List.getElem?_eq_some_iff.mp hslash).1
    refine ⟨(text.drop (i + 2)).take k, (text.drop (i + 2)).drop (k + 2), ?_⟩
    have hpair : (text.drop (i + 2)).drop k = '*' :: '/' :: (text.drop (i + 2)).drop (k + 2) := by
      rw [List.drop_eq_getElem_cons (by omega), List.drop_eq_getElem_cons hk]
      simp only [List.getElem?_eq_some_iff] at hstar hslash
      rw [hstar.2, hslash.2]
    rw [List.append_assoc, List.cons_append, List.cons_append, List.nil_append, ← hpair,
      List.take_append_drop]

/-- A comment is opened, or the character is copied because none starts at it. -/
theorem round?_code_cases (hs : s.region = .code) (ht : round? v text s = some t) :
    (OpensAt text s.index '/' ∧ t = s.enter v .lineComment) ∨
    (OpensAt text s.index '*' ∧ (∃ j, ClosesAt text s.index j) ∧ t = s.enter v .blockComment) ∨
    (¬ OpensAt text s.index '/' ∧ ¬ (OpensAt text s.index '*' ∧ ∃ j, ClosesAt text s.index j) ∧
      ∃ c, text[s.index]? = some c ∧ (t = s.keep .code c ∨ c = '"' ∧ t = s.keep .quoted c)) := by
  obtain ⟨c, hc⟩ : ∃ c, text[s.index]? = some c := by
    cases hc : text[s.index]? with
    | none =>
      rw [round?, hc] at ht
      cases ht
    | some c => exact ⟨c, rfl⟩
  have hopens : ∀ d, OpensAt text s.index d ↔ c = '/' ∧ text[s.index + 1]? = some d := by
    intro d
    rw [OpensAt, hc, Option.some.injEq]
  rw [round?_code hs hc, Option.some.injEq] at ht
  simp only [hopens, ← hasBlockEnd_drop_iff]
  split at ht
  case isTrue hline => exact .inl ⟨hline, ht.symm⟩
  case isFalse hline =>
    split at ht
    case isTrue hblock => exact .inr (.inl ⟨hblock.1, hblock.2, ht.symm⟩)
    case isFalse hblock =>
      refine .inr (.inr ⟨hline, hblock, c, hc, ?_⟩)
      split at ht
      case isTrue hquote => exact .inr ⟨hquote.1, ht.symm⟩
      case isFalse => exact .inl ht.symm

theorem opensAt_of_region_line (hs : s.region = .code) (ht : round? v text s = some t)
    (h : t.region = .lineComment) : OpensAt text s.index '/' ∧ t = s.enter v .lineComment := by
  rcases round?_code_cases hs ht with hline | ⟨-, -, rfl⟩ | ⟨-, -, c, -, rfl | ⟨-, rfl⟩⟩
  · exact hline
  · cases h
  · cases h
  · cases h

theorem opensAt_of_region_block (hs : s.region = .code) (ht : round? v text s = some t)
    (h : t.region = .blockComment) :
    OpensAt text s.index '*' ∧ (∃ j, ClosesAt text s.index j) ∧ t = s.enter v .blockComment := by
  rcases round?_code_cases hs ht with ⟨-, rfl⟩ | hblock | ⟨-, -, c, -, rfl | ⟨-, rfl⟩⟩
  · cases h
  · exact hblock
  · cases h
  · cases h

theorem not_opensAt_both {i : Nat} (h : OpensAt text i '/') (h' : OpensAt text i '*') : False := by
  have heq := h.2.symm.trans h'.2
  simp at heq

theorem eq_enter_of_line (hs : s.region = .code) (ht : round? v text s = some t)
    (h : OpensAt text s.index '/') : t = s.enter v .lineComment := by
  rcases round?_code_cases hs ht with ⟨-, hline⟩ | ⟨hblock, -⟩ | ⟨hno, -⟩
  · exact hline
  · exact (not_opensAt_both h hblock).elim
  · exact absurd h hno

theorem eq_enter_of_block (hs : s.region = .code) (ht : round? v text s = some t)
    (h : OpensAt text s.index '*') (hcloses : ∃ j, ClosesAt text s.index j) :
    t = s.enter v .blockComment := by
  rcases round?_code_cases hs ht with ⟨hline, -⟩ | ⟨-, -, hblock⟩ | ⟨-, hno, -⟩
  · exact (not_opensAt_both hline h).elim
  · exact hblock
  · exact absurd ⟨h, hcloses⟩ hno

theorem eq_keep_of_unclosed (hs : s.region = .code) (ht : round? v text s = some t)
    (h : OpensAt text s.index '*') (hopen : ¬ ∃ j, ClosesAt text s.index j) :
    t = s.keep .code '/' := by
  rcases round?_code_cases hs ht with ⟨hline, -⟩ | ⟨-, hcloses, -⟩ | ⟨-, -, c, hc, hkept⟩
  · exact (not_opensAt_both hline h).elim
  · exact absurd hcloses hopen
  · rw [h.1, Option.some.injEq] at hc
    subst hc
    rcases hkept with hkept | ⟨hquote, -⟩
    · exact hkept
    · simp at hquote

/-! ## What has been read -/

/-- The scanner has read these pieces, the last of them perhaps in part, and `rest` is left. -/
structure Scanned (v : Variant) (text : List Char) (done : List Piece) (rest : List Char)
    (opened : List Nat) (s : Scanner) : Prop where
  text_eq : text = done.flatMap Piece.source ++ rest
  index_eq : s.index = (done.flatMap Piece.source).length
  out_eq : s.out = done.flatMap (Piece.written v)
  opened_eq : opened = commentStarts 0 done

namespace Scanned

theorem getElem? (h : Scanned v text done (c :: r) opened s) : text[s.index]? = some c := by
  rw [h.text_eq, h.index_eq]
  simp

theorem getElem?_succ (h : Scanned v text done (c :: r) opened s) :
    text[s.index + 1]? = r.head? := by
  rw [h.text_eq, h.index_eq, List.getElem?_append_right (Nat.le_add_right _ 1),
    Nat.add_sub_cancel_left]
  cases r <;> rfl

theorem drop_two (h : Scanned v text done (c :: r) opened s) :
    text.drop (s.index + 2) = r.tail := by
  rw [h.text_eq, h.index_eq, List.drop_append, List.drop_of_length_le (Nat.le_add_right _ _),
    Nat.add_sub_cancel_left]
  cases r <;> rfl

theorem onDirectiveLine_iff (h : Scanned v text done rest opened s) :
    onDirectiveLine s.out = true ↔ lineAfter v done = .directive := by
  rw [Scanner.onDirectiveLine_iff, h.out_eq]
  rfl

theorem keep (h : Scanned v text done (c :: r) opened s) (region : Region) :
    Scanned v text (done ++ [.kept c]) r opened (s.keep region c) := by
  refine ⟨?_, ?_, ?_, ?_⟩
  · rw [h.text_eq]
    simp [Piece.source]
  · simp [Scanner.keep, h.index_eq, Piece.source]
  · simp [Scanner.keep, h.out_eq, Piece.written]
  · rw [h.opened_eq, commentStarts_append]
    simp [commentStarts]

theorem enter {d : Char} (h : Scanned v text done ('/' :: d :: r) opened s) (hd : d ≠ '\n')
    (region : Region) :
    Scanned v text (done ++ [.comment ['/', d]]) r (opened ++ [s.index]) (s.enter v region) := by
  refine ⟨?_, ?_, ?_, ?_⟩
  · rw [h.text_eq]
    simp [Piece.source]
  · simp [Scanner.enter, h.index_eq, Piece.source]
  · cases v <;> simp [Scanner.enter, opening, h.out_eq, Piece.written, hd]
  · rw [h.opened_eq, commentStarts_append, Nat.zero_add, ← h.index_eq]
    rfl

/-- The scanner sees more of a comment. -/
theorem grow {seen w : List Char} (more : List Char)
    (h : Scanned v text (before ++ [.comment seen]) (more ++ r) opened s)
    (hindex : t.index = s.index + more.length) (hout : t.out = s.out ++ w)
    (hw : (Piece.comment (seen ++ more)).written v = (Piece.comment seen).written v ++ w) :
    Scanned v text (before ++ [.comment (seen ++ more)]) r opened t := by
  refine ⟨?_, ?_, ?_, ?_⟩
  · rw [h.text_eq]
    simp [Piece.source]
  · rw [hindex, h.index_eq]
    simp [Piece.source, Nat.add_assoc]
  · rw [hout, h.out_eq, List.flatMap_append, List.flatMap_append, List.flatMap_singleton,
      List.flatMap_singleton, hw, List.append_assoc]
  · rw [h.opened_eq, commentStarts_append, commentStarts_append]
    rfl

theorem pass {seen : List Char}
    (h : Scanned v text (before ++ [.comment seen]) (c :: r) opened s) :
    Scanned v text (before ++ [.comment (seen ++ [c])]) r opened (s.pass v c) := by
  refine grow [c] h rfl rfl ?_
  cases v <;> simp [Piece.written, inside]

theorem close {seen : List Char}
    (h : Scanned v text (before ++ [.comment seen]) ('*' :: '/' :: r) opened s) :
    Scanned v text (before ++ [.comment (seen ++ ['*', '/'])]) r opened (s.close v) := by
  refine grow ['*', '/'] h rfl rfl ?_
  cases v <;> simp [Piece.written, closing]

end Scanned

/-- How the rest of the text goes on with the pieces, by what the scanner is in. -/
def Resumes (v : Variant) (text : List Char) (done : List Piece) (rest : List Char) :
    Region → Prop
  | .code => pieces v .blank text = done ++ pieces v (lineAfter v done) rest
  | .quoted => lineAfter v done = .directive ∧
      pieces v .blank text =
        done ++ ((cutQuoted rest).1.map .kept ++ pieces v .directive (cutQuoted rest).2)
  | .lineComment => ∃ before seen, done = before ++ [.comment ('/' :: '/' :: seen)] ∧
      '\n' ∉ seen ∧
      pieces v .blank text = before ++ pieces v (lineAfter v before) ('/' :: '/' :: (seen ++ rest))
  | .blockComment => ∃ before seen inner after, done = before ++ [.comment ('/' :: '*' :: seen)] ∧
      rest = inner ++ '*' :: '/' :: after ∧ ¬ ['*', '/'] <:+: seen ++ inner ++ ['*'] ∧
      pieces v .blank text = before ++ pieces v (lineAfter v before) ('/' :: '*' :: (seen ++ rest))

/-- The scanner goes along the pieces of the text. -/
def Follows (v : Variant) (text : List Char) (opened : List Nat) (s : Scanner) : Prop :=
  ∃ done rest, Scanned v text done rest opened s ∧ Resumes v text done rest s.region

/-! ## Every round goes on along the pieces -/

theorem follows_start (v : Variant) (text : List Char) : Follows v text [] start :=
  ⟨[], text, ⟨rfl, rfl, rfl, rfl⟩, rfl⟩

theorem openedBy_of_region_ne (h : s.region ≠ .code) (t : Scanner) : openedBy s t = [] :=
  if_neg fun ho => h ho.1

theorem openedBy_keep_code (s : Scanner) (c : Char) : openedBy s (s.keep .code c) = [] :=
  if_neg fun ho => by simp [keep] at ho

theorem openedBy_keep_quoted (s : Scanner) (c : Char) : openedBy s (s.keep .quoted c) = [] :=
  if_neg fun ho => by simp [keep] at ho

theorem follows_enter_line (h : Scanned v text done ('/' :: '/' :: r) opened s)
    (hpieces : Resumes v text done ('/' :: '/' :: r) .code) :
    Follows v text (opened ++ [s.index]) (s.enter v .lineComment) :=
  ⟨_, r, h.enter (by simp) .lineComment, done, [], rfl, by simp, hpieces⟩

theorem follows_enter_block (h : Scanned v text done ('/' :: '*' :: r) opened s)
    (hpieces : Resumes v text done ('/' :: '*' :: r) .code) (hend : ['*', '/'] <:+: r) :
    Follows v text (opened ++ [s.index]) (s.enter v .blockComment) := by
  obtain ⟨inner, after, hcut, hinner⟩ := exists_blockEnd hend
  exact ⟨_, r, h.enter (by simp) .blockComment, done, [], inner, after, rfl, hcut, hinner, hpieces⟩

theorem follows_keep_quoted (h : Scanned v text done ('"' :: r) opened s)
    (hpieces : Resumes v text done ('"' :: r) .code) (hkind : lineAfter v done = .directive) :
    Follows v text opened (s.keep .quoted '"') := by
  refine ⟨_, r, h.keep .quoted, ?_, ?_⟩
  · rw [lineAfter_concat, hkind]
    rfl
  · rw [Resumes] at hpieces
    rw [hpieces, hkind, pieces_quoted, List.append_assoc]
    rfl

theorem follows_keep_code (h : Scanned v text done (c :: r) opened s)
    (hpieces : Resumes v text done (c :: r) .code) (hstart : ¬ StartsComment (c :: r))
    (hkind : c = '"' → lineAfter v done ≠ .directive) :
    Follows v text opened (s.keep .code c) := by
  refine ⟨_, r, h.keep .code, ?_⟩
  show pieces v .blank text = _
  rw [Resumes] at hpieces
  rw [hpieces, pieces_kept v hstart hkind, lineAfter_concat, List.append_assoc]
  rfl

theorem follows_code (hs : s.region = .code) (h : Scanned v text done (c :: r) opened s)
    (hpieces : Resumes v text done (c :: r) .code) (ht : round? v text s = some t) :
    Follows v text (opened ++ openedBy s t) t := by
  rw [round?_code hs h.getElem?, h.getElem?_succ, h.drop_two, Option.some.injEq] at ht
  split at ht
  case isTrue hline =>
    obtain ⟨rfl, hr⟩ := hline
    obtain ⟨r, rfl⟩ := List.head?_eq_some_iff.mp hr
    have hopened : openedBy s t = [s.index] := if_pos ⟨hs, .inl (by rw [← ht]; rfl)⟩
    rw [hopened, ← ht]
    exact follows_enter_line h hpieces
  case isFalse hline =>
    split at ht
    case isTrue hblock =>
      obtain ⟨⟨rfl, hr⟩, hend⟩ := hblock
      obtain ⟨r, rfl⟩ := List.head?_eq_some_iff.mp hr
      have hopened : openedBy s t = [s.index] := if_pos ⟨hs, .inr (by rw [← ht]; rfl)⟩
      rw [hopened, ← ht]
      exact follows_enter_block h hpieces (hasBlockEnd_iff.mp hend)
    case isFalse hblock =>
      split at ht
      case isTrue hquote =>
        obtain ⟨rfl, hdirective⟩ := hquote
        rw [← ht, openedBy_keep_quoted, List.append_nil]
        exact follows_keep_quoted h hpieces (h.onDirectiveLine_iff.mp hdirective)
      case isFalse hquote =>
        rw [← ht, openedBy_keep_code, List.append_nil]
        refine follows_keep_code h hpieces ?_ ?_
        · rw [startsComment_cons_iff]
          rintro ⟨hc, hr | ⟨hr, hend⟩⟩
          · exact hline ⟨hc, hr⟩
          · exact hblock ⟨⟨hc, hr⟩, hasBlockEnd_iff.mpr hend⟩
        · exact fun hc hkind => hquote ⟨hc, h.onDirectiveLine_iff.mpr hkind⟩

theorem follows_quoted (hs : s.region = .quoted) (h : Scanned v text done (c :: r) opened s)
    (hresumes : Resumes v text done (c :: r) .quoted) (ht : round? v text s = some t) :
    Follows v text opened t := by
  obtain ⟨hkind, hpieces⟩ := hresumes
  rw [round?_quoted hs h.getElem?, Option.some.injEq] at ht
  have hkept : c ≠ '\n' → lineAfter v (done ++ [.kept c]) = .directive := by
    intro hlf
    rw [lineAfter_concat, hkind]
    exact push_directive hlf
  by_cases hlf : c = '\n'
  · subst hlf
    rw [if_pos rfl] at ht
    rw [← ht]
    refine ⟨done, '\n' :: r, ⟨h.text_eq, h.index_eq, h.out_eq, h.opened_eq⟩, ?_⟩
    show pieces v .blank text = _
    rw [hpieces, hkind]
    rfl
  · rw [if_neg hlf] at ht
    by_cases hquote : c = '"'
    · subst hquote
      rw [if_pos rfl] at ht
      rw [← ht]
      refine ⟨_, r, h.keep .code, ?_⟩
      show pieces v .blank text = _
      rw [hpieces, hkept hlf, List.append_assoc]
      rfl
    · rw [if_neg hquote] at ht
      rw [← ht]
      refine ⟨_, r, h.keep .quoted, hkept hlf, ?_⟩
      have hcut : cutQuoted (c :: r) = (c :: (cutQuoted r).1, (cutQuoted r).2) := by
        rw [cutQuoted]
        · exact hquote
        · exact hlf
      rw [hpieces, hcut, List.append_assoc]
      rfl

theorem follows_lineComment (hs : s.region = .lineComment)
    (h : Scanned v text done (c :: r) opened s)
    (hresumes : Resumes v text done (c :: r) .lineComment) (ht : round? v text s = some t) :
    Follows v text opened t := by
  obtain ⟨before, seen, rfl, hseen, hpieces⟩ := hresumes
  rw [round?_lineComment hs h.getElem?, Option.some.injEq] at ht
  by_cases hlf : c = '\n'
  · subst hlf
    rw [if_pos rfl] at ht
    rw [← ht]
    have hcomment : IsComment ('/' :: '/' :: seen) ('\n' :: r) := .line hseen (by simp)
    refine ⟨_, _, ⟨h.text_eq, h.index_eq, h.out_eq, h.opened_eq⟩, ?_⟩
    show pieces v .blank text = _
    rw [lineAfter_concat, List.append_assoc, List.singleton_append, ← pieces_comment v _ hcomment]
    exact hpieces
  · rw [if_neg hlf] at ht
    rw [← ht]
    refine ⟨_, r, h.pass, ?_⟩
    show Resumes v text _ r s.region
    rw [hs]
    refine ⟨before, seen ++ [c], rfl, ?_, ?_⟩
    · simp [hseen, Ne.symm hlf]
    · rw [hpieces, List.append_assoc]
      rfl

theorem follows_blockComment (hs : s.region = .blockComment)
    (h : Scanned v text done (c :: r) opened s)
    (hresumes : Resumes v text done (c :: r) .blockComment) (ht : round? v text s = some t) :
    Follows v text opened t := by
  obtain ⟨before, seen, inner, after, rfl, hrest, hfirst, hpieces⟩ := hresumes
  rw [round?_blockComment hs h.getElem?, h.getElem?_succ, Option.some.injEq] at ht
  cases inner with
  | nil =>
    rw [List.nil_append, List.cons.injEq] at hrest
    obtain ⟨rfl, rfl⟩ := hrest
    rw [if_pos ⟨rfl, rfl⟩] at ht
    rw [← ht]
    rw [List.append_nil] at hfirst
    have hcomment : IsComment ('/' :: '*' :: (seen ++ ['*', '/'])) after := .block hfirst
    refine ⟨_, after, h.close, ?_⟩
    show pieces v .blank text = _
    rw [List.cons_append, List.cons_append, lineAfter_concat, List.append_assoc,
      List.singleton_append, ← pieces_comment v _ hcomment, hpieces]
    simp
  | cons d inner =>
    rw [List.cons_append, List.cons.injEq] at hrest
    obtain ⟨rfl, rfl⟩ := hrest
    -- Were the comment closed here, its first `*/` would stand before the one that ends it.
    have hopen : ¬ (c = '*' ∧ (inner ++ '*' :: '/' :: after).head? = some '/') := by
      rintro ⟨rfl, hhead⟩
      cases inner with
      | nil => simp at hhead
      | cons d inner =>
        simp only [List.cons_append, List.head?_cons, Option.some.injEq] at hhead
        subst hhead
        exact hfirst ⟨seen, inner ++ ['*'], by simp⟩
    rw [if_neg hopen] at ht
    rw [← ht]
    refine ⟨_, _, h.pass, ?_⟩
    show Resumes v text _ _ s.region
    rw [hs]
    refine ⟨before, seen ++ [c], inner, after, rfl, rfl, ?_, ?_⟩
    · simpa using hfirst
    · rw [hpieces, List.append_assoc]
      rfl

/-- One round goes on along the pieces. -/
theorem Follows.round (h : Follows v text opened s) (hin : s.index < text.length)
    (ht : round? v text s = some t) : Follows v text (opened ++ openedBy s t) t := by
  obtain ⟨done, rest, hscanned, hresumes⟩ := h
  cases rest with
  | nil =>
    have htext := congrArg List.length hscanned.text_eq
    rw [List.append_nil, ← hscanned.index_eq] at htext
    omega
  | cons c r =>
    cases hs : s.region with
    | code => exact follows_code hs hscanned (hs ▸ hresumes) ht
    | quoted =>
      rw [openedBy_of_region_ne (by simp [hs]), List.append_nil]
      exact follows_quoted hs hscanned (hs ▸ hresumes) ht
    | lineComment =>
      rw [openedBy_of_region_ne (by simp [hs]), List.append_nil]
      exact follows_lineComment hs hscanned (hs ▸ hresumes) ht
    | blockComment =>
      rw [openedBy_of_region_ne (by simp [hs]), List.append_nil]
      exact follows_blockComment hs hscanned (hs ▸ hresumes) ht

/-- So does every run. -/
theorem Reaches.follows (h : Reaches v text n opened s) : Follows v text opened s := by
  induction h with
  | start => exact follows_start v text
  | round _ hin hround ih => exact ih.round hin hround

/-- At the end of the text all its pieces are read. -/
theorem Follows.of_end (h : Follows v text opened s) (hend : s.index = text.length) :
    s.region ≠ .blockComment ∧ s.out = stripComments v text ∧
      opened = commentStarts 0 (pieces v .blank text) := by
  obtain ⟨done, rest, hscanned, hresumes⟩ := h
  have hrest : rest = [] := by
    have htext := congrArg List.length hscanned.text_eq
    rw [List.length_append, ← hscanned.index_eq] at htext
    exact List.length_eq_zero_iff.mp (by omega)
  subst hrest
  have hpieces : s.region ≠ .blockComment ∧ pieces v .blank text = done := by
    cases hs : s.region with
    | code =>
      rw [hs, Resumes, pieces_nil, List.append_nil] at hresumes
      exact ⟨by simp, hresumes⟩
    | quoted =>
      rw [hs] at hresumes
      refine ⟨by simp, hresumes.2.trans ?_⟩
      simp [cutQuoted]
    | lineComment =>
      rw [hs] at hresumes
      obtain ⟨before, seen, rfl, hseen, hpieces⟩ := hresumes
      have hcomment : IsComment ('/' :: '/' :: seen) [] := .line hseen (by simp)
      have hlast := pieces_comment v (lineAfter v before) hcomment
      rw [pieces_nil, List.cons_append, List.cons_append] at hlast
      exact ⟨by simp, hpieces.trans (by rw [hlast])⟩
    | blockComment =>
      rw [hs] at hresumes
      obtain ⟨_, _, inner, after, -, hrest, -⟩ := hresumes
      exact absurd hrest (by simp)
  refine ⟨hpieces.1, ?_, ?_⟩
  · rw [stripComments, hpieces.2]
    exact hscanned.out_eq
  · rw [hpieces.2]
    exact hscanned.opened_eq

/-! ## The whole run -/

/-- What holds of a round. -/
structure Sound (v : Variant) (text : List Char) (s t : Scanner) : Prop where
  /-- It moves on, or leaves a quotation or a line comment at a line feed. -/
  goesOn : Advances text s t ∨ Leaves text s t
  /-- It does not stay where it is twice in a row. -/
  staysOnce : Leaves text s t → ∃ u, round? v text t = some u ∧ Advances text t u
  line : s.region = .code → (t.region = .lineComment ↔ OpensAt text s.index '/')
  lineEnd : s.region = .code → t.region = .lineComment →
    ∃ e u, IsLeast {e | LineEndsAt text s.index e} e ∧ Stays v text .lineComment t u ∧
      u.index = e ∧ (e < text.length → round? v text u = some u.leave)
  block : s.region = .code →
    (t.region = .blockComment ↔ OpensAt text s.index '*' ∧ ∃ j, ClosesAt text s.index j)
  blockEnd : s.region = .code → t.region = .blockComment →
    ∃ j u, IsLeast {j | ClosesAt text s.index j} j ∧ Stays v text .blockComment t u ∧
      u.index = j ∧ round? v text u = some (u.close v)
  /-- An opener that nothing closes is copied. -/
  unclosed : s.region = .code → OpensAt text s.index '*' → (¬ ∃ j, ClosesAt text s.index j) →
    t = s.keep .code '/'

theorem Leaves.staysOnce (h : Leaves text s t) (v : Variant) :
    ∃ u, round? v text t = some u ∧ Advances text t u := by
  have hin : s.index < text.length := (List.getElem?_eq_some_iff.mp h.lf).1
  rw [h.left]
  exact advances_of_region_code rfl hin

theorem exists_sound (v : Variant) (hin : s.index < text.length) :
    ∃ t, round? v text s = some t ∧ Sound v text s t := by
  obtain ⟨t, ht, hgoes⟩ := exists_round? v hin
  refine ⟨t, ht, hgoes, fun h => h.staysOnce v, ?line, ?lineEnd, ?block, ?blockEnd, ?unclosed⟩
  case line =>
    intro hs
    refine ⟨fun h => (opensAt_of_region_line hs ht h).1, fun h => ?_⟩
    rw [eq_enter_of_line hs ht h]
    rfl
  case lineEnd =>
    intro hs h
    obtain ⟨hopens, rfl⟩ := opensAt_of_region_line hs ht h
    exact closesLine rfl rfl (List.getElem?_eq_some_iff.mp hopens.2).1
  case block =>
    intro hs
    refine ⟨fun h => ?_, fun h => ?_⟩
    · obtain ⟨hopens, hcloses, -⟩ := opensAt_of_region_block hs ht h
      exact ⟨hopens, hcloses⟩
    · rw [eq_enter_of_block hs ht h.1 h.2]
      rfl
  case blockEnd =>
    intro hs h
    obtain ⟨-, ⟨j, hj⟩, rfl⟩ := opensAt_of_region_block hs ht h
    exact closesBlock rfl rfl hj
  case unclosed => exact fun hs => eq_keep_of_unclosed hs ht

/-- **The scanner comes to the end of every text, and finds the comments of its pieces.** It takes at
most two rounds for each character, and none of them reads outside the text. Each one is sound: it
says where a comment is opened, where it ends and what is left as code. At the end the scanner is in
no block comment, has written what `stripComments` gives, and has opened a comment at each index at
which one of the pieces starts, in order. -/
theorem scanner_ends_and_finds_comments (v : Variant) (text : List Char) :
    (∃ n opened last, Reaches v text n opened last ∧ last.index = text.length) ∧
    ∀ n opened s, Reaches v text n opened s →
      n ≤ 2 * text.length ∧ s.index ≤ text.length ∧
      (s.index < text.length → ∃ t, round? v text s = some t ∧ Sound v text s t) ∧
      (s.index = text.length → s.region ≠ .blockComment ∧ s.out = stripComments v text ∧
        opened = commentStarts 0 (pieces v .blank text)) := by
  refine ⟨Reaches.start.exists_end, ?_⟩
  intro n opened s h
  obtain ⟨hrounds, hindex⟩ := h.potential_le
  refine ⟨Nat.le_trans (Nat.le_add_right _ _) hrounds, hindex, exists_sound v, ?_⟩
  exact h.follows.of_end

end Scanner

end AssetPack.Glsl
