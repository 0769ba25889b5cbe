import AssetPack.Glsl.Comment
import AssetPack.Proofs.Text.Lines

/-!
# What the scanner can do in one step

`pieces` has seven branches and every fact about comments would be a proof in seven cases. They
are three steps: a whole comment is cut off (`pieces_comment`), a quotation on a directive line is
copied (`pieces_quoted`), or one character is kept because no comment starts at it
(`pieces_kept`). Which step is taken depends on the text, and on the line written so far only
through the question whether it is a directive. `pieces_induction` is the induction over these
steps, and what is proved of all texts after this file does not open `pieces`.

What a comment is, is said here without the scanner: `IsComment text rest` reads `text` as a
comment that is followed by `rest`, with both its delimiters.
-/

set_option autoImplicit false

namespace AssetPack.Glsl

open AssetPack.Text

/-- The characters a piece stands for. -/
def Piece.source : Piece → List Char
  | .kept c => [c]
  | .comment text => text

/-- `text` is one whole comment when `rest` follows it: from `//` up to the end of the line, or
from `/*` through the first `*/` after that opener. -/
inductive IsComment : List Char → List Char → Prop where
  | line {body rest : List Char} (hbody : '\n' ∉ body)
      (hrest : ∀ c, rest.head? = some c → c = '\n') : IsComment ('/' :: '/' :: body) rest
  | block {body rest : List Char} (hbody : ¬ ['*', '/'] <:+: body ++ ['*']) :
      IsComment ('/' :: '*' :: (body ++ ['*', '/'])) rest

/-- A comment starts at the first character of the text. -/
def StartsComment (s : List Char) : Prop := ∃ text rest, IsComment text rest ∧ s = text ++ rest

/-! ## The end of a block comment -/

theorem cutBlockEnd?_eq_none {s : List Char} (h : cutBlockEnd? s = none) :
    ¬ ['*', '/'] <:+: s := by
  fun_induction cutBlockEnd? s with
  | case1 => simp
  | case2 r => simp at h
  | case3 c r hc ih =>
    rw [Option.map_eq_none_iff] at h
    intro hs
    rcases List.infix_cons_iff.mp hs with hs | hs
    · obtain ⟨t, ht⟩ := hs
      simp only [List.cons_append, List.nil_append, List.cons.injEq] at ht
      exact hc t ht.1.symm ht.2.symm
    · exact ih h hs

theorem cutBlockEnd?_eq_some {s body rest : List Char} (h : cutBlockEnd? s = some (body, rest)) :
    ∃ inner, body = inner ++ ['*', '/'] ∧ ¬ ['*', '/'] <:+: inner ++ ['*'] := by
  fun_induction cutBlockEnd? s generalizing body rest with
  | case1 => simp at h
  | case2 r =>
    simp only [Option.some.injEq, Prod.mk.injEq] at h
    exact ⟨[], by simp [← h.1], by decide⟩
  | case3 c r hc ih =>
    obtain ⟨⟨b, t⟩, ht, heq⟩ := Option.map_eq_some_iff.mp h
    simp only [Prod.mk.injEq] at heq
    obtain ⟨inner, hb, hinner⟩ := ih ht
    refine ⟨c :: inner, by simp [← heq.1, hb], fun hs => ?_⟩
    rw [List.cons_append, List.infix_cons_iff] at hs
    rcases hs with hs | hs
    · -- The first `*/` would start at `c`, which `cutBlockEnd?` looked at before it went on.
      have hr : r = b ++ t := (cutBlockEnd?_append ht).symm
      obtain ⟨u, hu⟩ := hs
      simp only [List.cons_append, List.nil_append, List.cons.injEq] at hu
      cases inner with
      | nil => simp at hu
      | cons d inner =>
        simp only [List.cons_append, List.cons.injEq] at hu
        exact hc (inner ++ ['*', '/'] ++ t) hu.1.symm (by rw [hr, hb, ← hu.2.1]; simp)
    · exact hinner hs

theorem cutBlockEnd?_of_isComment {body : List Char} (h : ¬ ['*', '/'] <:+: body ++ ['*'])
    (rest : List Char) :
    cutBlockEnd? (body ++ '*' :: '/' :: rest) = some (body ++ ['*', '/'], rest) := by
  induction body with
  | nil => simp [cutBlockEnd?]
  | cons c body ih =>
    have hbody : ¬ ['*', '/'] <:+: body ++ ['*'] := fun hs =>
      h (List.infix_cons_iff.mpr (Or.inr hs))
    have hc : ∀ r, c = '*' → body ++ '*' :: '/' :: rest = '/' :: r → False := by
      intro r hc hr
      cases body with
      | nil => simp at hr
      | cons d body =>
        simp only [List.cons_append, List.cons.injEq] at hr
        exact h ⟨[], body ++ ['*'], by simp [hc, hr.1]⟩
    rw [List.cons_append, cutBlockEnd?, ih hbody]
    · simp
    · exact hc

/-! ## Where a comment starts -/

theorem startsComment_line (r : List Char) : StartsComment ('/' :: '/' :: r) := by
  refine ⟨'/' :: '/' :: r.takeWhile (· != '\n'), r.dropWhile (· != '\n'), .line ?_ ?_, ?_⟩
  · intro h
    simpa using List.mem_takeWhile_imp h
  · intro c hc
    have := List.head?_dropWhile_not (· != '\n') r
    simpa [hc] using this
  · simp

theorem exists_blockEnd {r : List Char} (h : ['*', '/'] <:+: r) :
    ∃ inner rest, r = inner ++ '*' :: '/' :: rest ∧ ¬ ['*', '/'] <:+: inner ++ ['*'] := by
  cases hr : cutBlockEnd? r with
  | none => exact absurd h (cutBlockEnd?_eq_none hr)
  | some p =>
    obtain ⟨body, rest⟩ := p
    obtain ⟨inner, hb, hinner⟩ := cutBlockEnd?_eq_some hr
    refine ⟨inner, rest, ?_, hinner⟩
    rw [← cutBlockEnd?_append hr, hb]
    simp

theorem startsComment_block {r : List Char} (h : ['*', '/'] <:+: r) :
    StartsComment ('/' :: '*' :: r) := by
  obtain ⟨inner, rest, rfl, hinner⟩ := exists_blockEnd h
  exact ⟨'/' :: '*' :: (inner ++ ['*', '/']), rest, .block hinner, by simp⟩

theorem head?_of_startsComment {s : List Char} (h : StartsComment s) : s.head? = some '/' := by
  obtain ⟨text, rest, htext, rfl⟩ := h
  cases htext <;> rfl

/-! ## The three steps -/

@[simp] theorem pieces_nil (v : Variant) (k : LineKind) : pieces v k [] = [] := by
  rw [pieces]

theorem pieces_comment (v : Variant) (k : LineKind) {text rest : List Char}
    (h : IsComment text rest) :
    pieces v k (text ++ rest) =
      .comment text :: pieces v (k.pushPiece v (.comment text)) rest := by
  cases h with
  | @line body _ hbody hrest =>
    have hall : ∀ c ∈ body, (c != '\n') = true := by
      intro c hc
      have : c ≠ '\n' := fun h => hbody (h ▸ hc)
      simpa using this
    have htake : (body ++ rest).takeWhile (· != '\n') = body := by
      rw [List.takeWhile_append_of_pos hall]
      cases rest with
      | nil => simp
      | cons c rest => simp [hrest c rfl]
    have hdrop : (body ++ rest).dropWhile (· != '\n') = rest := by
      rw [List.dropWhile_append_of_pos hall]
      cases rest with
      | nil => simp
      | cons c rest => simp [hrest c rfl]
    rw [List.cons_append, List.cons_append, pieces, htake, hdrop]
  | @block body _ hbody =>
    have hcut := cutBlockEnd?_of_isComment hbody rest
    have hs : ('/' :: '*' :: (body ++ ['*', '/'])) ++ rest
        = '/' :: '*' :: (body ++ '*' :: '/' :: rest) := by simp
    rw [hs, pieces]
    split
    · rename_i b t heq
      have hbt : body ++ ['*', '/'] = b ∧ rest = t := by
        rwa [hcut, Option.some.injEq, Prod.mk.injEq] at heq
      obtain ⟨rfl, rfl⟩ := hbt
      rfl
    · rename_i heq
      rw [hcut] at heq
      exact absurd heq (by simp)

theorem pieces_quoted (v : Variant) (r : List Char) :
    pieces v .directive ('"' :: r) =
      .kept '"' :: ((cutQuoted r).1.map .kept ++ pieces v .directive (cutQuoted r).2) := by
  rw [pieces, if_pos rfl, List.cons_append]

theorem pieces_kept (v : Variant) {k : LineKind} {c : Char} {r : List Char}
    (hc : ¬ StartsComment (c :: r)) (hq : c = '"' → k ≠ .directive) :
    pieces v k (c :: r) = .kept c :: pieces v (k.push c) r := by
  by_cases hquote : c = '"'
  · subst hquote
    rw [pieces, if_neg (hq rfl)]
  · by_cases hslash : c = '/'
    · subst hslash
      cases r with
      | nil => rw [pieces, pieces] <;> simp
      | cons d r =>
        by_cases hd : d = '/'
        · exact absurd (hd ▸ startsComment_line r) hc
        · by_cases hstar : d = '*'
          · subst hstar
            rw [pieces]
            split
            · rename_i body rest heq
              refine absurd (startsComment_block ?_) hc
              obtain ⟨inner, hb, -⟩ := cutBlockEnd?_eq_some heq
              exact ⟨inner, rest, by rw [← cutBlockEnd?_append heq, hb]⟩
            · rfl
          · rw [pieces] <;> simp [hd, hstar]
    · rw [pieces]
      · exact fun _ h _ => hslash h
      · exact fun _ h _ => hslash h
      · exact hquote

/-- Text without slashes and quotes is kept. -/
theorem pieces_append (v : Variant) {s : List Char} (hslash : '/' ∉ s) (hquote : '"' ∉ s)
    (k : LineKind) (rest : List Char) :
    pieces v k (s ++ rest) = s.map .kept ++ pieces v (s.foldl LineKind.push k) rest := by
  induction s generalizing k with
  | nil => rfl
  | cons c s ih =>
    simp only [List.mem_cons, not_or] at hslash hquote
    have hstart : ¬ StartsComment (c :: (s ++ rest)) := fun hs =>
      hslash.1 (Option.some.inj (head?_of_startsComment hs)).symm
    rw [List.cons_append, pieces_kept v hstart fun hc => absurd hc.symm hquote.1,
      ih hslash.2 hquote.2]
    rfl

/-- Induction over the steps of the scanner, with the pieces of what it is read from. -/
theorem pieces_induction (v : Variant) {P : LineKind → List Char → List Piece → Prop}
    (nil : ∀ k, P k [] [])
    (comment : ∀ k text rest, IsComment text rest →
      P (k.pushPiece v (.comment text)) rest (pieces v (k.pushPiece v (.comment text)) rest) →
      P k (text ++ rest) (.comment text :: pieces v (k.pushPiece v (.comment text)) rest))
    (quoted : ∀ r, P .directive (cutQuoted r).2 (pieces v .directive (cutQuoted r).2) →
      P .directive ('"' :: r)
        (.kept '"' :: ((cutQuoted r).1.map .kept ++ pieces v .directive (cutQuoted r).2)))
    (kept : ∀ k c r, ¬ StartsComment (c :: r) → (c = '"' → k ≠ .directive) →
      P (k.push c) r (pieces v (k.push c) r) → P k (c :: r) (.kept c :: pieces v (k.push c) r))
    (k : LineKind) (s : List Char) : P k s (pieces v k s) := by
  induction hn : s.length using Nat.strong_induction_on generalizing k s with
  | _ n ih =>
    -- Each step leaves a shorter text.
    have hrec : ∀ k' t, t.length < s.length → P k' t (pieces v k' t) :=
      fun k' t ht => ih t.length (hn ▸ ht) k' t rfl
    cases s with
    | nil => rw [pieces_nil]; exact nil k
    | cons c r =>
      by_cases hc : StartsComment (c :: r)
      · obtain ⟨text, rest, htext, hs⟩ := hc
        have hlen : rest.length < (c :: r).length := by
          rw [hs, List.length_append]
          cases htext <;> simp
        rw [hs, pieces_comment v k htext]
        exact comment k text rest htext (hrec _ rest hlen)
      · by_cases hq : c = '"' ∧ k = .directive
        · obtain ⟨rfl, rfl⟩ := hq
          have hlen : (cutQuoted r).2.length < ('"' :: r).length := by
            have := congrArg List.length (cutQuoted_append r)
            simp only [List.length_append, List.length_cons] at this ⊢
            omega
          rw [pieces_quoted]
          exact quoted r (hrec _ _ hlen)
        · have hq' : c = '"' → k ≠ .directive := fun h h' => hq ⟨h, h'⟩
          rw [pieces_kept v hc hq']
          exact kept k c r hc hq' (hrec _ r (by simp))

/-! ## Nothing of the text is lost -/

theorem flatMap_source_map_kept (s : List Char) : (s.map Piece.kept).flatMap Piece.source = s := by
  induction s with
  | nil => rfl
  | cons c s ih => simp [Piece.source, ih]

/-- The pieces, put back together, are the text. -/
theorem flatMap_source_pieces (v : Variant) (k : LineKind) (s : List Char) :
    (pieces v k s).flatMap Piece.source = s := by
  refine pieces_induction v (P := fun _ s ps => ps.flatMap Piece.source = s) ?_ ?_ ?_ ?_ k s
  · intro k
    rfl
  · intro k text rest _ ih
    simp [Piece.source, ih]
  · intro r ih
    simp [Piece.source, flatMap_source_map_kept, ih, cutQuoted_append]
  · intro k c r _ _ ih
    simp [Piece.source, ih]

/-- What is written for a piece is what it stands for, or a space. -/
theorem mem_of_mem_written {v : Variant} {p : Piece} {c : Char} (h : c ∈ p.written v) :
    c ∈ p.source ∨ c = ' ' := by
  cases p with
  | kept d => exact Or.inl h
  | comment text =>
    cases v with
    | release => exact Or.inr (List.mem_singleton.mp h)
    | debug =>
      obtain ⟨d, hd, rfl⟩ := List.mem_map.mp h
      by_cases hlf : d = '\n'
      · exact Or.inl (by rw [if_pos (by simpa using hlf), ← hlf]; exact hd)
      · exact Or.inr (by rw [if_neg (by simpa using hlf)])

theorem mem_of_mem_stripComments {v : Variant} {s : List Char} {c : Char}
    (h : c ∈ stripComments v s) : c ∈ s ∨ c = ' ' := by
  obtain ⟨p, hp, hc⟩ := List.mem_flatMap.mp h
  refine (mem_of_mem_written hc).imp_left fun hs => ?_
  rw [← flatMap_source_pieces v .blank s]
  exact List.mem_flatMap.mpr ⟨p, hp, hs⟩

theorem cr_notMem_stripComments (v : Variant) (source : List Char) :
    '\r' ∉ stripComments v (normalizeEnds source) := by
  intro hc
  rcases mem_of_mem_stripComments hc with hc | hc
  · exact cr_notMem_normalizeEnds source hc
  · exact absurd hc (by simp)

end AssetPack.Glsl
