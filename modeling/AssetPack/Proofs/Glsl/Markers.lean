import AssetPack.Glsl.Separator
import AssetPack.Proofs.Glsl.Pieces

/-!
# The comment markers that are left

A text from which the comments were taken still holds `//` in quotations and `/*` that nothing
closes, and minifying it moves its characters together. That it has no comment after all is a
fact about a few pairs of neighbours, and this file puts it in those terms.

`spots` lists the visible characters of a text as the scanner meets them: each with the visible
character right behind it, if there is one, and with the bit whether it is *exposed*, that is, not
in a quotation. `Calm` says that no exposed `/` starts a comment. Then:

* the text written for the pieces of any text is calm (`calm_flatMap_written`);
* in a calm text the scanner finds no comment (`pieces_of_calm`);
* calm is kept when characters are hidden in quotations, when neighbours are moved apart, and
  when they are moved together without forming a marker (`Covers`, `calm_of_covers`).

The last point is one-sided for a reason. A line that begins with a no-break space and `#` is no
directive, but is written without that space and then is one; quotations appear where there were
none, and what they hide was not a comment before.
-/

set_option autoImplicit false

namespace AssetPack.Glsl

open AssetPack.Text

/-- A visible character, the visible character right behind it if there is one, and whether it
stands outside quotations. -/
structure Spot where
  char : Char
  next : Option Char
  exposed : Bool
  deriving DecidableEq, Repr

/-- The first character of a text if it is visible. -/
def front (s : List Char) : Option Char := s.head?.filter fun c => !isBlank c

/-- Whether a quotation is open after one more character, on a line of kind `k`. -/
def quotedAfter (k : LineKind) (quoted : Bool) (c : Char) : Bool :=
  if c = '\n' then false
  else if c = '"' then decide (k = .directive) && !quoted
  else quoted

/-- The visible characters of a text that continues a line of kind `k`. -/
def spots (k : LineKind) (quoted : Bool) : List Char → List Spot
  | [] => []
  | c :: r =>
    if isBlank c then spots (k.push c) (quotedAfter k quoted c) r
    else ⟨c, front r, !quoted⟩ :: spots (k.push c) (quotedAfter k quoted c) r

/-- The spot is the `*` of a `*/`. -/
def Spot.Closes (p : Spot) : Prop := p.char = '*' ∧ p.next = some '/'

/-- No exposed `/` starts a comment: none is followed by `/`, and behind none that is followed by
`*` is the text closed. The spot right behind such a `/` is its `*`, which cannot be the one that
closes. -/
def Calm : List Spot → Prop
  | [] => True
  | p :: rest =>
    (p.exposed = true → p.char = '/' →
      p.next ≠ some '/' ∧ (p.next = some '*' → ∀ q ∈ rest.tail, ¬ q.Closes)) ∧ Calm rest

/-! ## Reading on -/

@[simp] theorem push_lf (k : LineKind) : k.push '\n' = .blank := rfl

/-- The kind of a line is settled by its first character that is no linear blank. -/
theorem push_of_ne {k : LineKind} (h : k ≠ .blank) {c : Char} (hc : c ≠ '\n') : k.push c = k := by
  cases k <;> simp_all [LineKind.push]

theorem push_code {c : Char} (hc : c ≠ '\n') : LineKind.code.push c = .code :=
  push_of_ne (by simp) hc

theorem push_directive {c : Char} (hc : c ≠ '\n') : LineKind.directive.push c = .directive :=
  push_of_ne (by simp) hc

theorem push_blank {c : Char} (hlf : c ≠ '\n') (hc : isLinearBlank c = false) (hhash : c ≠ '#') :
    LineKind.blank.push c = .code := by
  simp [LineKind.push, hlf, hc, hhash]

theorem push_linear {c : Char} (hc : isLinearBlank c = true) (k : LineKind) : k.push c = k := by
  have hlf : c ≠ '\n' := lf_ne_of_isLinearBlank hc
  cases k <;> simp [LineKind.push, hlf, hc]

theorem quotedAfter_linear {c : Char} (hc : isLinearBlank c = true) (k : LineKind) (quoted : Bool) :
    quotedAfter k quoted c = quoted := by
  have hlf : c ≠ '\n' := lf_ne_of_isLinearBlank hc
  have hq : c ≠ '"' := Ne.symm (ne_of_not_isBlank isBlank_quote (isBlank_of_isLinearBlank hc))
  rw [quotedAfter, if_neg hlf, if_neg hq]

/-- Outside quotations only a quote on a directive opens one. -/
theorem quotedAfter_false {k : LineKind} {c : Char} (h : c = '"' → k ≠ .directive) :
    quotedAfter k false c = false := by
  unfold quotedAfter
  split
  · rfl
  · split
    · rename_i hc
      simp [h hc]
    · rfl

theorem spots_blank {c : Char} (hc : isBlank c = true) (k : LineKind) (quoted : Bool)
    (r : List Char) :
    spots k quoted (c :: r) = spots (k.push c) (quotedAfter k quoted c) r := by
  rw [spots, if_pos hc]

theorem spots_visible {c : Char} (hc : isBlank c = false) (k : LineKind) (quoted : Bool)
    (r : List Char) :
    spots k quoted (c :: r) =
      ⟨c, front r, !quoted⟩ :: spots (k.push c) (quotedAfter k quoted c) r := by
  rw [spots, if_neg (by simp [hc])]

theorem spots_linear {c : Char} (hc : isLinearBlank c = true) (k : LineKind) (quoted : Bool)
    (r : List Char) : spots k quoted (c :: r) = spots k quoted r := by
  rw [spots_blank (isBlank_of_isLinearBlank hc), push_linear hc, quotedAfter_linear hc]

theorem spots_lf (k : LineKind) (quoted : Bool) (r : List Char) :
    spots k quoted ('\n' :: r) = spots .blank false r := by
  rw [spots_blank isBlank_lf, push_lf]
  rfl

theorem front_cons (c : Char) (r : List Char) :
    front (c :: r) = if isBlank c then none else some c := by
  by_cases hc : isBlank c = true <;> simp [front, hc]

theorem front_eq_some {s : List Char} {c : Char} (h : front s = some c) : s.head? = some c :=
  (Option.filter_eq_some_iff.mp h).1

/-- Spaces and line feeds are read without a trace. -/
theorem spots_append_blanks {w : List Char} (hw : ∀ c ∈ w, c = ' ' ∨ c = '\n') (k : LineKind)
    (t : List Char) : spots k false (w ++ t) = spots (w.foldl LineKind.push k) false t := by
  induction w generalizing k with
  | nil => rfl
  | cons c w ih =>
    have hrest := ih fun d hd => hw d (List.mem_cons_of_mem _ hd)
    rw [List.cons_append, List.foldl_cons, ← hrest]
    rcases hw c List.mem_cons_self with rfl | rfl
    · rw [spots_linear isLinearBlank_space, push_linear isLinearBlank_space]
    · rw [spots_lf, push_lf]

/-! ## Where a text is closed -/

theorem closer_infix_cons_iff {c : Char} {t : List Char} :
    ['*', '/'] <:+: c :: t ↔ (c = '*' ∧ t.head? = some '/') ∨ ['*', '/'] <:+: t := by
  rw [List.infix_cons_iff]
  refine or_congr_left ?_
  cases t with
  | nil => simp
  | cons d t => simp [eq_comm]

theorem exists_closes_iff (k : LineKind) (quoted : Bool) {s : List Char} :
    (∃ q ∈ spots k quoted s, q.Closes) ↔ ['*', '/'] <:+: s := by
  induction s generalizing k quoted with
  | nil => simp [spots]
  | cons c r ih =>
    rw [closer_infix_cons_iff, ← ih (k.push c) (quotedAfter k quoted c)]
    by_cases hc : isBlank c = true
    · have hstar : c ≠ '*' := Ne.symm (ne_of_not_isBlank isBlank_star hc)
      rw [spots_blank hc]
      simp [hstar]
    · rw [Bool.not_eq_true] at hc
      rw [spots_visible hc, List.exists_mem_cons_iff]
      refine or_congr_left (and_congr_right fun _ => ?_)
      constructor
      · exact fun h => front_eq_some h
      · intro h
        change front r = some '/'
        rw [front, h]
        rfl

/-! ## The text written for the pieces -/

theorem mem_written_comment {v : Variant} {text : List Char} {c : Char}
    (h : c ∈ (Piece.comment text).written v) : c = ' ' ∨ c = '\n' := by
  cases v with
  | release => exact Or.inl (List.mem_singleton.mp h)
  | debug =>
    obtain ⟨d, -, rfl⟩ := List.mem_map.mp h
    by_cases hd : d = '\n' <;> simp [hd]

theorem flatMap_written_map_kept (v : Variant) (s : List Char) :
    (s.map Piece.kept).flatMap (Piece.written v) = s := by
  induction s with
  | nil => rfl
  | cons c s ih => simp [Piece.written, ih]

/-- A written text begins as its source does, or with what stands for a comment. -/
theorem head?_of_head?_written {v : Variant} {k : LineKind} {s : List Char} {c : Char}
    (h : ((pieces v k s).flatMap (Piece.written v)).head? = some c) (hsp : c ≠ ' ')
    (hlf : c ≠ '\n') : s.head? = some c := by
  refine pieces_induction v
    (P := fun _ s ps => (ps.flatMap (Piece.written v)).head? = some c → s.head? = some c)
    ?_ ?_ ?_ ?_ k s h
  · intro _ h
    exact h
  · intro k text rest htext _ h
    -- A comment is not empty, so the character would be one of what is written for it.
    have hne : (Piece.comment text).written v ≠ [] := by
      cases v <;> cases htext <;> simp [Piece.written]
    rw [List.flatMap_cons, List.head?_append_of_ne_nil _ hne] at h
    rcases mem_written_comment (List.mem_of_mem_head? h) with rfl | rfl
    · exact absurd rfl hsp
    · exact absurd rfl hlf
  · intro _ _ h
    exact h
  · intro _ _ _ _ _ _ h
    exact h

/-- With the same characters in front, a text holds a `*/` if what it is compared with does. -/
theorem closer_infix_append {t t' : List Char} (hhead : t.head? = some '/' → t'.head? = some '/')
    (h : ['*', '/'] <:+: t → ['*', '/'] <:+: t') (s : List Char) :
    ['*', '/'] <:+: s ++ t → ['*', '/'] <:+: s ++ t' := by
  induction s with
  | nil => exact h
  | cons c s ih =>
    rw [List.cons_append, List.cons_append, closer_infix_cons_iff, closer_infix_cons_iff]
    refine Or.imp (And.imp_right fun hc => ?_) ih
    cases s with
    | nil => exact hhead hc
    | cons d s => exact hc

/-- Writing a text ends no block comment that the source leaves open. -/
theorem closer_infix_of_written {v : Variant} {k : LineKind} {s : List Char}
    (h : ['*', '/'] <:+: (pieces v k s).flatMap (Piece.written v)) : ['*', '/'] <:+: s := by
  have hfront : ∀ (k : LineKind) (s : List Char),
      ((pieces v k s).flatMap (Piece.written v)).head? = some '/' → s.head? = some '/' :=
    fun k s hs => head?_of_head?_written hs (by simp) (by simp)
  refine pieces_induction v
    (P := fun _ s ps => ['*', '/'] <:+: ps.flatMap (Piece.written v) → ['*', '/'] <:+: s)
    ?_ ?_ ?_ ?_ k s h
  · intro _ h
    exact h
  · intro k text rest _ ih h
    rw [List.flatMap_cons, ← exists_closes_iff k false,
      spots_append_blanks (fun c => mem_written_comment), exists_closes_iff] at h
    exact (ih h).trans (List.suffix_append text rest).isInfix
  · intro r ih h
    rw [List.flatMap_cons, List.flatMap_append, flatMap_written_map_kept, Piece.written] at h
    have := closer_infix_append (hfront _ _) ih ('"' :: (cutQuoted r).1) (by simpa using h)
    rwa [List.cons_append, cutQuoted_append] at this
  · intro k c r _ _ ih h
    exact closer_infix_append (hfront _ _) ih [c] h

/-! ## Quotations -/

/-- What is copied of a quotation: characters up to the closing quote, or up to the line's end. -/
theorem cutQuoted_cases (r : List Char) :
    ∃ body, '"' ∉ body ∧ '\n' ∉ body ∧
      ((cutQuoted r).1 = body ++ ['"'] ∨
        ((cutQuoted r).1 = body ∧ ∀ c, (cutQuoted r).2.head? = some c → c = '\n')) := by
  fun_induction cutQuoted r with
  | case1 => exact ⟨[], by simp, by simp, Or.inr ⟨rfl, by simp⟩⟩
  | case2 r => exact ⟨[], by simp, by simp, Or.inl rfl⟩
  | case3 r => exact ⟨[], by simp, by simp, Or.inr ⟨rfl, by simp⟩⟩
  | case4 c r hq hlf ih =>
    obtain ⟨body, hbq, hblf, hbody⟩ := ih
    refine ⟨c :: body, ?_, ?_, ?_⟩
    · rintro (_ | ⟨_, h⟩)
      · exact hq rfl
      · exact hbq h
    · rintro (_ | ⟨_, h⟩)
      · exact hlf rfl
      · exact hblf h
    · exact hbody.imp (fun h => by rw [h]; rfl) (fun h => ⟨by rw [h.1], h.2⟩)

/-- Spots that are hidden in front change nothing. -/
theorem calm_append_hidden {hidden rest : List Spot} (h : ∀ p ∈ hidden, p.exposed = false) :
    Calm (hidden ++ rest) ↔ Calm rest := by
  induction hidden with
  | nil => rfl
  | cons p hidden ih =>
    have hp := h p List.mem_cons_self
    rw [List.cons_append, Calm, ih fun q hq => h q (List.mem_cons_of_mem _ hq)]
    exact and_iff_right fun hexp => absurd hexp (by simp [hp])

theorem exists_spots_quoted {body : List Char} (hq : '"' ∉ body) (hlf : '\n' ∉ body)
    (t : List Char) :
    ∃ hidden, (∀ p ∈ hidden, p.exposed = false) ∧
      spots .directive true (body ++ t) = hidden ++ spots .directive true t := by
  induction body with
  | nil => exact ⟨[], by simp, rfl⟩
  | cons c body ih =>
    simp only [List.mem_cons, not_or] at hq hlf
    obtain ⟨hidden, hh, heq⟩ := ih hq.2 hlf.2
    have hstep : spots (LineKind.directive.push c) (quotedAfter .directive true c) (body ++ t) =
        hidden ++ spots .directive true t := by
      rw [push_directive (Ne.symm hlf.1), quotedAfter, if_neg (Ne.symm hlf.1),
        if_neg (Ne.symm hq.1), heq]
    by_cases hc : isBlank c = true
    · exact ⟨hidden, hh, by rw [List.cons_append, spots_blank hc, hstep]⟩
    · rw [Bool.not_eq_true] at hc
      refine ⟨⟨c, front (body ++ t), false⟩ :: hidden, ?_, ?_⟩
      · intro p hp
        rcases List.mem_cons.mp hp with rfl | hp
        · rfl
        · exact hh p hp
      · rw [List.cons_append, spots_visible hc, hstep]
        rfl

/-- A quotation hides what it holds, and no more. -/
theorem calm_quoted_iff {r t : List Char}
    (ht : (∀ c, (cutQuoted r).2.head? = some c → c = '\n') → ∀ c, t.head? = some c → c = '\n') :
    Calm (spots .directive true ((cutQuoted r).1 ++ t)) ↔ Calm (spots .directive false t) := by
  obtain ⟨body, hq, hlf, hclosed | ⟨hopen, hend⟩⟩ := cutQuoted_cases r
  · obtain ⟨hidden, hh, heq⟩ := exists_spots_quoted hq hlf ('"' :: t)
    have hquote : spots .directive true ('"' :: t) =
        ⟨'"', front t, false⟩ :: spots .directive false t := by
      rw [spots_visible (by simp)]
      rfl
    rw [hclosed, List.append_assoc, List.singleton_append, heq, calm_append_hidden hh, hquote,
      Calm]
    exact and_iff_right fun h => absurd h (by simp)
  · obtain ⟨hidden, hh, heq⟩ := exists_spots_quoted hq hlf t
    rw [hopen, heq, calm_append_hidden hh]
    cases t with
    | nil => rfl
    | cons c t => rw [ht hend c rfl, spots_lf, spots_lf]

/-! ## Calm and the scanner -/

/-- Where a line ends, the text written for it ends. -/
theorem head?_written_lf {v : Variant} {k : LineKind} {s : List Char}
    (h : ∀ c, s.head? = some c → c = '\n') {c : Char}
    (hc : ((pieces v k s).flatMap (Piece.written v)).head? = some c) : c = '\n' := by
  cases s with
  | nil =>
    rw [pieces_nil] at hc
    exact absurd hc (by simp)
  | cons d s =>
    obtain rfl := h d rfl
    have hstart : ¬ StartsComment ('\n' :: s) := fun hs =>
      absurd (head?_of_startsComment hs) (by simp)
    rw [pieces_kept v hstart fun hq => absurd hq (by decide)] at hc
    exact (Option.some.inj hc).symm

/-- A slash that is kept starts no comment in what is written either. A neighbour that would make
a marker is not a blank written for a comment, so the source has it as well. -/
theorem calm_kept_slash {v : Variant} {k : LineKind} {r : List Char}
    (hstart : ¬ StartsComment ('/' :: r)) :
    front ((pieces v k r).flatMap (Piece.written v)) ≠ some '/' ∧
      (front ((pieces v k r).flatMap (Piece.written v)) = some '*' →
        ∀ q ∈ (spots k false ((pieces v k r).flatMap (Piece.written v))).tail, ¬ q.Closes) := by
  constructor
  · intro hnext
    have hr := head?_of_head?_written (front_eq_some hnext) (by simp) (by simp)
    obtain ⟨r', rfl⟩ := List.head?_eq_some_iff.mp hr
    exact hstart (startsComment_line r')
  · intro hnext q hq hcloses
    have hr := head?_of_head?_written (front_eq_some hnext) (by simp) (by simp)
    obtain ⟨r', rfl⟩ := List.head?_eq_some_iff.mp hr
    have hstar : ¬ StartsComment ('*' :: r') := fun hs =>
      absurd (head?_of_startsComment hs) (by simp)
    rw [pieces_kept v hstar fun hq => absurd hq (by decide), List.flatMap_cons, Piece.written,
      List.singleton_append, spots_visible (by simp), List.tail_cons] at hq
    have hcloser := (exists_closes_iff _ _).mp ⟨q, hq, hcloses⟩
    exact hstart (startsComment_block (closer_infix_of_written hcloser))

/-- The text written for the pieces of a text is calm. -/
theorem calm_flatMap_written (v : Variant) (k : LineKind) (s : List Char) :
    Calm (spots k false ((pieces v k s).flatMap (Piece.written v))) := by
  refine pieces_induction v
    (P := fun k _ ps => Calm (spots k false (ps.flatMap (Piece.written v)))) ?_ ?_ ?_ ?_ k s
  · intro _
    trivial
  · intro k text rest _ ih
    rw [List.flatMap_cons, spots_append_blanks fun c => mem_written_comment]
    exact ih
  · intro r ih
    rw [List.flatMap_cons, List.flatMap_append, flatMap_written_map_kept, Piece.written,
      List.singleton_append, spots_visible (by simp)]
    exact ⟨fun _ h => absurd h (by simp),
      (calm_quoted_iff fun hend _ => head?_written_lf hend).mpr ih⟩
  · intro k c r hstart hquote ih
    rw [List.flatMap_cons, Piece.written, List.singleton_append]
    by_cases hc : isBlank c = true
    · rwa [spots_blank hc, quotedAfter_false hquote]
    · rw [Bool.not_eq_true] at hc
      rw [spots_visible hc, quotedAfter_false hquote]
      refine ⟨fun _ hslash => ?_, ih⟩
      change c = '/' at hslash
      subst hslash
      exact calm_kept_slash hstart

/-- In a calm text the scanner finds no comment. -/
theorem pieces_of_calm (v : Variant) {k : LineKind} {s : List Char}
    (h : Calm (spots k false s)) : pieces v k s = s.map Piece.kept := by
  refine pieces_induction v
    (P := fun k s ps => Calm (spots k false s) → ps = s.map Piece.kept) ?_ ?_ ?_ ?_ k s h
  · intro _ _
    rfl
  · intro k text rest htext _ h
    cases htext with
    | line _ _ =>
      rw [List.cons_append, List.cons_append, spots_visible (by simp)] at h
      exact absurd rfl (h.1 rfl rfl).1
    | @block body _ _ =>
      rw [List.cons_append, List.cons_append, spots_visible (by simp),
        spots_visible (by simp)] at h
      -- The closer lies behind the `*` of the opener, which `Calm` leaves out.
      obtain ⟨q, hq, hcloses⟩ := (exists_closes_iff _ _).mpr
        (show ['*', '/'] <:+: (body ++ ['*', '/']) ++ rest from ⟨body, rest, by simp⟩)
      exact absurd hcloses ((h.1 rfl rfl).2 rfl q hq)
  · intro r ih h
    rw [spots_visible (by simp)] at h
    have hr : Calm (spots .directive true ((cutQuoted r).1 ++ (cutQuoted r).2)) := by
      rw [cutQuoted_append]
      exact h.2
    rw [ih ((calm_quoted_iff id).mp hr), ← List.map_append, cutQuoted_append, List.map_cons]
  · intro k c r _ hquote ih h
    have hr : Calm (spots (k.push c) false r) := by
      by_cases hc : isBlank c = true
      · rwa [spots_blank hc, quotedAfter_false hquote] at h
      · rw [Bool.not_eq_true] at hc
        rw [spots_visible hc, quotedAfter_false hquote] at h
        exact h.2
    rw [ih hr, List.map_cons]

theorem stripComments_of_calm (v : Variant) {s : List Char} (h : Calm (spots .blank false s)) :
    stripComments v s = s := by
  rw [stripComments, pieces_of_calm v h, flatMap_written_map_kept]

/-! ## Moving neighbours -/

/-- Two neighbours that together are one of the marks of a comment. -/
def isMarker (a b : Char) : Bool :=
  (a == '/' && (b == '/' || b == '*')) || (a == '*' && b == '/')

/-- The release variant keeps the two characters of a marker apart. -/
theorem needsSeparator_of_isMarker {a b : Char} (h : isMarker a b = true) :
    needsSeparator a b = true := by
  simp only [isMarker, Bool.or_eq_true, Bool.and_eq_true, beq_iff_eq] at h
  rcases h with ⟨rfl, rfl | rfl⟩ | ⟨rfl, rfl⟩ <;> decide

/-- The second spot, which stands in the place of the first one, shows no more of a comment: it is
the same character, exposed only if the first one is, and if it forms a marker with the character
behind it then the first one does. -/
structure Covers (p q : Spot) : Prop where
  char : q.char = p.char
  exposed : q.exposed = true → p.exposed = true
  marker : ∀ n, q.next = some n → isMarker q.char n = true → p.next = some n

theorem Covers.refl (p : Spot) : Covers p p := ⟨rfl, id, fun _ h _ => h⟩

theorem Covers.trans {p q r : Spot} (hpq : Covers p q) (hqr : Covers q r) : Covers p r := by
  refine ⟨hqr.char.trans hpq.char, fun h => hpq.exposed (hqr.exposed h), ?_⟩
  intro n hn hm
  exact hpq.marker n (hqr.marker n hn hm) (hqr.char ▸ hm)

theorem covers_refl (ps : List Spot) : List.Forall₂ Covers ps ps :=
  List.forall₂_same.mpr fun p _ => Covers.refl p

theorem covers_trans {ps qs rs : List Spot} (h : List.Forall₂ Covers ps qs)
    (h' : List.Forall₂ Covers qs rs) : List.Forall₂ Covers ps rs := by
  induction h generalizing rs with
  | nil => exact h'
  | cons hpq _ ih =>
    cases h' with
    | cons hqr h' => exact .cons (hpq.trans hqr) (ih h')

theorem Covers.closes {p q : Spot} (h : Covers p q) (hq : q.Closes) : p.Closes := by
  obtain ⟨hchar, hnext⟩ := hq
  refine ⟨h.char ▸ hchar, h.marker '/' hnext ?_⟩
  rw [hchar]
  rfl

theorem exists_closes_of_covers {ps qs : List Spot} (h : List.Forall₂ Covers ps qs)
    (hq : ∃ q ∈ qs, q.Closes) : ∃ p ∈ ps, p.Closes := by
  induction h with
  | nil => exact hq
  | cons hpq _ ih =>
    rw [List.exists_mem_cons_iff] at hq ⊢
    exact hq.imp hpq.closes ih

/-- A text that shows no more of a comment than a calm one is calm. -/
theorem calm_of_covers {ps qs : List Spot} (h : List.Forall₂ Covers ps qs) (hps : Calm ps) :
    Calm qs := by
  induction h with
  | nil => trivial
  | @cons p q ps qs hpq hrest ih =>
    refine ⟨fun hexp hslash => ?_, ih hps.2⟩
    obtain ⟨hline, hblock⟩ := hps.1 (hpq.exposed hexp) (hpq.char ▸ hslash)
    constructor
    · intro hn
      exact hline (hpq.marker '/' hn (by rw [hslash]; rfl))
    · intro hn r hr hcloses
      have htail : List.Forall₂ Covers ps.tail qs.tail := by
        cases hrest with
        | nil => exact .nil
        | cons _ h => exact h
      obtain ⟨p', hp', hc⟩ := exists_closes_of_covers htail ⟨r, hr, hcloses⟩
      exact hblock (hpq.marker '*' hn (by rw [hslash]; rfl)) p' hp' hc

end AssetPack.Glsl
