import AssetPack.Proofs.Text.Reader
import AssetPack.Toml.Document

/-!
# What is left of a document

Every reader of a document takes a text from its front (`takesFront_line`). The proofs are put
together as the readers are.

Tables in braces are read pair by pair, and forget where the pairs were. Here are readers that keep
it (`pairAt`, `bracePairs`), and the table is what these read, put together (`bracesOf_eq`).
-/

set_option autoImplicit false

namespace AssetPack.Toml

open Reader

variable {α β : Type}

/-! ## Strings -/

theorem suffix_drop_cons (c : Char) (n : Nat) (s : List Char) : s.drop n <:+ c :: s :=
  (List.drop_suffix n s).trans (List.suffix_cons c s)

/-- A character that is read in front of others leaves what they leave. -/
theorem suffix_of_prepend {c : Char} {x : Option (List Char × List Char)} {s t : List Char}
    (ht : t <:+ s) (hx : ∀ cs r, x = some (cs, r) → r <:+ t) :
    ∀ cs r, x.map (prepend c) = some (cs, r) → r <:+ s := by
  intro cs r h
  obtain ⟨⟨ds, u⟩, hu, h⟩ := Option.map_eq_some_iff.mp h
  cases h
  exact (hx ds u hu).trans ht

/-- At the closing quotes nothing more is taken. -/
theorem suffix_of_closing {cs r s : List Char} (front : List Char) (hs : s = front ++ r) :
    ∀ ds t, some (cs, r) = some (ds, t) → t <:+ s := by
  intro ds t h
  cases h
  exact ⟨front, hs.symm⟩

theorem takesFront_readBasic : TakesFront readBasic := by
  intro s
  fun_induction readBasic s with
  | case1 => nofun
  | case2 r => exact suffix_of_closing ['"'] rfl
  | case3 r c n _ ih => exact suffix_of_prepend (suffix_drop_cons _ n r) ih
  | case4 => nofun
  | case5 c r _ _ _ ih => exact suffix_of_prepend (List.suffix_cons c r) ih
  | case6 => nofun

theorem takesFront_readLiteral : TakesFront readLiteral := by
  intro s
  fun_induction readLiteral s with
  | case1 => nofun
  | case2 r => exact suffix_of_closing ['\''] rfl
  | case3 c r _ _ ih => exact suffix_of_prepend (List.suffix_cons c r) ih
  | case4 => nofun

theorem suffix_dropBlankLines (s : List Char) : dropBlankLines s <:+ s := by
  fun_induction dropBlankLines s with
  | case1 r ih => exact ih.trans (List.suffix_cons _ r)
  | case2 r ih => exact ih.trans (List.suffix_cons _ r)
  | case3 r ih => exact ih.trans (List.suffix_cons _ r)
  | case4 r ih => exact ih.trans ⟨['\r', '\n'], rfl⟩
  | case5 => exact List.suffix_rfl

theorem suffix_dropLineEnd (s : List Char) : dropLineEnd s <:+ s := by
  unfold dropLineEnd
  split
  · exact List.suffix_cons _ _
  · exact ⟨['\r', '\n'], rfl⟩
  · exact List.suffix_rfl

theorem takesFront_readBasicLines : TakesFront readBasicLines := by
  intro s
  fun_induction readBasicLines s with
  | case1 => nofun
  | case2 r => exact suffix_of_closing ['"', '"', '"', '"', '"'] rfl
  | case3 r => exact suffix_of_closing ['"', '"', '"', '"'] rfl
  | case4 r => exact suffix_of_closing ['"', '"', '"'] rfl
  | case5 r _ _ _ ih => exact suffix_of_prepend (List.suffix_cons _ r) ih
  | case6 r _ _ ih =>
    exact fun cs t h => (ih cs t h).trans ((suffix_dropBlankLines r).trans (List.suffix_cons _ r))
  | case7 r _ c n _ ih => exact suffix_of_prepend (suffix_drop_cons _ n r) ih
  | case8 => nofun
  | case9 r ih => exact suffix_of_prepend (List.suffix_cons _ r) ih
  | case10 r ih => exact suffix_of_prepend ⟨['\r', '\n'], rfl⟩ ih
  | case11 c r _ _ _ _ _ _ _ _ ih => exact suffix_of_prepend (List.suffix_cons c r) ih
  | case12 => nofun

theorem takesFront_readLiteralLines : TakesFront readLiteralLines := by
  intro s
  fun_induction readLiteralLines s with
  | case1 => nofun
  | case2 r => exact suffix_of_closing ['\'', '\'', '\'', '\'', '\''] rfl
  | case3 r => exact suffix_of_closing ['\'', '\'', '\'', '\''] rfl
  | case4 r => exact suffix_of_closing ['\'', '\'', '\''] rfl
  | case5 r _ _ _ ih => exact suffix_of_prepend (List.suffix_cons _ r) ih
  | case6 r ih => exact suffix_of_prepend (List.suffix_cons _ r) ih
  | case7 r ih => exact suffix_of_prepend ⟨['\r', '\n'], rfl⟩ ih
  | case8 c r _ _ _ _ _ _ _ ih => exact suffix_of_prepend (List.suffix_cons c r) ih
  | case9 => nofun

theorem takesFront_string : TakesFront string := by
  intro s cs t h
  unfold string at h
  split at h
  · have hsuffix := (takesFront_readBasicLines _ cs t h).trans (suffix_dropLineEnd _)
    exact hsuffix.trans ⟨['"', '"', '"'], rfl⟩
  · have hsuffix := (takesFront_readLiteralLines _ cs t h).trans (suffix_dropLineEnd _)
    exact hsuffix.trans ⟨['\'', '\'', '\''], rfl⟩
  · exact (takesFront_readBasic _ cs t h).trans (List.suffix_cons _ _)
  · exact (takesFront_readLiteral _ cs t h).trans (List.suffix_cons _ _)
  · cases h

theorem takesFront_lineString : TakesFront lineString := by
  intro s cs t h
  unfold lineString at h
  split at h
  · exact (takesFront_readBasic _ cs t h).trans (List.suffix_cons _ _)
  · exact (takesFront_readLiteral _ cs t h).trans (List.suffix_cons _ _)
  · cases h

/-! ## Numbers -/

theorem suffix_moreDigits (isDigit : Char → Bool) (s : List Char) :
    (moreDigits isDigit s).2 <:+ s := by
  fun_induction moreDigits isDigit s with
  | case1 => exact List.suffix_rfl
  | case2 c r _ ds rest hrest ih =>
    rw [hrest] at ih
    exact ih.trans (List.suffix_cons c r)
  | case3 d r _ ds rest hrest _ ih =>
    rw [hrest] at ih
    exact ih.trans ⟨['_', d], rfl⟩
  | case4 => exact List.suffix_rfl
  | case5 => exact List.suffix_rfl

theorem takesFront_moreDigits (isDigit : Char → Bool) :
    TakesFront fun s => some (moreDigits isDigit s) := by
  intro s cs r h
  have hsuffix := suffix_moreDigits isDigit s
  rw [Option.some.inj h] at hsuffix
  exact hsuffix

theorem takesFront_digitRun (isDigit : Char → Bool) : TakesFront (digitRun isDigit) :=
  .bind (.nextIf _) fun _ => .bind (takesFront_moreDigits _) fun _ => .pure _

theorem takesFront_sign : TakesFront sign := by
  refine .bind (.optional (.nextIf _)) fun o => ?_
  cases o <;> exact .pure _

theorem takesFront_decimalInteger : TakesFront decimalInteger := by
  refine .bind takesFront_sign fun negative => .bind (.nextIf _) fun first => ?_
  split
  · exact .pure _
  · exact .bind (takesFront_moreDigits _) fun _ => .pure _

theorem takesFront_fitting (n : Int) : TakesFront (fitting n) := by
  unfold fitting
  split
  · exact .pure _
  · exact .refuse

theorem takesFront_basedInteger (mark : Char) (base : Nat) (isDigit : Char → Bool) :
    TakesFront (basedInteger mark base isDigit) :=
  .bind (.exactly _) fun _ => .bind (takesFront_digitRun _) fun _ => takesFront_fitting _

theorem takesFront_integer : TakesFront integer :=
  .orElse (takesFront_basedInteger _ _ _) <| .orElse (takesFront_basedInteger _ _ _) <|
    .orElse (takesFront_basedInteger _ _ _) <|
      .bind takesFront_decimalInteger fun _ => takesFront_fitting _

theorem takesFront_exponent : TakesFront exponent :=
  .bind (.nextIf _) fun _ => .bind takesFront_sign fun _ =>
    .bind (takesFront_digitRun _) fun _ => .pure _

theorem takesFront_fraction : TakesFront fraction :=
  .bind (.exactly _) fun _ => takesFront_digitRun _

theorem takesFront_finiteFloat : TakesFront finiteFloat := by
  refine .bind takesFront_decimalInteger fun whole =>
    .bind (.optional takesFront_fraction) fun part => ?_
  have hrest : ∀ e : Int, TakesFront (
      let places := (part.getD []).length
      let f := Decimal.Binary64.ofDecimal whole.1 (numberOf 10 (whole.2 ++ part.getD []))
        (e - places)
      if f = .infinite false then refuse else pure (.float f) : Reader Value) := by
    intro e
    dsimp only
    split
    · exact .refuse
    · exact .pure _
  cases part with
  | none => exact .bind takesFront_exponent hrest
  | some digits => exact .bind (.map _ (.optional takesFront_exponent)) hrest

theorem takesFront_specialFloat : TakesFront specialFloat :=
  .bind takesFront_sign fun _ =>
    .orElse (.bind (.exactly _) fun _ => .pure _) (.bind (.exactly _) fun _ => .pure _)

theorem takesFront_mapM {f : α → Reader β} (hf : ∀ a, TakesFront (f a)) (as : List α) :
    TakesFront (as.mapM f) := by
  induction as with
  | nil => exact .pure _
  | cons a as ih =>
    rw [List.mapM_cons]
    exact .bind (hf a) fun b => .bind ih fun bs => .pure _

theorem takesFront_fixedNumber (count low high : Nat) :
    TakesFront (fixedNumber count low high) := by
  refine .bind (takesFront_mapM (fun _ => .nextIf _) _) fun digits => ?_
  dsimp only
  split
  · exact .pure _
  · exact .refuse

theorem takesFront_date : TakesFront date :=
  .bind (takesFront_fixedNumber _ _ _) fun _ => .bind (.exactly _) fun _ =>
    .bind (takesFront_fixedNumber _ _ _) fun _ => .bind (.exactly _) fun _ =>
      .bind (takesFront_fixedNumber _ _ _) fun _ => .pure _

theorem takesFront_clock : TakesFront clock :=
  .bind (takesFront_fixedNumber _ _ _) fun _ => .bind (.exactly _) fun _ =>
    .bind (takesFront_fixedNumber _ _ _) fun _ => .bind (.exactly _) fun _ =>
      .bind (takesFront_fixedNumber _ _ _) fun _ =>
        .bind (.optional (.bind (.exactly _) fun _ => .bind (.nextIf _) fun _ =>
          .bind (.takeWhile _) fun _ => .pure _)) fun _ => .pure _

theorem takesFront_offset : TakesFront offset :=
  .orElse (.bind (.nextIf _) fun _ => .pure _) <|
    .bind (.nextIf _) fun _ => .bind (takesFront_fixedNumber _ _ _) fun _ =>
      .bind (.exactly _) fun _ => .bind (takesFront_fixedNumber _ _ _) fun _ => .pure _

theorem takesFront_pointInTime : TakesFront pointInTime :=
  .bind (.orElse
    (.bind takesFront_date fun _ =>
      .bind (.optional (.bind (.nextIf _) fun _ => .bind takesFront_clock fun _ =>
        .bind (.optional takesFront_offset) fun _ => .pure _)) fun _ => .pure _)
    takesFront_clock) fun _ => .pure _

theorem takesFront_number : TakesFront number :=
  .orElse takesFront_pointInTime <| .orElse takesFront_finiteFloat <|
    .orElse takesFront_specialFloat takesFront_integer

/-! ## Blanks and comments -/

theorem takesFront_blanks : TakesFront blanks := .bind (.takeWhile _) fun _ => .pure _

theorem takesFront_lineEnd : TakesFront lineEnd := .orElse (.exactly _) (.exactly _)

theorem takesFront_comment : TakesFront comment :=
  .bind (.exactly _) fun _ => .bind (.takeWhile _) fun _ => .pure _

theorem takesFront_restOfLine : TakesFront restOfLine :=
  .bind takesFront_blanks fun _ => .bind (.optional takesFront_comment) fun _ =>
    .orElse takesFront_lineEnd .atEnd

theorem takesFront_gap : TakesFront gap := by
  refine .bind (.many (.bind .peek? fun c => ?_)) fun _ => .pure _
  split
  · exact .bind takesFront_comment fun _ => takesFront_lineEnd
  · exact takesFront_blanks
  · exact takesFront_blanks
  · exact takesFront_lineEnd

/-! ## Keys and arrays -/

theorem takesFront_keySegment : TakesFront keySegment := by
  refine .bind .peek? fun c => ?_
  split
  · exact .bind takesFront_lineString fun _ => .pure _
  · exact .bind takesFront_lineString fun _ => .pure _
  · refine .bind (.takeWhile _) fun cs => ?_
    split
    · exact .refuse
    · exact .pure _

theorem takesFront_key : TakesFront key := by
  refine .bind takesFront_blanks fun _ => .bind takesFront_keySegment fun first =>
    .bind takesFront_blanks fun _ => .bind (.many ?_) fun others => ?_
  · exact .bind (.exactly _) fun _ => .bind takesFront_blanks fun _ =>
      .bind takesFront_keySegment fun _ => .bind takesFront_blanks fun _ => .pure _
  · dsimp only
    split
    · exact .bind .refuse fun _ => .pure _
    · exact .pure _

theorem takesFront_arrayOf {value : Reader Value} (h : TakesFront value) :
    TakesFront (arrayOf value) := by
  refine .bind (.exactly _) fun _ => .bind (.many ?_) fun items =>
    .bind takesFront_gap fun _ => .bind (.exactly _) fun _ => ?_
  · exact .bind takesFront_gap fun _ => .bind h fun _ => .bind takesFront_gap fun _ =>
      .bind (.optional (.exactly _)) fun _ => .pure _
  · split
    · exact .pure _
    · exact .refuse

/-! ## Pairs and their places -/

/-- A key with its value, and the text from each of the two on. -/
structure Pair where
  start : List Char
  path : List String
  key : String
  inner : List Char
  value : Value

/-- What the pair says. -/
def Pair.said (p : Pair) : List String × String × Value := (p.path, p.key, p.value)

/-- Reads a key with its value, and where they are. -/
def pairAt (value : Reader Value) : Reader Pair := do
  let start ← here
  let (path, last) ← key
  exactly ['=']
  blanks
  let inner ← here
  let v ← value
  return ⟨start, path, last, inner, v⟩

theorem pairWith_eq (value : Reader Value) : pairWith value = Pair.said <$> pairAt value := by
  simp only [pairWith, pairAt, map_bind, map_pure, Pair.said]
  rfl

/-- Reads a pair of a table in braces. -/
def bracePair (value : Reader Value) : Reader Pair := do
  let p ← pairAt value
  blanks
  return p

/-- Reads the pairs behind the first one, if there is one. -/
def otherPairs (value : Reader Value) : Option Pair → Reader (List Pair)
  | none => pure []
  | some _ => many do exactly [',']; bracePair value

/-- Reads the pairs of a table in braces. -/
def bracePairs (value : Reader Value) : Reader (List Pair) := do
  exactly ['\x7b']
  blanks
  let first ← optional (bracePair value)
  let others ← otherPairs value first
  blanks
  exactly ['\x7d']
  return first.toList ++ others

/-- The table into which the pairs are put in turn. -/
def ofPairs (pairs : List (List String × String × Value)) : Reader Value :=
  match pairs.foldlM (fun (es : Entries) p => es.put p.1 p.2.1 p.2.2) [] with
  | some es => return .table .braces es
  | none => refuse

/-- A table in braces is put together from its pairs, wherever they are. -/
theorem bracesOf_eq (value : Reader Value) :
    bracesOf value = bracePairs value >>= fun pairs => ofPairs (pairs.map Pair.said) := by
  have hpair : (do
      let p ← pairWith value
      blanks
      return p) = Pair.said <$> bracePair value := by
    simp only [pairWith_eq, bracePair, map_bind, map_pure, bind_map_left]
  have hmore : (do exactly [',']; Pair.said <$> bracePair value) =
      Pair.said <$> (do exactly [',']; bracePair value) := by
    rw [map_bind]
  unfold bracesOf bracePairs
  simp only [hpair, hmore, many_map, optional_map, bind_assoc, pure_bind, bind_map_left]
  refine bind_congr fun _ => bind_congr fun _ => bind_congr fun first => ?_
  cases first <;> rfl

theorem takesFront_pairAt {value : Reader Value} (h : TakesFront value) :
    TakesFront (pairAt value) :=
  .bind .here fun _ => .bind takesFront_key fun _ => .bind (.exactly _) fun _ =>
    .bind takesFront_blanks fun _ => .bind .here fun _ => .bind h fun _ => .pure _

theorem takesFront_pairWith {value : Reader Value} (h : TakesFront value) :
    TakesFront (pairWith value) := by
  rw [pairWith_eq]
  exact .map _ (takesFront_pairAt h)

theorem takesFront_bracePair {value : Reader Value} (h : TakesFront value) :
    TakesFront (bracePair value) :=
  .bind (takesFront_pairAt h) fun _ => .bind takesFront_blanks fun _ => .pure _

theorem takesFront_bracePairs {value : Reader Value} (h : TakesFront value) :
    TakesFront (bracePairs value) := by
  have hothers : ∀ first, TakesFront (otherPairs value first) := by
    rintro (_ | p)
    · exact .pure _
    · exact .many (.bind (.exactly _) fun _ => takesFront_bracePair h)
  exact .bind (.exactly _) fun _ => .bind takesFront_blanks fun _ =>
    .bind (.optional (takesFront_bracePair h)) fun first => .bind (hothers first) fun _ =>
      .bind takesFront_blanks fun _ => .bind (.exactly _) fun _ => .pure _

theorem takesFront_ofPairs (pairs : List (List String × String × Value)) :
    TakesFront (ofPairs pairs) := by
  unfold ofPairs
  split
  · exact .pure _
  · exact .refuse

theorem takesFront_bracesOf {value : Reader Value} (h : TakesFront value) :
    TakesFront (bracesOf value) := by
  rw [bracesOf_eq]
  exact .bind (takesFront_bracePairs h) fun _ => takesFront_ofPairs _

/-! ## Values and lines -/

theorem takesFront_value (depth : Nat) : TakesFront (value depth) := by
  induction depth using Nat.strongRecOn with
  | ind depth ih =>
    unfold value
    refine .bind .peek? fun c => ?_
    split
    · exact .bind takesFront_string fun _ => .pure _
    · exact .bind takesFront_string fun _ => .pure _
    · split
      · exact .refuse
      · exact takesFront_arrayOf (ih _ (Nat.lt_succ_self _))
    · split
      · exact .refuse
      · exact takesFront_bracesOf (ih _ (Nat.lt_succ_self _))
    · exact .bind (.exactly _) fun _ => .pure _
    · exact .bind (.exactly _) fun _ => .pure _
    · exact takesFront_specialFloat
    · exact takesFront_specialFloat
    · exact takesFront_number

theorem takesFront_headerIn (opening closing : List Char) :
    TakesFront (headerIn opening closing) :=
  .bind (.exactly _) fun _ => .bind takesFront_key fun _ => .bind (.exactly _) fun _ =>
    .bind takesFront_restOfLine fun _ => .pure _

theorem takesFront_line : TakesFront line := by
  refine .bind takesFront_blanks fun _ => .bind .peek? fun c => ?_
  split
  · exact .refuse
  · exact .bind takesFront_lineEnd fun _ => .pure _
  · exact .bind takesFront_lineEnd fun _ => .pure _
  · exact .bind takesFront_comment fun _ => .bind (.orElse takesFront_lineEnd .atEnd) fun _ =>
      .pure _
  · exact .orElse (.bind (takesFront_headerIn _ _) fun _ => .pure _)
      (.bind (takesFront_headerIn _ _) fun _ => .pure _)
  · exact .bind (takesFront_pairWith (takesFront_value _)) fun _ =>
      .bind takesFront_restOfLine fun _ => .pure _

end AssetPack.Toml
