import AssetPack.Proofs.Toml.Paths
import AssetPack.Proofs.Toml.Readers

/-!
# Where keys are written

A document's table forgets the text it was read from. This file says where in the text a path of the
table is written (`WrittenOn`): in the header or the key of a statement, whatever the header above
it adds in front, or in a pair of a table in braces, however deep in a statement's value. Both are
said of the readers themselves, run once more where the statement or the value begins, and not of
the spelling of a key: a key may be quoted and have escapes in it.

Every path of a document is written somewhere (`exists_writtenOn`). The paths of a value are found
by the recursion by which the value was read; those of the document come from its statements, as
they were put together.
-/

set_option autoImplicit false

namespace AssetPack.Toml

open Reader

variable {s r start rest text : List Char} {p q path header : List String} {v : Value}
  {key : String} {es inner : Entries} {depth n : Nat} {pair : Pair} {pairs : List Pair}
  {st : Statement}

/-! ## Values with keys in them -/

/-- The value is no table, and not several tables. -/
def Value.IsLeaf : Value → Prop
  | .table _ _ | .tables _ => False
  | _ => True

theorem Value.IsLeaf.not_holds (h : v.IsLeaf) : ¬ v.Holds inner := by
  rintro (_ | _) <;> exact h

theorem gives_fitting (n : Int) : Gives Value.IsLeaf (fitting n) := by
  unfold fitting
  split
  · exact .pure trivial
  · exact .refuse

theorem gives_integer : Gives Value.IsLeaf integer := by
  have hbased : ∀ mark base isDigit, Gives Value.IsLeaf (basedInteger mark base isDigit) :=
    fun _ _ _ => .bind fun _ => .bind fun _ => gives_fitting _
  exact .orElse (hbased _ _ _) <| .orElse (hbased _ _ _) <| .orElse (hbased _ _ _) <|
    .bind fun _ => gives_fitting _

theorem gives_finiteFloat : Gives Value.IsLeaf finiteFloat := by
  refine .bind fun whole => .bind fun part => ?_
  have hrest : ∀ e : Int, Gives Value.IsLeaf (
      let places := (part.getD []).length
      let f := Decimal.Binary64.ofDecimal whole.1 (numberOf 10 (whole.2 ++ part.getD []))
        (e - places)
      if f = .infinite false then refuse else pure (.float f) : Reader Value) := by
    intro e
    dsimp only
    split
    · exact .refuse
    · exact .pure trivial
  cases part with
  | none => exact .bind hrest
  | some digits => exact .bind hrest

theorem gives_specialFloat : Gives Value.IsLeaf specialFloat :=
  .bind fun _ => .orElse (.bind fun _ => .pure trivial)
    (.bind fun _ => .pure trivial)

theorem gives_number : Gives Value.IsLeaf number :=
  .orElse (.bind fun _ => .pure trivial) <| .orElse gives_finiteFloat <|
    .orElse gives_specialFloat gives_integer

theorem gives_arrayOf (value : Reader Value) : Gives Value.IsLeaf (arrayOf value) := by
  refine .bind fun _ => .bind fun items => .bind fun _ => .bind fun _ => ?_
  split
  · exact .pure trivial
  · exact .refuse

/-- Of all values that are read, only tables in braces hold keys. -/
theorem isLeaf_or_braces (h : value depth s = some (v, r)) :
    v.IsLeaf ∨ ∃ d, depth = d + 1 ∧ bracesOf (value d) s = some (v, r) := by
  unfold value at h
  obtain ⟨chosen, hchosen, h⟩ := peek?_bind_eq_some h
  split at hchosen
  case h_3 =>
    split at hchosen <;> subst hchosen
    · cases h
    · exact .inl (gives_arrayOf _ s v r h)
  case h_4 =>
    split at hchosen <;> subst hchosen
    · cases h
    · exact .inr ⟨_, rfl, h⟩
  all_goals subst hchosen
  case h_7 | h_8 => exact .inl (gives_specialFloat s v r h)
  case h_9 => exact .inl (gives_number s v r h)
  -- texts and truth values
  all_goals exact .inl (Gives.bind (fun _ => .pure trivial) s v r h)

/-! ## Keys inside a value -/

theorem of_pairAt {value : Reader Value} (h : pairAt value s = some (pair, r)) :
    pair.start = s ∧ pair.inner <:+ s ∧ value pair.inner = some (pair.value, r) := by
  obtain ⟨start, _, hstart, h⟩ := bind_eq_some.mp h
  cases hstart
  obtain ⟨name, t₁, hkey, h⟩ := bind_eq_some.mp h
  obtain ⟨_, t₂, hequals, h⟩ := bind_eq_some.mp h
  obtain ⟨_, t₃, hblanks, h⟩ := bind_eq_some.mp h
  obtain ⟨inner, _, hinner, h⟩ := bind_eq_some.mp h
  cases hinner
  obtain ⟨v, t₄, hvalue, h⟩ := bind_eq_some.mp h
  cases h
  exact ⟨rfl, ((takesFront_blanks _ _ _ hblanks).trans (TakesFront.exactly _ _ _ _ hequals)).trans
    (takesFront_key _ _ _ hkey), hvalue⟩

theorem of_ofPairs {said : List (List String × String × Value)} (h : ofPairs said s = some (v, r)) :
    ∃ es, said.foldlM (fun (es : Entries) p => es.put p.1 p.2.1 p.2.2) [] = some es ∧
      v = .table .braces es := by
  cases hput : said.foldlM (fun (es : Entries) p => es.put p.1 p.2.1 p.2.2) [] with
  | none =>
    rw [ofPairs, hput] at h
    cases h
  | some es =>
    rw [ofPairs, hput] at h
    cases h
    exact ⟨es, rfl, rfl⟩

/-- Each pair of a table in braces was read where it says. -/
theorem of_mem_bracePairs {value : Reader Value} (hvalue : TakesFront value)
    (h : bracePairs value s = some (pairs, r)) (hpair : pair ∈ pairs) :
    pair.start <:+ s ∧ pair.inner <:+ s ∧ ∃ t, value pair.inner = some (pair.value, t) := by
  have hread : ∀ {u t : List Char} {p : Pair}, u <:+ s → bracePair value u = some (p, t) →
      p.start <:+ s ∧ p.inner <:+ s ∧ ∃ t, value p.inner = some (p.value, t) := by
    intro u t p hu h
    obtain ⟨p', t', hat, h⟩ := bind_eq_some.mp h
    obtain ⟨_, _, -, h⟩ := bind_eq_some.mp h
    cases h
    obtain ⟨rfl, hinner, hvalue⟩ := of_pairAt hat
    exact ⟨hu, hinner.trans hu, t', hvalue⟩
  obtain ⟨_, s₁, hopen, h⟩ := bind_eq_some.mp h
  obtain ⟨_, s₂, hblanks, h⟩ := bind_eq_some.mp h
  obtain ⟨first, s₃, hfirst, h⟩ := bind_eq_some.mp h
  obtain ⟨others, s₄, hothers, h⟩ := bind_eq_some.mp h
  obtain ⟨_, _, -, h⟩ := bind_eq_some.mp h
  obtain ⟨_, _, -, h⟩ := bind_eq_some.mp h
  cases h
  have hfront : s₂ <:+ s :=
    (takesFront_blanks _ _ _ hblanks).trans (TakesFront.exactly _ _ _ _ hopen)
  rcases optional_eq_some hfirst with ⟨p, rfl, hp⟩ | ⟨rfl, rfl⟩
  · rcases List.mem_cons.mp hpair with rfl | hpair
    · exact hread hfront hp
    · have hp := takesFront_bracePair hvalue _ _ _ hp
      obtain ⟨u, t, hu, hmore⟩ := of_mem_many
        (.bind (.exactly _) fun _ => takesFront_bracePair hvalue) hothers hpair
      obtain ⟨_, u', hcomma, hmore⟩ := bind_eq_some.mp hmore
      exact hread ((((TakesFront.exactly _ _ _ _ hcomma).trans hu).trans hp).trans hfront) hmore
  · cases hothers
    cases hpair

/-- In the value that is read from a place on, there is the key at the end of a path, and it is
written at another place. Keys on the way to the last one of a dotted key are written with it. -/
inductive KeyIn : Nat → List Char → List String → List Char → Prop
  | pair {depth : Nat} {s r : List Char} {pairs : List Pair} {pair : Pair} {p : List String}
      (read : bracePairs (value depth) s = some (pairs, r)) (mem : pair ∈ pairs) (ne : p ≠ [])
      (names : p <+: pair.path ++ [pair.key]) : KeyIn (depth + 1) s p pair.start
  | inside {depth : Nat} {s r place : List Char} {pairs : List Pair} {pair : Pair}
      {q : List String} (read : bracePairs (value depth) s = some (pairs, r)) (mem : pair ∈ pairs)
      (rest : KeyIn depth pair.inner q place) :
      KeyIn (depth + 1) s (pair.path ++ pair.key :: q) place

theorem KeyIn.ne_nil {place : List Char} (h : KeyIn depth s p place) : p ≠ [] := by
  cases h with
  | pair _ _ ne _ => exact ne
  | inside _ _ _ => exact List.append_ne_nil_of_right_ne_nil _ (List.cons_ne_nil _ _)

theorem KeyIn.suffix {place : List Char} (h : KeyIn depth s p place) : place <:+ s := by
  induction h with
  | pair read mem _ _ => exact (of_mem_bracePairs (takesFront_value _) read mem).1
  | inside read mem _ ih => exact ih.trans (of_mem_bracePairs (takesFront_value _) read mem).2.1

/-- Every path into a value that was read is written in it. -/
theorem exists_keyIn (h : value depth s = some (v, r)) (hq : InValue q v) :
    ∃ place, KeyIn depth s q place := by
  induction depth generalizing s r v q with
  | zero =>
    obtain ⟨inner, holds, -⟩ := hq
    rcases isLeaf_or_braces h with hleaf | ⟨d, hd, -⟩
    · exact absurd holds hleaf.not_holds
    · cases hd
  | succ depth ih =>
    obtain ⟨inner, holds, hpath⟩ := hq
    rcases isLeaf_or_braces h with hleaf | ⟨_, ⟨⟩, h⟩
    · exact absurd holds hleaf.not_holds
    · rw [bracesOf_eq] at h
      obtain ⟨pairs, t, hread, h⟩ := bind_eq_some.mp h
      obtain ⟨es, hput, rfl⟩ := of_ofPairs h
      cases holds
      rcases hasPath_foldlM_put hput hpath with hnil | ⟨_, hsaid, hpath'⟩
      · exact absurd hnil (HasPath.not_nil _)
      · obtain ⟨pair, hpair, rfl⟩ := List.mem_map.mp hsaid
        rcases hpath' with hfront | ⟨q, rfl, hq⟩
        · exact ⟨pair.start, .pair hread hpair hpath.ne_nil hfront⟩
        · obtain ⟨-, -, t, hvalue⟩ := of_mem_bracePairs (takesFront_value depth) hread hpair
          obtain ⟨place, hin⟩ := ih hvalue hq
          exact ⟨place, .inside hread hpair hin⟩

/-! ## Statements and their places -/

/-- Reads a line, and where its statement begins if it has one. -/
def lineAt : Reader (Option (List Char × Statement)) := do
  let start ← here
  let st? ← line
  return st?.map fun st => (start, st)

theorem line_eq : line = Option.map Prod.snd <$> lineAt := by
  have hforget : ∀ (start : List Char) (st? : Option Statement),
      (st?.map fun st => (start, st)).map Prod.snd = st? := by
    rintro start (_ | st) <;> rfl
  simp only [lineAt, map_bind, map_pure, hforget, bind_pure]
  rfl

/-- Reads all statements of a text, and where they begin. -/
def statementsAt : Reader (List (List Char × Statement)) := do
  let _ ← optional (exactly ['\ufeff'])
  let lines ← many lineAt
  blanks
  atEnd
  return lines.filterMap id

theorem statements_eq : statements = List.map Prod.snd <$> statementsAt := by
  have hforget : ∀ lines : List (Option (List Char × Statement)),
      (lines.map (Option.map Prod.snd)).filterMap id = (lines.filterMap id).map Prod.snd := by
    intro lines
    rw [List.filterMap_map, List.map_filterMap]
    rfl
  simp only [statements, statementsAt, line_eq, many_map, map_bind, map_pure, bind_map_left,
    hforget]

/-- Each statement was read where it says. -/
theorem of_mem_statementsAt {sts : List (List Char × Statement)}
    (h : statementsAt.run? text = some sts) (hst : (start, st) ∈ sts) :
    start <:+ text ∧ ∃ t, line start = some (some st, t) := by
  obtain ⟨mark, text', hmark, h⟩ := bind_eq_some.mp (run?_eq_some.mp h)
  obtain ⟨lines, rest, hlines, h⟩ := bind_eq_some.mp h
  obtain ⟨_, _, -, h⟩ := bind_eq_some.mp h
  obtain ⟨_, _, -, h⟩ := bind_eq_some.mp h
  cases h
  have hmem : some (start, st) ∈ lines := by simpa using hst
  have hlineAt : TakesFront lineAt :=
    .bind .here fun _ => .bind takesFront_line fun _ => .pure _
  obtain ⟨u, t, hu, hread⟩ := of_mem_many hlineAt hlines hmem
  obtain ⟨_, _, hhere, hread⟩ := bind_eq_some.mp hread
  cases hhere
  obtain ⟨st?, t', hline, hread⟩ := bind_eq_some.mp hread
  obtain ⟨st', rfl, heq⟩ := Option.map_eq_some_iff.mp
    (congrArg Prod.fst (pure_eq_some.mp hread)).symm
  cases heq
  have hmark : text' <:+ text := TakesFront.optional (.exactly _) _ _ _ hmark
  exact ⟨hu.trans hmark, t', hline⟩

/-- Reads what a line with a pair on it begins with. -/
def linePair : Reader Pair := do
  blanks
  pairAt (value maxDepth)

theorem of_linePair (h : linePair s = some (pair, r)) :
    pair.inner <:+ s ∧ value maxDepth pair.inner = some (pair.value, r) := by
  obtain ⟨_, t, hblanks, h⟩ := bind_eq_some.mp h
  obtain ⟨-, hinner, hvalue⟩ := of_pairAt h
  exact ⟨hinner.trans (takesFront_blanks _ _ _ hblanks), hvalue⟩

/-- Where a statement is a pair, the pair can be read. -/
theorem exists_linePair (h : line start = some (some (.pair path key v), r)) :
    ∃ pair t, linePair start = some (pair, t) ∧ pair.said = (path, key, v) := by
  obtain ⟨_, start', hblanks, h⟩ := bind_eq_some.mp h
  obtain ⟨chosen, hchosen, h⟩ := peek?_bind_eq_some h
  split at hchosen <;> subst hchosen
  case h_6 =>
    obtain ⟨said, t, hpair, h⟩ := bind_eq_some.mp h
    obtain ⟨_, _, -, h⟩ := bind_eq_some.mp h
    cases h
    rw [pairWith_eq] at hpair
    obtain ⟨pair, _, hpair, hsaid⟩ := map_eq_some.mp hpair
    cases hsaid
    exact ⟨pair, t, bind_eq_some.mpr ⟨_, start', hblanks, hpair⟩, rfl⟩
  -- at an end, at a line end, at a comment and at a header there is no pair
  case h_1 => cases h
  case h_2 | h_3 =>
    obtain ⟨_, _, -, h⟩ := bind_eq_some.mp h
    cases h
  case h_4 =>
    obtain ⟨_, _, -, h⟩ := bind_eq_some.mp h
    obtain ⟨_, _, -, h⟩ := bind_eq_some.mp h
    cases h
  case h_5 =>
    rcases orElse_eq_some h with h | h
    all_goals
      obtain ⟨_, _, -, h⟩ := bind_eq_some.mp h
      cases h

/-! ## Where a path is written -/

/-- The number of the line on which an end of a text begins. -/
def BeginsOn (text rest : List Char) (n : Nat) : Prop :=
  ∃ front, text = front ++ rest ∧ n = front.count '\n' + 1

theorem exists_beginsOn (h : rest <:+ text) : ∃ n, BeginsOn text rest n := by
  obtain ⟨front, rfl⟩ := h
  exact ⟨_, front, rfl, rfl⟩

theorem beginsOn_append (front rest : List Char) (n : Nat) :
    BeginsOn (front ++ rest) rest n ↔ n = front.count '\n' + 1 := by
  constructor
  · rintro ⟨front', heq, rfl⟩
    rw [List.append_cancel_right heq]
  · rintro rfl
    exact ⟨front, rfl, rfl⟩

/-- The path is written in the statement itself, under a header. A header is written whole, and of
a pair its keys. -/
def Statement.Names (header p : List String) : Statement → Prop
  | .header path | .arrayHeader path => p ≠ [] ∧ p <+: path
  | .pair path key _ => ∃ q ≠ [], q <+: path ++ [key] ∧ p = header ++ q

/-- The statement is one of the text's, under a header, and begins there. -/
def StandsAt (text : List Char) (header : List String) (st : Statement) (start : List Char) :
    Prop :=
  ∃ before after, statementsAt.run? text = some (before ++ (start, st) :: after) ∧
    header = (before.map Prod.snd).foldl headerAfter []

/-- The path is written on the line of that number. -/
inductive WrittenOn (text : List Char) : List String → Nat → Prop
  | statement {header p : List String} {st : Statement} {start : List Char} {n : Nat}
      (stands : StandsAt text header st start) (names : st.Names header p)
      (on : BeginsOn text start n) : WrittenOn text p n
  | inside {header path : List String} {key : String} {v : Value} {start r place : List Char}
      {pair : Pair} {q : List String} {n : Nat}
      (stands : StandsAt text header (.pair path key v) start)
      (read : linePair start = some (pair, r)) (rest : KeyIn maxDepth pair.inner q place)
      (on : BeginsOn text place n) : WrittenOn text (header ++ (path ++ key :: q)) n

/-- **Every path of a document is written on a line of it.** -/
theorem exists_writtenOn (h : parse? text = some es) (hp : HasPath p es) :
    ∃ n, WrittenOn text p n := by
  obtain ⟨sts, hsts, h⟩ := Option.bind_eq_some_iff.mp h
  obtain ⟨d, hadd, hclose⟩ := Option.bind_eq_some_iff.mp h
  rw [statements_eq, run?_map] at hsts
  obtain ⟨placed, hplaced, rfl⟩ := Option.map_eq_some_iff.mp hsts
  refine of_hasPath (W := fun p => ∃ n, WrittenOn text p n) ?_ hadd hclose hp
  intro before st after heq
  obtain ⟨before, _, rfl, rfl, hrest⟩ := List.map_eq_append_iff.mp heq
  obtain ⟨⟨start, st⟩, after, rfl, rfl, rfl⟩ := List.map_eq_cons_iff.mp hrest
  have hstands : StandsAt text _ st start := ⟨before, after, hplaced, rfl⟩
  obtain ⟨hstart, t, hline⟩ := of_mem_statementsAt hplaced
    (List.mem_append_right before List.mem_cons_self)
  obtain ⟨n, hn⟩ := exists_beginsOn hstart
  have hnames : ∀ p, st.Names _ p → ∃ n, WrittenOn text p n :=
    fun p hp => ⟨n, .statement hstands hp hn⟩
  cases st with
  | header path => exact fun p hne hfront => hnames p ⟨hne, hfront⟩
  | arrayHeader path => exact fun p hne hfront => hnames p ⟨hne, hfront⟩
  | pair path key v =>
    refine ⟨fun q hne hfront => hnames _ ⟨q, hne, hfront, rfl⟩, fun q hq => ?_⟩
    obtain ⟨pair, t', hpair, hsaid⟩ := exists_linePair hline
    cases hsaid
    obtain ⟨hinner, hvalue⟩ := of_linePair hpair
    obtain ⟨place, hin⟩ := exists_keyIn hvalue hq
    obtain ⟨m, hm⟩ := exists_beginsOn ((hin.suffix.trans hinner).trans hstart)
    exact ⟨m, .inside hstands hpair hin hm⟩

/-! ## Statements without their values -/

/-- What is written in a statement but for its value: whether it is a pair, and its keys. -/
def Statement.outline : Statement → Bool × List String
  | .header path | .arrayHeader path => (false, path)
  | .pair path key _ => (true, path ++ [key])

theorem Statement.names_iff_outline {header p : List String} {st : Statement} :
    st.Names header p ↔ match st.outline with
      | (false, path) => p ≠ [] ∧ p <+: path
      | (true, keys) => ∃ q ≠ [], q <+: keys ∧ p = header ++ q := by
  cases st <;> rfl

/-- The header that a statement leaves to the ones behind it. -/
def headerBehind (header : List String) : Bool × List String → List String
  | (false, path) => path
  | (true, _) => header

theorem headerAfter_eq (header : List String) (st : Statement) :
    headerAfter header st = headerBehind header st.outline := by
  cases st <;> rfl

/-- Where the statements of a text begin, and what is written in them. Unlike the statements
themselves, these can be compared. -/
def outlines? (text : List Char) : Option (List (List Char × Bool × List String)) :=
  (statementsAt.run? text).map (List.map fun x => (x.1, x.2.outline))

/-- Where statements stand is seen on their outlines. -/
theorem exists_standsAt_iff {outline : Bool × List String} :
    (∃ st : Statement, st.outline = outline ∧ StandsAt text header st start) ↔
      ∃ before after, outlines? text = some (before ++ (start, outline) :: after) ∧
        header = (before.map Prod.snd).foldl headerBehind [] := by
  have hheader : ∀ before : List (List Char × Statement),
      (before.map Prod.snd).foldl headerAfter [] =
        ((before.map fun x => (x.1, x.2.outline)).map Prod.snd).foldl headerBehind [] := by
    intro before
    rw [List.map_map, List.foldl_map, List.foldl_map]
    simp only [headerAfter_eq, Function.comp_apply]
  constructor
  · rintro ⟨st, rfl, before, after, hread, rfl⟩
    refine ⟨_, after.map fun x => (x.1, x.2.outline), ?_, hheader before⟩
    rw [outlines?, hread, Option.map_some, List.map_append, List.map_cons]
  · rintro ⟨before, after, hread, rfl⟩
    obtain ⟨sts, hsts, heq⟩ := Option.map_eq_some_iff.mp hread
    obtain ⟨front, _, rfl, rfl, hrest⟩ := List.map_eq_append_iff.mp heq
    obtain ⟨⟨start, st⟩, back, rfl, hst, -⟩ := List.map_eq_cons_iff.mp hrest
    cases hst
    exact ⟨st, rfl, front, back, hsts, (hheader front).symm⟩

/-- A text with one statement has no other. -/
theorem StandsAt.of_single {start' : List Char} {outline : Bool × List String}
    (h : outlines? text = some [(start', outline)]) (hstands : StandsAt text header st start) :
    header = [] ∧ st.outline = outline ∧ start = start' := by
  obtain ⟨before, after, hread, rfl⟩ := exists_standsAt_iff.mp ⟨st, rfl, hstands⟩
  rw [h, Option.some.injEq] at hread
  cases before with
  | nil =>
    cases hread
    exact ⟨rfl, rfl, rfl⟩
  | cons x before =>
    obtain ⟨-, hrest⟩ := List.cons.inj hread
    exact absurd hrest.symm (List.append_ne_nil_of_right_ne_nil _ (List.cons_ne_nil _ _))

end AssetPack.Toml
