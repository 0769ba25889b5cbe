import Mathlib.Data.List.Basic
import AssetPack.Emit.Template
import AssetPack.Proofs.Text.PrefixCode
import AssetPack.Text.Word
import AssetPack.Proofs.Lookup

/-!
# Places are filled together

`fillAll` works through its names one after the other, each time over the whole text, values
included. That a value is never touched again, and that no new place comes about where two pieces
meet, is not plain from there. It is plain for a text that is taken apart first: `items` reads it as
characters and places, and `fillTogether` puts a value for each place in one go. The two agree where
no brace of the text, nor of a value, can begin a place (`fillAll_eq_fillTogether`).

The invariant is `Sealed`: an opening brace that is a character of its own has another character
right behind it, one that is no brace. Filling one name keeps it, and on sealed items the
replacement in the text finds just the places of that name (`fill_source`). When all places are
filled only characters are left, so it also says that no two opening braces stand side by side
(`Sealed.no_pair`).
-/

set_option autoImplicit false

namespace AssetPack.Template

/-! ## Items -/

/-- What a template is made of. -/
inductive Item where
  | char (c : Char)
  | place (name : String)
  deriving DecidableEq, Repr

namespace Item

/-- How the item is written in a template. -/
def source : Item → List Char
  | char c => [c]
  | place name => Template.place name

/-- The item with its value; a place without one stays. -/
def filled (values : List (String × List Char)) : Item → List Char
  | char c => [c]
  | place name => (values.lookup name).getD (Template.place name)

/-- The item after one name has been given a value. -/
def assign (name : String) (value : List Char) : Item → List Item
  | char c => [char c]
  | place n => if n = name then value.map char else [place n]

end Item

/-- The text of items. -/
def source (items : List Item) : List Char := items.flatMap Item.source

theorem source_append (a b : List Item) : source (a ++ b) = source a ++ source b :=
  List.flatMap_append

theorem flatMap_filled_map_char (values : List (String × List Char)) (s : List Char) :
    (s.map Item.char).flatMap (Item.filled values) = s := by
  induction s with
  | nil => rfl
  | cons c s ih => exact congrArg (c :: ·) ih

theorem flatMap_filled_nil (is : List Item) : is.flatMap (Item.filled []) = source is :=
  List.flatMap_congr fun i _ => by cases i <;> rfl

theorem source_map_char (s : List Char) : source (s.map .char) = s := by
  rw [← flatMap_filled_nil, flatMap_filled_map_char]

/-- The name of the place that a text begins with. -/
def nameAt? : List Char → Option (List Char)
  | '\x7b' :: '\x7b' :: r =>
    if ['\x7d', '\x7d'].isPrefixOf (r.dropWhile Text.isWordChar) then
      some (r.takeWhile Text.isWordChar)
    else none
  | _ => none

/-- The items of a text. `skip` counts the characters that still belong to the place before. -/
def itemsFrom (skip : Nat) : List Char → List Item
  | [] => []
  | c :: r =>
    match skip with
    | k + 1 => itemsFrom k r
    | 0 =>
      match nameAt? (c :: r) with
      | some name => .place (String.ofList name) :: itemsFrom (name.length + 3) r
      | none => .char c :: itemsFrom 0 r

/-- The items of a text, in order. -/
def items (text : List Char) : List Item := itemsFrom 0 text

/-- The text with a value at every place, all at once. -/
def fillTogether (text : List Char) (values : List (String × List Char)) : List Char :=
  (items text).flatMap (Item.filled values)

theorem eq_place_of_nameAt? {s name : List Char} (h : nameAt? s = some name) :
    ∃ r, s = place (String.ofList name) ++ r := by
  unfold nameAt? at h
  split at h
  · rename_i r
    split at h
    · rename_i hclose
      cases h
      obtain ⟨rest, hrest⟩ := List.isPrefixOf_iff_prefix.mp hclose
      refine ⟨rest, ?_⟩
      rw [place, String.toList_ofList, List.cons_append, List.cons_append, List.cons_append,
        List.cons_append, List.append_assoc, hrest, List.takeWhile_append_dropWhile]
    · cases h
  · cases h

/-- Reading a text as items loses nothing. -/
theorem source_itemsFrom (skip : Nat) (s : List Char) :
    source (itemsFrom skip s) = s.drop skip := by
  induction s generalizing skip with
  | nil => cases skip <;> rfl
  | cons c r ih =>
    cases skip with
    | succ k => exact ih k
    | zero =>
      rw [itemsFrom]
      cases hname : nameAt? (c :: r) with
      | none => exact congrArg (c :: ·) (ih 0)
      | some name =>
        obtain ⟨rest, hrest⟩ := eq_place_of_nameAt? hname
        have hr : r.drop (name.length + 3) = rest := by
          have hdrop := congrArg (List.drop (name.length + 4)) hrest
          have hlen : (place (String.ofList name)).length = name.length + 4 := by simp [place]
          rwa [List.drop_left' hlen] at hdrop
        have htail := ih (name.length + 3)
        rw [hr] at htail
        rw [List.drop_zero, hrest, source, List.flatMap_cons, ← source, htail]
        rfl

theorem source_items (text : List Char) : source (items text) = text := source_itemsFrom 0 text

/-! ## Lines -/

theorem nameAt?_eq_none {s : List Char} (h : ¬ ['\x7b', '\x7b'] <+: s) :
    nameAt? s = none := by
  unfold nameAt?
  split
  · rename_i r
    exact absurd ⟨r, rfl⟩ h
  · rfl

theorem fillTogether_append {s : List Char} (hs : '\x7b' ∉ s) (r : List Char)
    (values : List (String × List Char)) :
    fillTogether (s ++ r) values = s ++ fillTogether r values := by
  induction s with
  | nil => rfl
  | cons c s ih =>
    rw [List.mem_cons, not_or] at hs
    have hname : nameAt? (c :: (s ++ r)) = none := by
      refine nameAt?_eq_none ?_
      rintro ⟨t, ht⟩
      exact hs.1 (List.cons.inj ht).1
    rw [List.cons_append, fillTogether, items, itemsFrom, hname]
    exact congrArg (c :: ·) (ih hs.2)

/-- A place does not reach over the end of its line. -/
theorem nameAt?_append_lf {s : List Char} (hs : s ≠ []) (t : List Char) :
    nameAt? (s ++ '\n' :: t) = nameAt? s := by
  have hlf : Text.isWordChar '\n' = false := by decide
  by_cases h : ['\x7b', '\x7b'] <+: s
  · obtain ⟨r, rfl⟩ := h
    simp only [List.cons_append, List.nil_append, nameAt?]
    have htake : (r ++ '\n' :: t).takeWhile Text.isWordChar = r.takeWhile Text.isWordChar := by
      induction r with
      | nil => rfl
      | cons c r ih => simp only [List.cons_append, List.takeWhile_cons, ih (by simp)]
    have hclose : ['\x7d', '\x7d'].isPrefixOf ((r ++ '\n' :: t).dropWhile Text.isWordChar) =
        ['\x7d', '\x7d'].isPrefixOf (r.dropWhile Text.isWordChar) := by
      rw [List.dropWhile_append]
      match r.dropWhile Text.isWordChar with
      | [] => rfl
      | [a] => simp [List.isPrefixOf]
      | a :: b :: d => simp [List.isPrefixOf]
    rw [htake, hclose]
  · rw [nameAt?_eq_none h, nameAt?_eq_none]
    rintro ⟨r, hr⟩
    match s with
    | [] => exact hs rfl
    | [c] => cases hr
    | a :: b :: s =>
      cases hr
      exact h ⟨s, rfl⟩

theorem itemsFrom_append_lf {skip : Nat} {s : List Char} (h : skip ≤ s.length) (t : List Char) :
    itemsFrom skip (s ++ '\n' :: t) = itemsFrom skip s ++ .char '\n' :: items t := by
  induction s generalizing skip with
  | nil =>
    obtain rfl : skip = 0 := Nat.le_zero.mp h
    rfl
  | cons c r ih =>
    cases skip with
    | succ k => exact ih (Nat.le_of_succ_le_succ h)
    | zero =>
      have hname := nameAt?_append_lf (List.cons_ne_nil c r) t
      rw [List.cons_append] at hname
      rw [List.cons_append, itemsFrom, itemsFrom, hname]
      cases hn : nameAt? (c :: r) with
      | none => exact congrArg _ (ih (Nat.zero_le _))
      | some name =>
        obtain ⟨rest, hrest⟩ := eq_place_of_nameAt? hn
        have hlen := congrArg List.length hrest
        simp [place] at hlen
        exact congrArg _ (ih (by omega))

/-! ## Where a brace can begin a place -/

/-- A name that a place can have. -/
def IsName (name : String) : Prop := ∀ c ∈ name.toList, Text.isWordChar c = true

instance (name : String) : Decidable (IsName name) :=
  decidable_of_iff (name.toList.all Text.isWordChar = true) List.all_eq_true

/-- Items with places of these names only, of which no other brace begins a place. -/
inductive Sealed (names : List String) : List Item → Prop
  | nil : Sealed names []
  | char {c : Char} {r : List Item} (hc : c ≠ '\x7b') (hr : Sealed names r) :
      Sealed names (.char c :: r)
  | brace {c : Char} {r : List Item} (hc : c ≠ '\x7b') (hr : Sealed names r) :
      Sealed names (.char '\x7b' :: .char c :: r)
  | place {name : String} {r : List Item} (hname : name ∈ names) (hr : Sealed names r) :
      Sealed names (.place name :: r)

/-- The same, to be computed. -/
def isSealed (names : List String) : List Item → Bool
  | [] => true
  | .place name :: r => names.contains name && isSealed names r
  | .char '\x7b' :: .char c :: r => c != '\x7b' && isSealed names r
  | .char c :: r => c != '\x7b' && isSealed names r

variable {names : List String}

theorem sealed_of_isSealed {is : List Item} (h : isSealed names is = true) : Sealed names is := by
  induction is using isSealed.induct with
  | case1 => exact .nil
  | case2 name r ih =>
    rw [isSealed, Bool.and_eq_true, List.contains_iff_mem] at h
    exact .place h.1 (ih h.2)
  | case3 c r ih =>
    rw [isSealed, Bool.and_eq_true, bne_iff_ne] at h
    exact .brace h.1 (ih h.2)
  | case4 c r hne ih =>
    rw [isSealed, Bool.and_eq_true, bne_iff_ne] at h
    · exact .char h.1 (ih h.2)
    · exact hne

theorem Sealed.append {a b : List Item} (ha : Sealed names a) (hb : Sealed names b) :
    Sealed names (a ++ b) := by
  induction ha with
  | nil => exact hb
  | char hc _ ih => exact .char hc ih
  | brace hc _ ih => exact .brace hc ih
  | place hname _ ih => exact .place hname ih

theorem Sealed.flatMap {α : Type} {f : α → List Item} {xs : List α}
    (h : ∀ x ∈ xs, Sealed names (f x)) : Sealed names (xs.flatMap f) := by
  induction xs with
  | nil => exact .nil
  | cons x xs ih =>
    rw [List.flatMap_cons]
    exact (h x List.mem_cons_self).append (ih fun y hy => h y (List.mem_cons_of_mem _ hy))

theorem sealed_map_char {s : List Char} (h : '\x7b' ∉ s) : Sealed names (s.map .char) := by
  induction s with
  | nil => exact .nil
  | cons c s ih =>
    rw [List.mem_cons, not_or] at h
    exact .char (Ne.symm h.1) (ih h.2)

/-- A value without opening braces may take the place of any name. -/
theorem Sealed.assign {is : List Item} (h : Sealed names is) (name : String) {value : List Char}
    (hvalue : '\x7b' ∉ value) : Sealed names (is.flatMap (Item.assign name value)) := by
  induction h with
  | nil => exact .nil
  | char hc _ ih => exact .char hc ih
  | brace hc _ ih => exact .brace hc ih
  | place hname _ ih =>
    rw [List.flatMap_cons, Item.assign]
    split
    · exact (sealed_map_char hvalue).append ih
    · exact .place hname ih

/-! ## One name -/

section Replace

variable {pattern value : List Char}

theorem replaceFrom_skip (skip : Nat) (s : List Char) :
    replaceFrom pattern value skip s = replaceFrom pattern value 0 (s.drop skip) := by
  induction s generalizing skip with
  | nil => cases skip <;> rfl
  | cons c r ih =>
    cases skip with
    | zero => rfl
    | succ k => exact ih k

theorem replaceFrom_append (hne : pattern ≠ []) (r : List Char) :
    replaceFrom pattern value 0 (pattern ++ r) = value ++ replaceFrom pattern value 0 r := by
  cases pattern with
  | nil => exact absurd rfl hne
  | cons c pattern =>
    have hfront : (c :: pattern).isPrefixOf (c :: (pattern ++ r)) = true :=
      List.isPrefixOf_iff_prefix.mpr ⟨r, rfl⟩
    rw [List.cons_append, replaceFrom, if_pos hfront, replaceFrom_skip]
    simp

theorem replaceFrom_cons {c : Char} {r : List Char} (h : ¬ pattern <+: c :: r) :
    replaceFrom pattern value 0 (c :: r) = c :: replaceFrom pattern value 0 r := by
  rw [replaceFrom, if_neg fun hfront => h (List.isPrefixOf_iff_prefix.mp hfront)]

end Replace

variable {name : String} {value : List Char}

theorem replaceFrom_place_append {s : List Char} (hs : '\x7b' ∉ s) (r : List Char) :
    replaceFrom (place name) value 0 (s ++ r) = s ++ replaceFrom (place name) value 0 r := by
  induction s with
  | nil => rfl
  | cons c s ih =>
    rw [List.mem_cons, not_or] at hs
    rw [List.cons_append, replaceFrom_cons, ih hs.2]
    · rfl
    · rintro ⟨t, ht⟩
      exact hs.1 (List.cons.inj ht).1

theorem brace_notMem_of_isName {m : String} (hm : IsName m) :
    '\x7b' ∉ m.toList ∧ '\x7d' ∉ m.toList := by
  constructor <;> intro h <;> exact absurd (hm _ h) (by decide)

/-- A place of another name is passed over. -/
theorem replaceFrom_place_of_ne {m : String} (hname : IsName name) (hm : IsName m) (hne : m ≠ name)
    (r : List Char) : replaceFrom (place name) value 0 (place m ++ r) =
      place m ++ replaceFrom (place name) value 0 r := by
  have hopen : '\x7b' ∉ m.toList ++ ['\x7d', '\x7d'] := by
    simp [(brace_notMem_of_isName hm).1]
  have hplace : ∀ t, place m ++ t = '\x7b' :: '\x7b' :: (m.toList ++ ['\x7d', '\x7d'] ++ t) := by
    intro t
    simp [place]
  -- At its first brace the names differ, and behind the second there is no brace to begin with.
  have hfirst : ¬ place name <+: '\x7b' :: '\x7b' :: (m.toList ++ ['\x7d', '\x7d'] ++ r) := by
    rintro ⟨t, ht⟩
    have hcode : Text.PrefixCode (fun x : {s : List Char // '\x7d' ∉ s} => x.1 ++ ['\x7d'])
        fun x => x.1 := .until_mark (fun x => x.2) fun _ _ h => h
    refine hne (String.toList_inj.mp ?_).symm
    refine (hcode (x := ⟨name.toList, (brace_notMem_of_isName hname).2⟩)
      (y := ⟨m.toList, (brace_notMem_of_isName hm).2⟩) (r := '\x7d' :: t) (s := '\x7d' :: r) ?_).1
    simpa [place] using ht
  have hsecond : ¬ place name <+: '\x7b' :: (m.toList ++ ['\x7d', '\x7d'] ++ r) := by
    rintro ⟨t, ht⟩
    have hrest := (List.cons.inj ht).2
    cases hs : m.toList ++ ['\x7d', '\x7d'] with
    | nil => simp at hs
    | cons c s =>
      rw [hs] at hrest hopen
      exact hopen ((List.cons.inj hrest).1 ▸ List.mem_cons_self)
  rw [hplace, replaceFrom_cons hfirst, replaceFrom_cons hsecond, replaceFrom_place_append hopen,
    hplace]

/-- On sealed items the replacement finds the places of its name, and nothing else. -/
theorem fill_source {is : List Item} (hnames : ∀ n ∈ names, IsName n) (h : Sealed names is)
    (hname : IsName name) :
    fill (source is) name value = source (is.flatMap (Item.assign name value)) := by
  rw [fill]
  induction h with
  | nil => rfl
  | @char c r hc _ ih =>
    have hnone : ¬ place name <+: c :: source r := by
      rintro ⟨t, ht⟩
      exact hc (List.cons.inj ht).1.symm
    exact (replaceFrom_cons hnone).trans (congrArg (c :: ·) ih)
  | @brace c r hc _ ih =>
    have hfirst : ¬ place name <+: '\x7b' :: c :: source r := by
      rintro ⟨t, ht⟩
      exact hc (List.cons.inj (List.cons.inj ht).2).1.symm
    have hsecond : ¬ place name <+: c :: source r := by
      rintro ⟨t, ht⟩
      exact hc (List.cons.inj ht).1.symm
    refine (replaceFrom_cons hfirst).trans (congrArg ('\x7b' :: ·) ?_)
    exact (replaceFrom_cons hsecond).trans (congrArg (c :: ·) ih)
  | @place m r hm _ ih =>
    rw [List.flatMap_cons, Item.assign]
    split
    case isTrue heq =>
      subst heq
      rw [source_append, source_map_char]
      exact (replaceFrom_append (List.cons_ne_nil _ _) (source r)).trans (congrArg (value ++ ·) ih)
    case isFalse hne =>
      have hpass : replaceFrom (place name) value 0 (place m ++ source r) = _ :=
        replaceFrom_place_of_ne hname (hnames m hm) hne (source r)
      exact hpass.trans (congrArg (place m ++ ·) ih)

/-! ## All names -/

/-- Giving a value to one name first changes nothing for the names that are filled afterwards. -/
theorem flatMap_filled_assign (values : List (String × List Char)) (i : Item) :
    (i.assign name value).flatMap (Item.filled values) = i.filled ((name, value) :: values) := by
  cases i with
  | char c => rfl
  | place m =>
    rw [Item.assign, Item.filled, List.lookup_cons]
    split
    case isTrue heq =>
      subst heq
      rw [BEq.rfl]
      exact flatMap_filled_map_char values value
    case isFalse hne =>
      rw [beq_false_of_ne hne]
      exact List.flatMap_singleton _ _

/-- Filled one after the other or all at once: the same text. -/
theorem fillAll_source {is : List Item} (hnames : ∀ n ∈ names, IsName n) (h : Sealed names is)
    {values : List (String × List Char)} (hvalues : ∀ v ∈ values, IsName v.1 ∧ '\x7b' ∉ v.2) :
    fillAll (source is) values = is.flatMap (Item.filled values) := by
  induction values generalizing is with
  | nil => exact (flatMap_filled_nil is).symm
  | cons v values ih =>
    obtain ⟨hname, hopen⟩ := hvalues v List.mem_cons_self
    have hrest := ih (h.assign v.1 hopen) fun w hw => hvalues w (List.mem_cons_of_mem _ hw)
    rw [fillAll, List.foldl_cons, fill_source hnames h hname, ← fillAll, hrest, List.flatMap_assoc]
    exact List.flatMap_congr fun i _ => flatMap_filled_assign values i

theorem fillAll_eq_fillTogether {text : List Char} (hnames : ∀ n ∈ names, IsName n)
    (h : Sealed names (items text)) {values : List (String × List Char)}
    (hvalues : ∀ v ∈ values, IsName v.1 ∧ '\x7b' ∉ v.2) :
    fillAll text values = fillTogether text values := by
  rw [fillTogether, ← fillAll_source hnames h hvalues, source_items]

/-- Names that are given one value each may be given them in any order. -/
theorem fillTogether_perm (text : List Char) {values values' : List (String × List Char)}
    (hperm : values'.Perm values) (hdistinct : (values.map Prod.fst).Nodup) :
    fillTogether text values' = fillTogether text values := by
  have hlookup := lookup_eq_of_perm hperm hdistinct
  refine List.flatMap_congr fun i _ => ?_
  cases i with
  | char c => rfl
  | place n => rw [Item.filled, Item.filled, hlookup]

/-- Filling brings nothing in but the values. -/
theorem mem_fillTogether {text : List Char} {values : List (String × List Char)} {c : Char}
    (h : c ∈ fillTogether text values) : c ∈ text ∨ ∃ v ∈ values, c ∈ v.2 := by
  obtain ⟨i, hi, hc⟩ := List.mem_flatMap.mp h
  have hsource : c ∈ i.source → c ∈ text := by
    intro hc
    rw [← source_items text]
    exact List.mem_flatMap.mpr ⟨i, hi, hc⟩
  cases i with
  | char a => exact .inl (hsource hc)
  | place n =>
    rw [Item.filled] at hc
    cases hlookup : values.lookup n with
    | none =>
      rw [hlookup] at hc
      exact .inl (hsource hc)
    | some value =>
      rw [hlookup] at hc
      exact .inr ⟨(n, value), mem_of_lookup_eq_some hlookup, hc⟩

/-! ## No place is left -/

theorem Sealed.no_pair {is : List Item} (h : Sealed names is) :
    ¬ [.char '\x7b', .char '\x7b'] <:+: is := by
  have hnot : ∀ {c : Char} {r : List Item}, c ≠ '\x7b' →
      ¬ [.char '\x7b', .char '\x7b'] <+: .char c :: r := by
    rintro c r hc ⟨t, ht⟩
    cases ht
    exact hc rfl
  induction h with
  | nil => simp
  | char hc _ ih =>
    rw [List.infix_cons_iff]
    rintro (hfront | hin)
    · exact hnot hc hfront
    · exact ih hin
  | brace hc _ ih =>
    rw [List.infix_cons_iff, List.infix_cons_iff]
    rintro (⟨t, ht⟩ | hfront | hin)
    · cases ht
      exact hc rfl
    · exact hnot hc hfront
    · exact ih hin
  | place _ _ ih =>
    rw [List.infix_cons_iff]
    rintro (⟨t, ht⟩ | hin)
    · cases ht
    · exact ih hin

/-- A text in which no opening brace is followed by another one, or by nothing. -/
def Closed (s : List Char) : Prop := Sealed [] (s.map .char)

theorem Closed.append {s t : List Char} (hs : Closed s) (ht : Closed t) : Closed (s ++ t) := by
  rw [Closed, List.map_append]
  exact Sealed.append hs ht

theorem Closed.flatMap {α : Type} {f : α → List Char} {xs : List α} (h : ∀ x ∈ xs, Closed (f x)) :
    Closed (xs.flatMap f) := by
  rw [Closed, List.map_flatMap]
  exact Sealed.flatMap h

theorem closed_of_notMem {s : List Char} (h : '\x7b' ∉ s) : Closed s := sealed_map_char h

theorem Closed.no_pair {s : List Char} (h : Closed s) : ¬ ['\x7b', '\x7b'] <:+: s :=
  fun hin => Sealed.no_pair h (hin.map Item.char)

/-- A line without a pair of opening braces is closed by its end. -/
theorem closed_line : ∀ {s : List Char}, ¬ ['\x7b', '\x7b'] <:+: s → Closed (s ++ ['\n'])
  | [], _ => closed_of_notMem (by decide)
  | [c], _ => by
    by_cases hc : c = '\x7b'
    · subst hc
      exact .brace (by decide) .nil
    · exact .char hc (.char (by decide) .nil)
  | c :: d :: s, h => by
    have hrest : ¬ ['\x7b', '\x7b'] <:+: d :: s :=
      fun hin => h (hin.trans (List.suffix_cons c _).isInfix)
    by_cases hc : c = '\x7b'
    · subst hc
      have hd : d ≠ '\x7b' := by
        rintro rfl
        exact h (List.prefix_append ['\x7b', '\x7b'] s).isInfix
      exact .brace hd (closed_line fun hin => hrest (hin.trans (List.suffix_cons d s).isInfix))
    · exact .char hc (closed_line hrest)

/-- When all places are filled, by values without opening braces, the text is closed. -/
theorem Sealed.closed {is : List Item} (h : Sealed names is) {values : List (String × List Char)}
    (hall : ∀ n ∈ names, n ∈ values.map Prod.fst) (hvalues : ∀ v ∈ values, '\x7b' ∉ v.2) :
    Closed (is.flatMap (Item.filled values)) := by
  induction h with
  | nil => exact .nil
  | char hc _ ih => exact .char hc ih
  | brace hc _ ih => exact .brace hc ih
  | @place m r hm _ ih =>
    obtain ⟨v, hv, hvm⟩ := List.mem_map.mp (hall m hm)
    have hsome : (values.lookup m).isSome := List.lookup_isSome_iff.mpr ⟨v, hv, by simp [hvm]⟩
    obtain ⟨value, hvalue⟩ := Option.isSome_iff_exists.mp hsome
    rw [List.flatMap_cons, Item.filled, hvalue]
    exact (closed_of_notMem (hvalues (m, value) (mem_of_lookup_eq_some hvalue))).append ih

end AssetPack.Template
