import AssetPack.Proofs.Asset.Catalog
import AssetPack.Proofs.Emit.Header
import AssetPack.Proofs.Java.Literal
import AssetPack.Proofs.Text.Utf8Decode

/-!
# A class of shaders holds their minified texts

A class is written whole or not at all. It can be written when every shader is text and every
variant that the mode asks for is made of 16-bit characters (`Fits`); then each constant is a line
of its own, whatever the shader's text, and the literals in it are read back as that text
(`Spells`). Otherwise the first shader that does not fit is named, with what is wrong with it
(`Fault`).

A literal depends on the shader and the variant only. So there is one choice of literals for all
modes, and what an undetermined class chooses from when it runs is what the other two contain.
-/

set_option autoImplicit false

namespace AssetPack

open Text Java Java.Literal Java.Lexer

/-- The variants that a class of the mode carries. -/
def BuildMode.variants : BuildMode → List Glsl.Variant
  | .debug => [.debug]
  | .release => [.release]
  | .undetermined => [.debug, .release]

namespace Emit

/-! ## What a class holds -/

/-- The shader is text, and what is to be embedded of it is of 16-bit characters. -/
def Fits (mode : BuildMode) (s : Shader) : Prop :=
  ∃ text, Utf8.encode text = s.source ∧
    ∀ v ∈ mode.variants, ∀ a ∈ Glsl.minify v text, a.toNat ≤ 0xFFFF

/-- What is wrong with a shader that does not fit. -/
inductive Fault (mode : BuildMode) (s : Shader) : UnsupportedReason → Prop
  | notText {cause : Utf8.Error} (h : Utf8.decode s.source = .error cause) :
      Fault mode s (.notText cause)
  | noLiteral {text : List Char} {v : Glsl.Variant} {a : Char} (htext : Utf8.encode text = s.source)
      (hv : v ∈ mode.variants)
      (ha : (Glsl.minify v text).find? (fun a => 0xFFFF < a.toNat) = some a) :
      Fault mode s (.noLiteral ⟨a⟩)

/-- The source is a literal on one line, which is read as the text. -/
def Spells (lit text : List Char) : Prop :=
  (∀ a ∈ lit, 0x20 ≤ a.toNat ∧ a.toNat ≤ 0x7E) ∧
    ∀ rest, readLiteral (lit ++ rest) = some (text.flatMap units, rest)

/-- The literal of a variant of a shader, if it has one. -/
def literalOf (v : Glsl.Variant) (s : Shader) : List Char :=
  match Utf8.decode s.source with
  | .ok text => (encode (Glsl.minify v text)).toOption.getD []
  | .error _ => []

/-- The value of a constant, made of the literals of its variants. -/
def initializer (mode : BuildMode) (literal : Glsl.Variant → List Char) : List Char :=
  match mode with
  | .debug => literal .debug
  | .release => literal .release
  | .undetermined =>
    "(BuildConfig.DEBUG ? ".toList ++ literal .debug ++ " : ".toList ++ literal .release ++ [')']

/-- The line of a constant, without its end. -/
def constantText (s : Shader) (value : List Char) : List Char :=
  "  public static final String ".toList ++ s.identifier.name.toList ++ " = ".toList ++ value ++
    [';']

/-- The lines of a class with these constants. -/
def shaderLines (c : ClassName) (f : Fingerprint) (constants : List (List Char)) :
    List (List Char) :=
  f.markerLine.toList ::
    ((c.package?.map fun p => ["package ".toList ++ p.toList ++ [';'], []]).getD [] ++
      ("final class ".toList ++ c.simpleName.toList ++ [' ', '\x7b']) :: constants ++ [['\x7d']])

/-! ## One shader -/

theorem spells_literalOf {v : Glsl.Variant} {s : Shader} {text : List Char}
    (htext : Utf8.encode text = s.source) (h : ∀ a ∈ Glsl.minify v text, a.toNat ≤ 0xFFFF) :
    encode (Glsl.minify v text) = .ok (literalOf v s) ∧
      Spells (literalOf v s) (Glsl.minify v text) := by
  obtain ⟨lit, hlit, hprint, hread⟩ := encode_of_le h
  have hof : literalOf v s = lit := by
    simp only [literalOf, Utf8.decode_eq_ok.mpr htext, hlit]
    rfl
  rw [hof]
  exact ⟨hlit, hprint, hread⟩

theorem shaderValue_of_text {mode : BuildMode} {s : Shader} {text : List Char}
    (htext : Utf8.encode text = s.source) : shaderValue mode s =
      match mode with
      | .debug => variantLiteral s.fileName text .debug
      | .release => variantLiteral s.fileName text .release
      | .undetermined => do
        let debug ← variantLiteral s.fileName text .debug
        let release ← variantLiteral s.fileName text .release
        return "(BuildConfig.DEBUG ? ".toList ++ debug ++ " : ".toList ++ release ++ [')'] := by
  rw [shaderValue, Utf8.decode_eq_ok.mpr htext]
  rfl

theorem variantLiteral_of_le {fileName : String} {v : Glsl.Variant} {s : Shader} {text : List Char}
    (htext : Utf8.encode text = s.source) (h : ∀ a ∈ Glsl.minify v text, a.toNat ≤ 0xFFFF) :
    variantLiteral fileName text v = .ok (literalOf v s) := by
  rw [variantLiteral, (spells_literalOf htext h).1]
  rfl

theorem variantLiteral_of_not_le (fileName : String) {v : Glsl.Variant} {text : List Char}
    (h : ¬ ∀ a ∈ Glsl.minify v text, a.toNat ≤ 0xFFFF) :
    ∃ a, (Glsl.minify v text).find? (fun a => 0xFFFF < a.toNat) = some a ∧
      variantLiteral fileName text v = .error ⟨fileName, .noLiteral ⟨a⟩⟩ := by
  cases hfind : (Glsl.minify v text).find? fun a => 0xFFFF < a.toNat with
  | none => exact absurd (by simpa using hfind) h
  | some a =>
    refine ⟨a, rfl, ?_⟩
    rw [variantLiteral, encode_of_find? hfind]
    rfl

theorem shaderValue_of_fits {mode : BuildMode} {s : Shader} (h : Fits mode s) :
    shaderValue mode s = .ok (initializer mode fun v => literalOf v s) := by
  obtain ⟨text, htext, hle⟩ := h
  have hvariant : ∀ v ∈ mode.variants, variantLiteral s.fileName text v = .ok (literalOf v s) :=
    fun v hv => variantLiteral_of_le htext (hle v hv)
  rw [shaderValue_of_text htext]
  cases mode with
  | debug => exact hvariant .debug (by decide)
  | release => exact hvariant .release (by decide)
  | undetermined =>
    simp only [hvariant .debug (by decide), hvariant .release (by decide)]
    rfl

theorem shaderValue_of_not_fits {mode : BuildMode} {s : Shader} (h : ¬ Fits mode s) :
    ∃ reason, Fault mode s reason ∧ shaderValue mode s = .error ⟨s.fileName, reason⟩ := by
  cases hdecode : Utf8.decode s.source with
  | error cause =>
    refine ⟨.notText cause, .notText hdecode, ?_⟩
    rw [shaderValue, hdecode]
    rfl
  | ok text =>
    have htext : Utf8.encode text = s.source := Utf8.decode_eq_ok.mp hdecode
    have hsome : ¬ ∀ v ∈ mode.variants, ∀ a ∈ Glsl.minify v text, a.toNat ≤ 0xFFFF :=
      fun hall => h ⟨text, htext, hall⟩
    rw [shaderValue_of_text htext]
    cases mode with
    | debug =>
      obtain ⟨a, ha, hvalue⟩ := variantLiteral_of_not_le s.fileName
        (by simpa [BuildMode.variants] using hsome)
      exact ⟨_, .noLiteral htext (by decide) ha, hvalue⟩
    | release =>
      obtain ⟨a, ha, hvalue⟩ := variantLiteral_of_not_le s.fileName
        (by simpa [BuildMode.variants] using hsome)
      exact ⟨_, .noLiteral htext (by decide) ha, hvalue⟩
    | undetermined =>
      -- Of two variants that have no literal, the debug variant is the one that is refused.
      by_cases hdebug : ∀ a ∈ Glsl.minify .debug text, a.toNat ≤ 0xFFFF
      · have hrelease : ¬ ∀ a ∈ Glsl.minify .release text, a.toNat ≤ 0xFFFF := by
          intro hrelease
          refine hsome ?_
          simpa [BuildMode.variants] using ⟨hdebug, hrelease⟩
        obtain ⟨a, ha, hvalue⟩ := variantLiteral_of_not_le s.fileName hrelease
        refine ⟨_, .noLiteral htext (by decide) ha, ?_⟩
        simp only [variantLiteral_of_le htext hdebug, hvalue]
        rfl
      · obtain ⟨a, ha, hvalue⟩ := variantLiteral_of_not_le s.fileName hdebug
        refine ⟨_, .noLiteral htext (by decide) ha, ?_⟩
        simp only [hvalue]
        rfl

/-! ## All constants -/

theorem constantLine_eq (s : Shader) (value : List Char) :
    constantLine s value = constantText s value ++ ['\n'] := by
  have hend : ";\n".toList = [';'] ++ ['\n'] := by decide
  unfold constantLine constantText
  rw [hend]
  generalize "  public static final String ".toList = words
  generalize " = ".toList = equals
  simp only [List.append_assoc]

theorem constantLines_of_fits {mode : BuildMode} {list : List Shader}
    (h : ∀ s ∈ list, Fits mode s) : (constantLines mode list).result =
      .ok (endLf (list.map fun s => constantText s (initializer mode fun v => literalOf v s))) := by
  induction list with
  | nil => rfl
  | cons s rest ih =>
    rw [List.forall_mem_cons] at h
    simp only [constantLines, Traced.result_bind, Traced.result_ofExcept, Traced.result_note,
      Traced.result_pure, shaderValue_of_fits h.1, ih h.2, Except.ok_bind, constantLine_eq]
    rfl

theorem constantLines_of_not_fits {mode : BuildMode} {before : List Shader} {s : Shader}
    (h : ∀ t ∈ before, Fits mode t) (hs : ¬ Fits mode s) (after : List Shader) :
    ∃ reason, Fault mode s reason ∧ (constantLines mode (before ++ s :: after)).result =
      .error ⟨s.fileName, reason⟩ := by
  induction before with
  | nil =>
    obtain ⟨reason, hfault, hvalue⟩ := shaderValue_of_not_fits hs
    refine ⟨reason, hfault, ?_⟩
    simp only [List.nil_append, constantLines, Traced.result_bind, Traced.result_ofExcept, hvalue,
      Except.error_bind]
  | cons t before ih =>
    rw [List.forall_mem_cons] at h
    obtain ⟨reason, hfault, hrest⟩ := ih h.2
    refine ⟨reason, hfault, ?_⟩
    simp only [List.cons_append, constantLines, Traced.result_bind, Traced.result_ofExcept,
      Traced.result_note, shaderValue_of_fits h.1, hrest, Except.ok_bind, Except.error_bind]

/-! ## The class -/

theorem shaderHeader_eq (c : ClassName) (f : Fingerprint) (constants : List (List Char)) :
    shaderHeader c f ++ endLf constants ++ "\x7d\n".toList = endLf (shaderLines c f constants) := by
  have hopen : " \x7b\n".toList = [' ', '\x7b'] ++ ['\n'] := by decide
  have hclose : "\x7d\n".toList = ['\x7d'] ++ ['\n'] := by decide
  have hend : ";\n".toList = [';'] ++ ['\n'] := by decide
  unfold shaderHeader shaderLines packageLine
  rw [hopen, hclose, hend]
  generalize "package ".toList = package
  generalize "final class ".toList = words
  cases c.package? <;> simp [endLf]

theorem lf_notMem_initializer {mode : BuildMode} {s : Shader} (h : Fits mode s) :
    '\n' ∉ initializer mode fun v => literalOf v s := by
  obtain ⟨text, htext, hle⟩ := h
  have hliteral : ∀ v ∈ mode.variants, '\n' ∉ literalOf v s := by
    intro v hv hmem
    exact absurd ((spells_literalOf htext (hle v hv)).2.1 _ hmem) (by decide)
  cases mode with
  | debug => exact hliteral .debug (by decide)
  | release => exact hliteral .release (by decide)
  | undetermined =>
    have hopen : '\n' ∉ "(BuildConfig.DEBUG ? ".toList := by decide
    have hmiddle : '\n' ∉ " : ".toList := by decide
    have hdebug := List.not_mem_append hopen (hliteral .debug (by decide))
    have hrelease := List.not_mem_append (List.not_mem_append hdebug hmiddle)
      (hliteral .release (by decide))
    exact List.not_mem_append hrelease (by decide)

theorem lf_notMem_constantText {s : Shader} {value : List Char} (h : '\n' ∉ value) :
    '\n' ∉ constantText s value := by
  have hwords : '\n' ∉ "  public static final String ".toList := by decide
  have hequals : '\n' ∉ " = ".toList := by decide
  have hname : '\n' ∉ s.identifier.name.toList := by
    intro hmem
    exact absurd (s.identifier.isWord _ hmem) (by decide)
  have hleft := List.not_mem_append (List.not_mem_append hwords hname) hequals
  exact List.not_mem_append (List.not_mem_append hleft h) (by decide)

/-- Below the marker no line is broken. -/
theorem lf_notMem_shaderLines {c : ClassName} {f : Fingerprint} {constants : List (List Char)}
    (h : ∀ line ∈ constants, '\n' ∉ line) :
    ∀ line ∈ (shaderLines c f constants).tail, '\n' ∉ line := by
  have hpackage : ∀ line ∈ (c.package?.map fun p =>
      ["package ".toList ++ p.toList ++ [';'], []]).getD [], '\n' ∉ line := by
    cases hp : c.package? with
    | none => exact List.forall_mem_nil _
    | some p =>
      have hblank : ∀ line ∈ [([] : List Char)], '\n' ∉ line := by decide
      exact List.forall_mem_cons.mpr ⟨lf_notMem_package hp, hblank⟩
  have hclass : '\n' ∉ "final class ".toList ++ c.simpleName.toList ++ [' ', '\x7b'] :=
    List.not_mem_append (List.not_mem_append (by decide) (lf_notMem_simpleName c)) (by decide)
  intro line hmem
  rw [shaderLines, List.tail_cons, List.append_assoc, List.mem_append, List.mem_append,
    List.mem_cons, List.mem_singleton] at hmem
  rcases hmem with hmem | (rfl | hmem) | rfl
  · exact hpackage line hmem
  · exact hclass
  · exact h line hmem
  · decide

/-- Every list of shaders fits, or has a first one that does not. -/
theorem exists_first_not_fits {mode : BuildMode} {list : List Shader}
    (h : ¬ ∀ s ∈ list, Fits mode s) :
    ∃ before s after, list = before ++ s :: after ∧ (∀ t ∈ before, Fits mode t) ∧
      ¬ Fits mode s := by
  classical
  obtain ⟨s, hs⟩ : ∃ s, list.find? (fun s => ¬ Fits mode s) = some s := by
    refine Option.isSome_iff_exists.mp (List.find?_isSome.mpr ?_)
    simpa using h
  obtain ⟨hnot, before, after, hlist, hbefore⟩ := List.find?_eq_some_iff_append.mp hs
  exact ⟨before, s, after, hlist, by simpa using hbefore, by simpa using hnot⟩

/-- The lines of the constants of some shaders. -/
def constantTexts (mode : BuildMode) (list : List Shader) : List (List Char) :=
  list.map fun s => constantText s (initializer mode fun v => literalOf v s)

theorem shaders_of_fits {mode : BuildMode} {catalog : Catalog Shader}
    (h : ∀ s ∈ catalog.assets, Fits mode s) (c : ClassName) (f : Fingerprint) :
    (shaders c mode catalog f).result =
      .ok (endLf (shaderLines c f (constantTexts mode catalog.assets))) := by
  rw [shaders, Traced.result_bind, constantLines_of_fits h, Except.ok_bind, Traced.result_pure,
    shaderHeader_eq]
  rfl

theorem shaders_of_not_fits {mode : BuildMode} {catalog : Catalog Shader}
    {before after : List Shader} {s : Shader} (hassets : catalog.assets = before ++ s :: after)
    (hbefore : ∀ t ∈ before, Fits mode t) (hs : ¬ Fits mode s) (c : ClassName) (f : Fingerprint) :
    ∃ reason, Fault mode s reason ∧
      (shaders c mode catalog f).result = .error ⟨s.fileName, reason⟩ := by
  obtain ⟨reason, hfault, hlines⟩ := constantLines_of_not_fits hbefore hs after
  refine ⟨reason, hfault, ?_⟩
  rw [shaders, Traced.result_bind, hassets, hlines, Except.error_bind]

theorem fits_of_shaders {mode : BuildMode} {catalog : Catalog Shader} {c : ClassName}
    {f : Fingerprint} {text : List Char} (h : (shaders c mode catalog f).result = .ok text) :
    ∀ s ∈ catalog.assets, Fits mode s := by
  by_contra hnot
  obtain ⟨before, s, after, hassets, hbefore, hs⟩ := exists_first_not_fits hnot
  obtain ⟨reason, -, herror⟩ := shaders_of_not_fits hassets hbefore hs c f
  rw [herror] at h
  cases h

theorem lf_notMem_constantTexts {mode : BuildMode} {list : List Shader}
    (h : ∀ s ∈ list, Fits mode s) : ∀ line ∈ constantTexts mode list, '\n' ∉ line := by
  intro line hline
  obtain ⟨s, hs, rfl⟩ := List.mem_map.mp hline
  exact lf_notMem_constantText (lf_notMem_initializer (h s hs))

/-- **The class of a catalog of shaders embeds exactly the minified texts.** It is written just when
every shader fits, and otherwise the first that does not is named. Each constant has its line, in
the order of the bytes of the identifiers; what is read off its literals is the minified text. -/
theorem shaders_embed_minified {assets : List Shader} {catalog : Catalog Shader}
    (h : Catalog.ofList assets = .ok catalog) :
    catalog.assets.Perm assets ∧
    (catalog.assets.Pairwise fun s t =>
      Utf8.encode s.identifier.name.toList < Utf8.encode t.identifier.name.toList) ∧
    ∃ literal : Glsl.Variant → Shader → List Char,
      (∀ v s text, Utf8.encode text = s.source → (∀ a ∈ Glsl.minify v text, a.toNat ≤ 0xFFFF) →
        Spells (literal v s) (Glsl.minify v text)) ∧
      ∀ c mode f,
        ((∃ text, (shaders c mode catalog f).result = .ok text) ↔
          ∀ s ∈ catalog.assets, Fits mode s) ∧
        (∀ before s after, catalog.assets = before ++ s :: after →
          (∀ t ∈ before, Fits mode t) → ¬ Fits mode s →
          ∃ reason, Fault mode s reason ∧
            (shaders c mode catalog f).result = .error ⟨s.fileName, reason⟩) ∧
        ∀ text, (shaders c mode catalog f).result = .ok text →
          ∃ lines, text = endLf lines ∧ (∀ line ∈ lines.tail, '\n' ∉ line) ∧
            lines = shaderLines c f (catalog.assets.map fun s =>
              constantText s (initializer mode fun v => literal v s)) := by
  obtain ⟨hown, hperm⟩ := Catalog.ofList_eq_ok.mp h
  refine ⟨hperm, hown.pairwise.imp Identifier.name_lt_iff.mp, literalOf,
    fun v s text htext hle => (spells_literalOf htext hle).2, fun c mode f => ?_⟩
  refine ⟨⟨fun ⟨text, htext⟩ => fits_of_shaders htext, fun hall => ⟨_, shaders_of_fits hall c f⟩⟩,
    fun before s after hassets hbefore hs => shaders_of_not_fits hassets hbefore hs c f, ?_⟩
  intro text htext
  have hall := fits_of_shaders htext
  rw [shaders_of_fits hall] at htext
  exact ⟨_, (Except.ok.inj htext).symm, lf_notMem_shaderLines (lf_notMem_constantTexts hall), rfl⟩

namespace Refused

def className : ClassName := ⟨["Shaders"], by decide, by decide⟩

def lines : Shader := ⟨.sanitize "a.frag", "a.frag", [0x61, 0x0A, 0x62]⟩

/-- A byte that begins no character. -/
def noText : Shader := ⟨.sanitize "b.frag", "b.frag", [0xFF]⟩

def catalog : Catalog Shader := .ofAscending [lines, noText] (by decide +kernel)

theorem fits_lines : Fits .undetermined lines := by
  have hall : ∀ v ∈ BuildMode.undetermined.variants,
      (Glsl.minify v ['a', '\n', 'b']).all (fun a => a.toNat ≤ 0xFFFF) = true := by
    decide +kernel
  refine ⟨['a', '\n', 'b'], by decide, fun v hv a ha => ?_⟩
  exact of_decide_eq_true (List.all_eq_true.mp (hall v hv) a ha)

theorem not_fits_noText : ¬ Fits .undetermined noText := by
  rintro ⟨text, htext, -⟩
  cases Utf8.decode_eq_ok.mpr htext

end Refused

/-- Of two shaders the second one, in the order of the catalog, is no text, and it is named. -/
theorem shaders_embed_minified_refused :
    Catalog.ofList [Refused.noText, Refused.lines] = .ok Refused.catalog ∧
      ∃ reason, (shaders Refused.className .undetermined Refused.catalog ⟨.shaders, "00"⟩).result =
        .error ⟨"b.frag", reason⟩ := by
  have hcatalog : Catalog.ofList [Refused.noText, Refused.lines] = .ok Refused.catalog :=
    Catalog.ofList_eq_ofAscending _ (List.Perm.swap _ _ _)
  obtain ⟨-, -, _, -, hall⟩ := shaders_embed_minified hcatalog
  obtain ⟨-, hrefused, -⟩ := hall Refused.className .undetermined ⟨.shaders, "00"⟩
  obtain ⟨reason, -, hresult⟩ := hrefused [Refused.lines] Refused.noText [] rfl
    (by simpa using Refused.fits_lines) Refused.not_fits_noText
  exact ⟨hcatalog, reason, hresult⟩

end Emit

end AssetPack
