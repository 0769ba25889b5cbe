import AssetPack.Config.Warning
import AssetPack.Decimal.Shortest
import AssetPack.Text.Quoted
import AssetPack.Toml.Document

/-!
# Reading settings

Settings are read off a document's table in the order in which its keys stand there, and the first
value that does not fit is the one that is reported. A group of settings may also be given as an
array of its values in their own order; values that are missing keep their defaults, and surplus
ones are passed over.

Keys that mean nothing are collected on the way, but not looked into.
-/

set_option autoImplicit false

namespace AssetPack

open Toml (Value)

/-- What a setting has to be. -/
inductive Wanted where
  | shaderSettings
  | imageSettings
  | list
  | text
  | path
  | mapping
  | density
  deriving DecidableEq, Repr

/-- The name of what was wanted. -/
def Wanted.word : Wanted → String
  | .shaderSettings => "struct ShadersConfig"
  | .imageSettings => "struct ImagesConfig"
  | .list => "a sequence"
  | .text => "a string"
  | .path => "path string"
  | .mapping => "a map"
  | .density => "u32"

/-- What is wrong with a configuration file. -/
inductive ConfigFault where
  | malformed
  | wrongType (got : String) (wanted : Wanted)
  | outOfRange (n : Int) (wanted : Wanted)
  | densityTooLarge (suffix : String) (dpi : Nat)
  deriving DecidableEq, Repr

/-- A text between two grave accents. -/
def ticked (s : String) : String := String.ofList ('\x60' :: s.toList ++ ['\x60'])

/-- The wording of the fault. -/
def ConfigFault.message : ConfigFault → String
  | .malformed => "not a well-formed document"
  | .wrongType got wanted => s!"invalid type: {got}, expected {wanted.word}"
  | .outOfRange n wanted =>
    "invalid value: integer " ++ ticked (toString n) ++ ", expected " ++ wanted.word
  | .densityTooLarge suffix dpi =>
    s!"density '{suffix}' = {dpi} does not fit a Java int (max {Config.maxDensity})"

/-- A configuration file that is refused. -/
structure ConfigError where
  file : Path
  fault : ConfigFault
  deriving DecidableEq, Repr

/-- The wording of the error. -/
def ConfigError.message (e : ConfigError) : String :=
  s!"invalid configuration in {e.file.text}: {e.fault.message}"

namespace Config

/-! ## Values -/

/-- What a value is, for an error that says it should be something else. -/
def describe : Value → String
  | .string s => "string " ++ String.ofList (Text.Quoted.encode s.toList)
  | .integer n => "integer " ++ ticked (toString n)
  | .float f => "floating point " ++ ticked (String.ofList f.text)
  | .boolean b => "boolean " ++ ticked (toString b)
  | .array _ | .tables _ => "sequence"
  | .table _ _ | .time _ => "map"

/-- The fault of a value that is not what was wanted. -/
def mismatch (v : Value) (wanted : Wanted) : ConfigFault := .wrongType (describe v) wanted

/-- The key under which a point in time holds its text. -/
def timeKey : String := "$__toml_private_datetime"

/-- The pairs of a table. A point in time counts as a table with its text. -/
def pairs? : Value → Option (List (String × Value))
  | .table _ entries => some entries
  | .time text => some [(timeKey, .string text)]
  | _ => none

/-- The values of an array, or of several tables of one name. -/
def items? : Value → Option (List Value)
  | .array items => some items
  | .tables items => some (items.map (.table .header))
  | _ => none

/-- A value that has to be a text. -/
def readText (wanted : Wanted) : Value → Except ConfigFault String
  | .string s => .ok s
  | v => .error (mismatch v wanted)

/-- The list of extensions. -/
def readExtensions (v : Value) : Except ConfigFault (List String) :=
  match items? v with
  | some items => items.mapM (readText .text)
  | none => .error (mismatch v .list)

/-- One density. -/
def readDensity : Value → Except ConfigFault Nat
  | .integer n => if 0 ≤ n ∧ n < 0x100000000 then .ok n.toNat else .error (.outOfRange n .density)
  | v => .error (mismatch v .density)

/-- The densities, in ascending order of suffixes. -/
def readDensities (v : Value) : Except ConfigFault (List (String × Nat)) := do
  match pairs? v with
  | none => throw (mismatch v .mapping)
  | some entries =>
    let densities ← entries.mapM fun (suffix, v) => do return (suffix, ← readDensity v)
    return densities.mergeSort fun a b => decide (a.1 ≤ b.1)

/-! ## Groups of settings -/

/-- Settings as far as they are read, and the keys that mean nothing. -/
structure Partial where
  config : Config
  unknown : List String

/-- Takes over the setting of a key. -/
abbrev Setter := Partial → Value → Except ConfigFault Partial

/-- Notes a key that means nothing. -/
def Partial.note (p : Partial) (key : String) : Partial := { p with unknown := p.unknown ++ [key] }

/-- Reads a group of settings from a table or from an array of its values. -/
def readGroup (wanted : Wanted) (setters : List (String × Setter)) : Setter := fun p v =>
  match pairs? v, items? v with
  | some entries, _ =>
    entries.foldlM (fun p (key, v) =>
      match setters.lookup key with
      | some set => set p v
      | none => .ok (p.note key)) p
  | none, some items => (setters.zip items).foldlM (fun p (setter, v) => setter.2 p v) p
  | none, none => .error (mismatch v wanted)

/-- Takes over the extensions. -/
def setExtensions : Setter := fun p v => do
  return { p with config := { p.config with extensions := ← readExtensions v } }

/-- Takes over the tool. -/
def setCrunchTool : Setter := fun p v => do
  return { p with config := { p.config with crunchTool? := some ⟨← readText .path v⟩ } }

/-- Takes over the densities. -/
def setDensities : Setter := fun p v => do
  return { p with config := { p.config with densities := ← readDensities v } }

/-- The settings about shaders. -/
def setShaders : Setter :=
  readGroup .shaderSettings [("extensions", setExtensions)]

/-- The settings about images. -/
def setImages : Setter :=
  readGroup .imageSettings [("crunch_tool", setCrunchTool), ("densities", setDensities)]

/-- The settings in a document's table. -/
def ofEntries (entries : Toml.Entries) : Except ConfigFault Partial :=
  entries.foldlM (fun p (key, v) =>
    if key = "shaders" then setShaders p v
    else if key = "images" then setImages p v
    else .ok (p.note key)) ⟨default, []⟩

/-- The settings in the text of a file, and warnings about its unknown keys. -/
def parse (file : Path) (text : String) : Except ConfigError (Config × List ConfigWarning) := do
  let refuse (fault : ConfigFault) : ConfigError := ⟨file, fault⟩
  match Toml.parse? text.toList with
  | none => throw (refuse .malformed)
  | some entries =>
    let p ← (ofEntries entries).mapError refuse
    match p.config.oversized? with
    | some (suffix, dpi) => throw (refuse (.densityTooLarge suffix dpi))
    | none => return (p.config, p.unknown.map (ConfigWarning.ofKey file text.toList))

end Config

end AssetPack
