import AssetPack.Files.Path
import AssetPack.Java.Name

/-!
# Class names

The full name of a generated class: names joined by dots, all but the last of them its package.
Since every segment is a name of the target language, none can be a step out of a directory or
hold a slash, and the file of the class (`sourcePath`) lies below the directory it is put into.
-/

set_option autoImplicit false

namespace AssetPack

/-- What is wrong with a class name. -/
inductive ClassNameFault where
  | empty
  | emptySegment
  | badSegment (segment : String)
  deriving DecidableEq, Repr

/-- A text that is no class name. -/
structure ClassNameError where
  name : String
  fault : ClassNameFault
  deriving DecidableEq, Repr

/-- The wording of the fault. -/
def ClassNameFault.message : ClassNameFault → String
  | .empty => "name is empty"
  | .emptySegment => "empty segment"
  | .badSegment segment => s!"'{segment}' is not a valid Java identifier"

/-- The wording of the error. -/
def ClassNameError.message (e : ClassNameError) : String :=
  s!"invalid output name '{e.name}': {e.fault.message}"

/-- The segments of a full class name. -/
structure ClassName where
  segments : List String
  segments_ne_nil : segments ≠ []
  isName_of_mem : ∀ s ∈ segments, Java.isName s.toList = true
  deriving DecidableEq

namespace ClassName

/-- The class name that a text spells, or the first thing wrong with it. -/
def parse (name : String) : Except ClassNameError ClassName :=
  if name = "" then .error ⟨name, .empty⟩
  else
    let segments := (Text.split '.' name.toList).map String.ofList
    match h : segments.find? fun s => !Java.isName s.toList with
    | some s => .error ⟨name, if s = "" then .emptySegment else .badSegment s⟩
    | none =>
      .ok {
        segments
        segments_ne_nil := by simp [segments, Text.split_ne_nil]
        isName_of_mem := by simpa using List.find?_eq_none.mp h }

/-- The name in full. -/
def full (c : ClassName) : String := ".".intercalate c.segments

/-- The package, if the class is in one. -/
def package? (c : ClassName) : Option String :=
  if c.segments.dropLast = [] then none else some (".".intercalate c.segments.dropLast)

/-- The name without the package. -/
def simpleName (c : ClassName) : String := c.segments.getLast c.segments_ne_nil

/-- The path of the class's file below a directory: one directory for each segment of the
package, and a file named after the class. -/
def sourcePath (c : ClassName) (base : Path) : Path :=
  (c.segments.dropLast.foldl Path.push base).push (c.simpleName ++ ".java")

end ClassName

end AssetPack
