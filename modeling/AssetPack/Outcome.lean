import AssetPack.Files.Path
import AssetPack.Fingerprint
import AssetPack.Text.Numeral

/-!
# Outcomes

What a successful run reports: which class, whether it was written or found up to date, and from
how many assets. An outcome is shown as one line, either for people or as an object for programs.
-/

set_option autoImplicit false

namespace AssetPack

/-- What became of the generated class. -/
inductive RunStatus where
  | written
  | skipped
  deriving DecidableEq, Repr

/-- The report of a successful run. -/
structure Outcome where
  kind : ArtifactKind
  status : RunStatus
  path : Path
  assets : Nat
  fingerprint : String
  deriving DecidableEq, Repr

/-- The word for a kind of class. -/
def ArtifactKind.word : ArtifactKind → String
  | .shaders => "shaders"
  | .images => "images"

/-- The word for one or more assets of a kind. -/
def ArtifactKind.noun (kind : ArtifactKind) (count : Nat) : String :=
  match kind with
  | .shaders => if count = 1 then "shader" else "shaders"
  | .images => if count = 1 then "image" else "images"

/-- The word for a status. -/
def RunStatus.word : RunStatus → String
  | .written => "written"
  | .skipped => "skipped"

namespace Outcome

/-- Whether the class was left as it was. -/
def isSkipped (o : Outcome) : Bool := o.status = .skipped

/-- The line for people, with its line feed. -/
def text (o : Outcome) : String :=
  let assets := s!"({o.assets} {o.kind.noun o.assets})"
  match o.status with
  | .written => s!"Wrote {o.path.text} {assets}\n"
  | .skipped => s!"{o.path.text} is up to date {assets}, skipping\n"

/-! ## The object -/

/-- A character inside a quoted text of the object. -/
def escape (c : Char) : List Char :=
  if c = '"' then ['\\', '"']
  else if c = '\\' then ['\\', '\\']
  else if c = '\x08' then ['\\', 'b']
  else if c = '\x0c' then ['\\', 'f']
  else if c = '\n' then ['\\', 'n']
  else if c = '\r' then ['\\', 'r']
  else if c = '\t' then ['\\', 't']
  else if c.toNat < 0x20 then '\\' :: 'u' :: Text.digits 16 4 c.toNat
  else [c]

/-- A quoted text of the object. -/
def quoted (s : String) : String :=
  String.ofList ('"' :: s.toList.flatMap escape ++ ['"'])

/-- The line for programs, with its line feed: an object without blanks. -/
def object (o : Outcome) : String :=
  let fields :=
    [("kind", quoted o.kind.word), ("status", quoted o.status.word), ("path", quoted o.path.text),
     ("assets", toString o.assets), ("fingerprint", quoted o.fingerprint)]
  let written := fields.map fun (name, value) => quoted name ++ ":" ++ value
  "\x7b" ++ ",".intercalate written ++ "\x7d\n"

end Outcome

end AssetPack
