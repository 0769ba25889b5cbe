import AssetPack.Error
import AssetPack.Files.FileSystem
import AssetPack.Log

/-!
# Jobs

A job works on the state of a machine: it gives a result with the log entries on the way to it, and
the state as it is afterwards, also when it failed. There are two ways to begin one. `inspect`
looks at the state and cannot change it; `change` makes one change. What a job leaves of the state
is what the changes on its way made of it, in their order.
-/

set_option autoImplicit false

namespace AssetPack

/-- A computation on a state. -/
def Job (σ α : Type) : Type := σ → Traced RunError α × σ

namespace Job

variable {σ α β : Type}

/-- The result and the state afterwards. -/
def run (job : Job σ α) (s : σ) : Traced RunError α × σ := job s

/-- A look at the state. -/
def inspect (look : σ → Traced RunError α) : Job σ α := fun s => (look s, s)

/-- Something that has nothing to do with the state. -/
def lift (x : Traced RunError α) : Job σ α := inspect fun _ => x

/-- A change of the state. -/
def change {ε : Type} (wrap : ε → RunError) (step : σ → Except ε α × σ) : Job σ α := fun s =>
  let (result, s') := step s
  (.ofExcept (result.mapError wrap), s')

/-- One log entry. -/
def note (level : LogLevel) (message : String) (fields : List (String × String)) : Job σ Unit :=
  lift (.note level message fields)

/-- Goes on with the value, if there is one, in the state that there is then. -/
def bind (job : Job σ α) (f : α → Job σ β) : Job σ β := fun s =>
  let (x, s') := job s
  match x.result with
  | .error e => (⟨x.log, .error e⟩, s')
  | .ok a =>
    let (y, s'') := f a s'
    (⟨x.log ++ y.log, y.result⟩, s'')

instance : Monad (Job σ) where
  pure a := lift (pure a)
  bind := bind

variable [FileSystem σ]

/-- Puts a file into place. -/
def write (path : Path) (bytes : List UInt8) : Job σ Unit :=
  change .file fun s => FileSystem.write s path bytes

/-- Makes a directory. -/
def createDirs (path : Path) : Job σ Unit :=
  change .file fun s => FileSystem.createDirs s path

end Job

end AssetPack
