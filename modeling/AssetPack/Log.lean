import AssetPack.Text.Blank
import AssetPack.Text.Lines
import AssetPack.Text.Numeral

/-!
# Log entries, and computations that leave some

A run says what it does in log entries: a level, a message and named values. The entries are part
of what a run returns, also when it fails: `Traced` is a result with the entries that came before
it, and running one traced computation after another puts the entries in that order.

An entry is written as text, and the text of a log is read line by line. A value with a line feed
in it makes more than one line of its entry, and nothing tells its later lines from lines of their
own: a line is a warning by how it begins.
-/

set_option autoImplicit false

namespace AssetPack

/-- How much attention an entry asks for. -/
inductive LogLevel where
  | warn
  | info
  | debug
  deriving DecidableEq, Repr

/-- The level as it is shown. -/
def LogLevel.word : LogLevel → String
  | .warn => "WARN"
  | .info => "INFO"
  | .debug => "DEBUG"

/-- A message with named values, in the order in which they are shown. -/
structure LogEntry where
  level : LogLevel
  message : String
  fields : List (String × String)
  deriving DecidableEq, Repr

namespace LogEntry

/-- A character of a message. Those that a terminal would obey are written by their number. Values
are shown as they are. -/
def escape (c : Char) : List Char :=
  if '\x80' ≤ c ∧ c ≤ '\x9f' then '\\' :: 'u' :: '\x7b' :: Text.digits 16 1 c.toNat ++ ['\x7d']
  else if ['\x1b', '\x07', '\x08', '\x0c', '\x7f'].contains c then
    '\\' :: 'x' :: Text.digits 16 2 c.toNat
  else [c]

/-- The entry as it is written. -/
def text (e : LogEntry) : String :=
  let message := String.ofList (e.message.toList.flatMap escape)
  let fields := e.fields.map fun (name, value) => s!" {name}={value}"
  s!"{e.level.word} {message}" ++ String.join fields

/-- The lines of the entry, without the blanks at their ends. -/
def lines (e : LogEntry) : List (List Char) := (Text.splitLf e.text.toList).map Text.trim

end LogEntry

/-- A log. -/
abbrev Log : Type := List LogEntry

namespace Log

/-- The lines of a log. -/
def lines (log : Log) : List String := (log.flatMap LogEntry.lines).map String.ofList

/-- The lines that warn. -/
def warnings (log : Log) : List String :=
  (log.lines).filter fun line => LogLevel.warn.word.toList.isPrefixOf line.toList

end Log

/-- A result and the log entries that led to it. -/
structure Traced (ε α : Type) where
  log : Log
  result : Except ε α

namespace Traced

variable {ε α β : Type}

/-- A result without entries. -/
def ofExcept (r : Except ε α) : Traced ε α := ⟨[], r⟩

/-- One entry. -/
def note (level : LogLevel) (message : String) (fields : List (String × String)) : Traced ε Unit :=
  ⟨[⟨level, message, fields⟩], .ok ()⟩

/-- Goes on with the value, if there is one. -/
def bind (x : Traced ε α) (f : α → Traced ε β) : Traced ε β :=
  match x.result with
  | .error e => ⟨x.log, .error e⟩
  | .ok a => ⟨x.log ++ (f a).log, (f a).result⟩

instance : Monad (Traced ε) where
  pure a := ⟨[], .ok a⟩
  bind := bind

instance : MonadExceptOf ε (Traced ε) where
  throw e := ⟨[], .error e⟩
  tryCatch x f :=
    match x.result with
    | .error e => ⟨x.log ++ (f e).log, (f e).result⟩
    | .ok a => ⟨x.log, .ok a⟩

/-- The same entries with the error seen from further out. -/
def mapError {ε' : Type} (f : ε → ε') (x : Traced ε α) : Traced ε' α :=
  ⟨x.log, x.result.mapError f⟩

/-! ## Without the entries

`Traced.result` forgets the entries and is a map of monads, so the result of a traced computation
is found by leaving out every note in it. -/

@[simp] theorem result_pure (a : α) : (pure a : Traced ε α).result = .ok a := rfl

@[simp] theorem result_ofExcept (r : Except ε α) : (ofExcept r).result = r := rfl

@[simp] theorem result_throw (e : ε) : (throw e : Traced ε α).result = .error e := rfl

@[simp] theorem result_mapError {ε' : Type} (f : ε → ε') (x : Traced ε α) :
    (x.mapError f).result = x.result.mapError f := rfl

@[simp] theorem result_bind (x : Traced ε α) (f : α → Traced ε β) :
    (x >>= f).result = x.result >>= fun a => (f a).result := by
  change (Traced.bind x f).result = _
  unfold Traced.bind
  split
  · rename_i he
    rw [he]
    rfl
  · rename_i ha
    rw [ha]
    rfl

@[simp] theorem result_note (level : LogLevel) (message : String)
    (fields : List (String × String)) :
    (note level message fields : Traced ε Unit).result = .ok () := rfl

end Traced

end AssetPack
