/-!
# Logs

Records have a level, a source and a message. A threshold lets records of its level and of the more
severe levels through, and what it lets through is written with the names of the sources in a
column as wide as the longest one so far.

The program decides which records there are. How thresholds are named and how records are written
is documented behaviour of the logging library it writes them with, which `Threshold.ofName?` and
`lines` follow.
-/

namespace JvmClass

namespace Log

/-- Levels from the most to the least severe. -/
inductive Level where
  | error
  | warn
  | info
  | debug
  | trace
deriving DecidableEq, Repr

namespace Level

def all : List Level :=
  [error, warn, info, debug, trace]

def severity : Level → Nat
  | error => 1
  | warn => 2
  | info => 3
  | debug => 4
  | trace => 5

def name : Level → String
  | error => "ERROR"
  | warn => "WARN"
  | info => "INFO"
  | debug => "DEBUG"
  | trace => "TRACE"

end Level

/-- The part of the program a record comes from. -/
inductive Source where
  | commandLine
  | classFile
  | localVariableTable
deriving DecidableEq, Repr

/-- The name a source has in written logs. -/
def Source.target : Source → String
  | commandLine => "javad"
  | classFile => "javad_class_file::parser"
  | localVariableTable => "javad_class_file::local_variable_table"

structure Record where
  level : Level
  source : Source
  message : String
deriving DecidableEq, Repr

/-! ## Written logs -/

/-- The least severe level that is let through, if any is. -/
abbrev Threshold := Option Level

namespace Threshold

/-- The threshold with the given name, in lower case or upper case. -/
def ofName? (name : String) : Option Threshold :=
  if name.toLower == "off" then some none
  else (Level.all.find? fun level => level.name == name.toUpper).map some

def admits : Threshold → Level → Bool
  | none, _ => false
  | some least, level => level.severity ≤ least.severity

end Threshold

def padRight (width : Nat) (s : String) : String :=
  s ++ String.ofList (List.replicate (width - s.length) ' ')

/-- One written record, its source padded to the given width. -/
def line (width : Nat) (r : Record) : String :=
  " " ++ padRight 5 r.level.name ++ " " ++ padRight width r.source.target ++ " > " ++ r.message

/-- Written records after a column of the given width. -/
def linesFrom : Nat → List Record → List String
  | _, [] => []
  | width, r :: rest =>
    let wider := max width r.source.target.length
    line wider r :: linesFrom wider rest

/-- The written form of the records the threshold lets through, as the logging library has it. -/
def lines (threshold : Threshold) (records : List Record) : List String :=
  linesFrom 0 (records.filter fun r => threshold.admits r.level)

end Log

/-- A value and what was logged on the way to it. -/
structure Logged (α : Type) where
  value : α
  log : List Log.Record
deriving DecidableEq, Repr

namespace Logged

variable {α β : Type}

instance : Monad Logged where
  pure a := ⟨a, []⟩
  bind x f := ⟨(f x.value).value, x.log ++ (f x.value).log⟩

def record (level : Log.Level) (source : Log.Source) (message : String) : Logged Unit :=
  ⟨(), [⟨level, source, message⟩]⟩

/-- Values in a row, with the logs one after the other. -/
def all (xs : List (Logged α)) : Logged (List α) where
  value := xs.map Logged.value
  log := xs.flatMap Logged.log

@[simp] theorem value_pure (a : α) : (pure a : Logged α).value = a := rfl

@[simp] theorem log_pure (a : α) : (pure a : Logged α).log = [] := rfl

@[simp] theorem value_bind (x : Logged α) (f : α → Logged β) :
    (x >>= f).value = (f x.value).value := rfl

@[simp] theorem log_bind (x : Logged α) (f : α → Logged β) :
    (x >>= f).log = x.log ++ (f x.value).log := rfl

@[simp] theorem value_all (xs : List (Logged α)) : (all xs).value = xs.map value := rfl

@[simp] theorem log_all (xs : List (Logged α)) : (all xs).log = xs.flatMap log := rfl

instance : LawfulMonad Logged :=
  LawfulMonad.mk' Logged (fun x => by simp [Functor.map]) (fun a f => by simp [pure, bind])
    (fun x f g => by simp [bind, List.append_assoc])

end Logged

end JvmClass
