import JvmClass.ClassFile

/-!
# Listings of methods

A method is listed as a header in source form and the declarations of its local variables. What
cannot be read is logged and counted, and the rest is listed all the same.
-/

namespace JvmClass.Listing

structure Options where
  lengthCheck : LengthCheck
  warnDescriptors : Bool
deriving DecidableEq, Repr

/-! ## Headers -/

def initializerName : String := "<clinit>"

def constructorName : String := "<init>"

/-- What follows the last dot of a name. -/
def simpleName (name : String) : String :=
  String.ofList (name.toList.reverse.takeWhile (· != '.')).reverse

/-- The method in source form. A class initializer shows neither modifiers nor a descriptor, and a
constructor has the simple name of its class and no result. -/
def header (pool : ConstantPool) (className : String) (m : Member) : Except Error String := do
  let name ← m.name pool
  if name = initializerName then
    return "static \x7b\x7d"
  else
    let descriptor ← m.methodDescriptor pool
    let parameters := Text.commaSeparated (descriptor.parameters.map FieldType.sourceName)
    let title :=
      if name = constructorName then simpleName className
      else descriptor.resultName ++ " " ++ name
    return " ".intercalate (m.flags.methodModifiers ++ [title ++ "(" ++ parameters ++ ")"])

/-- The header of a method whose name or descriptor cannot be read. -/
def fallbackHeader (pool : ConstantPool) (m : Member) : String :=
  let name := match m.name pool with
    | .ok name => name
    | .error _ => "<unknown>"
  match m.descriptor pool with
  | .ok descriptor => name ++ " /* " ++ descriptor ++ " */"
  | .error _ => name

/-! ## Bodies -/

/-- The variables of a method: the declarations of each of its tables, as far as it has code and the
code and the table can be read. -/
inductive Body where
  | noCode
  | unreadable (cause : Error)
  | tables (results : List (Except Error (List String)))

namespace Body

def declarations : Body → List String
  | tables results => results.flatMap fun result => (result.toOption).getD []
  | _ => []

def failures : Body → List Error
  | noCode => []
  | unreadable cause => [cause]
  | tables results =>
    results.filterMap fun result =>
      match result with
      | .ok _ => none
      | .error cause => some cause

def lines (body : Body) : List String :=
  match body with
  | noCode => ["// no code"]
  | unreadable _ => []
  | tables _ =>
    match body.declarations with
    | [] => ["// no local variable information"]
    | declarations => declarations

end Body

/-- Reports an error that keeps some part of a file from being listed. -/
def report (message : String) : Logged Unit :=
  Logged.record .error .commandLine message

/-- Reports an error together with the file it is in. -/
def reportIn (path : String) (e : Error) : Logged Unit :=
  report (path ++ ": " ++ e.message)

/-- The warnings about entries whose descriptor is malformed. -/
def descriptorWarnings (table : LocalVariableTable) : List Log.Record :=
  table.entries.filterMap fun v =>
    match v.declaration with
    | .ok _ => none
    | .error e =>
      some ⟨.warn, .commandLine, s!"Local variable in slot {v.index}: {e.message}"⟩

/-- The declarations of a decoded table. The error of an undecodable one names its attribute and its
place, but not the file. -/
def listTable (options : Options) (table : Logged (Except Error LocalVariableTable)) :
    Logged (Except Error (List String)) := do
  match ← table with
  | .error e =>
    report e.message
    return .error e
  | .ok table =>
    if options.warnDescriptors then ⟨(), descriptorWarnings table⟩
    return .ok (← table.declarationLines)

def listBody (options : Options) (path : String) (pool : ConstantPool) (m : Member) :
    Logged Body := do
  match m.code? pool with
  | .ok none => return .noCode
  | .ok (some code) =>
    let tables := code.localVariableTables pool options.lengthCheck
    return .tables (← Logged.all (tables.map (listTable options)))
  | .error e =>
    reportIn path e
    return .unreadable e

/-! ## Methods -/

structure Method where
  header : String
  headerFailure? : Option Error
  body : Body

namespace Method

/-- What in the method could not be read. -/
def failures (m : Method) : List Error :=
  m.headerFailure?.toList ++ m.body.failures

/-- A blank line, the header, and the body under it. -/
def lines (m : Method) : List String :=
  "" :: ("    " ++ m.header) :: m.body.lines.map ("        " ++ ·)

end Method

def listMethod (options : Options) (path : String) (pool : ConstantPool) (className : String)
    (m : Member) : Logged Method := do
  match header pool className m with
  | .ok header =>
    return ⟨header, none, ← listBody options path pool m⟩
  | .error e =>
    reportIn path e
    return ⟨fallbackHeader pool m, some e, ← listBody options path pool m⟩

end JvmClass.Listing
