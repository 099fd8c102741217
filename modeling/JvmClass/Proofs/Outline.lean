import JvmClass.Descriptor.Printer
import JvmClass.Proofs.Image
import Mathlib.Data.List.Forall2

/-!
# Outlines of classes

An outline is what a listing shows of a class: its name, the headers of its methods, and their
variables table by table. This file says which lines are to be printed for an outline and which
class files have it. An entry of the pool that holds a text holds the text's UTF-8 bytes, and
nothing else in the file is fixed by the outline: the order of the pool, the instructions, the
fields and all attributes other than the ones named here are free.
-/

namespace JvmClass

open Bytes

structure VariableOutline where
  name? : Option String
  type? : Option FieldType
  slot : UInt16
deriving DecidableEq, Repr

/-- A method with the tables of its variables, if it has code. -/
structure MethodOutline where
  flags : UInt16
  name : String
  descriptor : MethodDescriptor
  tables? : Option (List (List VariableOutline))
deriving DecidableEq, Repr

structure ClassOutline where
  name : String
  methods : List MethodOutline
deriving DecidableEq, Repr

def VariableOutline.WellFormed (v : VariableOutline) : Prop :=
  ∀ t ∈ v.type?, t.WellFormed

instance : DecidablePred VariableOutline.WellFormed :=
  fun v => inferInstanceAs (Decidable (∀ t ∈ v.type?, t.WellFormed))

structure TableWellFormed (table : List VariableOutline) : Prop where
  length : table.length ≤ 65535
  entries : ∀ v ∈ table, v.WellFormed

structure MethodOutline.WellFormed (m : MethodOutline) : Prop where
  descriptor : m.descriptor.WellFormed
  tables : ∀ tables ∈ m.tables?, ∀ table ∈ tables, TableWellFormed table

def ClassOutline.WellFormed (c : ClassOutline) : Prop :=
  ∀ m ∈ c.methods, m.WellFormed

/-! ## Lines -/

/-- What stands after the last dot. -/
def afterLastDot : List Char → List Char
  | [] => []
  | c :: rest =>
    if '.' ∈ rest then afterLastDot rest
    else if c = '.' then rest
    else c :: rest

/-- The variable in source form, if it has a name and a type. -/
def VariableOutline.declaration? (v : VariableOutline) : Option String :=
  match v.type?, v.name? with
  | some type, some name =>
    some (type.sourceName ++ " " ++ name ++ "; // index = " ++ toString v.slot.toNat)
  | _, _ => none

namespace MethodOutline

/-- The words before a method and the bits that call for them, in the order of the words. -/
def modifiers : List (String × Nat) :=
  [("public", 0), ("private", 1), ("protected", 2), ("abstract", 10), ("static", 3), ("final", 4),
    ("synchronized", 5), ("native", 8), ("strictfp", 11)]

/-- The modifiers of the method, each with a blank after it. -/
def modifierText (m : MethodOutline) : String :=
  String.join ((modifiers.filter fun (_, bit) => m.flags.toNat.testBit bit).map fun (word, _) =>
    word ++ " ")

def parameterText (m : MethodOutline) : String :=
  "(" ++ ", ".intercalate (m.descriptor.parameters.map FieldType.sourceName) ++ ")"

/-- What stands before the parameters: a constructor has the simple name of its class, and another
method its result and its name. -/
def title (className : String) (m : MethodOutline) : String :=
  if m.name = "<init>" then String.ofList (afterLastDot className.toList)
  else m.descriptor.resultName ++ " " ++ m.name

/-- The method in source form. Of a class initializer neither modifiers nor types are shown. -/
def header (className : String) (m : MethodOutline) : String :=
  if m.name = "<clinit>" then "static \x7b\x7d"
  else m.modifierText ++ m.title className ++ m.parameterText

def bodyLines (m : MethodOutline) : List String :=
  match m.tables? with
  | none => ["// no code"]
  | some tables =>
    match tables.flatten.filterMap VariableOutline.declaration? with
    | [] => ["// no local variable information"]
    | declarations => declarations

def lines (className : String) (m : MethodOutline) : List String :=
  "" :: ("    " ++ m.header className) :: m.bodyLines.map ("        " ++ ·)

end MethodOutline

def ClassOutline.lines (c : ClassOutline) : List String :=
  let className := binaryName c.name
  ("class " ++ className ++ " \x7b") :: c.methods.flatMap (MethodOutline.lines className) ++
    ["\x7d"]

/-! ## Files -/

namespace EntryImage

/-- The slots of a pool. A wide entry has a second one in which nothing stands. -/
def slots (entries : List EntryImage) : List (Option EntryImage) :=
  entries.flatMap fun e => if e.constant.isWide then [some e, none] else [some e]

/-- The entry in a slot. Slots are numbered from one. -/
def inSlot? (entries : List EntryImage) (index : UInt16) : Option EntryImage :=
  if index = 0 then none else ((slots entries)[index.toNat - 1]?).join

/-- The index refers to the text. -/
def Holds (entries : List EntryImage) (index : UInt16) (s : String) : Prop :=
  inSlot? entries index = some (.text (Utf8.encode s))

instance (entries : List EntryImage) (index : UInt16) (s : String) :
    Decidable (Holds entries index s) :=
  inferInstanceAs (Decidable (_ = _))

/-- The index is zero, leads out of the pool or leads to something other than a text. -/
def HoldsNoText (entries : List EntryImage) (index : UInt16) : Prop :=
  ∀ payload, inSlot? entries index ≠ some (.text payload)

instance (entries : List EntryImage) (index : UInt16) : Decidable (HoldsNoText entries index) :=
  match h : inSlot? entries index with
  | none => .isTrue fun _ => by simp [h]
  | some (.other _) => .isTrue fun _ => by simp [h]
  | some (.text payload) => .isFalse fun hnone => hnone payload h

def HoldsOption (entries : List EntryImage) (index : UInt16) : Option String → Prop
  | some s => Holds entries index s
  | none => HoldsNoText entries index

instance (entries : List EntryImage) (index : UInt16) :
    DecidablePred (HoldsOption entries index)
  | some s => inferInstanceAs (Decidable (Holds entries index s))
  | none => inferInstanceAs (Decidable (HoldsNoText entries index))

/-- The attributes with a name. -/
def named (entries : List EntryImage) (name : String) (attributes : List AttributeImage) :
    List AttributeImage :=
  attributes.filter fun a => Holds entries a.nameIndex name

end EntryImage

open EntryImage

structure VariableOutline.WrittenAs (entries : List EntryImage) (v : VariableOutline)
    (r : VariableRecord) : Prop where
  name : HoldsOption entries r.nameIndex v.name?
  descriptor : HoldsOption entries r.descriptorIndex (v.type?.map FieldType.descriptor)
  slot : r.index = v.slot

/-- The body of the attribute is the table and nothing after it. -/
def TableWrittenAs (entries : List EntryImage) (table : List VariableOutline)
    (a : AttributeImage) : Prop :=
  ∃ records, List.Forall₂ (VariableOutline.WrittenAs entries) table records ∧
    a.info = LocalVariableTable.encode records

/-- The body of the attribute is code with the tables among its attributes. -/
def CodeWrittenAs (entries : List EntryImage) (tables : List (List VariableOutline))
    (a : AttributeImage) : Prop :=
  ∃ code : CodeImage, code.Fits ∧ a.info = code.bytes ∧
    List.Forall₂ (TableWrittenAs entries) tables
      (named entries "LocalVariableTable" code.attributes)

/-- The first attribute named as code is the code, and without one there is none. -/
def BodyWrittenAs (entries : List EntryImage) (attributes : List AttributeImage) :
    Option (List (List VariableOutline)) → Prop
  | none => named entries "Code" attributes = []
  | some tables => ∃ first others, named entries "Code" attributes = first :: others ∧
    CodeWrittenAs entries tables first

structure MethodOutline.WrittenAs (entries : List EntryImage) (m : MethodOutline)
    (i : MemberImage) : Prop where
  flags : i.flags = m.flags
  name : Holds entries i.nameIndex m.name
  descriptor : Holds entries i.descriptorIndex m.descriptor.descriptor
  body : BodyWrittenAs entries i.attributes m.tables?

/-- The file has the outline. -/
structure ClassOutline.WrittenAs (c : ClassOutline) (i : ClassImage) : Prop where
  fits : i.Fits
  name : ∃ nameIndex, inSlot? i.entries i.thisClass = some (.other (.classInfo nameIndex)) ∧
    Holds i.entries nameIndex c.name
  methods : List.Forall₂ (MethodOutline.WrittenAs i.entries) c.methods i.methods

end JvmClass
