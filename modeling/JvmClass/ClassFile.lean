import JvmClass.Code

/-!
# Class files

A class file is a magic number, a version, the constant pool, the flags and names of a class, its
fields and methods, and attributes. Everything is big-endian and every list stands behind its
16-bit length.
-/

namespace JvmClass

structure ClassFile where
  major : UInt16
  minor : UInt16
  pool : ConstantPool
  flags : AccessFlags
  thisClass : UInt16
  superClass : UInt16
  interfaces : List UInt16
  fields : List Member
  methods : List Member
  attributes : List Attribute
deriving DecidableEq, Repr, Inhabited

namespace ClassFile

def magic : UInt32 := 0xCAFEBABE

/-! ## Decoding -/

/-- The first four bytes of every class file. -/
def decodeMagic : Decoder Unit := do
  let found ← Decoder.u32
  if found ≠ magic then throw (.invalidMagic found)

def decode : Decoder ClassFile := do
  decodeMagic
  let minor ← Decoder.u16
  let major ← Decoder.u16
  let pool ← ConstantPool.decode
  let flags ← Decoder.u16
  let thisClass ← Decoder.u16
  let superClass ← Decoder.u16
  let interfaceCount ← Decoder.u16
  let interfaces ← Decoder.u16s interfaceCount.toNat
  let fields ← Decoder.counted Member.decode
  let methods ← Decoder.counted Member.decode
  let attributes ← Decoder.counted Attribute.decode
  return {
    major, minor, pool, flags := AccessFlags.ofWord flags, thisClass, superClass, interfaces,
    fields, methods, attributes }

/-- What is logged about a class file that has been decoded. -/
def summary (c : ClassFile) : Log.Record :=
  let constants := c.pool.size
  let fields := c.fields.length
  let methods := c.methods.length
  let message :=
    s!"Parsed class file version {c.major}.{c.minor}: {constants} constants, {fields} fields," ++
      s!" {methods} methods"
  ⟨.debug, .classFile, message⟩

/-- The class file at the start of some bytes. What follows it is of no concern. -/
def parse (bytes : List UInt8) : Logged (Except Error ClassFile) :=
  match decode.result (Reader.ofBytes bytes 0) with
  | .ok c => ⟨.ok c, [c.summary]⟩
  | .error e => ⟨.error e, []⟩

/-! ## Encoding -/

/-- The bytes before the fields, with the given count in front of the pool. -/
def encodeFront (poolCount : UInt16) (c : ClassFile) : List UInt8 :=
  Encoder.u32 magic ++ Encoder.u16 c.minor ++ Encoder.u16 c.major ++
    c.pool.encode poolCount ++ Encoder.u16 c.flags.toWord ++ Encoder.u16 c.thisClass ++
    Encoder.u16 c.superClass ++ Encoder.counted Encoder.u16 c.interfaces

/-- The bytes of a class file whose pool is announced by the given count. -/
def encodeWithCount (poolCount : UInt16) (c : ClassFile) : List UInt8 :=
  c.encodeFront poolCount ++ Encoder.counted Member.encode c.fields ++
    Encoder.counted Member.encode c.methods ++ Encoder.counted Attribute.encode c.attributes

def encode (c : ClassFile) : List UInt8 :=
  c.encodeWithCount c.pool.count

/-- The class with all attributes at the places they have when the encoding begins at `start`. -/
def placed (start : Nat) (c : ClassFile) : ClassFile :=
  let fieldsAt := start + (c.encodeFront c.pool.count).length
  let methodsAt := fieldsAt + (Encoder.counted Member.encode c.fields).length
  let attributesAt := methodsAt + (Encoder.counted Member.encode c.methods).length
  { c with
    fields := Member.placed (fieldsAt + 2) c.fields
    methods := Member.placed (methodsAt + 2) c.methods
    attributes := Attribute.placed (attributesAt + 2) c.attributes }

/-! ## Names -/

/-- The class's own name in internal form. -/
def name (c : ClassFile) : Except Error String :=
  c.pool.className c.thisClass

/-- The name of the direct superclass. Only the root of the hierarchy has none. -/
def superName? (c : ClassFile) : Except Error (Option String) :=
  if c.superClass = 0 then .ok none else (c.pool.className c.superClass).map some

/-! ## Inspection -/

def inspect (c : ClassFile) : String :=
  Text.record "ClassFile"
    [("version", Text.applied "" [toString c.major, toString c.minor]),
      ("constant_pool",
        Text.record "ConstantPool"
          [("cp_infos", Text.bracketed (c.pool.toList.map Constant.inspect))]),
      ("access_flags", c.flags.inspect),
      ("this_class", toString c.thisClass),
      ("super_class", toString c.superClass),
      ("interfaces", Text.bracketed (c.interfaces.map toString)),
      ("fields", Text.bracketed (c.fields.map (Member.inspect "FieldInfo"))),
      ("methods", Text.bracketed (c.methods.map (Member.inspect "MethodInfo"))),
      ("attributes",
        Text.applied "Attributes" [Text.bracketed (c.attributes.map Attribute.inspect)])]

end ClassFile

end JvmClass
