/-!
# Access flags

One set of flags serves classes, fields and methods, and some bits mean different things in
different places: on a class `accSynchronized` is `ACC_SUPER`, on a method `accVolatile` is
`ACC_BRIDGE` and `accTransient` is `ACC_VARARGS`. Only the low fifteen bits of the word in a class
file have a meaning.
-/

namespace JvmClass

inductive AccessFlag where
  | accPublic
  | accPrivate
  | accProtected
  | accStatic
  | accFinal
  | accSynchronized
  | accVolatile
  | accTransient
  | accNative
  | accInterface
  | accAbstract
  | accStrict
  | accSynthetic
  | accAnnotation
  | accEnum
deriving DecidableEq, Repr

namespace AccessFlag

/-- Every flag, in the order of the bits. -/
def all : List AccessFlag :=
  [accPublic, accPrivate, accProtected, accStatic, accFinal, accSynchronized, accVolatile,
    accTransient, accNative, accInterface, accAbstract, accStrict, accSynthetic, accAnnotation,
    accEnum]

def bit : AccessFlag → Nat
  | accPublic => 0
  | accPrivate => 1
  | accProtected => 2
  | accStatic => 3
  | accFinal => 4
  | accSynchronized => 5
  | accVolatile => 6
  | accTransient => 7
  | accNative => 8
  | accInterface => 9
  | accAbstract => 10
  | accStrict => 11
  | accSynthetic => 12
  | accAnnotation => 13
  | accEnum => 14

def name : AccessFlag → String
  | accPublic => "PUBLIC"
  | accPrivate => "PRIVATE"
  | accProtected => "PROTECTED"
  | accStatic => "STATIC"
  | accFinal => "FINAL"
  | accSynchronized => "SYNCHRONIZED"
  | accVolatile => "VOLATILE"
  | accTransient => "TRANSIENT"
  | accNative => "NATIVE"
  | accInterface => "INTERFACE"
  | accAbstract => "ABSTRACT"
  | accStrict => "STRICT"
  | accSynthetic => "SYNTHETIC"
  | accAnnotation => "ANNOTATION"
  | accEnum => "ENUM"

/-- The flags of a method that are written in source, in the order in which they are written. -/
def methodModifiers : List (AccessFlag × String) :=
  [(accPublic, "public"), (accPrivate, "private"), (accProtected, "protected"),
    (accAbstract, "abstract"), (accStatic, "static"), (accFinal, "final"),
    (accSynchronized, "synchronized"), (accNative, "native"), (accStrict, "strictfp")]

end AccessFlag

structure AccessFlags where
  bits : BitVec 15
deriving DecidableEq, Repr, Inhabited

namespace AccessFlags

/-- The flags of a word; its top bit is dropped. -/
def ofWord (word : UInt16) : AccessFlags :=
  ⟨word.toBitVec.setWidth 15⟩

def toWord (flags : AccessFlags) : UInt16 :=
  ⟨flags.bits.setWidth 16⟩

def has (flags : AccessFlags) (flag : AccessFlag) : Bool :=
  flags.bits.getLsbD flag.bit

def toList (flags : AccessFlags) : List AccessFlag :=
  AccessFlag.all.filter flags.has

/-- Source modifiers of a method with these flags. -/
def methodModifiers (flags : AccessFlags) : List String :=
  (AccessFlag.methodModifiers.filter fun (flag, _) => flags.has flag).map (·.2)

def inspect (flags : AccessFlags) : String :=
  match flags.toList with
  | [] => "(empty)"
  | set => " | ".intercalate (set.map AccessFlag.name)

@[simp] theorem ofWord_toWord (flags : AccessFlags) : ofWord flags.toWord = flags := by
  simp [ofWord, toWord]

theorem toWord_ofWord {word : UInt16} (h : word.toBitVec.getLsbD 15 = false) :
    (ofWord word).toWord = word := by
  apply UInt16.toBitVec_inj.mp
  apply BitVec.eq_of_getLsbD_eq
  intro i hi
  obtain rfl | hne : i = 15 ∨ i < 15 := by omega
  · simpa [ofWord, toWord] using h
  · simp [ofWord, toWord, hi, hne]

end AccessFlags

end JvmClass
