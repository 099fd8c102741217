import JvmClass.Listing.Method

/-!
# Listings of files

A file is listed as one block: a line with the name of its class, its methods in their order, and a
closing brace. A file that is no class file or whose class has no name is reported and gives no
block at all.
-/

namespace JvmClass.Listing

/-- Why a file that does not exist cannot be listed. -/
def noSuchFile : String := "No such file or directory (os error 2)"

/-- Why a file without contents cannot be listed. Files are mapped into memory, and the words are
those in which the mapping library refuses to map nothing. -/
def emptyFile : String := "memory map must have a non-zero length"

structure Block where
  className : String
  methods : List Method

namespace Block

/-- What in the class could not be read. -/
def failures (b : Block) : List Error :=
  b.methods.flatMap Method.failures

def lines (b : Block) : List String :=
  ("class " ++ b.className ++ " \x7b") :: b.methods.flatMap Method.lines ++ ["\x7d"]

end Block

def listClass (options : Options) (path : String) (c : ClassFile) (className : String) :
    Logged Block := do
  let methods ← Logged.all (c.methods.map (listMethod options path c.pool className))
  return ⟨className, methods⟩

/-- The class file in the contents of a file, or in the place of the contents the reason why they
cannot be had. That an empty file has no contents to be had is documented behaviour of the library
that maps files into memory, and not a decision made here. -/
def load : Except String (List UInt8) → Logged (Except Error ClassFile)
  | .error reason => return .error (.unavailable reason)
  | .ok [] => return .error (.unavailable emptyFile)
  | .ok bytes => ClassFile.parse bytes

/-- The class file of a file together with the name of its class in source form. -/
def loadNamed (contents : Except String (List UInt8)) :
    Logged (Except Error (ClassFile × String)) := do
  match ← load contents with
  | .error e => return .error e
  | .ok c =>
    match c.name with
    | .error e => return .error e
    | .ok name => return .ok (c, binaryName name)

/-! ## What can be listed -/

/-- The contents are a class file, and the name of its class can be looked up. -/
def Listed (contents : Except String (List UInt8)) (c : ClassFile) (className : String) : Prop :=
  ∃ bytes name, contents = .ok bytes ∧ (ClassFile.parse bytes).value = .ok c ∧
    c.name = .ok name ∧ className = binaryName name

/-- Why a file gives no block. -/
inductive Unlisted (contents : Except String (List UInt8)) : Error → Prop
  | unavailable {reason : String} :
    contents = .error reason → Unlisted contents (.unavailable reason)
  | empty : contents = .ok [] → Unlisted contents (.unavailable emptyFile)
  | malformed {bytes : List UInt8} {e : Error} :
    contents = .ok bytes → bytes ≠ [] → (ClassFile.parse bytes).value = .error e →
      Unlisted contents e
  | unnamed {bytes : List UInt8} {c : ClassFile} {e : Error} :
    contents = .ok bytes → (ClassFile.parse bytes).value = .ok c → c.name = .error e →
      Unlisted contents e

theorem load_of_ne_nil {bytes : List UInt8} (h : bytes ≠ []) :
    load (.ok bytes) = ClassFile.parse bytes := by
  cases bytes with
  | nil => exact absurd rfl h
  | cons first rest => rfl

/-- Nothing is no class file. -/
theorem load_of_parse {bytes : List UInt8} {c : ClassFile}
    (h : (ClassFile.parse bytes).value = .ok c) : load (.ok bytes) = ClassFile.parse bytes := by
  apply load_of_ne_nil
  rintro rfl
  cases h

/-- Of a class file that has been read only the name is still looked up. -/
theorem value_loadNamed {bytes : List UInt8} {c : ClassFile}
    (h : (ClassFile.parse bytes).value = .ok c) :
    (loadNamed (.ok bytes)).value = c.name.map fun name => (c, binaryName name) := by
  rw [loadNamed, Logged.value_bind, load_of_parse h, h]
  dsimp only
  cases c.name <;> rfl

theorem Listed.loadNamed {contents : Except String (List UInt8)} {c : ClassFile}
    {className : String} (h : Listed contents c className) :
    (loadNamed contents).value = .ok (c, className) := by
  obtain ⟨bytes, name, rfl, hc, hname, rfl⟩ := h
  rw [value_loadNamed hc, hname]
  rfl

theorem Unlisted.loadNamed {contents : Except String (List UInt8)} {e : Error}
    (h : Unlisted contents e) : (loadNamed contents).value = .error e := by
  cases h with
  | unavailable hcontents =>
      subst hcontents
      rfl
  | empty hcontents =>
      subst hcontents
      rfl
  | malformed hcontents hbytes herror =>
      subst hcontents
      rw [Listing.loadNamed, Logged.value_bind, load_of_ne_nil hbytes, herror]
      rfl
  | unnamed hcontents hc hname =>
      subst hcontents
      rw [value_loadNamed hc, hname]
      rfl

/-- Every file is listed or has a reason not to be. -/
theorem unlisted_or_listed (contents : Except String (List UInt8)) :
    (∃ e, Unlisted contents e) ∨ ∃ c className, Listed contents c className := by
  cases contents with
  | error reason => exact .inl ⟨_, .unavailable rfl⟩
  | ok bytes =>
      by_cases hbytes : bytes = []
      · exact .inl ⟨_, .empty (congrArg _ hbytes)⟩
      cases hc : (ClassFile.parse bytes).value with
      | error e => exact .inl ⟨e, .malformed rfl hbytes hc⟩
      | ok c =>
          cases hname : c.name with
          | error e => exact .inl ⟨e, .unnamed rfl hc hname⟩
          | ok name => exact .inr ⟨c, _, bytes, name, rfl, hc, hname, rfl⟩

theorem loadNamed_eq_error_iff {contents : Except String (List UInt8)} {e : Error} :
    (loadNamed contents).value = .error e ↔ Unlisted contents e := by
  constructor
  · intro h
    obtain ⟨e', he⟩ | ⟨c, className, hlisted⟩ := unlisted_or_listed contents
    · cases h.symm.trans he.loadNamed
      exact he
    · cases h.symm.trans hlisted.loadNamed
  · exact Unlisted.loadNamed

theorem loadNamed_eq_ok_iff {contents : Except String (List UInt8)} {c : ClassFile}
    {className : String} :
    (loadNamed contents).value = .ok (c, className) ↔ Listed contents c className := by
  constructor
  · intro h
    obtain ⟨e, he⟩ | ⟨c', className', hlisted⟩ := unlisted_or_listed contents
    · cases h.symm.trans he.loadNamed
    · cases h.symm.trans hlisted.loadNamed
      exact hlisted
  · exact Listed.loadNamed

/-! ## Files -/

/-- The outcome for one file: its block, or why there is none. -/
structure File where
  block : Except Error Block

namespace File

def lines (f : File) : List String :=
  match f.block with
  | .ok block => block.lines
  | .error _ => []

/-- Whether anything of the file could not be read. -/
def failed (f : File) : Bool :=
  match f.block with
  | .ok block => !block.failures.isEmpty
  | .error _ => true

end File

def listFile (options : Options) (path : String) (contents : Except String (List UInt8)) :
    Logged File := do
  match ← loadNamed contents with
  | .error e =>
    reportIn path e
    return ⟨.error e⟩
  | .ok (c, className) =>
    let block ← listClass options path c className
    let count := block.failures.length
    if count ≠ 0 then report s!"{path}: {count} unreadable attribute(s)"
    return ⟨.ok block⟩

end JvmClass.Listing
