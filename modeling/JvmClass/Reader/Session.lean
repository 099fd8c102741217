import JvmClass.Decoder

/-!
# Reading sessions

A session is a stack of readers over one run of bytes. Reads act on the reader on top. Entering a
window splits the next bytes off as a reader of their own and puts it on top; leaving drops it, and
the reader below continues after the window. The reader at the bottom is never dropped.
-/

namespace JvmClass

namespace Reader

structure Session where
  top : Reader
  below : List Reader
deriving DecidableEq, Repr, Inhabited

/-- What can be asked of a session. -/
inductive Operation where
  | u8
  | u16
  | u32
  | i32
  | i64
  | u16s (count : Nat)
  | bytes (count : Nat)
  | enter (length : Nat)
  | leave
deriving DecidableEq, Repr

/-- What an operation answers. -/
inductive Answer where
  | unsigned (n : Nat)
  | signed (n : Int)
  | words (ns : List UInt16)
  | bytes (bs : List UInt8)
  | entered
  /-- Whether there was a window to leave. -/
  | left (dropped : Bool)
deriving DecidableEq, Repr

namespace Session

def start (bytes : List UInt8) (base : Nat) : Session :=
  ⟨ofBytes bytes base, []⟩

/-- Lets a decoder act on the reader on top. -/
def read {α : Type} (d : Decoder α) (s : Session) : Except Error α × Session :=
  let (result, top) := d.outcome s.top
  (result, { s with top })

def enter (length : Nat) (s : Session) : Session :=
  let (window, rest) := s.top.split length
  ⟨window, rest :: s.below⟩

def leave (s : Session) : Bool × Session :=
  match s.below with
  | [] => (false, s)
  | parent :: below => (true, ⟨parent, below⟩)

def perform (operation : Operation) (s : Session) : Except Error Answer × Session :=
  match operation with
  | .u8 => s.read do return .unsigned (← Decoder.u8).toNat
  | .u16 => s.read do return .unsigned (← Decoder.u16).toNat
  | .u32 => s.read do return .unsigned (← Decoder.u32).toNat
  | .i32 => s.read do return .signed (← Decoder.i32).toInt
  | .i64 => s.read do return .signed (← Decoder.i64).toInt
  | .u16s count => s.read do return .words (← Decoder.u16s count)
  | .bytes count => s.read do return .bytes (← Decoder.bytes count)
  | .enter length => (.ok .entered, s.enter length)
  | .leave => (.ok (.left s.leave.1), s.leave.2)

/-- The session after some operations, whatever they answered. -/
def performAll (operations : List Operation) (s : Session) : Session :=
  operations.foldl (fun s operation => (s.perform operation).2) s

end Session

end Reader

end JvmClass
