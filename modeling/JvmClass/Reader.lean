/-!
# Readers

A reader holds the bytes still unread and the position of the first of them in the file, so that
whatever it reports is a file coordinate however deep in the file its window lies.
-/

namespace JvmClass

structure Reader where
  position : Nat
  bytes : List UInt8
deriving DecidableEq, Repr, Inhabited

namespace Reader

/-- A reader over bytes that begin `base` bytes into the file. -/
def ofBytes (bytes : List UInt8) (base : Nat) : Reader :=
  ⟨base, bytes⟩

def remaining (r : Reader) : Nat :=
  r.bytes.length

/-- Position just after the last byte. -/
def limit (r : Reader) : Nat :=
  r.position + r.remaining

/-- The reader of the next `n` bytes, or of fewer if the bytes end first, and the reader of what
follows them. -/
def split (r : Reader) (n : Nat) : Reader × Reader :=
  let window := r.bytes.take n
  (⟨r.position, window⟩, ⟨r.position + window.length, r.bytes.drop n⟩)

@[simp] theorem position_split_fst (r : Reader) (n : Nat) :
    (r.split n).1.position = r.position := rfl

theorem remaining_split_fst (r : Reader) (n : Nat) :
    (r.split n).1.remaining = min n r.remaining := by
  simp [split, remaining]

theorem position_split_snd (r : Reader) (n : Nat) :
    (r.split n).2.position = r.position + min n r.remaining := by
  simp [split, remaining]

end Reader

end JvmClass
