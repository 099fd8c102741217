/-!
# Big-endian numbers

Numbers as byte lists with the most significant byte first. `value` reads a list of any width,
`bytes` writes a number in a given width, and each undoes the other on numbers the width has room
for.
-/

namespace JvmClass.Bytes.BigEndian

/-- How many numbers a width has room for. -/
def capacity : Nat → Nat
  | 0 => 1
  | width + 1 => capacity width * 256

/-- The number a byte list spells. -/
def value : List UInt8 → Nat
  | [] => 0
  | byte :: rest => byte.toNat * capacity rest.length + value rest

/-- The low `width` bytes of a number. -/
def bytes : Nat → Nat → List UInt8
  | 0, _ => []
  | width + 1, n => UInt8.ofNat (n / capacity width) :: bytes width n

theorem capacity_pos (width : Nat) : 0 < capacity width := by
  induction width with
  | zero => decide
  | succ width ih => exact Nat.mul_pos ih (by decide)

@[simp] theorem length_bytes (width n : Nat) : (bytes width n).length = width := by
  induction width with
  | zero => rfl
  | succ width ih => simp [bytes, ih]

theorem value_lt (front : List UInt8) : value front < capacity front.length := by
  induction front with
  | nil => decide
  | cons byte rest ih =>
      have hbyte : (byte.toNat + 1) * capacity rest.length ≤ 256 * capacity rest.length :=
        Nat.mul_le_mul_right _ byte.toNat_lt
      rw [Nat.add_mul, Nat.one_mul] at hbyte
      rw [value, List.length_cons, capacity, Nat.mul_comm _ 256]
      omega

/-- A number reads back reduced to its width. -/
theorem value_bytes (width n : Nat) : value (bytes width n) = n % capacity width := by
  induction width with
  | zero => simp [bytes, value, capacity, Nat.mod_one]
  | succ width ih =>
      rw [bytes, value, ih, length_bytes, capacity, Nat.mod_mul, UInt8.toNat_ofNat',
        Nat.add_comm, Nat.mul_comm (capacity width)]

theorem value_bytes_of_lt {width n : Nat} (h : n < capacity width) :
    value (bytes width n) = n := by
  rw [value_bytes, Nat.mod_eq_of_lt h]

/-- What exceeds the width is not written. -/
theorem bytes_add_mul (width n excess : Nat) :
    bytes width (n + excess * capacity width) = bytes width n := by
  induction width generalizing excess with
  | zero => rfl
  | succ width ih =>
      have hshift : excess * capacity (width + 1) = excess * 256 * capacity width := by
        rw [capacity, Nat.mul_comm (capacity width), Nat.mul_assoc]
      have hhead : UInt8.ofNat (n / capacity width + excess * 256) =
          UInt8.ofNat (n / capacity width) := by
        apply UInt8.toNat_inj.mp
        simp
      rw [bytes, bytes, hshift, ih, Nat.add_mul_div_right _ _ (capacity_pos width), hhead]

theorem bytes_value {width : Nat} {front : List UInt8} (h : front.length = width) :
    bytes width (value front) = front := by
  induction front generalizing width with
  | nil =>
      subst h
      rfl
  | cons byte rest ih =>
      subst h
      have hdiv : (value rest + byte.toNat * capacity rest.length) / capacity rest.length =
          byte.toNat := by
        rw [Nat.add_mul_div_right _ _ (capacity_pos _), Nat.div_eq_of_lt (value_lt rest),
          Nat.zero_add]
      rw [List.length_cons, bytes, value, Nat.add_comm, hdiv, bytes_add_mul, ih rfl,
        UInt8.ofNat_toNat]

end JvmClass.Bytes.BigEndian
