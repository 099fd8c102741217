import JvmClass.LocalVariableTable

/-!
# Tables next to one another

A table is decoded from a window of its declared length, and the reader goes on after the window
whatever becomes of the table. So nothing beyond the window has a part in the result, and of tables
that stand one after the other each is decoded as if it stood alone at its place.
-/

namespace JvmClass

namespace Reader

/-- A window shows nothing of the bytes after it. -/
theorem split_fst_congr {r s : Reader} {n : Nat} (hposition : s.position = r.position)
    (hbytes : s.bytes.take n = r.bytes.take n) : (s.split n).1 = (r.split n).1 := by
  simp only [split, hposition, hbytes]

theorem position_split_snd_congr {r s : Reader} {n : Nat} (hposition : s.position = r.position)
    (hbytes : s.bytes.take n = r.bytes.take n) :
    (s.split n).2.position = (r.split n).2.position := by
  simp only [split, hposition, hbytes]

theorem split_append_bytes (position : Nat) (front rest : List UInt8) :
    split ⟨position, front ++ rest⟩ front.length =
      (⟨position, front⟩, ⟨position + front.length, rest⟩) := by
  simp only [split, List.take_left, List.drop_left]

/-- The end of a window, which the end of the bytes may cut short. -/
theorem position_split_snd_eq_min (r : Reader) (n : Nat) :
    (r.split n).2.position = min (r.position + n) r.limit := by
  rw [position_split_snd, limit]
  omega

end Reader

namespace LocalVariableTable

variable (pool : ConstantPool) (check : LengthCheck)

theorem decode_snd (name : String) (declared : Nat) (r : Reader) :
    (decode pool check name declared r).2 = (r.split declared).2 := rfl

/-- The result is that of the window. -/
theorem decode_fst_congr {name : String} {declared : Nat} {r s : Reader}
    (hposition : s.position = r.position)
    (hbytes : s.bytes.take declared = r.bytes.take declared) :
    (decode pool check name declared s).1 = (decode pool check name declared r).1 := by
  simp only [decode, Reader.split_fst_congr hposition hbytes, hposition]

theorem decode_append (name : String) (base : Nat) (body rest : List UInt8) :
    decode pool check name body.length ⟨base, body ++ rest⟩ =
      ((decode pool check name body.length (Reader.ofBytes body base)).1,
        ⟨base + body.length, rest⟩) := by
  apply Prod.ext
  · apply decode_fst_congr
    · rfl
    · rw [Reader.ofBytes, List.take_left, List.take_length]
  · rw [decode_snd, Reader.split_append_bytes]

/-- The tables at a reader's position, each under a name and with a declared length of its own, and
the reader after the last. A table that cannot be decoded does not keep the next one from being
tried. -/
def decodeEach : List (String × Nat) → Reader →
    List (Logged (Except Error LocalVariableTable)) × Reader
  | [], r => ([], r)
  | (name, declared) :: others, r =>
    let (first, r) := decode pool check name declared r
    let (rest, r) := decodeEach others r
    (first :: rest, r)

/-- Bodies decoded on readers of their own, at the places they have when the first begins at
`base`. -/
def decodeAlone : Nat → List (String × List UInt8) →
    List (Logged (Except Error LocalVariableTable))
  | _, [] => []
  | base, (name, body) :: others =>
    (decode pool check name body.length (Reader.ofBytes body base)).1 ::
      decodeAlone (base + body.length) others

/-- The bytes of bodies one after the other. -/
def joined (bodies : List (String × List UInt8)) : List UInt8 :=
  bodies.flatMap Prod.snd

/-- Each body under its name and with its own length as the declared one. -/
def exactCalls (bodies : List (String × List UInt8)) : List (String × Nat) :=
  bodies.map fun (name, body) => (name, body.length)

theorem decodeEach_joined (bodies : List (String × List UInt8)) (base : Nat) (tail : List UInt8) :
    decodeEach pool check (exactCalls bodies) ⟨base, joined bodies ++ tail⟩ =
      (decodeAlone pool check base bodies, ⟨base + (joined bodies).length, tail⟩) := by
  induction bodies generalizing base with
  | nil => rfl
  | cons first others ih =>
      obtain ⟨name, body⟩ := first
      have hjoined : joined ((name, body) :: others) = body ++ joined others := rfl
      rw [hjoined, List.append_assoc, List.length_append, ← Nat.add_assoc, exactCalls,
        List.map_cons, decodeEach, decode_append]
      dsimp only
      rw [← exactCalls, ih]
      rfl

theorem length_decodeAlone (bodies : List (String × List UInt8)) (base : Nat) :
    (decodeAlone pool check base bodies).length = bodies.length := by
  induction bodies generalizing base with
  | nil => rfl
  | cons first others ih => rw [decodeAlone, List.length_cons, ih, List.length_cons]

theorem getElem?_decodeAlone (bodies : List (String × List UInt8)) (base i : Nat) :
    (decodeAlone pool check base bodies)[i]? = bodies[i]?.map fun (name, body) =>
      (decode pool check name body.length
        (Reader.ofBytes body (base + (joined (bodies.take i)).length))).1 := by
  induction bodies generalizing base i with
  | nil => rfl
  | cons first others ih =>
      obtain ⟨name, body⟩ := first
      cases i with
      | zero => rfl
      | succ i =>
          have hjoined : joined ((name, body) :: others.take i) = body ++ joined (others.take i) :=
            rfl
          rw [decodeAlone, List.getElem?_cons_succ, List.getElem?_cons_succ, ih,
            List.take_succ_cons, hjoined, List.length_append, Nat.add_assoc]

end LocalVariableTable

open LocalVariableTable in
/-- Tables one after the other are each decoded as their bodies are alone at the same places,
whatever the others and the bytes after the last are, and the reader ends up after them all. A
single table takes the reader to the end of its declared length or of the bytes, and other bytes
beyond that length change nothing. -/
theorem decode_tables_isolated (pool : ConstantPool) (check : LengthCheck) :
    (∀ (bodies : List (String × List UInt8)) (tail : List UInt8) (base : Nat),
      let outcome := decodeEach pool check (exactCalls bodies)
        (Reader.ofBytes (joined bodies ++ tail) base)
      outcome.1.length = bodies.length ∧
        (∀ i : Nat, outcome.1[i]? = bodies[i]?.map fun (name, body) =>
          (decode pool check name body.length
            (Reader.ofBytes body (base + (joined (bodies.take i)).length))).1) ∧
        outcome.2 = Reader.ofBytes tail (base + (joined bodies).length)) ∧
    ∀ (name : String) (declared : Nat) (r : Reader),
      let outcome := decode pool check name declared r
      outcome.2.position = min (r.position + declared) r.limit ∧
        outcome.2.bytes = r.bytes.drop declared ∧
        ∀ other : Reader, other.position = r.position →
          other.bytes.take declared = r.bytes.take declared →
          (decode pool check name declared other).1 = outcome.1 ∧
            (decode pool check name declared other).2.position = outcome.2.position := by
  constructor
  · intro bodies tail base outcome
    have houtcome : outcome =
        (decodeAlone pool check base bodies, ⟨base + (joined bodies).length, tail⟩) :=
      decodeEach_joined pool check bodies base tail
    rw [houtcome]
    refine ⟨length_decodeAlone pool check bodies base, ?_, rfl⟩
    intro i
    exact getElem?_decodeAlone pool check bodies base i
  · intro name declared r outcome
    refine ⟨r.position_split_snd_eq_min declared, rfl, ?_⟩
    intro other hposition hbytes
    exact ⟨decode_fst_congr pool check hposition hbytes,
      Reader.position_split_snd_congr hposition hbytes⟩

open LocalVariableTable in
/-- A table that is too short for its count does not disturb the one after it, which ends with the
bytes. -/
theorem decode_tables_isolated_after_failure :
    let pool : ConstantPool := ⟨#[]⟩
    let bodies := [("first", [0, 1, 7]), ("second", [0, 0])]
    let r : Reader := ⟨10, [0, 0, 1]⟩
    let other : Reader := ⟨10, [0, 0, 7, 7]⟩
    (decodeEach pool .strict (exactCalls bodies) (Reader.ofBytes (joined bodies ++ [9]) 10)).1[1]? =
        some ⟨.ok ⟨"second", 2, []⟩, []⟩ ∧
      other.position = r.position ∧ other.bytes.take 2 = r.bytes.take 2 ∧
      (decode pool .strict "second" 2 other).1 = (decode pool .strict "second" 2 r).1 ∧
      (decode pool .strict "second" 2 other).2.position = 12 := by
  intro pool bodies r other
  obtain ⟨-, heach, -⟩ := (decode_tables_isolated pool .strict).1 bodies [9] 10
  obtain ⟨hposition, -, hsame⟩ := (decode_tables_isolated pool .strict).2 "second" 2 r
  obtain ⟨hvalue, hother⟩ := hsame other rfl rfl
  have halone : (decode pool .strict "second" 2 (Reader.ofBytes [0, 0] 13)).1 =
      ⟨.ok ⟨"second", 2, []⟩, []⟩ := rfl
  refine ⟨?_, rfl, rfl, hvalue, hother.trans hposition⟩
  exact (heach 1).trans (congrArg some halone)

end JvmClass
