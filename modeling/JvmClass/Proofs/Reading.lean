import JvmClass.Encoder
import Mathlib.Logic.Basic

/-!
# What decoders read

A decoder that succeeds moves its reader past the bytes it has read. For each read this file says
which bytes these are, and a `Format` says it for a whole record: what can be written, in which
bytes, and what is read back from them at a place in the file. A decoder reads a format if it
succeeds exactly on the bytes of that format, whatever follows them.
-/

namespace JvmClass

namespace Encoder

open Bytes

/-- Numbers of a width have no bytes in common. -/
theorem bytes_inj {width m n : Nat} (hm : m < BigEndian.capacity width)
    (hn : n < BigEndian.capacity width) :
    BigEndian.bytes width m = BigEndian.bytes width n ↔ m = n := by
  constructor
  · intro h
    rw [← BigEndian.value_bytes_of_lt hm, h, BigEndian.value_bytes_of_lt hn]
  · rintro rfl
    rfl

theorem u16_inj {m n : UInt16} : u16 m = u16 n ↔ m = n :=
  (bytes_inj m.toNat_lt n.toNat_lt).trans UInt16.toNat_inj

end Encoder

namespace Reader

/-- The reader `s` is the reader `r` moved past the bytes `front`. -/
def Moves (r : Reader) (front : List UInt8) (s : Reader) : Prop :=
  r.bytes = front ++ s.bytes ∧ s.position = r.position + front.length

theorem moves_nil_iff {r s : Reader} : r.Moves [] s ↔ r = s := by
  cases r
  cases s
  simp only [Moves, List.nil_append, List.length_nil, Nat.add_zero, Reader.mk.injEq]
  rw [and_comm, eq_comm]

theorem moves_append_iff {r t : Reader} {front back : List UInt8} :
    r.Moves (front ++ back) t ↔ ∃ s, r.Moves front s ∧ s.Moves back t := by
  constructor
  · intro h
    obtain ⟨hbytes, hposition⟩ := h
    refine ⟨⟨r.position + front.length, back ++ t.bytes⟩, ⟨?_, rfl⟩, rfl, ?_⟩
    · rw [hbytes, List.append_assoc]
    · rw [hposition, List.length_append, Nat.add_assoc]
  · intro h
    obtain ⟨s, ⟨hfront, hs⟩, hback, ht⟩ := h
    constructor
    · rw [hfront, hback, List.append_assoc]
    · rw [ht, hs, List.length_append, Nat.add_assoc]

theorem Moves.append {r s t : Reader} {front back : List UInt8} (hs : r.Moves front s)
    (ht : s.Moves back t) : r.Moves (front ++ back) t :=
  moves_append_iff.mpr ⟨s, hs, ht⟩

theorem moves_append (position : Nat) (front rest : List UInt8) :
    Moves ⟨position, front ++ rest⟩ front ⟨position + front.length, rest⟩ :=
  ⟨rfl, rfl⟩

end Reader

namespace Decoder

open Bytes

variable {α β γ : Type}

/-! ## Successful reads -/

theorem bind_eq_ok_iff {d : Decoder α} {f : α → Decoder β} {r t : Reader} {b : β} :
    (d >>= f) r = .ok b t ↔ ∃ a s, d r = .ok a s ∧ f a s = .ok b t := by
  simp only [bind, EStateM.bind]
  cases d r with
  | ok a s => simp [and_assoc]
  | error e s => simp

theorem pure_eq_ok_iff {a b : α} {r s : Reader} :
    (pure a : Decoder α) r = .ok b s ↔ a = b ∧ r.Moves [] s := by
  simp [pure, EStateM.pure, Reader.moves_nil_iff]

theorem throw_ne_ok {e : Error} {a : α} {r s : Reader} :
    (throw e : Decoder α) r ≠ .ok a s := by
  intro h
  change EStateM.Result.error e r = .ok a s at h
  cases h

theorem position_eq_ok_iff {r s : Reader} {n : Nat} :
    position r = .ok n s ↔ r.position = n ∧ r.Moves [] s := by
  simp [position, Reader.moves_nil_iff]

theorem bytes_eq_ok_iff {n : Nat} {front : List UInt8} {r s : Reader} :
    bytes n r = .ok front s ↔ front.length = n ∧ r.Moves front s := by
  constructor
  · intro h
    rw [bytes_eq] at h
    split at h
    · rename_i hn
      cases h
      have hlength : (r.bytes.take n).length = n := by
        rw [List.length_take]
        exact Nat.min_eq_left hn
      refine ⟨hlength, (List.take_append_drop n r.bytes).symm, ?_⟩
      rw [hlength]
    · cases h
  · intro h
    obtain ⟨hlength, hbytes, hposition⟩ := h
    have hr : r = ⟨r.position, front ++ s.bytes⟩ := by rw [← hbytes]
    rw [hr, bytes_append hlength, ← hlength, ← hposition]

theorem number_eq_ok_iff {width n : Nat} {r s : Reader} :
    number width r = .ok n s ↔
      n < BigEndian.capacity width ∧ r.Moves (BigEndian.bytes width n) s := by
  simp only [number, bind_eq_ok_iff, bytes_eq_ok_iff, pure_eq_ok_iff, Reader.moves_nil_iff]
  constructor
  · intro h
    obtain ⟨front, s, ⟨hlength, hmoves⟩, rfl, rfl⟩ := h
    rw [BigEndian.bytes_value hlength, ← hlength]
    exact ⟨BigEndian.value_lt front, hmoves⟩
  · intro h
    obtain ⟨hlt, hmoves⟩ := h
    exact ⟨_, s, ⟨BigEndian.length_bytes width n, hmoves⟩, BigEndian.value_bytes_of_lt hlt, rfl⟩

/-- A number kept in a type of its own. -/
theorem word_eq_ok_iff (width : Nat) {ofNat : Nat → α} {toNat : α → Nat}
    (hlt : ∀ a, toNat a < BigEndian.capacity width) (hof : ∀ a, ofNat (toNat a) = a)
    (hto : ∀ n < BigEndian.capacity width, toNat (ofNat n) = n) {r s : Reader} {a : α} :
    (do return ofNat (← number width) : Decoder α) r = .ok a s ↔
      r.Moves (BigEndian.bytes width (toNat a)) s := by
  simp only [bind_eq_ok_iff, number_eq_ok_iff, pure_eq_ok_iff, Reader.moves_nil_iff]
  constructor
  · intro h
    obtain ⟨n, s, ⟨hn, hmoves⟩, rfl, rfl⟩ := h
    rwa [hto n hn]
  · intro hmoves
    exact ⟨toNat a, s, ⟨hlt a, hmoves⟩, hof a, rfl⟩

theorem u8_eq_ok_iff {r s : Reader} {n : UInt8} : u8 r = .ok n s ↔ r.Moves (Encoder.u8 n) s := by
  have hbytes : Encoder.u8 n = BigEndian.bytes 1 n.toNat := by
    simp [Encoder.u8, BigEndian.bytes, BigEndian.capacity]
  rw [hbytes]
  exact word_eq_ok_iff 1 (fun n => n.toNat_lt) (fun _ => UInt8.ofNat_toNat)
    fun _ h => UInt8.toNat_ofNat_of_lt' h

theorem u16_eq_ok_iff {r s : Reader} {n : UInt16} :
    u16 r = .ok n s ↔ r.Moves (Encoder.u16 n) s :=
  word_eq_ok_iff 2 (fun n => n.toNat_lt) (fun _ => UInt16.ofNat_toNat)
    fun _ h => UInt16.toNat_ofNat_of_lt' h

theorem u32_eq_ok_iff {r s : Reader} {n : UInt32} :
    u32 r = .ok n s ↔ r.Moves (Encoder.u32 n) s :=
  word_eq_ok_iff 4 (fun n => n.toNat_lt) (fun _ => UInt32.ofNat_toNat)
    fun _ h => UInt32.toNat_ofNat_of_lt' h

theorem u64_eq_ok_iff {r s : Reader} {n : UInt64} :
    u64 r = .ok n s ↔ r.Moves (Encoder.u64 n) s :=
  word_eq_ok_iff 8 (fun n => n.toNat_lt) (fun _ => UInt64.ofNat_toNat)
    fun _ h => UInt64.toNat_ofNat_of_lt' h

theorem i32_eq_ok_iff {r s : Reader} {n : Int32} :
    i32 r = .ok n s ↔ r.Moves (Encoder.u32 n.toUInt32) s := by
  simp only [i32, bind_eq_ok_iff, u32_eq_ok_iff, pure_eq_ok_iff, Reader.moves_nil_iff]
  constructor
  · intro h
    obtain ⟨_, _, hmoves, rfl, rfl⟩ := h
    exact hmoves
  · intro hmoves
    exact ⟨n.toUInt32, s, hmoves, rfl, rfl⟩

theorem i64_eq_ok_iff {r s : Reader} {n : Int64} :
    i64 r = .ok n s ↔ r.Moves (Encoder.u64 n.toUInt64) s := by
  simp only [i64, bind_eq_ok_iff, u64_eq_ok_iff, pure_eq_ok_iff, Reader.moves_nil_iff]
  constructor
  · intro h
    obtain ⟨_, _, hmoves, rfl, rfl⟩ := h
    exact hmoves
  · intro hmoves
    exact ⟨n.toUInt64, s, hmoves, rfl, rfl⟩

/-- A value made of one read. -/
theorem single_eq_ok_iff {d : Decoder α} {encode : α → List UInt8}
    (hd : ∀ {r s a}, d r = .ok a s ↔ r.Moves (encode a) s) (f : α → β) {r s : Reader} {b : β} :
    (do return f (← d) : Decoder β) r = .ok b s ↔ ∃ a, f a = b ∧ r.Moves (encode a) s := by
  simp only [bind_eq_ok_iff, hd, pure_eq_ok_iff, Reader.moves_nil_iff]
  constructor
  · intro h
    obtain ⟨a, _, hmoves, heq, rfl⟩ := h
    exact ⟨a, heq, hmoves⟩
  · intro h
    obtain ⟨a, heq, hmoves⟩ := h
    exact ⟨a, s, hmoves, heq, rfl⟩

/-- A value made of two reads. -/
theorem pair_eq_ok_iff {d : Decoder α} {e : Decoder β} {encode : α → List UInt8}
    {encode' : β → List UInt8} (hd : ∀ {r s a}, d r = .ok a s ↔ r.Moves (encode a) s)
    (he : ∀ {r s b}, e r = .ok b s ↔ r.Moves (encode' b) s) (f : α → β → γ) {r t : Reader}
    {c : γ} :
    (do return f (← d) (← e) : Decoder γ) r = .ok c t ↔
      ∃ a b, f a b = c ∧ r.Moves (encode a ++ encode' b) t := by
  simp only [bind_eq_ok_iff, hd, he, pure_eq_ok_iff, Reader.moves_nil_iff, Reader.moves_append_iff]
  constructor
  · intro h
    obtain ⟨a, s, hfirst, b, _, hsecond, heq, rfl⟩ := h
    exact ⟨a, b, heq, s, hfirst, hsecond⟩
  · intro h
    obtain ⟨a, b, heq, s, hfirst, hsecond⟩ := h
    exact ⟨a, s, hfirst, b, t, hsecond, heq, rfl⟩

/-! ## Rows of 16-bit numbers -/

theorem length_flatMap_u16 (ns : List UInt16) :
    (ns.flatMap Encoder.u16).length = ns.length * 2 := by
  induction ns with
  | nil => rfl
  | cons n ns ih =>
      rw [List.flatMap_cons, List.length_append, ih, Encoder.length_u16, List.length_cons]
      omega

@[simp] theorem u16sOfBytes_flatMap (ns : List UInt16) :
    u16sOfBytes (ns.flatMap Encoder.u16) = ns := by
  induction ns with
  | nil => rfl
  | cons n ns ih =>
      have hn : BigEndian.value (Encoder.u16 n) = n.toNat :=
        BigEndian.value_bytes_of_lt n.toNat_lt
      rw [List.flatMap_cons]
      change UInt16.ofNat (BigEndian.value (Encoder.u16 n)) :: u16sOfBytes (ns.flatMap _) = _
      rw [hn, ih, UInt16.ofNat_toNat]

theorem flatMap_u16sOfBytes {count : Nat} {front : List UInt8} (h : front.length = count * 2) :
    (u16sOfBytes front).flatMap Encoder.u16 = front ∧ (u16sOfBytes front).length = count := by
  induction count generalizing front with
  | zero =>
      have hnil : front = [] := List.length_eq_zero_iff.mp (by omega)
      subst hnil
      exact ⟨rfl, rfl⟩
  | succ count ih =>
      match front with
      | [] | [_] =>
          simp only [List.length_nil, List.length_cons] at h
          omega
      | high :: low :: rest =>
          simp only [List.length_cons] at h
          obtain ⟨hrest, hlength⟩ := ih (show rest.length = count * 2 by omega)
          have hlt : BigEndian.value [high, low] < BigEndian.capacity 2 :=
            BigEndian.value_lt [high, low]
          have hword : Encoder.u16 (UInt16.ofNat (BigEndian.value [high, low])) = [high, low] := by
            rw [Encoder.u16, UInt16.toNat_ofNat_of_lt' hlt]
            exact BigEndian.bytes_value rfl
          rw [u16sOfBytes, List.flatMap_cons, hword, hrest, List.length_cons, hlength]
          exact ⟨rfl, rfl⟩

theorem u16s_eq_ok_iff {count : Nat} {ns : List UInt16} {r s : Reader} :
    u16s count r = .ok ns s ↔ ns.length = count ∧ r.Moves (ns.flatMap Encoder.u16) s := by
  simp only [u16s, bind_eq_ok_iff, bytes_eq_ok_iff, pure_eq_ok_iff, Reader.moves_nil_iff]
  constructor
  · intro h
    obtain ⟨front, s, ⟨hlength, hmoves⟩, rfl, rfl⟩ := h
    obtain ⟨hfront, hcount⟩ := flatMap_u16sOfBytes hlength
    rw [hfront]
    exact ⟨hcount, hmoves⟩
  · intro h
    obtain ⟨hlength, hmoves⟩ := h
    refine ⟨_, s, ⟨?_, hmoves⟩, u16sOfBytes_flatMap ns, rfl⟩
    rw [length_flatMap_u16, hlength]

end Decoder

/-! ## Formats -/

/-- A way of writing items down: which items can be written, in which bytes, and what an item means
when its bytes begin at a position of the file. -/
structure Format (ι α : Type) where
  Fits : ι → Prop
  bytes : ι → List UInt8
  meaning : Nat → ι → α

namespace Format

variable {ι α : Type}

/-- What items mean that are written one after the other. -/
def meanings (f : Format ι α) : Nat → List ι → List α
  | _, [] => []
  | position, i :: rest =>
    f.meaning position i :: f.meanings (position + (f.bytes i).length) rest

/-- Rows of `n` items. -/
def row (f : Format ι α) (n : Nat) : Format (List ι) (List α) where
  Fits is := is.length = n ∧ ∀ i ∈ is, f.Fits i
  bytes is := is.flatMap f.bytes
  meaning := f.meanings

/-- Lists behind their 16-bit length. -/
def counted (f : Format ι α) : Format (List ι) (List α) where
  Fits is := is.length < UInt16.size ∧ ∀ i ∈ is, f.Fits i
  bytes := Encoder.counted f.bytes
  meaning position is := f.meanings (position + 2) is

/-- No item can be taken for another one, whatever follows them. -/
def PrefixFree (f : Format ι α) : Prop :=
  ∀ i j, f.Fits i → f.Fits j → ∀ s t, f.bytes i ++ s = f.bytes j ++ t → i = j

@[simp] theorem length_meanings (f : Format ι α) (position : Nat) (is : List ι) :
    (f.meanings position is).length = is.length := by
  induction is generalizing position with
  | nil => rfl
  | cons i is ih => rw [meanings, List.length_cons, ih, List.length_cons]

/-- What items mean is written in their bytes, if it is for each of them. -/
theorem flatMap_meanings {f : Format ι α} {encode : α → List UInt8} {is : List ι}
    (h : ∀ i ∈ is, ∀ position, encode (f.meaning position i) = f.bytes i) (position : Nat) :
    (f.meanings position is).flatMap encode = is.flatMap f.bytes := by
  induction is generalizing position with
  | nil => rfl
  | cons i is ih =>
      rw [List.forall_mem_cons] at h
      rw [meanings, List.flatMap_cons, h.1, ih h.2, List.flatMap_cons]

theorem counted_meaning {f : Format ι α} {encode : α → List UInt8} {is : List ι}
    (h : ∀ i ∈ is, ∀ position, encode (f.meaning position i) = f.bytes i) (position : Nat) :
    Encoder.counted encode (f.counted.meaning position is) = f.counted.bytes is := by
  simp only [counted, Encoder.counted, length_meanings, flatMap_meanings h]

theorem PrefixFree.row {f : Format ι α} (h : f.PrefixFree) (n : Nat) : (f.row n).PrefixFree := by
  induction n with
  | zero =>
      intro is js his hjs s t _
      rw [List.length_eq_zero_iff.mp his.1, List.length_eq_zero_iff.mp hjs.1]
  | succ n ih =>
      rintro (_ | ⟨i, is⟩) (_ | ⟨j, js⟩) ⟨hilength, hi⟩ ⟨hjlength, hj⟩ s t heq
      · rfl
      · cases hilength
      · cases hjlength
      · rw [List.forall_mem_cons] at hi hj
        simp only [Format.row, List.flatMap_cons, List.append_assoc] at heq
        have hhead : i = j := h i j hi.1 hj.1 _ _ heq
        subst hhead
        rw [ih is js ⟨Nat.succ.inj hilength, hi.2⟩ ⟨Nat.succ.inj hjlength, hj.2⟩ s t
          (List.append_cancel_left heq)]

theorem PrefixFree.counted {f : Format ι α} (h : f.PrefixFree) : f.counted.PrefixFree := by
  intro is js ⟨hilength, hi⟩ ⟨hjlength, hj⟩ s t heq
  simp only [Format.counted, Encoder.counted, List.append_assoc] at heq
  obtain ⟨hcount, hrest⟩ := List.append_inj heq (by simp)
  have hlength : js.length = is.length := by
    have hnat := congrArg UInt16.toNat (Encoder.u16_inj.mp hcount)
    rw [UInt16.toNat_ofNat_of_lt' hilength, UInt16.toNat_ofNat_of_lt' hjlength] at hnat
    exact hnat.symm
  exact h.row is.length is js ⟨rfl, hi⟩ ⟨hlength, hj⟩ s t hrest

end Format

namespace Decoder

variable {ι α : Type}

/-- The decoder succeeds exactly on the bytes of an item that fits, and gives what it means at its
place. -/
def Reads (d : Decoder α) (f : Format ι α) : Prop :=
  ∀ r a s, d r = .ok a s ↔ ∃ i, f.Fits i ∧ f.meaning r.position i = a ∧ r.Moves (f.bytes i) s

theorem Reads.append {d : Decoder α} {f : Format ι α} (h : d.Reads f) {i : ι} (hi : f.Fits i)
    (position : Nat) (rest : List UInt8) :
    d ⟨position, f.bytes i ++ rest⟩ =
      .ok (f.meaning position i) ⟨position + (f.bytes i).length, rest⟩ :=
  (h _ _ _).mpr ⟨i, hi, rfl, Reader.moves_append position (f.bytes i) rest⟩

/-- One row of bytes does not spell two things. -/
theorem Reads.unique {d : Decoder α} {f : Format ι α} (h : d.Reads f) {i j : ι} (hi : f.Fits i)
    (hj : f.Fits j) {s t : List UInt8} (heq : f.bytes i ++ s = f.bytes j ++ t) :
    f.bytes i = f.bytes j ∧ ∀ position, f.meaning position i = f.meaning position j := by
  have hboth (position : Nat) : (EStateM.Result.ok (f.meaning position i)
      ⟨position + (f.bytes i).length, s⟩ : EStateM.Result Error Reader α) =
      .ok (f.meaning position j) ⟨position + (f.bytes j).length, t⟩ := by
    rw [← h.append hi, ← h.append hj, heq]
  constructor
  · have hrest : s = t := congrArg Reader.bytes (EStateM.Result.ok.inj (hboth 0)).2
    rw [hrest] at heq
    exact List.append_cancel_right heq
  · intro position
    exact (EStateM.Result.ok.inj (hboth position)).1

theorem Reads.times {d : Decoder α} {f : Format ι α} (h : d.Reads f) (n : Nat) :
    (d.times n).Reads (f.row n) := by
  induction n with
  | zero =>
      intro r as s
      simp only [Decoder.times, pure_eq_ok_iff]
      constructor
      · intro h
        obtain ⟨rfl, hmoves⟩ := h
        exact ⟨[], ⟨rfl, List.forall_mem_nil _⟩, rfl, hmoves⟩
      · intro h
        obtain ⟨is, ⟨hlength, -⟩, hmeaning, hmoves⟩ := h
        rw [List.length_eq_zero_iff.mp hlength] at hmeaning hmoves
        exact ⟨hmeaning, hmoves⟩
  | succ n ih =>
      intro r as t
      simp only [Decoder.times, bind_eq_ok_iff, pure_eq_ok_iff, Reader.moves_nil_iff]
      constructor
      · intro h
        obtain ⟨a, s, hfirst, rest, t, hrest, rfl, rfl⟩ := h
        obtain ⟨i, hi, rfl, hmoves⟩ := (h r a s).mp hfirst
        obtain ⟨is, ⟨hlength, his⟩, rfl, hmoves'⟩ := (ih s rest t).mp hrest
        refine ⟨i :: is, ⟨by rw [List.length_cons, hlength], ?_⟩, ?_, ?_⟩
        · exact List.forall_mem_cons.mpr ⟨hi, his⟩
        · simp only [Format.row, Format.meanings, ← hmoves.2]
        · exact Reader.moves_append_iff.mpr ⟨s, hmoves, hmoves'⟩
      · intro h
        obtain ⟨_ | ⟨i, is⟩, ⟨hlength, his⟩, rfl, hmoves⟩ := h
        · cases hlength
        · rw [List.forall_mem_cons] at his
          obtain ⟨s, hfirst, hrest⟩ := Reader.moves_append_iff.mp hmoves
          have hothers := (ih s (f.meanings s.position is) t).mpr
            ⟨is, ⟨Nat.succ.inj hlength, his.2⟩, rfl, hrest⟩
          refine ⟨_, s, (h _ _ _).mpr ⟨i, his.1, rfl, hfirst⟩, _, t, hothers, ?_, rfl⟩
          · simp only [Format.row, Format.meanings, hfirst.2]

theorem Reads.counted {d : Decoder α} {f : Format ι α} (h : d.Reads f) :
    d.counted.Reads f.counted := by
  intro r as t
  simp only [Decoder.counted, bind_eq_ok_iff, u16_eq_ok_iff]
  constructor
  · intro h
    obtain ⟨count, s, hcount, hrest⟩ := h
    obtain ⟨is, ⟨hlength, his⟩, rfl, hmoves⟩ := (h.times count.toNat s as t).mp hrest
    refine ⟨is, ⟨hlength ▸ count.toNat_lt, his⟩, ?_, ?_⟩
    · simp only [Format.counted, Format.row, hcount.2, Encoder.length_u16]
    · simp only [Format.counted, Encoder.counted, hlength, UInt16.ofNat_toNat]
      exact Reader.moves_append_iff.mpr ⟨s, hcount, hmoves⟩
  · intro h
    obtain ⟨is, ⟨hlength, his⟩, rfl, hmoves⟩ := h
    obtain ⟨s, hcount, hrest⟩ := Reader.moves_append_iff.mp hmoves
    refine ⟨_, s, hcount, (h.times _ s _ t).mpr ⟨is, ⟨?_, his⟩, ?_, hrest⟩⟩
    · rw [UInt16.toNat_ofNat_of_lt' hlength]
    · simp only [Format.counted, Format.row, hcount.2, Encoder.length_u16]

end Decoder

end JvmClass
