import JvmClass.Proofs.RoundTrip

/-!
# Bytes that are cut off

What a decoder gives depends on the bytes it takes off and on nothing after them, and none of these
bytes can be missing: wherever they are cut, some read of the decoder finds fewer bytes than it asks
for and reports the place of the cut. Both pass from the first of two decoders in a row to the two
together, and so from single reads to whole class files.
-/

namespace JvmClass

namespace Decoder

variable {α β : Type}

/-- At a position of the file the decoder takes exactly the bytes `front` off and gives `a`. What
follows them is left alone, and a read that lacks bytes because they are cut off asks for none
beyond them. -/
structure Consumes (d : Decoder α) (position : Nat) (front : List UInt8) (a : α) : Prop where
  append : ∀ rest, d ⟨position, front ++ rest⟩ = .ok a ⟨position + front.length, rest⟩
  cut : ∀ k < front.length, ∃ offset needed remaining s,
    d ⟨position, front.take k⟩ = .error (.truncated offset needed remaining) s ∧
      offset + remaining = position + k ∧ remaining < needed ∧
      offset + needed ≤ position + front.length

theorem consumes_nil {d : Decoder α} {position : Nat} {a : α}
    (h : ∀ rest, d ⟨position, rest⟩ = .ok a ⟨position, rest⟩) : Consumes d position [] a where
  append := h
  cut k hk := absurd hk (Nat.not_lt_zero k)

theorem consumes_bytes (position : Nat) (front : List UInt8) :
    Consumes (Decoder.bytes front.length) position front front where
  append rest := bytes_append rfl position rest
  cut k hk := by
    have hremaining : (Reader.mk position (front.take k)).remaining = k := by
      rw [Reader.remaining, List.length_take]
      omega
    refine ⟨position, front.length, k, ⟨position, front.take k⟩, ?_, rfl, hk, Nat.le_refl _⟩
    rw [bytes_eq, hremaining, if_neg (Nat.not_le.mpr hk)]

/-- The second decoder begins where the first one stops, and the cut falls into one of the two. -/
theorem Consumes.bind {d : Decoder α} {f : α → Decoder β} {position : Nat}
    {front back : List UInt8} {a : α} {b : β} (hd : Consumes d position front a)
    (hf : Consumes (f a) (position + front.length) back b) :
    Consumes (d >>= f) position (front ++ back) b where
  append rest := by
    rw [bind_eq_ok_iff, List.append_assoc, List.length_append, ← Nat.add_assoc]
    exact ⟨a, _, hd.append (back ++ rest), hf.append rest⟩
  cut k hk := by
    rw [List.length_append] at hk ⊢
    by_cases hfront : k < front.length
    · obtain ⟨offset, needed, remaining, s, hread, hstop, hlack, hlimit⟩ := hd.cut k hfront
      refine ⟨offset, needed, remaining, s, ?_, hstop, hlack, by omega⟩
      rw [List.take_append_of_le_length (Nat.le_of_lt hfront)]
      simp only [Bind.bind, EStateM.bind, hread]
    · obtain ⟨offset, needed, remaining, s, hread, hstop, hlack, hlimit⟩ :=
        hf.cut (k - front.length) (by omega)
      refine ⟨offset, needed, remaining, s, ?_, by omega, hlack, by omega⟩
      rw [List.take_append, List.take_of_length_le (Nat.not_lt.mp hfront)]
      simp only [Bind.bind, EStateM.bind, hd.append, hread]

/-- A decoder that has succeeded would have done so on the bytes it took off alone, and on no part
of them. -/
theorem Composed.consumes {d : Decoder α} (h : Composed d) {r s : Reader} {a : α}
    (hread : d r = .ok a s) : ∃ front, r.Moves front s ∧ Consumes d r.position front a := by
  induction h generalizing r s with
  | pure b =>
      obtain ⟨rfl, hmoves⟩ := pure_eq_ok_iff.mp hread
      exact ⟨[], hmoves, consumes_nil fun _ => rfl⟩
  | throw e => exact absurd hread throw_ne_ok
  | position =>
      obtain ⟨rfl, hmoves⟩ := position_eq_ok_iff.mp hread
      exact ⟨[], hmoves, consumes_nil fun _ => rfl⟩
  | bytes n =>
      obtain ⟨rfl, hmoves⟩ := bytes_eq_ok_iff.mp hread
      exact ⟨a, hmoves, consumes_bytes r.position a⟩
  | bind _ _ ihfirst ihthen =>
      obtain ⟨b, m, hfirst, hthen⟩ := bind_eq_ok_iff.mp hread
      obtain ⟨front, hfront, hconsumes⟩ := ihfirst hfirst
      obtain ⟨back, hback, hrest⟩ := ihthen b hthen
      rw [hfront.2] at hrest
      exact ⟨front ++ back, hfront.append hback, hconsumes.bind hrest⟩

end Decoder

/-! ## Class files -/

namespace ClassFile

theorem parse_of_decode {bytes : List UInt8} {c : ClassFile} {s : Reader}
    (h : decode (Reader.ofBytes bytes 0) = .ok c s) : parse bytes = ⟨.ok c, [c.summary]⟩ := by
  rw [parse, Decoder.result, Decoder.outcome, h]

theorem parse_of_decode_error {bytes : List UInt8} {e : Error} {s : Reader}
    (h : decode (Reader.ofBytes bytes 0) = .error e s) : parse bytes = ⟨.error e, []⟩ := by
  rw [parse, Decoder.result, Decoder.outcome, h]

/-- The first `n` bytes of a file are taken off for a class. -/
theorem exists_consumed {bytes : List UInt8} {c : ClassFile} {s : Reader}
    (h : decode (Reader.ofBytes bytes 0) = .ok c s) :
    s.position ≤ bytes.length ∧ s = ⟨s.position, bytes.drop s.position⟩ ∧
      Decoder.Consumes decode 0 (bytes.take s.position) c := by
  obtain ⟨front, ⟨hbytes, hposition⟩, hconsumes⟩ := decode_composed.consumes h
  have hfile : bytes = front ++ s.bytes := hbytes
  have hlength : s.position = front.length := hposition.trans (Nat.zero_add _)
  rw [hlength, hfile, List.take_left, List.drop_left, List.length_append, ← hlength]
  exact ⟨by omega, rfl, hconsumes⟩

/-- A class taken off the bytes of another one takes all of them off. -/
theorem not_decode_take {bytes : List UInt8} {c c' : ClassFile} {s s' : Reader} {k : Nat}
    (h : decode (Reader.ofBytes bytes 0) = .ok c s) (hk : k < s.position) :
    decode (Reader.ofBytes (bytes.take k) 0) ≠ .ok c' s' := by
  obtain ⟨hle, -, hconsumes⟩ := exists_consumed h
  have hlength : (bytes.take s.position).length = s.position := by
    rw [List.length_take]
    omega
  obtain ⟨offset, needed, remaining, t, hread, -⟩ := hconsumes.cut k (by omega)
  rw [List.take_take, Nat.min_eq_left (Nat.le_of_lt hk)] at hread
  intro hok
  cases hok.symm.trans hread

end ClassFile

/-- A class file that is accepted is read from its first `n` bytes: with anything after them it
gives the same class, any part of them is reported as truncated where it ends, and they do not
begin the bytes of another class file. -/
theorem parse_depends_on_prefix (bytes : List UInt8) (c : ClassFile)
    (h : (ClassFile.parse bytes).value = .ok c) :
    ∃ n ≤ bytes.length,
      ClassFile.decode (Reader.ofBytes bytes 0) = .ok c ⟨n, bytes.drop n⟩ ∧
      (∀ rest, ClassFile.parse (bytes.take n ++ rest) = ClassFile.parse bytes) ∧
      (∀ k < n, ∃ offset needed remaining,
        (ClassFile.parse (bytes.take k)).value = .error (.truncated offset needed remaining) ∧
          offset + remaining = k ∧ remaining < needed ∧ offset + needed ≤ n) ∧
      ∀ other c' n', ClassFile.decode (Reader.ofBytes other 0) = .ok c' ⟨n', other.drop n'⟩ →
        bytes.take n <+: other.take n' → bytes.take n = other.take n' := by
  obtain ⟨s, hdecode⟩ := ClassFile.parse_eq_ok_iff.mp h
  obtain ⟨hle, hs, hconsumes⟩ := ClassFile.exists_consumed hdecode
  have hlength : (bytes.take s.position).length = s.position := by
    rw [List.length_take]
    omega
  refine ⟨s.position, hle, hs ▸ hdecode, ?_, ?_, ?_⟩
  · intro rest
    rw [ClassFile.parse_of_decode hdecode]
    exact ClassFile.parse_of_decode (hconsumes.append rest)
  · intro k hk
    obtain ⟨offset, needed, remaining, t, hread, hstop, hlack, hlimit⟩ :=
      hconsumes.cut k (by omega)
    rw [List.take_take, Nat.min_eq_left (Nat.le_of_lt hk)] at hread
    refine ⟨offset, needed, remaining, ?_, by omega, hlack, by omega⟩
    exact congrArg Logged.value (ClassFile.parse_of_decode_error hread)
  · intro other c' n' hother hbegins
    apply hbegins.eq_of_length_le
    apply Nat.le_of_not_lt
    intro hlonger
    -- The shorter bytes would be a class that is cut off within the longer ones.
    have hcut : s.position < n' := by
      have hle' := List.length_take_le n' other
      omega
    have hshort : bytes.take s.position = other.take s.position := by
      calc
        bytes.take s.position = (other.take n').take (bytes.take s.position).length :=
          List.prefix_iff_eq_take.mp hbegins
        _ = other.take s.position := by
          rw [hlength, List.take_take, Nat.min_eq_left (Nat.le_of_lt hcut)]
    have halone := hconsumes.append []
    rw [List.append_nil, hshort] at halone
    exact ClassFile.not_decode_take hother hcut halone

theorem parse_depends_on_prefix_wide :
    (ClassFile.parse (wideClass.encode ++ [1, 2])).value = .ok (wideClass.placed 0) ∧
      ClassFile.parse (wideClass.encode ++ [3]) = ClassFile.parse (wideClass.encode ++ [1, 2]) ∧
      ∃ offset needed remaining,
        (ClassFile.parse (wideClass.encode.take 50)).value =
          .error (.truncated offset needed remaining) ∧
          offset + remaining = 50 ∧ remaining < needed ∧
          offset + needed ≤ wideClass.encode.length := by
  have hdecode := ClassFile.decode_encode wideClass_encodable 0 [1, 2]
  have hparse : (ClassFile.parse (wideClass.encode ++ [1, 2])).value = .ok (wideClass.placed 0) :=
    ClassFile.parse_eq_ok_iff.mpr ⟨_, hdecode⟩
  obtain ⟨n, -, hread, hrest, hcut, -⟩ := parse_depends_on_prefix _ _ hparse
  have hn : n = wideClass.encode.length := by
    have hsame := (EStateM.Result.ok.inj (hread.symm.trans hdecode)).2
    rw [Nat.zero_add] at hsame
    exact congrArg Reader.position hsame
  rw [hn, List.take_left] at hrest
  have hfifty : 50 < wideClass.encode.length := by decide +kernel
  obtain ⟨offset, needed, remaining, hvalue, hstop, hlack, hlimit⟩ := hcut 50 (hn ▸ hfifty)
  rw [List.take_append_of_le_length (Nat.le_of_lt hfifty)] at hvalue
  exact ⟨hparse, hrest [3], offset, needed, remaining, hvalue, hstop, hlack, hn ▸ hlimit⟩

end JvmClass
