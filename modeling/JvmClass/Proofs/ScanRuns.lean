import JvmClass.Proofs.DescriptorBytes

/-!
# Runs of scans

What the parts of a scan do when they are run on a cursor, and how far a scan that succeeds has
moved its cursor, wherever it stood. Nothing moves a cursor back, and a type moves it by a byte at
least.
-/

namespace JvmClass.Descriptor.Scan

variable {α β : Type} {d : String}

/-! ## One part after the other -/

theorem bind_of_ok {scan : Scan α} {f : α → Scan β} {a : α} {c c' : Cursor}
    (h : scan c = .ok a c') : (scan >>= f) c = f a c' := by
  simp only [bind, EStateM.bind, h]

theorem bind_of_error {scan : Scan α} {f : α → Scan β} {halt : Halt} {c c' : Cursor}
    (h : scan c = .error halt c') : (scan >>= f) c = .error halt c' := by
  simp only [bind, EStateM.bind, h]

theorem bind_congr_run {scan scan' : Scan α} {c : Cursor} (h : scan c = scan' c)
    (f : α → Scan β) : (scan >>= f) c = (scan' >>= f) c := by
  simp only [bind, EStateM.bind, h]

theorem place_eq (c : Cursor) : place c = .ok c.place c := rfl

theorem peek_eq (d : String) (c : Cursor) : peek d c = .ok (byte? d c.place) c := rfl

theorem advance_eq (n : Nat) (c : Cursor) : advance n c = .ok () (c.advance n) := rfl

theorem bump_eq (d : String) (c : Cursor) :
    bump d c = match byte? d c.place with
      | none => .ok none c
      | some byte => .ok (some byte) (c.advance 1) := by
  rw [bump, bind_of_ok (peek_eq d c)]
  cases byte? d c.place <;> rfl

/-- A cut where two texts have been put together takes them apart. -/
theorem cut_append (front back : List Char) (base : Nat) (c : Cursor) :
    cut (String.ofList (front ++ back)) base (byteCount front) c =
      .ok (String.ofList front, String.ofList back) (c.cutAt (base + byteCount front)) := by
  rw [String.ofList_append]
  have hvalid : (String.Pos.Raw.mk (byteCount front)).IsValid
      (String.ofList front ++ String.ofList back) :=
    String.Pos.Raw.isValid_iff_exists_append.mpr ⟨_, _, rfl, rfl⟩
  have hsplits : ((String.ofList front ++ String.ofList back).pos ⟨byteCount front⟩ hvalid).Splits
      (String.ofList front) (String.ofList back) := ⟨rfl, rfl⟩
  have hmark : (modify (Cursor.cutAt (base + byteCount front)) : Scan PUnit) c =
      .ok ⟨⟩ (c.cutAt (base + byteCount front)) := rfl
  rw [cut, bind_of_ok hmark, dif_pos hvalid, hsplits.copy_sliceTo_eq, hsplits.copy_sliceFrom_eq]
  rfl

theorem find?_eq_none_iff (text : String) (x : Char) : text.find? x = none ↔ x ∉ text.toList := by
  rw [String.find?_eq_find?_toSlice, Option.map_eq_none_iff, String.Slice.find?_eq_none_iff,
    String.Slice.contains_char_eq, decide_eq_false_iff_not, String.copy_toSlice]

theorem find?_eq_some {text : String} {x : Char} {p : text.Pos} (h : text.find? x = some p) :
    ∃ front back, text = String.ofList (front ++ x :: back) ∧ x ∉ front ∧
      p.offset.byteIdx = byteCount front := by
  obtain ⟨front, back, hsplits, hfront⟩ := String.find?_char_eq_some_iff_splits.mp h
  refine ⟨front.toList, back.toList, ?_, hfront, ?_⟩
  · rw [String.ofList_append, String.ofList_cons, String.ofList_toList, String.ofList_toList]
    exact hsplits.eq_append
  · rw [hsplits.offset_eq_rawEndPos, byteCount_toList]
    rfl

/-! ## Loops -/

section

variable {test : Option UInt8 → Bool} {scan : Scan α} {c : Cursor}

theorem repeatWhile_of_stop (h : test (byte? d c.place) = false) (rounds : Nat) :
    repeatWhile d test scan rounds c = .ok [] c := by
  cases rounds <;> rw [repeatWhile, bind_of_ok (peek_eq d c), h] <;> rfl

theorem repeatWhile_of_go (h : test (byte? d c.place) = true) (rounds : Nat) :
    repeatWhile d test scan (rounds + 1) c =
      (do
        let first ← scan
        let others ← repeatWhile d test scan rounds
        return first :: others : Scan (List α)) c := by
  rw [repeatWhile, bind_of_ok (peek_eq d c), h]
  rfl

end

/-- Where no parenthesis closes the parameters there is one more of them to be read. -/
theorem parameters_of_go {type : Scan FieldType} {c : Cursor}
    (h : byte? d c.place ≠ some ')'.toUInt8) (rounds : Nat) :
    parameters d type (rounds + 1) c =
      (do
        let first ← type
        let others ← parameters d type rounds
        return first :: others : Scan (List FieldType)) c := by
  have hgo : (byte? d c.place != some ')'.toUInt8) = true := bne_iff_ne.mpr h
  have hloop : repeatWhile d (· != some ')'.toUInt8) type (rounds + 1) c = _ :=
    repeatWhile_of_go hgo rounds
  rw [parameters, bind_congr_run hloop]
  simp only [parameters, bind_assoc, pure_bind]

/-! ## Progress -/

/-- Where the scan succeeds the cursor has moved by `n` bytes at least. -/
def Moves (n : Nat) (scan : Scan α) : Prop :=
  ∀ c a c', scan c = .ok a c' → c.place + n ≤ c'.place

namespace Moves

variable {m n : Nat} {scan : Scan α}

theorem pure (a : α) : Moves 0 (Pure.pure a : Scan α) := by
  intro c b c' h
  cases h
  exact Nat.le_refl _

theorem throw (halt : Halt) : Moves n (throw halt : Scan α) := by
  intro c a c' h
  cases h

theorem place : Moves 0 Scan.place := by
  intro c a c' h
  cases h
  exact Nat.le_refl _

theorem advance (n : Nat) : Moves n (Scan.advance n) := by
  intro c a c' h
  cases h
  exact Nat.le_refl _

theorem bind {f : α → Scan β} (h : Moves m scan) (hf : ∀ a, Moves n (f a)) :
    Moves (m + n) (scan >>= f) := by
  intro c b c'' hrun
  cases hscan : scan c with
  | error halt c' =>
      rw [bind_of_error hscan] at hrun
      cases hrun
  | ok a c' =>
      rw [bind_of_ok hscan] at hrun
      have hfirst := h c a c' hscan
      have hthen := hf a c' b c'' hrun
      omega

/-- What follows a scan that moves nothing back moves as far behind it. -/
theorem after {f : α → Scan β} (h : Moves 0 scan) (hf : ∀ a, Moves n (f a)) :
    Moves n (scan >>= f) := by
  have hboth := h.bind hf
  rwa [Nat.zero_add] at hboth

theorem of_le (h : Moves n scan) (hle : m ≤ n) : Moves m scan :=
  fun c a c' hrun => Nat.le_trans (Nat.add_le_add_left hle _) (h c a c' hrun)

theorem peek (d : String) : Moves 0 (Scan.peek d) :=
  place.after fun _ => pure _

theorem cut (text : String) (base offset : Nat) : Moves 0 (Scan.cut text base offset) := by
  have hmark : Moves 0 (modify (Cursor.cutAt (base + offset)) : Scan PUnit) := by
    intro c a c' h
    cases h
    exact Nat.le_refl _
  refine hmark.after fun _ => ?_
  split
  · exact pure _
  · exact throw _

theorem repeatWhile (h : Moves 0 scan) (d : String) (test : Option UInt8 → Bool) (rounds : Nat) :
    Moves 0 (Scan.repeatWhile d test scan rounds) := by
  induction rounds with
  | zero =>
      refine (peek d).after fun byte => ?_
      split
      · exact throw _
      · exact pure _
  | succ rounds ih =>
      refine (peek d).after fun byte => ?_
      split
      · exact h.after fun _ => ih.after fun _ => pure _
      · exact pure _

theorem objectType (d : String) : Moves 0 (Scan.objectType d) := by
  refine place.after fun start => (cut d 0 start).after fun parts => ?_
  dsimp only
  split
  · exact throw _
  · split
    · exact throw _
    · exact (cut _ _ _).after fun _ => ((advance _).of_le (Nat.zero_le _)).after fun _ => pure _

theorem elementType (d : String) : Moves 1 (Scan.elementType d) := by
  intro c t c' hrun
  rw [Scan.elementType, bind_of_ok (place_eq c)] at hrun
  cases hbyte : byte? d c.place with
  | none =>
      have hbump : bump d c = .ok none c := by rw [bump_eq, hbyte]
      rw [bind_of_ok hbump] at hrun
      cases hrun
  | some byte =>
      have hbump : bump d c = .ok (some byte) (c.advance 1) := by rw [bump_eq, hbyte]
      rw [bind_of_ok hbump] at hrun
      dsimp only at hrun
      by_cases hobject : byte = 'L'.toUInt8
      · rw [if_pos hobject] at hrun
        exact objectType d _ _ _ hrun
      · rw [if_neg hobject] at hrun
        cases hletter : BaseType.ofLetter? (Char.ofUInt8 byte) with
        | none =>
            rw [hletter] at hrun
            cases hrun
        | some type =>
            rw [hletter] at hrun
            cases hrun
            exact Nat.le_refl _

theorem fieldType (d : String) (rounds : Nat) : Moves 1 (Scan.fieldType d rounds) :=
  (((advance 1).of_le (Nat.zero_le 1)).repeatWhile d _ rounds).after fun _ =>
    (elementType d).bind fun _ => pure _

end Moves

end JvmClass.Descriptor.Scan
