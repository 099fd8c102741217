import JvmClass.Proofs.DescriptorGrammar
import JvmClass.Proofs.ScanRuns
import Mathlib.Data.List.TakeWhile

/-!
# Scans that stay within a descriptor

A scan over the bytes of a descriptor does what the steps do on its characters. Class names apart,
every byte that is accepted is a character of its own, so that the cursor stands between characters
wherever text is cut, although it may be inside one that it has just refused. Each round of a loop
takes a byte off, and so the loops end with the text, whether what they look for comes or not.
-/

namespace JvmClass

namespace Descriptor

variable {α β : Type} {d : String}

/-! ## Cursors and steps -/

namespace Cursor

variable {c : Cursor} {rest : List Char}

/-- So far the cursor has not gone beyond the descriptor, and text was cut between characters. -/
structure Safe (d : String) (c : Cursor) : Prop where
  within : ∀ place ∈ c.visited, place ≤ d.utf8ByteSize
  boundary : ∀ place ∈ c.cuts, (String.Pos.Raw.mk place).IsValid d

/-- The cursor stands between characters, with the text `rest` behind it. -/
structure Before (d : String) (rest : List Char) (c : Cursor) : Prop where
  safe : c.Safe d
  restAt : RestAt d c.place rest

theorem start_before (d : String) : start.Before d d.toList where
  safe :=
    { within := fun place hplace => by
        rw [List.mem_singleton.mp hplace]
        exact Nat.zero_le _
      boundary := fun place hplace => absurd hplace List.not_mem_nil }
  restAt := .start d

theorem Safe.advance (h : c.Safe d) {n : Nat} (hn : c.place + n ≤ d.utf8ByteSize) :
    (c.advance n).Safe d where
  within place hplace := by
    obtain rfl | hplace := List.mem_cons.mp hplace
    · exact hn
    · exact h.within place hplace
  boundary := h.boundary

theorem Safe.cutAt (h : c.Safe d) {place : Nat} (hplace : (String.Pos.Raw.mk place).IsValid d) :
    (c.cutAt place).Safe d where
  within := h.within
  boundary other hother := by
    obtain rfl | hother := List.mem_cons.mp hother
    · exact hplace
    · exact h.boundary other hother

theorem Before.cutAt (h : c.Before d rest) {place : Nat} {after : List Char}
    (hplace : RestAt d place after) : (c.cutAt place).Before d rest where
  safe := h.safe.cutAt hplace.isValid
  restAt := h.restAt

theorem Before.advance {taken : List Char} (h : c.Before d (taken ++ rest)) :
    (c.advance (byteCount taken)).Before d rest where
  safe := h.safe.advance h.restAt.after.le_size
  restAt := h.restAt.after

theorem Before.advance_ascii {x : Char} (h : c.Before d (x :: rest)) (hx : x.toNat < 0x80) :
    (c.advance 1).Before d rest := by
  have hone : byteCount [x] = 1 := by
    rw [byteCount_cons, utf8Size_of_ascii hx]
    rfl
  have htaken : c.Before d ([x] ++ rest) := h
  rw [← hone]
  exact htaken.advance

/-- A byte that is a character tells whether this character comes next. -/
theorem Before.byte?_eq_some_iff (h : c.Before d rest) {x : Char} (hx : x.toNat < 0x80) :
    Scan.byte? d c.place = some x.toUInt8 ↔ rest.head? = some x := by
  rw [h.restAt.byte?_eq]
  cases rest with
  | nil => simp
  | cons y rest => simp [leadByte_eq_iff hx]

end Cursor

/-- A run does what a step does on the text behind the cursor. -/
inductive Agrees (d : String) : Step α → EStateM.Result Halt Cursor α → Prop
  | ok {a : α} {rest : List Char} {c : Cursor} :
    c.Before d rest → Agrees d (.ok (a, rest)) (.ok a c)
  | error {fault : List Char} {c : Cursor} :
    c.Safe d → Agrees d (.error fault) (.error (.malformed (d.utf8ByteSize - byteCount fault)) c)

namespace Scan

variable {c : Cursor} {rest : List Char}

theorem malformed_agrees (hc : c.Safe d) {offset : Nat} (h : RestAt d offset rest) :
    Agrees d (.error rest : Step α) (malformed offset c) := by
  rw [h.eq_sub]
  exact .error hc

/-- A scan that goes on agrees with a step that goes on likewise. -/
theorem bind_agrees {scan : Scan α} {f : α → Scan β} {step : Step α} {step' : Step β}
    (h : Agrees d step (scan c))
    (hok : ∀ a rest c', step = .ok (a, rest) → c'.Before d rest → Agrees d step' (f a c'))
    (herror : ∀ fault, step = .error fault → step' = .error fault) :
    Agrees d step' ((scan >>= f) c) := by
  generalize hrun : scan c = run at h
  cases h with
  | ok hbefore =>
      rw [bind_of_ok hrun]
      exact hok _ _ _ rfl hbefore
  | error hsafe =>
      rw [bind_of_error hrun, herror _ rfl]
      exact .error hsafe

/-- A value made of what a step takes leaves the cursor where the step has left it. -/
theorem map_agrees {scan : Scan α} {f : α → β} {step : Step α} {step' : Step β}
    (h : Agrees d step (scan c)) (hok : ∀ a rest, step = .ok (a, rest) → step' = .ok (f a, rest))
    (herror : ∀ fault, step = .error fault → step' = .error fault) :
    Agrees d step' ((scan >>= fun a => pure (f a)) c) := by
  apply bind_agrees h
  · intro a rest c' hstep hbefore
    rw [hok a rest hstep]
    exact .ok hbefore
  · exact herror

/-- As many brackets are taken off as the text behind the cursor begins with. -/
theorem repeatWhile_brackets (h : c.Before d rest) {rounds : Nat} (hrounds : rest.length ≤ rounds) :
    ∃ brackets c', repeatWhile d (· == some '['.toUInt8) (advance 1) rounds c = .ok brackets c' ∧
      brackets.length = (rest.takeWhile (· == '[')).length ∧
      c'.Before d (rest.dropWhile (· == '[')) := by
  induction rest generalizing c rounds with
  | nil =>
      have hstop : (byte? d c.place == some '['.toUInt8) = false := by
        simp [h.restAt.byte?_eq]
      exact ⟨[], c, repeatWhile_of_stop hstop rounds, rfl, h⟩
  | cons x rest ih =>
      by_cases hx : x = '['
      · subst hx
        have hgo : (byte? d c.place == some '['.toUInt8) = true := by
          rw [beq_iff_eq, h.byte?_eq_some_iff (by decide)]
          rfl
        obtain _ | rounds := rounds
        · cases hrounds
        obtain ⟨brackets, c', hrun, hlength, hbefore⟩ :=
          ih (h.advance_ascii (by decide)) (Nat.le_of_succ_le_succ hrounds)
        refine ⟨() :: brackets, c', ?_, ?_, ?_⟩
        · rw [repeatWhile_of_go hgo, bind_of_ok (advance_eq 1 c), bind_of_ok hrun]
          rfl
        · rw [List.takeWhile_cons_of_pos rfl, List.length_cons, List.length_cons, hlength]
        · rwa [List.dropWhile_cons_of_pos rfl]
      · have hne : ¬(x == '[') = true := by simpa using hx
        have hstop : (byte? d c.place == some '['.toUInt8) = false := by
          rw [beq_eq_false_iff_ne, Ne, h.byte?_eq_some_iff (by decide)]
          simpa using hx
        refine ⟨[], c, repeatWhile_of_stop hstop rounds, ?_, ?_⟩
        · rw [List.takeWhile_cons, if_neg hne]
          rfl
        · rwa [List.dropWhile_cons, if_neg hne]

/-! ## Types -/

theorem className_of_no_semicolon (h : ';' ∉ rest) : className rest = .error [] := by
  have hdrop : rest.dropWhile (· != ';') = [] := by
    rw [List.dropWhile_eq_nil_iff]
    intro x hx
    rw [bne_iff_ne]
    rintro rfl
    exact h hx
  rw [className, hdrop]

/-- The class name and its semicolon, behind which the cursor is left. -/
theorem objectType_agrees (h : c.Before d rest) :
    Agrees d
      (match className rest with
        | .ok (name, rest) => .ok (.object name, rest)
        | .error rest => .error rest)
      (objectType d c) := by
  obtain ⟨front, hd, hplace⟩ := h.restAt
  have hcut := cut_append front rest 0 c
  rw [← hd, String.ofList_toList, ← hplace, Nat.zero_add] at hcut
  have hmarked := h.cutAt h.restAt
  rw [objectType, bind_of_ok (place_eq c), bind_of_ok hcut]
  dsimp only
  cases hfind : (String.ofList rest).find? ';' with
  | none =>
      rw [find?_eq_none_iff, String.toList_ofList] at hfind
      rw [className_of_no_semicolon hfind]
      exact malformed_agrees hmarked.safe (.stop d)
  | some semicolon =>
      obtain ⟨name, back, htext, hname, hstop⟩ := find?_eq_some hfind
      rw [String.ofList_inj] at htext
      subst htext
      dsimp only
      rw [hstop]
      cases name with
      | nil => exact malformed_agrees hmarked.safe h.restAt
      | cons x name =>
          have hpos : byteCount (x :: name) ≠ 0 := by
            have hchar := x.utf8Size_pos
            rw [byteCount_cons]
            omega
          have hclass : className (x :: name ++ ';' :: back) =
              .ok (String.ofList (x :: name), back) := by
            apply (className_takes _ _ _).mpr
            simp only [String.toList_ofList, List.append_assoc]
            exact ⟨⟨List.cons_ne_nil _ _, hname⟩, rfl⟩
          have hcutName := cut_append (x :: name) (';' :: back) c.place (c.cutAt c.place)
          have htaken : byteCount (x :: name) + 1 = byteCount (x :: name ++ [';']) := by
            rw [byteCount_append]
            rfl
          rw [if_neg hpos, hclass, bind_of_ok hcutName, bind_of_ok (advance_eq _ _), htaken]
          refine .ok (Cursor.Before.advance ?_)
          rw [List.append_assoc]
          exact hmarked.cutAt h.restAt.after

/-- A character that begins no element is refused at its place, with the cursor behind its first
byte. -/
theorem elementType_agrees (h : c.Before d rest) :
    Agrees d (Descriptor.elementType rest) (elementType d c) := by
  rw [elementType, bind_of_ok (place_eq c)]
  cases rest with
  | nil =>
      have hbump : bump d c = .ok none c := by
        rw [bump_eq, h.restAt.byte?_eq]
        rfl
      rw [bind_of_ok hbump]
      exact malformed_agrees h.safe h.restAt
  | cons x rest =>
      have hbump : bump d c = .ok (some (leadByte x)) (c.advance 1) := by
        rw [bump_eq, h.restAt.byte?_eq]
        rfl
      rw [bind_of_ok hbump]
      dsimp only
      by_cases hx : x = 'L'
      · subst hx
        rw [if_pos (leadByte_of_ascii (by decide)), Descriptor.elementType, if_pos rfl]
        exact objectType_agrees (h.advance_ascii (by decide))
      · have hbyte : leadByte x ≠ 'L'.toUInt8 :=
          fun heq => hx ((leadByte_eq_iff (by decide)).mp heq)
        rw [if_neg hbyte, Descriptor.elementType, if_neg hx, ofLetter?_leadByte]
        cases hletter : BaseType.ofLetter? x with
        | some type => exact .ok (h.advance_ascii (toNat_letter_lt hletter))
        | none =>
            refine malformed_agrees (h.safe.advance ?_) h.restAt
            have hadd := h.restAt.add_byteCount
            have hpos := x.utf8Size_pos
            rw [byteCount_cons] at hadd
            omega

theorem expect_of_head {x : Char} (h : c.Before d (x :: rest)) (hx : x.toNat < 0x80) :
    expect d x c = .ok () (c.advance 1) := by
  have hbyte : byte? d c.place = some x.toUInt8 := (h.byte?_eq_some_iff hx).mpr rfl
  rw [expect, bind_of_ok (peek_eq d c), if_pos hbyte]
  rfl

theorem expect_of_head_ne {x : Char} (h : c.Before d rest) (hx : x.toNat < 0x80)
    (hne : rest.head? ≠ some x) : expect d x c = malformed c.place c := by
  have hbyte : byte? d c.place ≠ some x.toUInt8 := fun heq => hne ((h.byte?_eq_some_iff hx).mp heq)
  rw [expect, bind_of_ok (peek_eq d c), if_neg hbyte, bind_of_ok (place_eq c)]

section

variable {rounds : Nat} (hrounds : d.utf8ByteSize ≤ rounds)
include hrounds

theorem fieldType_agrees (h : c.Before d rest) :
    Agrees d (Descriptor.fieldType rest) (fieldType d rounds c) := by
  obtain ⟨brackets, c', hrun, hlength, hbefore⟩ :=
    repeatWhile_brackets h (Nat.le_trans h.restAt.length_le_size hrounds)
  rw [fieldType, bind_of_ok hrun, Descriptor.fieldType, hlength]
  apply map_agrees (elementType_agrees hbefore)
  · intro element after hstep
    rw [hstep]
  · intro fault hstep
    rw [hstep]

/-! ## Methods -/

/-- There is a round for each parameter, and one more that finds the end of a text in which no
parenthesis comes. -/
theorem parameters_agree (h : c.Before d rest) {n : Nat} (hn : rest.length < n) :
    Agrees d (Descriptor.parameters rest) (parameters d (fieldType d rounds) n c) := by
  induction n generalizing c rest with
  | zero => cases hn
  | succ n ih =>
      by_cases hclosed : rest.head? = some ')'
      · obtain ⟨after, rfl⟩ := List.head?_eq_some_iff.mp hclosed
        have hstop : (byte? d c.place != some ')'.toUInt8) = false := by
          rw [bne_eq_false_iff_eq, h.byte?_eq_some_iff (by decide), hclosed]
        rw [parameters, bind_of_ok (repeatWhile_of_stop hstop _),
          bind_of_ok (expect_of_head h (by decide)), Descriptor.parameters]
        exact .ok (h.advance_ascii (by decide))
      · have hopen (after : List Char) (heq : rest = ')' :: after) : False :=
          hclosed (List.head?_eq_some_iff.mpr ⟨after, heq⟩)
        rw [parameters_of_go fun heq => hclosed ((h.byte?_eq_some_iff (by decide)).mp heq)]
        apply bind_agrees (fieldType_agrees hrounds h)
        · intro first after c' hfirst hafter
          have hless := length_fieldType hfirst
          rw [parameters_of_ok hopen hfirst]
          apply map_agrees (ih hafter (by omega))
          · intro others final hothers
            rw [hothers]
          · intro fault hfault
            rw [hfault]
        · intro fault hfault
          rw [parameters_of_error hopen hfault]

theorem result?_agrees (h : c.Before d rest) :
    Agrees d (Descriptor.result? rest) (result? d rounds c) := by
  rw [result?, bind_of_ok (peek_eq d c)]
  by_cases hvoid : rest.head? = some 'V'
  · obtain ⟨after, rfl⟩ := List.head?_eq_some_iff.mp hvoid
    rw [if_pos ((h.byte?_eq_some_iff (by decide)).mpr hvoid)]
    exact .ok (h.advance_ascii (by decide))
  · have hbyte : byte? d c.place ≠ some 'V'.toUInt8 :=
      fun heq => hvoid ((h.byte?_eq_some_iff (by decide)).mp heq)
    have hopen (after : List Char) (heq : rest = 'V' :: after) : False :=
      hvoid (List.head?_eq_some_iff.mpr ⟨after, heq⟩)
    rw [if_neg hbyte, Descriptor.result?.eq_2 _ hopen]
    apply map_agrees (fieldType_agrees hrounds h)
    · intro t after hstep
      rw [hstep]
    · intro fault hstep
      rw [hstep]

theorem method_agrees (h : c.Before d rest) :
    Agrees d (Descriptor.method rest) (method d rounds c) := by
  rw [method]
  by_cases hopens : rest.head? = some '('
  · obtain ⟨after, rfl⟩ := List.head?_eq_some_iff.mp hopens
    have hafter : (c.advance 1).Before d after := h.advance_ascii (by decide)
    have hless : after.length < rounds := by
      have hlength := h.restAt.length_le_size
      rw [List.length_cons] at hlength
      omega
    rw [bind_of_ok (expect_of_head h (by decide)), Descriptor.method]
    apply bind_agrees (parameters_agree hrounds hafter hless)
    · intro ps final c' hstep hfinal
      rw [hstep]
      dsimp only
      apply map_agrees (result?_agrees hrounds hfinal)
      · intro r? last hresult
        rw [hresult]
      · intro fault hresult
        rw [hresult]
    · intro fault hstep
      rw [hstep]
  · have hrefused : Descriptor.method rest = .error rest := by
      apply Descriptor.method.eq_2
      rintro after rfl
      exact hopens rfl
    rw [bind_of_error (expect_of_head_ne h (by decide) hopens), hrefused]
    exact malformed_agrees h.safe h.restAt

end

/-! ## Whole descriptors -/

/-- A scan comes to the given answer, its cursor never goes beyond the descriptor, and text is cut
between characters. -/
structure Settles (d : String) (answer : Except Error α) (outcome : Except Halt α × Cursor) :
    Prop where
  answers : answer? d outcome.1 = some answer
  within : ∀ place ∈ outcome.2.visited, place ≤ d.utf8ByteSize
  boundary : ∀ place ∈ outcome.2.cuts, (String.Pos.Raw.mk place).IsValid d

theorem Settles.of_safe {answer : Except Error α} {result : Except Halt α} (hc : c.Safe d)
    (h : answer? d result = some answer) : Settles d answer (result, c) :=
  ⟨h, hc.within, hc.boundary⟩

theorem expectEnd_eq (h : c.Before d rest) :
    expectEnd d c = if rest = [] then .ok () c else malformed c.place c := by
  rw [expectEnd, bind_of_ok (place_eq c)]
  simp only [h.restAt.eq_size_iff]
  split <;> rfl

theorem whole_settles {scan : Scan α} {step : List Char → Step α}
    (h : Agrees d (step d.toList) (scan Cursor.start)) :
    Settles d (Descriptor.whole step d) (whole d scan) := by
  generalize hrun : scan Cursor.start = run at h
  generalize hstep : step d.toList = taken at h
  cases h with
  | error hsafe =>
      rw [whole, toEnd, bind_of_error hrun, Descriptor.whole, hstep]
      exact .of_safe hsafe rfl
  | @ok a rest c hbefore =>
      rw [whole, toEnd, bind_of_ok hrun, Descriptor.whole, hstep]
      have hend := expectEnd_eq hbefore
      cases rest with
      | nil =>
          rw [if_pos rfl] at hend
          rw [bind_of_ok hend]
          exact .of_safe hbefore.safe rfl
      | cons x rest =>
          rw [if_neg (List.cons_ne_nil _ _)] at hend
          rw [bind_of_error hend, hbefore.restAt.eq_sub]
          exact .of_safe hbefore.safe rfl

end Scan

end Descriptor

open Descriptor in
/-- Scans of a descriptor with as many rounds for a loop as it has bytes come to the answers of the
parser: no loop asks for more rounds and no text is cut inside a character. The cursor stays within
the descriptor at all times, and a type moves it, from wherever it stands. -/
theorem descriptor_scans_settle (d : String) (rounds : Nat) (h : d.utf8ByteSize ≤ rounds) :
    Scan.Settles d (FieldType.parse d) (Scan.whole d (Scan.fieldType d rounds)) ∧
      Scan.Settles d (MethodDescriptor.parse d) (Scan.whole d (Scan.method d rounds)) ∧
      ∀ c t c', Scan.fieldType d rounds c = .ok t c' → c.place + 1 ≤ c'.place :=
  ⟨Scan.whole_settles (Scan.fieldType_agrees h (Cursor.start_before d)),
    Scan.whole_settles (Scan.method_agrees h (Cursor.start_before d)),
    Scan.Moves.fieldType d rounds⟩

open Descriptor in
/-- A result of two bytes, of which the cursor has passed one when it is refused, and a class name
that is cut out in front of its semicolon. -/
theorem descriptor_scans_settle_inside :
    "([J)é".utf8ByteSize ≤ 6 ∧
      Scan.whole "([J)é" (Scan.method "([J)é" 6) =
        (.error (.malformed 4), ⟨5, [4, 3, 2, 1, 0], []⟩) ∧
      ¬(String.Pos.Raw.mk 5).IsValid "([J)é" ∧
      Scan.Settles "([J)é" (MethodDescriptor.parse "([J)é")
        (Scan.whole "([J)é" (Scan.method "([J)é" 6)) ∧
      Scan.fieldType "([J)é" 6 ⟨1, [0], []⟩ =
        .ok (.array 1 (.base .long)) ⟨3, [2, 1, 0], []⟩ ∧
      1 + 1 ≤ 3 ∧
      "Lé;".utf8ByteSize ≤ 4 ∧
      Scan.Settles "Lé;" (.ok (.object "é")) (Scan.whole "Lé;" (Scan.fieldType "Lé;" 4)) := by
  have hmethodSize : "([J)é".utf8ByteSize ≤ 6 := by decide
  have hnameSize : "Lé;".utf8ByteSize ≤ 4 := by decide
  obtain ⟨-, hmethod, hmoves⟩ := descriptor_scans_settle "([J)é" 6 hmethodSize
  obtain ⟨hname, -, -⟩ := descriptor_scans_settle "Lé;" 4 hnameSize
  have htype : Scan.fieldType "([J)é" 6 ⟨1, [0], []⟩ =
      .ok (.array 1 (.base .long)) ⟨3, [2, 1, 0], []⟩ := rfl
  have hparse : FieldType.parse "Lé;" = .ok (.object "é") := rfl
  rw [hparse] at hname
  exact ⟨hmethodSize, rfl, by decide, hmethod, htype, hmoves _ _ _ htype, hnameSize, hname⟩

end JvmClass
