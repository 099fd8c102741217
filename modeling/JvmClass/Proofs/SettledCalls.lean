import JvmClass.Proofs.Failures
import JvmClass.Proofs.ShiftedParsing

/-!
# Calls that settle

A decoder that begins with a read of some width moves by that width at every call that finds so many
bytes, whether the call fails further on or not, because nothing ever moves a reader back. Where
fewer are left a call fails in its first read and stays. So a row of calls on one reader stands
still once it has been through the bytes, and gives the same error from then on.
-/

namespace JvmClass

namespace Decoder

variable {α β : Type} {d : Decoder α} {width : Nat}

/-- A call moves by `width` bytes at least, or finds fewer and stays. -/
structure Advances (width : Nat) (d : Decoder α) : Prop where
  moved : ∀ r, width ≤ r.remaining → r.position + width ≤ (d.outcome r).2.position
  stayed : ∀ r, r.remaining < width →
    d.outcome r = (.error (.truncated r.position width r.remaining), r)

theorem Spells.advances {f : List UInt8 → α} (h : Spells d width f) : Advances width d where
  moved r hr := by
    simp only [outcome, h.ok r hr]
    exact Nat.le_refl _
  stayed r hr := by
    rw [outcome, h.short r hr]

/-- Whatever follows the first decoder does not move back. -/
theorem Advances.bind {f : α → Decoder β} (h : Advances width d) (hf : ∀ a, Composed (f a)) :
    Advances width (d >>= f) where
  moved r hr := by
    have hmoved := h.moved r hr
    rw [outcome_bind]
    generalize d.outcome r = first at hmoved ⊢
    obtain ⟨_ | a, s⟩ := first
    · exact hmoved
    · obtain ⟨back, hback⟩ := (hf a).moves s
      exact Nat.le_trans hmoved hback.position_le
  stayed r hr := by
    rw [outcome_bind, h.stayed r hr]

/-! ## Rows of calls -/

theorem Composed.limit_outcome (h : Composed d) (r : Reader) : (d.outcome r).2.limit = r.limit := by
  obtain ⟨front, hfront⟩ := h.moves r
  exact hfront.limit_eq

theorem Composed.limit_calls (h : Composed d) (n : Nat) (r : Reader) :
    (d.calls n r).2.limit = r.limit := by
  obtain ⟨front, hfront⟩ := h.moves_calls n r
  exact hfront.limit_eq

/-- What a call moves by is no longer left. -/
theorem Advances.remaining_outcome (h : Advances width d) (hd : Composed d) {r : Reader}
    (hr : width ≤ r.remaining) : (d.outcome r).2.remaining + width ≤ r.remaining := by
  have hmoved := h.moved r hr
  have hlimit := hd.limit_outcome r
  rw [Reader.limit, Reader.limit] at hlimit
  omega

section

variable (h : Advances width d) (hd : Composed d) (r : Reader)
include h hd

/-- Every call so far has moved, unless fewer bytes than `width` are left. -/
theorem Advances.remaining_calls (n : Nat) :
    (d.calls n r).2.remaining < width ∨
      (d.calls n r).2.remaining + width * n ≤ r.remaining := by
  induction n with
  | zero => exact .inr (Nat.le_refl _)
  | succ n ih =>
      rw [calls_succ_snd, Nat.mul_succ]
      obtain hfew | hmany := Nat.lt_or_ge (d.calls n r).2.remaining width
      · rw [h.stayed _ hfew]
        exact .inl hfew
      · have hmoved := h.remaining_outcome hd hmany
        omega

/-- Each call that has succeeded has moved. -/
theorem Advances.successes_calls (n : Nat) :
    width * (d.calls n r).1.countP Except.isOk + (d.calls n r).2.remaining ≤ r.remaining := by
  induction n generalizing r with
  | zero => exact Nat.le_of_eq (Nat.zero_add _)
  | succ n ih =>
      have hothers := ih (d.outcome r).2
      simp only [calls, List.countP_cons]
      obtain hfew | hmany := Nat.lt_or_ge r.remaining width
      · rw [h.stayed r hfew] at hothers ⊢
        exact hothers
      · have hmoved := h.remaining_outcome hd hmany
        rw [Nat.mul_add]
        split <;> omega

theorem Advances.remaining_calls_lt (hwidth : 0 < width) {n : Nat}
    (hn : r.remaining / width ≤ n) : (d.calls n r).2.remaining < width := by
  obtain hfew | hmoved := h.remaining_calls hd r n
  · exact hfew
  · have hless : r.remaining < (n + 1) * width :=
      (Nat.div_lt_iff_lt_mul hwidth).mp (Nat.lt_succ_of_le hn)
    rw [Nat.succ_mul, Nat.mul_comm] at hless
    omega

end

/-- Calls that find too few bytes leave the reader where it is. -/
theorem Advances.calls_stay (h : Advances width d) {r : Reader} {n m : Nat}
    (hfew : (d.calls n r).2.remaining < width) (hm : n ≤ m) :
    (d.calls m r).2 = (d.calls n r).2 := by
  induction hm with
  | refl => rfl
  | step _ ih => rw [calls_succ_snd, ih, h.stayed _ hfew]

theorem Advances.getElem?_calls_stay (h : Advances width d) {r : Reader} {n i : Nat} (hi : i < n)
    (hfew : (d.calls i r).2.remaining < width) :
    (d.calls n r).1[i]? = some (.error (.truncated (d.calls i r).2.position width
      (d.calls i r).2.remaining)) := by
  rw [getElem?_calls d hi, h.stayed _ hfew]

end Decoder

namespace ClassFile

open Decoder (Advances Spells Composed)

theorem decodeMagic_advances : Advances 4 decodeMagic := by
  refine Spells.u32.advances.bind fun found => ?_
  split
  · exact .throw _
  · exact .pure _

theorem decode_advances : Advances 4 decode := by
  obtain ⟨rest, hdecode, hrest⟩ := exists_decode_eq
  rw [hdecode]
  exact decodeMagic_advances.bind hrest

end ClassFile

open ClassFile in
/-- Calls on one reader never move back. One that finds four bytes moves by four at least, and one
that finds fewer reports them and stays. So after as many calls as the file has rows of four bytes
all calls give one and the same error, and no more calls than that succeed. -/
theorem calls_settle (file : List UInt8) :
    let reader (i : Nat) := (decode.calls i (Reader.ofBytes file 0)).2
    let results (n : Nat) := (decode.calls n (Reader.ofBytes file 0)).1
    (∀ i, (reader i).position + (reader i).remaining = file.length ∧
      (reader i).position ≤ (reader (i + 1)).position ∧
      (4 ≤ (reader i).remaining → (reader i).position + 4 ≤ (reader (i + 1)).position) ∧
      ((reader i).remaining < 4 → reader (i + 1) = reader i ∧
        ∀ n, i < n → (results n)[i]? = some (.error
          (.truncated (file.length - (reader i).remaining) 4 (reader i).remaining)))) ∧
    (∃ r < 4, ∀ n i, file.length / 4 ≤ i → i < n →
      (results n)[i]? = some (.error (.truncated (file.length - r) 4 r))) ∧
    ∀ n, (results n).countP Except.isOk ≤ file.length / 4 := by
  intro reader results
  have hlimit (i : Nat) : (reader i).position + (reader i).remaining = file.length :=
    (decode_composed.limit_calls i (Reader.ofBytes file 0)).trans (Nat.zero_add _)
  have hreader (i : Nat) : reader (i + 1) = (decode.outcome (reader i)).2 :=
    Decoder.calls_succ_snd decode i _
  have hspent (n i : Nat) (hi : i < n) (hfew : (reader i).remaining < 4) :
      (results n)[i]? = some (.error
        (.truncated (file.length - (reader i).remaining) 4 (reader i).remaining)) := by
    have hplace : (reader i).position = file.length - (reader i).remaining := by
      have := hlimit i
      omega
    rw [← hplace]
    exact decode_advances.getElem?_calls_stay hi hfew
  refine ⟨fun i => ⟨hlimit i, ?_, ?_, ?_⟩, ?_, ?_⟩
  · obtain ⟨front, hfront⟩ := decode_composed.moves (reader i)
    rw [hreader]
    exact hfront.position_le
  · intro hmany
    rw [hreader]
    exact decode_advances.moved (reader i) hmany
  · intro hfew
    refine ⟨?_, fun n hi => hspent n i hi hfew⟩
    rw [hreader, decode_advances.stayed _ hfew]
  · have hfew : (reader (file.length / 4)).remaining < 4 :=
      decode_advances.remaining_calls_lt decode_composed _ (by decide) (Nat.le_refl _)
    refine ⟨_, hfew, fun n i hlate hi => ?_⟩
    have hstill : reader i = reader (file.length / 4) := decode_advances.calls_stay hfew hlate
    rw [← hstill] at hfew ⊢
    exact hspent n i hi hfew
  · intro n
    have hsuccesses := decode_advances.successes_calls decode_composed (Reader.ofBytes file 0) n
    rw [Nat.le_div_iff_mul_le (by decide), Nat.mul_comm]
    exact Nat.le_trans (Nat.le_add_right _ _) hsuccesses

/-- Four bytes that begin no class file, the shortest class file, and the beginning of another. -/
def brokenOffFile : List UInt8 :=
  [1, 2, 3, 4] ++ [0xCA, 0xFE, 0xBA, 0xBE, 0, 0, 0, 52, 0, 1, 0, 33] ++ List.replicate 12 0 ++
    [0xCA, 0xFE, 0xBA, 0xBE, 0, 0, 0]

theorem calls_settle_broken_off :
    let reader (i : Nat) := (ClassFile.decode.calls i (Reader.ofBytes brokenOffFile 0)).2
    let results := (ClassFile.decode.calls 12 (Reader.ofBytes brokenOffFile 0)).1
    results.map Except.isOk = [false, true] ++ List.replicate 10 false ∧
      4 ≤ (reader 2).remaining ∧ (reader 2).position + 4 ≤ (reader 3).position ∧
      (reader 3).remaining < 4 ∧ reader 4 = reader 3 ∧
      results[3]? = some (.error (.truncated 34 4 1)) ∧
      brokenOffFile.length / 4 ≤ 11 ∧
      (∃ r < 4, results[11]? = some (.error (.truncated (35 - r) 4 r))) ∧
      results.countP Except.isOk ≤ 8 := by
  intro reader results
  obtain ⟨hcalls, ⟨r, hr, hspent⟩, hsuccesses⟩ := calls_settle brokenOffFile
  have hmany : 4 ≤ (reader 2).remaining := by decide +kernel
  have hone : (reader 3).remaining = 1 := by decide +kernel
  have hfew : (reader 3).remaining < 4 := by
    rw [hone]
    decide
  obtain ⟨-, -, hmoved, -⟩ := hcalls 2
  obtain ⟨-, -, -, hstays⟩ := hcalls 3
  obtain ⟨hstill, hthird⟩ := hstays hfew
  have hthird' := hthird 12 (by decide)
  change results[3]? = some (.error (.truncated (35 - (reader 3).remaining) 4
    (reader 3).remaining)) at hthird'
  rw [hone] at hthird'
  exact ⟨by decide +kernel, hmany, hmoved hmany, hfew, hstill, hthird', by decide,
    ⟨r, hr, hspent 12 11 (by decide) (by decide)⟩, hsuccesses 12⟩

end JvmClass
