import JvmClass.Proofs.RoundTrip

/-!
# Indices of constants

Entries take the indices of a pool in their order, from one on, and a wide entry takes the next
index too. This file ties three counts together: how many entries are read, which index each of
them gets, and how many slots the pool ends up with, which is one more than announced if a wide
entry begins in the last announced slot.
-/

namespace JvmClass

namespace ConstantPool

/-- How many slots entries need: two for a wide one, one for any other. -/
def slotCount : List Constant → Nat
  | [] => 0
  | c :: rest => (if c.isWide then 2 else 1) + slotCount rest

/-- The last of the entries is wide and begins in the last of the announced slots. -/
def Overhangs (announced : Nat) (entries : List Constant) : Prop :=
  ∃ front last, entries = front ++ [last] ∧ last.isWide = true ∧ 1 + slotCount front = announced

@[simp] theorem slotCount_nil : slotCount [] = 0 := rfl

theorem slotCount_cons (c : Constant) (rest : List Constant) :
    slotCount (c :: rest) = c.slots.length + slotCount rest := by
  rw [length_slots, slotCount]

theorem slotCount_append (front back : List Constant) :
    slotCount (front ++ back) = slotCount front + slotCount back := by
  induction front with
  | nil => exact (Nat.zero_add _).symm
  | cons c rest ih => rw [List.cons_append, slotCount_cons, slotCount_cons, ih, Nat.add_assoc]

theorem length_flatMap_slots (entries : List Constant) :
    (entries.flatMap Constant.slots).length = slotCount entries := by
  induction entries with
  | nil => rfl
  | cons c rest ih => rw [List.flatMap_cons, List.length_append, ih, slotCount_cons]

/-! ## How many entries are read -/

/-- Entries fill their slots if they are enough and none of them could be left out. -/
theorem fills_iff (n : Nat) (entries : List Constant) :
    Fills n entries ↔
      n ≤ slotCount entries ∧ ∀ k < entries.length, slotCount (entries.take k) < n := by
  induction entries generalizing n with
  | nil => simp [Fills]
  | cons c rest ih =>
      rw [Fills, ih, slotCount_cons]
      have hpos := length_slots_pos c
      constructor
      · rintro ⟨hn, henough, hneeded⟩
        refine ⟨by omega, ?_⟩
        rintro (_ | k) hk
        · exact hn
        · have hless := hneeded k (Nat.lt_of_succ_lt_succ hk)
          rw [List.take_succ_cons, slotCount_cons]
          omega
      · rintro ⟨henough, hneeded⟩
        have hn : 0 < n := hneeded 0 (Nat.succ_pos _)
        refine ⟨hn, by omega, ?_⟩
        intro k hk
        have hless := hneeded (k + 1) (Nat.succ_lt_succ hk)
        rw [List.take_succ_cons, slotCount_cons] at hless
        omega

/-- Filling slots goes beyond them by one slot at most, which a wide entry takes. -/
theorem slotCount_of_fills {n : Nat} {entries : List Constant} (h : Fills n entries) :
    (Overhangs n entries → slotCount entries = n + 1) ∧
      (¬ Overhangs n entries → slotCount entries = n) := by
  obtain ⟨henough, hneeded⟩ := (fills_iff n entries).mp h
  rcases List.eq_nil_or_concat entries with rfl | ⟨front, last, hlast⟩
  · constructor
    · rintro ⟨front, last, heq, -⟩
      simp at heq
    · intro _
      exact (Nat.le_zero.mp henough).symm
  · rw [List.concat_eq_append] at hlast
    subst hlast
    have hfront := hneeded front.length (by simp)
    rw [List.take_left] at hfront
    have hcount : slotCount (front ++ [last]) = slotCount front + last.slots.length := by
      rw [slotCount_append, slotCount_cons, slotCount_nil, Nat.add_zero]
    rw [hcount, length_slots] at henough ⊢
    constructor
    · rintro ⟨front', last', heq, hwide, hbegins⟩
      obtain ⟨hfronts, hlasts⟩ := List.append_inj' heq rfl
      obtain rfl : last = last' := List.singleton_inj.mp hlasts
      rw [hfronts, if_pos hwide]
      omega
    · intro hfits
      by_cases hwide : last.isWide = true
      · have hbegins : 1 + slotCount front ≠ n := fun hbegins =>
          hfits ⟨front, last, rfl, hwide, hbegins⟩
        rw [if_pos hwide] at henough ⊢
        omega
      · rw [if_neg hwide] at henough ⊢
        omega

/-- Reading until the slots are filled is reading one entry after the other. -/
theorem times_of_decodeEntries {n : Nat} {r t : Reader} {entries : List Constant}
    (h : decodeEntries n r = .ok entries t) :
    Constant.decode.times entries.length r = .ok entries t := by
  induction n using Nat.strongRecOn generalizing r entries with
  | ind n ih =>
      cases n with
      | zero =>
          obtain ⟨rfl, hmoves⟩ := Decoder.pure_eq_ok_iff.mp h
          exact Decoder.pure_eq_ok_iff.mpr ⟨rfl, hmoves⟩
      | succ n =>
          simp only [decodeEntries_succ, Decoder.bind_eq_ok_iff, Decoder.pure_eq_ok_iff,
            Reader.moves_nil_iff] at h
          obtain ⟨first, s, hfirst, others, _, hothers, rfl, rfl⟩ := h
          have hless : n + 1 - first.slots.length < n + 1 := by
            have hpos := length_slots_pos first
            omega
          simp only [List.length_cons, Decoder.times, Decoder.bind_eq_ok_iff,
            Decoder.pure_eq_ok_iff, Reader.moves_nil_iff]
          exact ⟨first, s, hfirst, others, _, ih _ hless hothers, rfl, rfl⟩

theorem fills_of_decodeEntries {n : Nat} {r t : Reader} {entries : List Constant}
    (h : decodeEntries n r = .ok entries t) : Fills n entries := by
  obtain ⟨_, ⟨-, hfills⟩, rfl, -⟩ := (decodeEntries_reads n r entries t).mp h
  exact hfills

/-- No entry of a class file is a slot that cannot be used. -/
theorem ne_unusable_of_decodeEntries {n : Nat} {r t : Reader} {entries : List Constant}
    (h : decodeEntries n r = .ok entries t) : ∀ c ∈ entries, c ≠ .unusable := by
  obtain ⟨es, ⟨hfits, -⟩, rfl, -⟩ := (decodeEntries_reads n r entries t).mp h
  intro c hc
  obtain ⟨e, he, rfl⟩ := List.mem_map.mp hc
  cases e with
  | text payload => exact fun h => by cases h
  | other c =>
      rintro rfl
      exact (hfits _ he).1 rfl

theorem decode_eq_ok_iff {r t : Reader} {pool : ConstantPool} :
    decode r = .ok pool t ↔
      ∃ count s entries, Decoder.u16 r = .ok count s ∧
        decodeEntries (count.toNat - 1) s = .ok entries t ∧ ofEntries entries = pool := by
  simp only [decode, Decoder.bind_eq_ok_iff, Decoder.pure_eq_ok_iff, Reader.moves_nil_iff]
  constructor
  · rintro ⟨count, s, hcount, entries, _, hentries, rfl, rfl⟩
    exact ⟨count, s, entries, hcount, hentries, rfl⟩
  · rintro ⟨count, s, entries, hcount, hentries, rfl⟩
    exact ⟨count, s, hcount, entries, t, hentries, rfl, rfl⟩

/-! ## What stands in which slot -/

/-- The slots of an entry stand after those of the entries before it. -/
theorem flatMap_slots_split {entries : List Constant} {j : Nat} {c : Constant}
    (hj : entries[j]? = some c) :
    entries.flatMap Constant.slots = (entries.take j).flatMap Constant.slots ++
      (c.slots ++ (entries.drop (j + 1)).flatMap Constant.slots) := by
  obtain ⟨hlt, rfl⟩ := List.getElem?_eq_some_iff.mp hj
  conv => lhs; rw [← List.take_append_drop j entries, List.drop_eq_getElem_cons hlt]
  rw [List.flatMap_append, List.flatMap_cons]

theorem slot_first {entries : List Constant} {j : Nat} {c : Constant}
    (hj : entries[j]? = some c) :
    (entries.flatMap Constant.slots)[slotCount (entries.take j)]? = some c := by
  rw [flatMap_slots_split hj, ← length_flatMap_slots, List.getElem?_append_right (Nat.le_refl _),
    Nat.sub_self]
  unfold Constant.slots
  cases c.isWide <;> rfl

theorem slot_second {entries : List Constant} {j : Nat} {c : Constant}
    (hj : entries[j]? = some c) (hwide : c.isWide = true) :
    (entries.flatMap Constant.slots)[slotCount (entries.take j) + 1]? = some .unusable := by
  have hslots : c.slots = [c, .unusable] := if_pos hwide
  rw [flatMap_slots_split hj, hslots, ← length_flatMap_slots,
    List.getElem?_append_right (Nat.le_add_right _ _), Nat.add_sub_cancel_left]
  rfl

/-- Every slot is the first one of an entry or the second one of a wide entry. -/
theorem slot_cases {entries : List Constant} {i : Nat} (hi : i < slotCount entries) :
    ∃ j c, entries[j]? = some c ∧
      (i = slotCount (entries.take j) ∨
        c.isWide = true ∧ i = slotCount (entries.take j) + 1) := by
  induction entries generalizing i with
  | nil => exact absurd hi (Nat.not_lt_zero i)
  | cons c rest ih =>
      rw [slotCount_cons] at hi
      by_cases hrest : c.slots.length ≤ i
      · have hlt : i - c.slots.length < slotCount rest := by omega
        obtain ⟨j, c', hj, hslot⟩ := ih hlt
        refine ⟨j + 1, c', hj, ?_⟩
        rw [List.take_succ_cons, slotCount_cons]
        exact hslot.imp (by omega) fun h => ⟨h.1, by omega⟩
      · refine ⟨0, c, rfl, ?_⟩
        rw [List.take_zero, slotCount_nil]
        rw [length_slots] at hrest
        split at hrest
        · rename_i hwide
          have hsmall : i = 0 ∨ i = 0 + 1 := by omega
          exact hsmall.imp_right fun h => ⟨hwide, h⟩
        · exact .inl (by omega)

/-- The slots that cannot be used are those after wide entries. -/
theorem slot_unusable_iff {entries : List Constant} (h : ∀ c ∈ entries, c ≠ .unusable)
    (i : Nat) :
    (entries.flatMap Constant.slots)[i]? = some .unusable ↔
      ∃ k c, i = k + 1 ∧ (entries.flatMap Constant.slots)[k]? = some c ∧ c.isWide = true := by
  constructor
  · intro hslot
    obtain ⟨hlt, -⟩ := List.getElem?_eq_some_iff.mp hslot
    rw [length_flatMap_slots] at hlt
    obtain ⟨j, c, hj, hfirst | ⟨hwide, hsecond⟩⟩ := slot_cases hlt
    · rw [hfirst, slot_first hj, Option.some_inj] at hslot
      exact absurd hslot (h c (List.mem_of_getElem? hj))
    · exact ⟨_, c, hsecond, slot_first hj, hwide⟩
  · rintro ⟨k, c, rfl, hslot, hwide⟩
    obtain ⟨hlt, -⟩ := List.getElem?_eq_some_iff.mp hslot
    rw [length_flatMap_slots] at hlt
    obtain ⟨j, c', hj, rfl | ⟨hwide', rfl⟩⟩ := slot_cases hlt
    · rw [slot_first hj, Option.some_inj] at hslot
      subst hslot
      exact slot_second hj hwide
    · rw [slot_second hj hwide', Option.some_inj] at hslot
      subst hslot
      cases hwide

/-! ## What stands at which index -/

theorem get?_ofEntries {entries : List Constant} {index : UInt16} {i : Nat}
    (h : index.toNat = 1 + i) :
    (ofEntries entries).get? index = (entries.flatMap Constant.slots)[i]? := by
  have hne : index ≠ 0 := by
    rintro rfl
    have hzero : 0 = 1 + i := h
    omega
  rw [get?, if_neg hne, ofEntries, ofSlots, List.getElem?_toArray, h, Nat.add_sub_cancel_left]

theorem toNat_eq_one_add {index : UInt16} (h : index ≠ 0) :
    index.toNat = 1 + (index.toNat - 1) := by
  have hne : index.toNat ≠ 0 := fun hzero => h (UInt16.toNat_inj.mp hzero)
  omega

theorem get?_ofEntries_first {entries : List Constant} {j : Nat} (hj : j < entries.length)
    (hsize : 1 + slotCount (entries.take j) < UInt16.size) :
    (ofEntries entries).get? (UInt16.ofNat (1 + slotCount (entries.take j))) = some entries[j] := by
  rw [get?_ofEntries (UInt16.toNat_ofNat_of_lt' hsize)]
  exact slot_first (List.getElem?_eq_getElem hj)

/-- An index within the pool that is not the first one of an entry. -/
theorem get?_ofEntries_other {entries : List Constant} {index : UInt16} (hindex : index ≠ 0)
    (hsize : index.toNat ≤ slotCount entries)
    (hother : ∀ j < entries.length, index.toNat ≠ 1 + slotCount (entries.take j)) :
    (ofEntries entries).get? index = some .unusable := by
  have hnat := toNat_eq_one_add hindex
  have hlt : index.toNat - 1 < slotCount entries := by omega
  obtain ⟨j, c, hj, hfirst | ⟨hwide, hsecond⟩⟩ := slot_cases hlt
  · obtain ⟨hlt, -⟩ := List.getElem?_eq_some_iff.mp hj
    exact absurd (hnat.trans (congrArg (1 + ·) hfirst)) (hother j hlt)
  · rw [get?_ofEntries hnat, hsecond]
    exact slot_second hj hwide

theorem get?_ofEntries_beyond {entries : List Constant} {index : UInt16}
    (hsize : slotCount entries < index.toNat) : (ofEntries entries).get? index = none := by
  have hindex : index ≠ 0 := by
    rintro rfl
    exact absurd hsize (Nat.not_lt_zero _)
  rw [get?_ofEntries (toNat_eq_one_add hindex), List.getElem?_eq_none]
  rw [length_flatMap_slots]
  omega

theorem get?_ofEntries_unusable_iff {entries : List Constant} (h : ∀ c ∈ entries, c ≠ .unusable)
    {index : UInt16} (hindex : index ≠ 0) :
    (ofEntries entries).get? index = some .unusable ↔
      ∃ c, (ofEntries entries).get? (index - 1) = some c ∧ c.isWide = true := by
  have hle : (1 : UInt16) ≤ index := UInt16.pos_iff_ne_zero.mpr hindex
  have hbefore : (index - 1).toNat = index.toNat - 1 := UInt16.toNat_sub_of_le index 1 hle
  rw [get?_ofEntries (toNat_eq_one_add hindex), slot_unusable_iff h]
  constructor
  · rintro ⟨k, c, hk, hslot, hwide⟩
    exact ⟨c, (get?_ofEntries (by omega)).trans hslot, hwide⟩
  · rintro ⟨c, hget, hwide⟩
    have hne : index - 1 ≠ 0 := by
      intro hzero
      rw [hzero, get?_zero] at hget
      cases hget
    have hk := toNat_eq_one_add hne
    rw [get?_ofEntries hk] at hget
    exact ⟨_, c, by omega, hget, hwide⟩

end ConstantPool

open ConstantPool in
/-- Entries of a pool are read one after the other until they take up the announced slots, each has
the index after those that the entries before it take up, and the slots that cannot be used are the
second ones of wide entries. There is nothing at index zero and beyond the last slot, which is the
last announced one unless a wide entry begins there. -/
theorem pool_index_assignment (r t : Reader) (pool : ConstantPool)
    (h : ConstantPool.decode r = .ok pool t) :
    ∃ (count : UInt16) (s : Reader) (entries : List Constant),
      Decoder.u16 r = .ok count s ∧
      Constant.decode.times entries.length s = .ok entries t ∧
      let announced := max count.toNat 1 - 1
      let indexOf := fun j => 1 + slotCount (entries.take j)
      announced ≤ slotCount entries ∧
      (∀ k < entries.length, slotCount (entries.take k) < announced) ∧
      (∀ j (hj : j < entries.length), indexOf j < UInt16.size ∧
        pool.get? (UInt16.ofNat (indexOf j)) = some entries[j]) ∧
      (∀ i : UInt16, i ≠ 0 → i.toNat ≤ pool.size →
        (∀ j < entries.length, i.toNat ≠ indexOf j) → pool.get? i = some .unusable) ∧
      (∀ i : UInt16, i ≠ 0 →
        (pool.get? i = some .unusable ↔
          ∃ c, pool.get? (i - 1) = some c ∧ c.isWide = true)) ∧
      pool.get? 0 = none ∧
      (∀ i : UInt16, pool.size < i.toNat → pool.get? i = none) ∧
      (Overhangs announced entries → pool.size = count.toNat) ∧
      (¬ Overhangs announced entries → pool.size = announced) := by
  obtain ⟨count, s, entries, hcount, hentries, rfl⟩ := decode_eq_ok_iff.mp h
  refine ⟨count, s, entries, hcount, times_of_decodeEntries hentries, ?_⟩
  intro announced indexOf
  have hannounced : count.toNat - 1 = announced := by
    change count.toNat - 1 = max count.toNat 1 - 1
    omega
  have hsize : (ofEntries entries).size = slotCount entries := by
    rw [size_ofEntries, length_flatMap_slots]
  have hfills : Fills announced entries := by
    rw [← hannounced]
    exact fills_of_decodeEntries hentries
  obtain ⟨henough, hneeded⟩ := (fills_iff announced entries).mp hfills
  obtain ⟨hover, hexact⟩ := slotCount_of_fills hfills
  rw [hsize]
  refine ⟨henough, hneeded, ?_, ?_, ?_, rfl, fun i => get?_ofEntries_beyond, ?_, hexact⟩
  · intro j hj
    have hindex : indexOf j < UInt16.size := by
      have hless := hneeded j hj
      have hcount := count.toNat_lt
      change 1 + slotCount (entries.take j) < 2 ^ 16
      omega
    exact ⟨hindex, get?_ofEntries_first hj hindex⟩
  · intro i hi hle hother
    exact get?_ofEntries_other hi hle hother
  · intro i hi
    exact get?_ofEntries_unusable_iff (ne_unusable_of_decodeEntries hentries) hi
  · intro h
    rw [hover h, ← hannounced]
    obtain ⟨_, _, -, -, hbegins⟩ := h
    omega

/-- A pool of four announced slots. A float takes the first of them, a long the next two, and a
double begins in the last. -/
theorem pool_index_assignment_overhanging :
    let r : Reader :=
      ⟨8, [0, 5, 4, 0, 0, 0, 7, 5, 0, 0, 0, 0, 0, 0, 0, 9, 6, 0, 0, 0, 0, 0, 0, 0, 1, 7]⟩
    let pool := ConstantPool.ofEntries [.float 7, .long 9, .double 1]
    ConstantPool.decode r = .ok pool ⟨33, [7]⟩ ∧ pool.size = 5 ∧
      pool.get? 1 = some (.float 7) ∧ pool.get? 2 ≠ some .unusable ∧
      pool.get? 2 = some (.long 9) ∧ pool.get? 3 = some .unusable ∧
      pool.get? 4 = some (.double 1) ∧ pool.get? 5 = some .unusable ∧ pool.get? 6 = none := by
  intro r pool
  have hdecode : ConstantPool.decode r = .ok pool ⟨33, [7]⟩ :=
    Decoder.eq_ok_of_outcome (by decide +kernel) (by decide +kernel)
  obtain ⟨_, _, _, -, -, -, -, -, -, hunusable, -, hbeyond, -⟩ :=
    pool_index_assignment r _ pool hdecode
  have hfloat : pool.get? 1 = some (.float 7) := by decide +kernel
  have hlong : pool.get? 2 = some (.long 9) := by decide +kernel
  have hdouble : pool.get? 4 = some (.double 1) := by decide +kernel
  have hsize : pool.size = 5 := by decide +kernel
  refine ⟨hdecode, hsize, hfloat, ?_, hlong, ?_, hdouble, ?_, ?_⟩
  · rw [Ne, hunusable 2 (by decide)]
    rintro ⟨c, hfirst, hwide⟩
    cases hfloat.symm.trans hfirst
    cases hwide
  · exact (hunusable 3 (by decide)).mpr ⟨_, hlong, Constant.isWide_iff.mpr (.inl ⟨9, rfl⟩)⟩
  · exact (hunusable 5 (by decide)).mpr ⟨_, hdouble, Constant.isWide_iff.mpr (.inr ⟨1, rfl⟩)⟩
  · exact hbeyond 6 (by rw [hsize]; decide)

end JvmClass
