import JvmClass.Proofs.FixedWidth
import JvmClass.Reader.Session
import Mathlib.Data.List.Forall2

/-!
# Windows of one buffer

However many windows a session has entered, each of its readers goes through a part of one and the
same buffer: from `lo`, where it began, by way of `cur`, where it stands, to `hi`, where it ends.
What operations do to these three numbers does not depend on the bytes, and what a read answers
depends on the bytes from `cur` on only.
-/

namespace JvmClass

open Bytes

namespace Bytes.BigEndian

/-- The number that bytes spell in two's complement. -/
def signedValue (front : List UInt8) : Int :=
  if 2 * value front < capacity front.length then value front
  else value front - capacity front.length

theorem bmod_value {front : List UInt8} (h : 2 ∣ capacity front.length) :
    (value front : Int).bmod (capacity front.length) = signedValue front := by
  have hlt := value_lt front
  have hmod : (value front : Int) % capacity front.length = value front :=
    Int.emod_eq_of_lt (Int.natCast_nonneg _) (Int.ofNat_lt.mpr hlt)
  rw [Int.bmod_def, hmod, signedValue]
  split <;> split <;> omega

theorem toInt_int32 {front : List UInt8} (h : front.length = 4) :
    (UInt32.ofNat (value front)).toInt32.toInt = signedValue front := by
  have hsize : capacity front.length = Int32.size := congrArg capacity h
  rw [← bmod_value (hsize ▸ by decide), hsize]
  simp

theorem toInt_int64 {front : List UInt8} (h : front.length = 8) :
    (UInt64.ofNat (value front)).toInt64.toInt = signedValue front := by
  have hsize : capacity front.length = Int64.size := congrArg capacity h
  rw [← bmod_value (hsize ▸ by decide), hsize]
  simp

end Bytes.BigEndian

namespace Decoder

/-- The 16-bit numbers in a row of bytes. -/
def wordsOf (count : Nat) (front : List UInt8) : List UInt16 :=
  (List.range count).map fun k => UInt16.ofNat (BigEndian.value ((front.drop (2 * k)).take 2))

theorem u16sOfBytes_eq_wordsOf {count : Nat} {front : List UInt8} (h : front.length = count * 2) :
    u16sOfBytes front = wordsOf count front := by
  induction count generalizing front with
  | zero =>
      have hnil : front = [] := List.length_eq_zero_iff.mp (by omega)
      rw [hnil]
      rfl
  | succ count ih =>
      match front with
      | [] | [_] =>
          simp only [List.length_nil, List.length_cons] at h
          omega
      | high :: low :: rest =>
          simp only [List.length_cons] at h
          rw [u16sOfBytes, ih (by omega), wordsOf, wordsOf, List.range_succ_eq_map, List.map_cons,
            List.map_map]
          rfl

end Decoder

namespace Reader

/-! ## Answers of reads -/

/-- How many bytes a read takes and what it answers with them. Entering and leaving windows are no
reads. -/
def Operation.reads? : Operation → Option (Nat × (List UInt8 → Answer))
  | .u8 => some (1, fun front => .unsigned (BigEndian.value front))
  | .u16 => some (2, fun front => .unsigned (BigEndian.value front))
  | .u32 => some (4, fun front => .unsigned (BigEndian.value front))
  | .i32 => some (4, fun front => .signed (BigEndian.signedValue front))
  | .i64 => some (8, fun front => .signed (BigEndian.signedValue front))
  | .u16s count => some (count * 2, fun front => .words (Decoder.wordsOf count front))
  | .bytes count => some (count, fun front => .bytes front)
  | .enter _ => none
  | .leave => none

theorem Operation.enter_or_leave {operation : Operation} (h : operation.reads? = none) :
    (∃ length, operation = .enter length) ∨ operation = .leave := by
  cases operation <;> cases h
  · exact .inl ⟨_, rfl⟩
  · exact .inr rfl

namespace Session

open Decoder

/-- Every read is that of a decoder of so many bytes. -/
theorem exists_spells {operation : Operation} {width : Nat} {answer : List UInt8 → Answer}
    (h : operation.reads? = some (width, answer)) :
    ∃ d : Decoder Answer, Spells d width answer ∧
      ∀ s : Session, s.perform operation = s.read d := by
  cases operation <;> cases h
  case u8 =>
    refine ⟨_, (Spells.u8.map fun n => .unsigned n.toNat).congr ?_, fun _ => rfl⟩
    intro front hfront
    have hlt : BigEndian.value front < BigEndian.capacity 1 := hfront ▸ BigEndian.value_lt front
    rw [UInt8.toNat_ofNat_of_lt' hlt]
  case u16 =>
    refine ⟨_, (Spells.u16.map fun n => .unsigned n.toNat).congr ?_, fun _ => rfl⟩
    intro front hfront
    have hlt : BigEndian.value front < BigEndian.capacity 2 := hfront ▸ BigEndian.value_lt front
    rw [UInt16.toNat_ofNat_of_lt' hlt]
  case u32 =>
    refine ⟨_, (Spells.u32.map fun n => .unsigned n.toNat).congr ?_, fun _ => rfl⟩
    intro front hfront
    have hlt : BigEndian.value front < BigEndian.capacity 4 := hfront ▸ BigEndian.value_lt front
    rw [UInt32.toNat_ofNat_of_lt' hlt]
  case i32 =>
    refine ⟨_, (Spells.i32.map fun n => .signed n.toInt).congr ?_, fun _ => rfl⟩
    intro front hfront
    rw [BigEndian.toInt_int32 hfront]
  case i64 =>
    refine ⟨_, (Spells.i64.map fun n => .signed n.toInt).congr ?_, fun _ => rfl⟩
    intro front hfront
    rw [BigEndian.toInt_int64 hfront]
  case u16s count =>
    refine ⟨_, ((Spells.u16s count).map .words).congr ?_, fun _ => rfl⟩
    intro front hfront
    rw [u16sOfBytes_eq_wordsOf hfront]
  case bytes => exact ⟨_, (Spells.bytes width).map Answer.bytes, fun _ => rfl⟩

theorem perform_of_le {operation : Operation} {width : Nat} {answer : List UInt8 → Answer}
    (h : operation.reads? = some (width, answer)) {s : Session}
    (hroom : width ≤ s.top.remaining) :
    s.perform operation =
      (.ok (answer (s.top.bytes.take width)),
        { s with top := ⟨s.top.position + width, s.top.bytes.drop width⟩ }) := by
  obtain ⟨d, hd, hperform⟩ := exists_spells h
  rw [hperform, read, outcome, hd.ok _ hroom]

theorem perform_of_lt {operation : Operation} {width : Nat} {answer : List UInt8 → Answer}
    (h : operation.reads? = some (width, answer)) {s : Session}
    (hroom : s.top.remaining < width) :
    s.perform operation =
      (.error (.truncated s.top.position width s.top.remaining), s) := by
  obtain ⟨d, hd, hperform⟩ := exists_spells h
  rw [hperform, read, outcome, hd.short _ hroom]

end Session

/-! ## Windows -/

/-- A part of a buffer and a place in it. -/
structure Window where
  lo : Nat
  cur : Nat
  hi : Nat
  lo_le_cur : lo ≤ cur
  cur_le_hi : cur ≤ hi
deriving DecidableEq, Repr

namespace Window

/-- The window of a whole buffer, of which nothing is read yet. -/
def whole (size : Nat) : Window :=
  ⟨0, 0, size, Nat.le_refl 0, Nat.zero_le size⟩

def room (w : Window) : Nat :=
  w.hi - w.cur

theorem cur_add_le {w : Window} {n : Nat} (h : n ≤ w.room) : w.cur + n ≤ w.hi := by
  have hle := w.cur_le_hi
  rw [room] at h
  omega

/-- The same window `n` bytes further on. -/
def advance (w : Window) (n : Nat) (h : n ≤ w.room) : Window :=
  ⟨w.lo, w.cur + n, w.hi, Nat.le_trans w.lo_le_cur (Nat.le_add_right _ _), cur_add_le h⟩

/-- The window of the next `n` bytes. -/
def next (w : Window) (n : Nat) : Window :=
  ⟨w.cur, w.cur, w.cur + n, Nat.le_refl _, Nat.le_add_right _ _⟩

/-- The reader that has gone through a window of the buffer as far as `cur`. -/
def reader (buffer : List UInt8) (base : Nat) (w : Window) : Reader :=
  ⟨base + w.cur, (buffer.take w.hi).drop w.cur⟩

variable {buffer : List UInt8} {base : Nat} {w : Window}

theorem remaining_reader (h : w.hi ≤ buffer.length) :
    (w.reader buffer base).remaining = w.room := by
  rw [remaining, reader, List.length_drop, List.length_take, Nat.min_eq_left h, room]

theorem take_reader {n : Nat} (h : n ≤ w.room) :
    (w.reader buffer base).bytes.take n = (buffer.drop w.cur).take n := by
  have hle := cur_add_le h
  rw [reader, List.take_drop, List.take_take, Nat.min_eq_left (by omega), List.take_drop]

theorem reader_advance {n : Nat} (h : n ≤ w.room) :
    (w.advance n h).reader buffer base =
      ⟨(w.reader buffer base).position + n, (w.reader buffer base).bytes.drop n⟩ := by
  rw [reader, reader, List.drop_drop, advance, Nat.add_assoc]

theorem reader_next {n : Nat} (h : n ≤ w.room) :
    (w.next n).reader buffer base =
      ⟨(w.reader buffer base).position, (w.reader buffer base).bytes.take n⟩ := by
  rw [take_reader h, List.take_drop]
  rfl

/-- A window that is split off takes no more bytes than there are. -/
theorem split_reader (hhi : w.hi ≤ buffer.length) (n : Nat) :
    (w.reader buffer base).split n =
      ((w.next (min n w.room)).reader buffer base,
        (w.advance (min n w.room) (Nat.min_le_right _ _)).reader buffer base) := by
  have hremaining : (w.reader buffer base).bytes.length = w.room := remaining_reader hhi
  rw [reader_next (Nat.min_le_right _ _), reader_advance, split, List.length_take, ← hremaining,
    ← List.take_eq_take_min, ← List.drop_eq_drop_min]

/-- Bytes outside of a window are not seen by its reader. -/
theorem reader_congr {other : List UInt8}
    (h : (other.take w.hi).drop w.lo = (buffer.take w.hi).drop w.lo) :
    w.reader other base = w.reader buffer base := by
  have hcur : w.lo + (w.cur - w.lo) = w.cur := Nat.add_sub_cancel' w.lo_le_cur
  rw [reader, reader, ← hcur, ← List.drop_drop, ← List.drop_drop, h]

/-- The reader goes through the window of the buffer and stands at its place. -/
structure Shows (buffer : List UInt8) (base : Nat) (w : Window) (r : Reader) : Prop where
  hi_le : w.hi ≤ buffer.length
  position : r.position = base + w.cur
  remaining : r.remaining = w.hi - w.cur
  bytes : r.bytes = (buffer.take w.hi).drop w.cur

theorem shows_reader (h : w.hi ≤ buffer.length) : w.Shows buffer base (w.reader buffer base) where
  hi_le := h
  position := rfl
  remaining := remaining_reader h
  bytes := rfl

end Window

/-! ## Stacks of windows -/

/-- The windows of the readers of a session. -/
structure Windows where
  top : Window
  below : List Window
deriving DecidableEq, Repr

namespace Windows

/-- The lowest window is the whole buffer. Any other ends where the one below it stands, and begins
no earlier than that one. -/
def Nested (size : Nat) : Window → List Window → Prop
  | w, [] => w.lo = 0 ∧ w.hi = size
  | w, parent :: below => parent.lo ≤ w.lo ∧ w.hi = parent.cur ∧ Nested size parent below

def session (buffer : List UInt8) (base : Nat) (ws : Windows) : Session :=
  ⟨ws.top.reader buffer base, ws.below.map (Window.reader buffer base)⟩

def read (width : Nat) (ws : Windows) : Windows :=
  if h : width ≤ ws.top.room then { ws with top := ws.top.advance width h } else ws

def enter (length : Nat) (ws : Windows) : Windows :=
  let n := min length ws.top.room
  ⟨ws.top.next n, ws.top.advance n (Nat.min_le_right _ _) :: ws.below⟩

def leave (ws : Windows) : Windows :=
  match ws.below with
  | [] => ws
  | parent :: below => ⟨parent, below⟩

/-- What an operation does to windows, whatever the bytes in them are. -/
def perform (operation : Operation) (ws : Windows) : Windows :=
  match operation.reads? with
  | some (width, _) => ws.read width
  | none =>
    match operation with
    | .enter length => ws.enter length
    | _ => ws.leave

def performAll (operations : List Operation) (ws : Windows) : Windows :=
  operations.foldl (fun ws operation => ws.perform operation) ws

theorem perform_of_reads {operation : Operation} {reads : Nat × (List UInt8 → Answer)}
    (h : operation.reads? = some reads) (ws : Windows) :
    ws.perform operation = ws.read reads.1 := by
  cases operation <;> cases h <;> rfl

theorem read_of_le {width : Nat} {ws : Windows} (h : width ≤ ws.top.room) :
    ws.read width = { ws with top := ws.top.advance width h } :=
  dif_pos h

theorem read_of_lt {width : Nat} {ws : Windows} (h : ws.top.room < width) : ws.read width = ws :=
  dif_neg (Nat.not_le.mpr h)

variable {size : Nat} {buffer : List UInt8} {base : Nat}

/-! ### Nesting -/

theorem Nested.hi_le {w : Window} {below : List Window} (h : Nested size w below) :
    w.hi ≤ size := by
  induction below generalizing w with
  | nil => exact Nat.le_of_eq h.2
  | cons parent below ih =>
      obtain ⟨-, hhi, hparent⟩ := h
      have hcur := parent.cur_le_hi
      have hsize := ih hparent
      omega

theorem Nested.advance {w : Window} {below : List Window} (h : Nested size w below) {n : Nat}
    (hn : n ≤ w.room) : Nested size (w.advance n hn) below := by
  cases below with
  | nil => exact h
  | cons parent below => exact h

theorem Nested.perform {ws : Windows} (h : Nested size ws.top ws.below) (operation : Operation) :
    Nested size (ws.perform operation).top (ws.perform operation).below := by
  cases hreads : operation.reads? with
  | some reads =>
      rw [perform_of_reads hreads]
      obtain hroom | hroom := Nat.lt_or_ge ws.top.room reads.1
      · rw [read_of_lt hroom]
        exact h
      · rw [read_of_le hroom]
        exact h.advance hroom
  | none =>
      obtain ⟨length, rfl⟩ | rfl := Operation.enter_or_leave hreads
      · exact ⟨ws.top.lo_le_cur, rfl, h.advance (Nat.min_le_right _ _)⟩
      · obtain ⟨top, _ | ⟨parent, below⟩⟩ := ws
        · exact h
        · exact h.2.2

theorem Nested.shows {w : Window} {below : List Window} (h : Nested buffer.length w below) :
    List.Forall₂ (Window.Shows buffer base) (w :: below)
      ((w :: below).map (Window.reader buffer base)) := by
  induction below generalizing w with
  | nil => exact .cons (Window.shows_reader h.hi_le) .nil
  | cons parent below ih => exact .cons (Window.shows_reader h.hi_le) (ih h.2.2)

/-! ### Sessions -/

theorem perform_session_of_le {operation : Operation} {width : Nat}
    {answer : List UInt8 → Answer} (hreads : operation.reads? = some (width, answer))
    {ws : Windows} (h : Nested buffer.length ws.top ws.below) (hroom : width ≤ ws.top.room) :
    (ws.session buffer base).perform operation =
      (.ok (answer ((buffer.drop ws.top.cur).take width)),
        session buffer base { ws with top := ws.top.advance width hroom }) := by
  have hremaining : (ws.session buffer base).top.remaining = ws.top.room :=
    Window.remaining_reader h.hi_le
  rw [Session.perform_of_le hreads (hremaining ▸ hroom)]
  simp only [session, Window.take_reader hroom, Window.reader_advance]

theorem perform_session_of_lt {operation : Operation} {width : Nat}
    {answer : List UInt8 → Answer} (hreads : operation.reads? = some (width, answer))
    {ws : Windows} (h : Nested buffer.length ws.top ws.below) (hroom : ws.top.room < width) :
    (ws.session buffer base).perform operation =
      (.error (.truncated (base + ws.top.cur) width ws.top.room), ws.session buffer base) := by
  have hremaining : (ws.session buffer base).top.remaining = ws.top.room :=
    Window.remaining_reader h.hi_le
  rw [Session.perform_of_lt hreads (hremaining ▸ hroom), hremaining]
  rfl

theorem perform_session_enter {ws : Windows} (h : Nested buffer.length ws.top ws.below)
    (length : Nat) :
    (ws.session buffer base).perform (.enter length) =
      (.ok .entered, (ws.enter length).session buffer base) := by
  rw [Session.perform, Session.enter, session, Window.split_reader h.hi_le]
  rfl

/-- A session keeps to its windows in every step. -/
theorem perform_session {ws : Windows} (h : Nested buffer.length ws.top ws.below)
    (operation : Operation) :
    ((ws.session buffer base).perform operation).2 =
      (ws.perform operation).session buffer base := by
  cases hreads : operation.reads? with
  | some reads =>
      rw [perform_of_reads hreads]
      obtain hroom | hroom := Nat.lt_or_ge ws.top.room reads.1
      · rw [read_of_lt hroom, perform_session_of_lt hreads h hroom]
      · rw [read_of_le hroom, perform_session_of_le hreads h hroom]
  | none =>
      obtain ⟨length, rfl⟩ | rfl := Operation.enter_or_leave hreads
      · rw [perform_session_enter h]
        rfl
      · obtain ⟨top, _ | ⟨parent, below⟩⟩ := ws <;> rfl

/-- A session keeps to its windows in every run. -/
theorem performAll_session {ws : Windows} (h : Nested buffer.length ws.top ws.below)
    (operations : List Operation) :
    Session.performAll operations (ws.session buffer base) =
        (ws.performAll operations).session buffer base ∧
      Nested buffer.length (ws.performAll operations).top (ws.performAll operations).below := by
  induction operations generalizing ws with
  | nil => exact ⟨rfl, h⟩
  | cons operation rest ih =>
      rw [Session.performAll, List.foldl_cons, perform_session h]
      exact ih (h.perform operation)

/-- The windows of a session that begins with a whole buffer. -/
theorem performAll_start (buffer : List UInt8) (base : Nat) (operations : List Operation) :
    let ws := performAll operations ⟨.whole buffer.length, []⟩
    Session.performAll operations (Session.start buffer base) = ws.session buffer base ∧
      Nested buffer.length ws.top ws.below := by
  have hnested : Nested buffer.length (Window.whole buffer.length) [] := ⟨rfl, rfl⟩
  have hstart : Session.start buffer base =
      session buffer base ⟨.whole buffer.length, []⟩ := by
    rw [Session.start, ofBytes, session, Window.reader, Window.whole, List.take_length]
    rfl
  rw [hstart]
  exact performAll_session hnested operations

end Windows

/-! ## What answers depend on -/

namespace Session

/-- The answers to operations one after the other. -/
def answers : List Operation → Session → List (Except Error Answer)
  | [], _ => []
  | operation :: rest, s => (s.perform operation).1 :: answers rest (s.perform operation).2

/-- Operations that do not leave the reader they begin with, into which `depth` windows have been
entered. -/
def Inside : Nat → List Operation → Prop
  | _, [] => True
  | depth, .enter _ :: rest => Inside (depth + 1) rest
  | depth, .leave :: rest => 0 < depth ∧ Inside (depth - 1) rest
  | depth, _ :: rest => Inside depth rest

theorem inside_of_reads {operation : Operation} {reads : Nat × (List UInt8 → Answer)}
    (h : operation.reads? = some reads) (depth : Nat) (rest : List Operation) :
    Inside depth (operation :: rest) ↔ Inside depth rest := by
  cases operation <;> cases h <;> rfl

/-- Answers come from the reader on top and the windows entered from it, and not from the readers
below. -/
theorem answers_congr {operations : List Operation} {top : Reader} {entered : List Reader}
    (h : Inside entered.length operations) (below other : List Reader) :
    answers operations ⟨top, entered ++ below⟩ = answers operations ⟨top, entered ++ other⟩ := by
  induction operations generalizing top entered with
  | nil => rfl
  | cons operation rest ih =>
      rw [answers, answers]
      cases hreads : operation.reads? with
      | some reads =>
          obtain ⟨d, -, hperform⟩ := exists_spells hreads
          rw [hperform, hperform, Session.read, Session.read]
          exact congrArg _ (ih ((inside_of_reads hreads _ _).mp h))
      | none =>
          obtain ⟨length, rfl⟩ | rfl := Operation.enter_or_leave hreads
          · exact congrArg _ (@ih _ (_ :: entered) h)
          · obtain ⟨hpos, hinside⟩ := h
            obtain _ | ⟨parent, entered⟩ := entered
            · exact absurd hpos (Nat.lt_irrefl 0)
            · exact congrArg _ (ih hinside)

end Session

end Reader

open Reader Windows in
/-- In every run of operations each reader keeps to a window of the one buffer, and a window that is
entered takes in what its parent moves past. A read of so many bytes succeeds exactly if the window
has room for them, answers with the bytes at the window's place and moves past them; otherwise it
reports where it stands and changes nothing. Entering always succeeds, with as many bytes as there
are. What stands outside of a window has no part in the answers of its reader and of the windows
entered from it. -/
theorem session_refines_windows (buffer : List UInt8) (base : Nat)
    (operations : List Operation) :
    let session := Session.performAll operations (Session.start buffer base)
    let ws := Windows.performAll operations ⟨.whole buffer.length, []⟩
    List.Forall₂ (Window.Shows buffer base) (ws.top :: ws.below) (session.top :: session.below) ∧
      Nested buffer.length ws.top ws.below ∧
      (∀ operation width answer, operation.reads? = some (width, answer) →
        (∀ hroom : width ≤ ws.top.room,
          ws.perform operation = { ws with top := ws.top.advance width hroom } ∧
          session.perform operation =
            (.ok (answer ((buffer.drop ws.top.cur).take width)),
              (ws.perform operation).session buffer base)) ∧
        (ws.top.room < width →
          ws.perform operation = ws ∧
          session.perform operation =
            (.error (.truncated session.top.position width session.top.remaining), session))) ∧
      (∀ length,
        ws.perform (.enter length) =
          ⟨ws.top.next (min length ws.top.room),
            ws.top.advance (min length ws.top.room) (Nat.min_le_right _ _) :: ws.below⟩ ∧
        session.perform (.enter length) =
          (.ok .entered, (ws.perform (.enter length)).session buffer base)) ∧
      (∀ parent below, session.below = parent :: below →
        session.perform .leave = (.ok (.left true), ⟨parent, below⟩)) ∧
      ∀ other : List UInt8, other.length = buffer.length →
        (other.take ws.top.hi).drop ws.top.lo = (buffer.take ws.top.hi).drop ws.top.lo →
        ∀ more, Session.Inside 0 more →
          Session.answers more (Session.performAll operations (Session.start other base)) =
            Session.answers more session := by
  intro session ws
  obtain ⟨hsession, hnested⟩ := performAll_start buffer base operations
  have hws : session = ws.session buffer base := hsession
  rw [hws]
  refine ⟨hnested.shows, hnested, ?_, ?_, ?_, ?_⟩
  · intro operation width answer hreads
    constructor
    · intro hroom
      have hnext : ws.perform operation = { ws with top := ws.top.advance width hroom } := by
        rw [perform_of_reads hreads, read_of_le hroom]
      rw [hnext]
      exact ⟨rfl, perform_session_of_le hreads hnested hroom⟩
    · intro hroom
      have hremaining : (ws.session buffer base).top.remaining = ws.top.room :=
        Window.remaining_reader hnested.hi_le
      rw [perform_of_reads hreads, read_of_lt hroom, hremaining]
      exact ⟨rfl, perform_session_of_lt hreads hnested hroom⟩
  · intro length
    exact ⟨rfl, perform_session_enter hnested length⟩
  · intro parent below hbelow
    rw [Session.perform, Session.leave, hbelow]
  · intro other hlength hsame more hinside
    obtain ⟨hother, -⟩ := performAll_start other base operations
    rw [hlength] at hother
    have htop : ws.top.reader other base = ws.top.reader buffer base := Window.reader_congr hsame
    rw [hother, Windows.session, Windows.session, htop]
    have hnone : Session.Inside ([] : List Reader).length more := hinside
    exact Session.answers_congr hnone _ _

open Reader Windows in
/-- Two bytes in the middle of five, read as a number, read beyond their end, and read with other
bytes around them. -/
theorem session_refines_windows_inner :
    let buffer : List UInt8 := [0, 0xFF, 0xFE, 3, 4]
    let other : List UInt8 := [9, 0xFF, 0xFE, 9, 9]
    let operations : List Operation := [.u8, .enter 2]
    let session := Session.performAll operations (Session.start buffer 10)
    Operation.reads? .u16 = some (2, fun front => .unsigned (BigEndian.value front)) ∧
      Operation.reads? .i32 = some (4, fun front => .signed (BigEndian.signedValue front)) ∧
      session.perform .u16 = (.ok (.unsigned 0xFFFE), ⟨⟨13, []⟩, [⟨13, [3, 4]⟩]⟩) ∧
      session.perform .i32 = (.error (.truncated 11 4 2), session) ∧
      session.perform .leave = (.ok (.left true), ⟨⟨13, [3, 4]⟩, []⟩) ∧
      Session.Inside 0 [.enter 1, .u8, .leave, .u16] ∧
      Session.answers [.enter 1, .u8, .leave, .u16]
          (Session.performAll operations (Session.start other 10)) =
        Session.answers [.enter 1, .u8, .leave, .u16] session := by
  intro buffer other operations session
  obtain ⟨-, -, hreads, -, hleave, hother⟩ := session_refines_windows buffer 10 operations
  refine ⟨rfl, rfl, ?_, ?_, ?_, ?_, ?_⟩
  · exact ((hreads .u16 _ _ rfl).1 (by decide)).2
  · exact ((hreads .i32 _ _ rfl).2 (by decide)).2
  · exact hleave _ _ rfl
  · simp [Session.Inside]
  · exact hother other rfl rfl _ (by simp [Session.Inside])

end JvmClass
