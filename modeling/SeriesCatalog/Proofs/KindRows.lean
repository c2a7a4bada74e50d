/-
  Series catalog — rows of page kinds.

  Page kinds are written one behind the other, each at the offset that the write
  before it gave back, and are read in the same way.

  * `PageKind.Row`: the codes of kinds stand in a row in a buffer;
  * `PageKind.exists_row_of_writeRow`: a row that is written within a buffer stands
    there, and nothing else is changed;
  * `PageKind.row_or_fails`: a row is read, or there is a first offset at which
    reading fails;
  * `PageKind.rows_inverse`: hence writing and reading rows are inverse.
-/
import SeriesCatalog.PageKind.Codec
import SeriesCatalog.Proofs.Except
import SeriesCatalog.Proofs.Settings

namespace SeriesCatalog

variable {buffer : Buffer} {offset : Int} {kind : PageKind} {kinds : List PageKind}

/-! ## Whole offsets -/

namespace Number

theorem next_ofInt (n : Int) : (ofInt n).next = ofInt (n + 1) := by
  have whole : (n : Rat).isInt = true := rfl
  rw [ofInt, next, if_pos whole]
  exact congrArg finite (Rat.intCast_add n 1).symm

theorem isNegative_ofInt (n : Int) : (ofInt n).isNegative = decide (n < 0) := by
  rw [ofInt, isNegative]
  exact decide_eq_decide.2 Rat.intCast_neg_iff

theorem exceeds_ofInt (n : Int) (m : Nat) : (ofInt n).exceeds m = decide ((m : Int) < n) := by
  rw [ofInt, exceeds, ← Rat.intCast_natCast]
  exact decide_eq_decide.2 Rat.intCast_lt_intCast

end Number

theorem Buffer.hasRoom_ofInt {length : Nat} :
    Buffer.hasRoom length (.ofInt offset) = true ↔ 0 ≤ offset ∧ offset < length := by
  simp only [hasRoom, Number.next_ofInt, Number.isNegative_ofInt, Number.exceeds_ofInt,
    Bool.and_eq_true, Bool.not_eq_true', decide_eq_false_iff_not]
  omega

namespace PageKind

/-! ## One page kind -/

theorem ofByte?_toByte (kind : PageKind) : ofByte? (.ofNat kind.toByte.toNat) = some kind := by
  cases kind with
  | internal tier => cases tier <;> rfl
  | leaf tier => cases tier <;> rfl

theorem ofByte?_eq_none {byte : UInt8} (foreign : 3 < byte) :
    ofByte? (.ofNat byte.toNat) = none := by
  have above : 3 < byte.toNat := foreign
  have whole : (Number.ofNat byte.toNat).toInt? = some (byte.toNat : Int) :=
    Number.toInt?_eq_some_iff.2 rfl
  rw [ofByte?, whole]
  split
  case h_5 => rfl
  all_goals
    next h =>
    have := Option.some.inj h
    omega

theorem toByte_or_foreign (byte : UInt8) : (∃ kind : PageKind, byte = kind.toByte) ∨ 3 < byte := by
  by_cases foreign : 3 < byte
  · exact Or.inr foreign
  · have low : byte.toNat ≤ 3 := Nat.le_of_not_lt foreign
    have code : byte.toNat = 0 ∨ byte.toNat = 1 ∨ byte.toNat = 2 ∨ byte.toNat = 3 := by omega
    rcases code with h | h | h | h
    · exact Or.inl ⟨.internal .device, UInt8.toNat_inj.1 h⟩
    · exact Or.inl ⟨.leaf .device, UInt8.toNat_inj.1 h⟩
    · exact Or.inl ⟨.internal .measurement, UInt8.toNat_inj.1 h⟩
    · exact Or.inl ⟨.leaf .measurement, UInt8.toNat_inj.1 h⟩

/-- What is at fault where no page kind can be read at a whole offset. -/
inductive Fails (buffer : Buffer) : Int → CatalogError → Prop
  | outside {offset : Int} : offset < 0 ∨ buffer.length ≤ offset →
      Fails buffer offset (.incompleteData (.truncated (.ofInt offset) buffer.length))
  | foreign {i : Nat} {byte : UInt8} : buffer[i]? = some byte → 3 < byte →
      Fails buffer i (.invalidEncoding (some (.ofNat byte.toNat)))

theorem byteAt?_ofInt (i : Nat) : buffer.byteAt? (.ofInt i) = buffer[i]? := by
  rw [Buffer.byteAt?, Number.toNat?_eq_some_iff.2 (rfl : Number.ofInt i = .ofNat i)]
  rfl

theorem hasRoom_of_getElem? {i : Nat} {byte : UInt8} (h : buffer[i]? = some byte) :
    Buffer.hasRoom buffer.length (.ofInt i) = true := by
  have within := (List.getElem?_eq_some_iff.1 h).1
  exact Buffer.hasRoom_ofInt.2 ⟨by omega, by omega⟩

theorem read_eq_ok {i : Nat} (h : buffer[i]? = some kind.toByte) :
    read buffer (.ofInt i) = .ok (kind, .ofInt (i + 1)) := by
  rw [read, if_pos (hasRoom_of_getElem? h), byteAt?_ofInt, h, Number.next_ofInt]
  simp only [ofByte, ofByte?_toByte]
  rfl

theorem Fails.read_eq {error : CatalogError} (h : Fails buffer offset error) :
    read buffer (.ofInt offset) = .error error := by
  cases h with
  | outside outside =>
    rw [read, if_neg]
    rw [Buffer.hasRoom_ofInt]
    omega
  | foreign h foreign =>
    rw [read, if_pos (hasRoom_of_getElem? h), byteAt?_ofInt, h]
    simp only [ofByte, ofByte?_eq_none foreign]
    rfl

/-- **At a whole offset stands the code of a kind**, or reading fails there. -/
theorem code_or_fails (buffer : Buffer) (offset : Int) :
    (∃ (i : Nat) (kind : PageKind), offset = i ∧ buffer[i]? = some kind.toByte) ∨
      ∃ error, Fails buffer offset error := by
  by_cases within : 0 ≤ offset ∧ offset < buffer.length
  · obtain ⟨i, rfl⟩ := Int.eq_ofNat_of_zero_le within.1
    have h : buffer[i]? = some buffer[i] := List.getElem?_eq_getElem (by omega)
    rcases toByte_or_foreign buffer[i] with ⟨kind, code⟩ | foreign
    · exact Or.inl ⟨i, kind, rfl, by rw [h, code]⟩
    · exact Or.inr ⟨_, .foreign h foreign⟩
  · exact Or.inr ⟨_, .outside (by omega)⟩

theorem run_write (kind : PageKind) (offset : Number) (buffer : Buffer) :
    (kind.write offset).run buffer =
      if Buffer.hasRoom buffer.length offset then
        .ok offset.next (offset.toNat?.elim buffer fun i => buffer.set i kind.toByte)
      else .error (.incompleteData (.noRoom offset buffer.length)) buffer := by
  show EStateM.run (ite (Buffer.hasRoom buffer.length offset = true) _ _) buffer = _
  by_cases room : Buffer.hasRoom buffer.length offset = true
  · rw [if_pos room, if_pos room]
    cases offset.toNat? with
    | none => rfl
    | some i => rfl
  · rw [if_neg room, if_neg room]
    rfl

theorem run_write_ofInt {i : Nat} (within : i < buffer.length) :
    (kind.write (.ofInt i)).run buffer = .ok (.ofInt (i + 1)) (buffer.set i kind.toByte) := by
  have room : Buffer.hasRoom buffer.length (.ofInt i) = true :=
    Buffer.hasRoom_ofInt.2 ⟨by omega, by omega⟩
  rw [run_write, if_pos room, Number.next_ofInt,
    Number.toNat?_eq_some_iff.2 (rfl : Number.ofInt i = .ofNat i)]
  rfl

/-! ## Rows -/

/-- Reads page kinds, each at the offset behind the one before it. -/
def readRow (buffer : Buffer) : Nat → Number → Except CatalogError (List PageKind × Number)
  | 0, offset => .ok ([], offset)
  | count + 1, offset => do
    let (kind, next) ← read buffer offset
    let (kinds, stop) ← readRow buffer count next
    return (kind :: kinds, stop)

/-- Writes page kinds, each at the offset behind the one before it. -/
def writeRow : List PageKind → Number → EStateM CatalogError Buffer Number
  | [], offset => return offset
  | kind :: kinds, offset => do
    let next ← kind.write offset
    writeRow kinds next

/-- From an offset on, the codes of kinds stand in a buffer. -/
inductive Row (buffer : Buffer) : Int → List PageKind → Prop
  | nil {offset : Int} : Row buffer offset []
  | cons {i : Nat} {kind : PageKind} {kinds : List PageKind} : buffer[i]? = some kind.toByte →
      Row buffer (i + 1) kinds → Row buffer i (kind :: kinds)

theorem add_length_cons (offset : Int) (kind : PageKind) (kinds : List PageKind) :
    offset + (kind :: kinds).length = offset + 1 + kinds.length := by
  rw [List.length_cons]
  omega

/-- **A row that stands in a buffer is read.** -/
theorem Row.read (h : Row buffer offset kinds) :
    readRow buffer kinds.length (.ofInt offset) = .ok (kinds, .ofInt (offset + kinds.length)) := by
  induction h with
  | nil =>
    rw [List.length_nil, readRow]
    simp
  | @cons i kind kinds code _ ih =>
    rw [add_length_cons, List.length_cons, readRow, read_eq_ok code]
    show (readRow buffer kinds.length _ >>= _) = _
    rw [ih]
    rfl

/-- **To write what stands there changes nothing.** -/
theorem Row.write_back (h : Row buffer offset kinds) :
    (writeRow kinds (.ofInt offset)).run buffer =
      .ok (.ofInt (offset + kinds.length)) buffer := by
  induction h with
  | nil =>
    simp [writeRow]
  | @cons i kind kinds code _ ih =>
    obtain ⟨within, same⟩ := List.getElem?_eq_some_iff.1 code
    rw [writeRow, EStateM.run_bind, run_write_ofInt within, ← same, List.set_getElem_self]
    show (writeRow kinds _).run buffer = _
    rw [ih, add_length_cons]

/-- **A row that is written within a buffer stands there**, and the rest of the buffer is as it
    was. -/
theorem exists_row_of_writeRow {i : Nat} (room : i + kinds.length ≤ buffer.length) :
    ∃ buffer', (writeRow kinds (.ofInt i)).run buffer = .ok (.ofInt (i + kinds.length)) buffer' ∧
      buffer'.length = buffer.length ∧
      (∀ j, j < i ∨ i + kinds.length ≤ j → buffer'[j]? = buffer[j]?) ∧ Row buffer' i kinds := by
  induction kinds generalizing i buffer with
  | nil => exact ⟨buffer, by simp [writeRow], rfl, fun _ _ => rfl, .nil⟩
  | cons kind kinds ih =>
    rw [List.length_cons] at room
    have within : i < buffer.length := by omega
    have room' : i + 1 + kinds.length ≤ (buffer.set i kind.toByte).length := by
      rw [List.length_set]
      omega
    obtain ⟨buffer', hrun, hlength, frame, row⟩ := ih room'
    rw [List.length_set] at hlength
    refine ⟨buffer', ?_, hlength, ?_, ?_⟩
    · rw [writeRow, EStateM.run_bind, run_write_ofInt within]
      rw [add_length_cons]
      exact hrun
    · intro j outside
      rw [List.length_cons] at outside
      rw [frame j (by omega), List.getElem?_set_ne (by omega)]
    · -- the writes behind leave the first code as it was written
      refine .cons ?_ row
      rw [frame i (by omega), List.getElem?_set_self within]

/-- **A row is read, or there is a first offset at which reading fails**, behind a row that is
    read. -/
theorem row_or_fails (buffer : Buffer) (count : Nat) (offset : Int) :
    (∃ kinds, Row buffer offset kinds ∧ kinds.length = count) ∨
      ∃ kinds error, Row buffer offset kinds ∧ kinds.length < count ∧
        Fails buffer (offset + kinds.length) error ∧
          readRow buffer count (.ofInt offset) = .error error := by
  induction count generalizing offset with
  | zero => exact Or.inl ⟨[], .nil, rfl⟩
  | succ count ih =>
    rcases code_or_fails buffer offset with ⟨i, kind, rfl, code⟩ | ⟨error, fails⟩
    · rcases ih (i + 1) with ⟨kinds, row, hlength⟩ | ⟨kinds, error, row, short, fails, stops⟩
      · exact Or.inl ⟨kind :: kinds, .cons code row, by rw [List.length_cons, hlength]⟩
      · refine Or.inr ⟨kind :: kinds, error, .cons code row, Nat.succ_lt_succ short, ?_, ?_⟩
        · rw [add_length_cons]
          exact fails
        · rw [readRow, read_eq_ok code]
          show (readRow buffer count _ >>= _) = _
          rw [stops]
          rfl
    · refine Or.inr ⟨[], error, .nil, Nat.succ_pos count, ?_, ?_⟩
      · simpa using fails
      · rw [readRow, fails.read_eq]
        rfl

/-- **Writing and reading rows of page kinds are inverse**, from any whole offset on.  A row that is
    written within a buffer is read back, and the bytes before and behind it are as they were.
    A row that is read changes nothing if it is written back; otherwise reading stops at the first
    offset that lies outside the buffer or has a byte that is no code.  A write that fails leaves
    the buffer as it was. -/
theorem rows_inverse (buffer : Buffer) (offset : Int) :
    (∀ kinds : List PageKind, 0 ≤ offset → offset + kinds.length ≤ buffer.length →
      ∃ buffer', (writeRow kinds (.ofInt offset)).run buffer =
          .ok (.ofInt (offset + kinds.length)) buffer' ∧
        buffer'.length = buffer.length ∧
        (∀ j : Nat, j < offset ∨ offset + kinds.length ≤ j → buffer'[j]? = buffer[j]?) ∧
        readRow buffer' kinds.length (.ofInt offset) =
          .ok (kinds, .ofInt (offset + kinds.length))) ∧
    (∀ count : Nat,
      (∃ kinds, kinds.length = count ∧
        readRow buffer count (.ofInt offset) = .ok (kinds, .ofInt (offset + count)) ∧
        (writeRow kinds (.ofInt offset)).run buffer = .ok (.ofInt (offset + count)) buffer) ∨
      ∃ before < count, ∃ kinds error,
        readRow buffer before (.ofInt offset) = .ok (kinds, .ofInt (offset + before)) ∧
        Fails buffer (offset + before) error ∧
        readRow buffer count (.ofInt offset) = .error error) ∧
    ∀ (kind : PageKind) (place : Number) (error : CatalogError) (buffer' : Buffer),
      (kind.write place).run buffer = .error error buffer' → buffer' = buffer := by
  refine ⟨?_, ?_, ?_⟩
  · intro kinds nonneg room
    obtain ⟨i, rfl⟩ := Int.eq_ofNat_of_zero_le nonneg
    have room' : i + kinds.length ≤ buffer.length := by omega
    obtain ⟨buffer', hrun, hlength, frame, row⟩ := exists_row_of_writeRow room'
    refine ⟨buffer', hrun, hlength, ?_, row.read⟩
    intro j outside
    exact frame j (by omega)
  · intro count
    rcases row_or_fails buffer count offset with ⟨kinds, row, rfl⟩ | stopped
    · exact Or.inl ⟨kinds, rfl, row.read, row.write_back⟩
    · obtain ⟨kinds, error, row, short, fails, stops⟩ := stopped
      exact Or.inr ⟨kinds.length, short, kinds, error, row.read, fails, stops⟩
  · intro kind place error buffer' h
    rw [run_write] at h
    split at h
    · contradiction
    · cases h
      rfl

/-- Two kinds are written in the middle of a buffer whose other bytes are no codes. -/
theorem rows_inverse_between : ∃ buffer',
    (writeRow [.leaf .device, .leaf .measurement] (.ofInt 1)).run [9, 9, 9, 7] =
        .ok (.ofInt 3) buffer' ∧
      buffer'[0]? = some 9 ∧ buffer'[3]? = some 7 ∧
        readRow buffer' 2 (.ofInt 1) = .ok ([.leaf .device, .leaf .measurement], .ofInt 3) := by
  obtain ⟨inverse, -, -⟩ := rows_inverse [9, 9, 9, 7] 1
  obtain ⟨buffer', hrun, -, frame, hread⟩ :=
    inverse [.leaf .device, .leaf .measurement] (by decide) (by decide)
  exact ⟨buffer', hrun, frame 0 (by decide), frame 3 (by decide), hread⟩

end PageKind

end SeriesCatalog
