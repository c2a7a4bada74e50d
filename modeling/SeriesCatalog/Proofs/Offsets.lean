/-
  Series catalog — page kinds at any offset.

  The range check refuses what lies outside a buffer.  It passes fractions within
  the range, and what is no number, since neither comparison is true of that; no
  byte stands at such an offset, so that nothing is written and nothing is found.

  * `Buffer.Astray`: the offsets that pass the check and are those of no byte;
  * `Buffer.offset_cases`: an offset is refused, or that of a byte, or astray;
  * `PageKind.stored_iff`: what a write answers is true, and what a read blames is
    there, exactly where the offset is not astray.
-/
import SeriesCatalog.Proofs.KindRows

namespace SeriesCatalog

variable {length : Nat} {offset : Number} {buffer : Buffer}

/-! ## Offsets -/

namespace Buffer

/-- The offsets that pass the range check of a buffer and are those of no byte. -/
inductive Astray (length : Nat) : Number → Prop
  /-- Of what is no number, neither comparison of the check is true. -/
  | nan : Astray length .nan
  /-- A fraction, if the offset behind it is not beyond the end; that offset is rounded. -/
  | fraction {value : Rat} : value.isInt = false → 0 ≤ value →
      (Number.nearest (value + 1)).exceeds length = false → Astray length (.finite value)

theorem Astray.hasRoom (h : Astray length offset) : Buffer.hasRoom length offset = true := by
  cases h with
  | nan => rfl
  | fraction part nonneg within =>
    rw [Buffer.hasRoom, Number.next, part, if_neg Bool.false_ne_true, within, Number.isNegative,
      decide_eq_false (Rat.not_lt.2 nonneg)]
    rfl

theorem Astray.toNat?_eq (h : Astray length offset) : offset.toNat? = none := by
  cases h with
  | nan => rfl
  | fraction part =>
    rw [Number.toNat?, Number.toInt?, part]
    rfl

theorem Astray.byteAt?_eq (h : Astray buffer.length offset) : buffer.byteAt? offset = none := by
  rw [byteAt?, h.toNat?_eq]
  rfl

/-- **An offset is refused, or that of a byte, or astray.** -/
theorem offset_cases (length : Nat) (offset : Number) :
    Buffer.hasRoom length offset = false ∨ (∃ i < length, offset = .ofInt i) ∨
      Astray length offset := by
  by_cases refused : Buffer.hasRoom length offset = false
  · exact Or.inl refused
  · refine Or.inr ?_
    rw [Bool.not_eq_false] at refused
    cases offset with
    | nan => exact Or.inr .nan
    | infinite negative => cases negative <;> contradiction
    | finite value =>
      -- a whole number that passes the check lies in the range
      by_cases whole : value.isInt = true
      · have same : Number.finite value = .ofInt value.num :=
          Number.toInt?_eq_some_iff.1 (if_pos whole)
        rw [same] at refused ⊢
        obtain ⟨nonneg, within⟩ := hasRoom_ofInt.1 refused
        obtain ⟨i, hi⟩ := Int.eq_ofNat_of_zero_le nonneg
        rw [hi] at within ⊢
        exact Or.inl ⟨i, by omega, rfl⟩
      · rw [Bool.not_eq_true] at whole
        rw [Buffer.hasRoom, Number.next, whole, Bool.and_eq_true, Bool.not_eq_true',
          Bool.not_eq_true', Number.isNegative, decide_eq_false_iff_not, Rat.not_lt] at refused
        exact Or.inr (.fraction whole refused.1 refused.2)

end Buffer

namespace PageKind

variable {kind : PageKind}

/-! ## One page kind at any offset -/

theorem run_write_of_refused (h : Buffer.hasRoom buffer.length offset = false) :
    (kind.write offset).run buffer =
      .error (.incompleteData (.noRoom offset buffer.length)) buffer := by
  rw [run_write, if_neg (by simp [h])]

theorem read_of_refused (h : Buffer.hasRoom buffer.length offset = false) :
    read buffer offset = .error (.incompleteData (.truncated offset buffer.length)) := by
  rw [read, if_neg (by simp [h])]

theorem run_write_of_astray (h : Buffer.Astray buffer.length offset) :
    (kind.write offset).run buffer = .ok offset.next buffer := by
  rw [run_write, if_pos h.hasRoom, h.toNat?_eq]
  rfl

theorem read_of_astray (h : Buffer.Astray buffer.length offset) :
    read buffer offset = .error (.invalidEncoding none) := by
  rw [read, if_pos h.hasRoom, h.byteAt?_eq]

/-- **A page kind that is written at a byte is read there.** -/
theorem read_written {i : Nat} (within : i < buffer.length) :
    read (buffer.set i kind.toByte) (.ofInt i) = .ok (kind, .ofInt (i + 1)) :=
  read_eq_ok (List.getElem?_set_self within)

theorem foreign_of_read {i : Nat} {byte : Option Number}
    (h : read buffer (.ofInt i) = .error (.invalidEncoding byte)) :
    ∃ found, buffer.byteAt? (.ofInt i) = some found ∧ 3 < found ∧
      byte = some (.ofNat found.toNat) := by
  rw [byteAt?_ofInt]
  rcases code_or_fails buffer i with ⟨j, kind, same, code⟩ | ⟨error, fails⟩
  · obtain rfl := Int.ofNat.inj same
    rw [read_eq_ok code] at h
    contradiction
  · rw [fails.read_eq] at h
    obtain rfl := Except.error.inj h
    generalize hi : (i : Int) = place at fails
    cases fails with
    | @foreign j found code foreign =>
      obtain rfl := Int.ofNat.inj hi
      exact ⟨found, code, foreign, rfl⟩

/-- **A write that answers has stored the kind, and a read blames only a byte that is there**, at
    every offset that is not astray.  A write is refused for want of room and leaves the buffer as
    it was, or answers with the offset behind the kind, which is then read back; a byte that is
    blamed stands at the offset and is no code.  Astray, a write answers and leaves the buffer as it
    was, and a read blames a byte that does not exist. -/
theorem stored_iff (kind : PageKind) (buffer : Buffer) (offset : Number) :
    (((kind.write offset).run buffer =
          .error (.incompleteData (.noRoom offset buffer.length)) buffer ∨
        ∃ buffer', (kind.write offset).run buffer = .ok offset.next buffer' ∧
          read buffer' offset = .ok (kind, offset.next)) ↔
      ¬ Buffer.Astray buffer.length offset) ∧
    ((∀ byte, read buffer offset = .error (.invalidEncoding byte) →
        ∃ found, buffer.byteAt? offset = some found ∧ 3 < found ∧
          byte = some (.ofNat found.toNat)) ↔
      ¬ Buffer.Astray buffer.length offset) ∧
    (Buffer.Astray buffer.length offset →
      (kind.write offset).run buffer = .ok offset.next buffer ∧
        read buffer offset = .error (.invalidEncoding none)) := by
  refine ⟨⟨?_, fun aimed => ?_⟩, ⟨?_, fun aimed byte blamed => ?_⟩, fun astray => ?_⟩
  · intro stored astray
    rw [run_write_of_astray astray] at stored
    rcases stored with refused | ⟨buffer', same, found⟩
    · contradiction
    · obtain ⟨-, rfl⟩ := EStateM.Result.ok.inj same
      rw [read_of_astray astray] at found
      contradiction
  · rcases Buffer.offset_cases buffer.length offset with refused | ⟨i, within, rfl⟩ | astray
    · exact Or.inl (run_write_of_refused refused)
    · refine Or.inr ⟨buffer.set i kind.toByte, ?_, ?_⟩
      · rw [run_write_ofInt within, Number.next_ofInt]
      · rw [read_written within, Number.next_ofInt]
    · contradiction
  · intro blames astray
    obtain ⟨found, stands, -⟩ := blames none (read_of_astray astray)
    rw [astray.byteAt?_eq] at stands
    contradiction
  · rcases Buffer.offset_cases buffer.length offset with refused | ⟨i, -, rfl⟩ | astray
    · rw [read_of_refused refused] at blamed
      cases blamed
    · exact foreign_of_read blamed
    · contradiction
  · exact ⟨run_write_of_astray astray, read_of_astray astray⟩

/-- The second byte of a buffer is written and read back. -/
theorem stored_at_byte : ¬ Buffer.Astray 2 (.ofInt 1) ∧
    ∃ buffer', ((leaf .device).write (.ofInt 1)).run [9, 9] = .ok (.ofInt 2) buffer' ∧
      read buffer' (.ofInt 1) = .ok (.leaf .device, .ofInt 2) := by
  have aimed : ¬ Buffer.Astray 2 (.ofInt 1) := by
    rintro (_ | ⟨part, -, -⟩)
    contradiction
  obtain ⟨⟨-, stored⟩, -, -⟩ := stored_iff (.leaf .device) [9, 9] (.ofInt 1)
  rcases stored aimed with refused | stored
  · rw [run_write, if_pos (Buffer.hasRoom_ofInt.2 ⟨by decide, by decide⟩)] at refused
    contradiction
  · rw [Number.next_ofInt] at stored
    exact ⟨aimed, stored⟩

/-- Half a byte into a buffer, a write answers although nothing was written, and a read blames a
    byte that does not exist. -/
theorem unstored_at_fraction : ((leaf .device).write (.finite (1 / 2))).run [9, 9] =
      .ok (.finite (3 / 2)) [9, 9] ∧
    read [9, 9] (.finite (1 / 2)) = .error (.invalidEncoding none) := by
  have half : Buffer.Astray ([9, 9] : Buffer).length (.finite (1 / 2)) := by
    refine .fraction ?_ ?_ ?_ <;> decide +kernel
  have next : (Number.finite (1 / 2)).next = .finite (3 / 2) := by decide +kernel
  refine ⟨?_, read_of_astray half⟩
  rw [run_write_of_astray half, next]

end PageKind

end SeriesCatalog
