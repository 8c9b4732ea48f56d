import LateBinding.Proofs.Codec.Rewriting
import LateBinding.Proofs.Codec.Units

/-!
# The frame of a unit

The header of a unit is five fields of four bytes. A unit is decoded by checking them one after the
other, and by reading what follows them.
-/

namespace LateBinding

namespace Decode

theorem takes_number_of_length {width : Nat} {bytes : List UInt8} (h : bytes.length = width) :
    (Decode.number width).Takes bytes (ofLittleEndian bytes) := by
  subst h
  exact (takes_bytes bytes).map ofLittleEndian

theorem takes_u32_of_length {bytes : List UInt8} (h : bytes.length = 4) :
    Decode.u32.Takes bytes (UInt32.ofNat (ofLittleEndian bytes)) :=
  (takes_number_of_length h).map UInt32.ofNat

end Decode

namespace LoadUnit

open Decode

/-- One of the five fields of the header. -/
def headerField (bytes : List UInt8) (index : Nat) : List UInt8 := (bytes.drop (4 * index)).take 4

/-- The number in a field of the header. -/
def headerWord (bytes : List UInt8) (index : Nat) : UInt32 :=
  UInt32.ofNat (ofLittleEndian (headerField bytes index))

def flagsWord (bytes : List UInt8) : UInt32 := headerWord bytes 2

theorem length_headerField {bytes : List UInt8} (h : headerLength ≤ bytes.length) {index : Nat}
    (hindex : index < 5) : (headerField bytes index).length = 4 := by
  have htwenty : 20 ≤ bytes.length := h
  rw [headerField, List.length_take, List.length_drop]
  omega

/-- The fields of the header and the rest are all that there is. -/
theorem eq_fields_append (bytes : List UInt8) :
    headerField bytes 0 ++ (headerField bytes 1 ++ (headerField bytes 2 ++
      (headerField bytes 3 ++ (headerField bytes 4 ++ bytes.drop headerLength)))) = bytes := by
  have hsplit : ∀ index, headerField bytes index ++ bytes.drop (4 * (index + 1)) =
      bytes.drop (4 * index) := by
    intro index
    rw [headerField, Nat.mul_succ, ← List.drop_drop, List.take_append_drop]
  have hlast : headerField bytes 4 ++ bytes.drop headerLength = bytes.drop 16 := hsplit 4
  rw [hlast, hsplit 3, hsplit 2, hsplit 1, hsplit 0]
  rfl

theorem decodeRest_eq_ok_iff {version flags : UInt32} {payload : List UInt8} {unit : LoadUnit} :
    decodeRest version flags payload = .ok unit ↔ ∃ position,
      decodePayload version flags ⟨payload, headerLength⟩ = .ok unit ⟨[], position⟩ := by
  unfold decodeRest
  cases decodePayload version flags ⟨payload, headerLength⟩ with
  | ok found reader =>
    obtain ⟨rest, position⟩ := reader
    by_cases hrest : rest = [] <;> simp [hrest]
  | error error reader => simp

/-- A header that is not cut short is judged field by field before the payload is read. -/
theorem decode_eq {bytes : List UInt8} (h : headerLength ≤ bytes.length) :
    decode bytes =
      if headerField bytes 0 ≠ magic then .error (.invalidMagic (headerField bytes 0))
      else if headerWord bytes 1 ≠ currentVersion then
        .error (.unsupportedVersion (headerWord bytes 1))
      else if ofLittleEndian (headerField bytes 3) ≠ (bytes.drop headerLength).length then
        .error (.lengthMismatch (ofLittleEndian (headerField bytes 3))
          (bytes.drop headerLength).length)
      else if crc32 (bytes.drop headerLength) ≠ headerWord bytes 4 then
        .error (.checksumMismatch (headerWord bytes 4) (crc32 (bytes.drop headerLength)))
      else decodeRest (headerWord bytes 1) (flagsWord bytes) (bytes.drop headerLength) := by
  have hheader : decodeHeader.run (Reader.of bytes) =
      if headerField bytes 0 ≠ magic then .error (.invalidMagic (headerField bytes 0))
      else if headerWord bytes 1 ≠ currentVersion then
        .error (.unsupportedVersion (headerWord bytes 1))
      else .ok ((headerWord bytes 1, flagsWord bytes, ofLittleEndian (headerField bytes 3),
        headerWord bytes 4), ⟨bytes.drop headerLength, headerLength⟩) := by
    have hlength {index : Nat} (hindex : index < 5) := length_headerField h hindex
    have hmark := takes_bytes (headerField bytes 0)
    rw [hlength (by decide)] at hmark
    have hword {index : Nat} (hindex : index < 5) :
        ReadsField Decode.u32 (headerField bytes index) (headerWord bytes index) :=
      readsField_of_takes (takes_u32_of_length (hlength hindex)) (hlength hindex)
    have hdeclared := hlength (show 3 < 5 by decide)
    have hfields := run_fields (bytes.drop headerLength)
      (readsField_of_takes hmark (hlength (by decide))) (hword (show 1 < 5 by decide))
      (hword (show 2 < 5 by decide))
      (readsField_of_takes (takes_number_of_length hdeclared) hdeclared)
      (hword (show 4 < 5 by decide))
    rw [eq_fields_append] at hfields
    exact hfields
  by_cases hmagic : headerField bytes 0 = magic
  · rw [if_neg (not_not_intro hmagic)] at hheader ⊢
    by_cases hversion : headerWord bytes 1 = currentVersion
    · rw [if_neg (not_not_intro hversion)] at hheader ⊢
      exact decode_of_header hheader
    · rw [if_pos hversion] at hheader ⊢
      exact decode_of_header_error hheader
  · rw [if_pos hmagic] at hheader ⊢
    exact decode_of_header_error hheader

theorem run_bind_eq_ok_iff {α β : Type} {first : StateT Reader (Except UnitError) α}
    {next : α → StateT Reader (Except UnitError) β} {start : Reader} {answer : β × Reader} :
    (first >>= next).run start = .ok answer ↔ ∃ value middle,
      first.run start = .ok (value, middle) ∧ (next value).run middle = .ok answer := by
  change (first.run start >>= fun pair => (next pair.1).run pair.2) = _ ↔ _
  cases first.run start with
  | error error => simp [Bind.bind, Except.bind]
  | ok pair =>
    obtain ⟨value, middle⟩ := pair
    constructor
    · intro h
      exact ⟨value, middle, rfl, h⟩
    · rintro ⟨_, _, hfirst, h⟩
      cases hfirst
      exact h

theorem reading_eq_ok_iff {α : Type} {read : Decode α} {start final : Reader} {value : α} :
    (reading read).run start = .ok (value, final) ↔ read start = .ok value final := by
  change reading read start = _ ↔ _
  unfold reading
  cases read start <;> simp

theorem length_of_number {width n : Nat} {start final : Reader}
    (hread : Decode.number width start = .ok n final) :
    start.rest.length = width + final.rest.length := by
  rw [(rest_of_number hread).1, List.length_append, length_littleEndian]

theorem length_of_u32 {n : UInt32} {start final : Reader} (hread : Decode.u32 start = .ok n final) :
    start.rest.length = 4 + final.rest.length := by
  obtain ⟨number, hnumber, -⟩ := map_eq_ok_iff.mp hread
  exact length_of_number hnumber

/-- A header that is cut short is not accepted. -/
theorem headerLength_le {bytes : List UInt8} {unit : LoadUnit}
    (accepted : decode bytes = .ok unit) :
    headerLength ≤ bytes.length := by
  cases hheader : decodeHeader.run (Reader.of bytes) with
  | error error =>
    rw [decode_of_header_error hheader] at accepted
    cases accepted
  | ok header =>
    obtain ⟨mark, afterMark, hmark, hheader⟩ := run_bind_eq_ok_iff.mp hheader
    split at hheader
    · cases hheader
    obtain ⟨version, afterVersion, hversion, hheader⟩ := run_bind_eq_ok_iff.mp hheader
    split at hheader
    · cases hheader
    obtain ⟨flags, afterFlags, hflags, hheader⟩ := run_bind_eq_ok_iff.mp hheader
    obtain ⟨declared, afterDeclared, hdeclared, hheader⟩ := run_bind_eq_ok_iff.mp hheader
    obtain ⟨checksum, afterChecksum, hchecksum, -⟩ := run_bind_eq_ok_iff.mp hheader
    rw [reading_eq_ok_iff] at hmark hversion hflags hdeclared hchecksum
    have hlengths := congrArg List.length (restores_bytes 4 _ _ _ hmark)
    rw [List.length_append, id, length_of_bytes hmark, length_of_u32 hversion,
      length_of_u32 hflags, length_of_number hdeclared, length_of_u32 hchecksum] at hlengths
    change 20 ≤ (Reader.of bytes).rest.length
    omega

/-- The header is in order: it has the mark and the version, and describes what follows it. -/
structure Headed (bytes : List UInt8) : Prop where
  long : headerLength ≤ bytes.length
  mark : headerField bytes 0 = magic
  version : headerWord bytes 1 = currentVersion
  declared : ofLittleEndian (headerField bytes 3) = (bytes.drop headerLength).length
  checksum : crc32 (bytes.drop headerLength) = headerWord bytes 4

theorem Headed.decode_eq {bytes : List UInt8} (headed : Headed bytes) :
    decode bytes = decodeRest currentVersion (flagsWord bytes) (bytes.drop headerLength) := by
  rw [LoadUnit.decode_eq headed.long, if_neg (not_not_intro headed.mark),
    if_neg (not_not_intro headed.version), if_neg (not_not_intro headed.declared),
    if_neg (not_not_intro headed.checksum), headed.version]

theorem Headed.of_decode {bytes : List UInt8} {unit : LoadUnit}
    (accepted : decode bytes = .ok unit) :
    Headed bytes := by
  have hlong := headerLength_le accepted
  rw [LoadUnit.decode_eq hlong] at accepted
  split at accepted
  · cases accepted
  next hmark =>
    split at accepted
    · cases accepted
    next hversion =>
      split at accepted
      · cases accepted
      next hdeclared =>
        split at accepted
        · cases accepted
        next hchecksum =>
          exact ⟨hlong, not_not.mp hmark, not_not.mp hversion, not_not.mp hdeclared,
            not_not.mp hchecksum⟩

theorem littleEndian_field {field : List UInt8} (h : field.length = 4) :
    littleEndian 4 (ofLittleEndian field) = field := by
  rw [← h]
  exact littleEndian_ofLittleEndian field

theorem encode_headerWord {bytes : List UInt8} {index : Nat}
    (h : (headerField bytes index).length = 4) :
    Encode.u32 (headerWord bytes index) = headerField bytes index := by
  have hsmall := ofLittleEndian_lt (headerField bytes index)
  rw [h] at hsmall
  rw [Encode.u32, headerWord, UInt32.toNat_ofNat_of_lt' (by simpa using hsmall),
    littleEndian_field h]

theorem Headed.eq_header_append {bytes : List UInt8} (headed : Headed bytes) :
    bytes = header currentVersion (flagsWord bytes) (bytes.drop headerLength) ++
      bytes.drop headerLength := by
  have hlength {index : Nat} (hindex : index < 5) := length_headerField headed.long hindex
  have hfields := eq_fields_append bytes
  rw [headed.mark, ← encode_headerWord (hlength (show 1 < 5 by decide)), headed.version,
    ← encode_headerWord (hlength (show 2 < 5 by decide)),
    ← littleEndian_field (hlength (show 3 < 5 by decide)), headed.declared,
    ← encode_headerWord (hlength (show 4 < 5 by decide)), ← headed.checksum] at hfields
  rw [header, Encode.count]
  simp only [List.append_assoc]
  exact hfields.symm

theorem Headed.countable {bytes : List UInt8} (headed : Headed bytes) :
    Countable (bytes.drop headerLength) := by
  have hsmall := ofLittleEndian_lt (headerField bytes 3)
  rw [length_headerField headed.long (by decide), headed.declared] at hsmall
  rw [Countable]
  omega

/-- What is accepted is a header of the current version and flags of its own, followed by a payload
that the header describes and that is read to its end. -/
theorem decode_eq_ok_iff {bytes : List UInt8} {unit : LoadUnit} :
    decode bytes = .ok unit ↔ ∃ flags payload position,
      bytes = header currentVersion flags payload ++ payload ∧ Countable payload ∧
      decodePayload currentVersion flags ⟨payload, headerLength⟩ = .ok unit ⟨[], position⟩ := by
  constructor
  · intro accepted
    have headed := Headed.of_decode accepted
    rw [headed.decode_eq, decodeRest_eq_ok_iff] at accepted
    obtain ⟨position, hread⟩ := accepted
    exact ⟨flagsWord bytes, bytes.drop headerLength, position, headed.eq_header_append,
      headed.countable, hread⟩
  · rintro ⟨flags, payload, position, rfl, hcountable, hread⟩
    have hheader := run_decodeHeader currentVersion flags payload hcountable
    rw [if_neg (not_not_intro rfl)] at hheader
    rw [decode_of_header hheader, if_neg (not_not_intro rfl), if_neg (not_not_intro rfl)]
    exact decodeRest_eq_ok_iff.mpr ⟨position, hread⟩

end LoadUnit

end LateBinding
