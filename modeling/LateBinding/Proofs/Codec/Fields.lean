import LateBinding.Binary.Writer
import Mathlib.Algebra.Ring.Nat

/-!
# Reading what was written

A reader and the bytes that a value was written as *answer* each other when the reader takes exactly
these bytes and gives the value, whatever follows them. One kind of value can be written but not
read: a protocol that inherits through too many levels. So the answer comes with a condition on the
value, and a value that does not meet it is refused as nested too deeply, also with anything behind
it. Both parts compose along the fields of a record and along the elements of a list.

A written length has 32 bits. All bounds are taken from the number of bytes that were written: fewer
than `2 ^ 32` bytes leave no room for a longer string or list, nor for a string whose length is the
mark of an absent one.
-/

namespace LateBinding

theorem ofLittleEndian_littleEndian (width n : Nat) :
    ofLittleEndian (littleEndian width n) = n % 256 ^ width := by
  induction width generalizing n with
  | zero => simp [littleEndian, ofLittleEndian, Nat.mod_one]
  | succ width ih =>
    have byte : (UInt8.ofNat (n % 256)).toNat = n % 256 := by simp
    rw [littleEndian, ofLittleEndian, ih, byte, Nat.pow_succ, Nat.mul_comm (256 ^ width) 256,
      Nat.mod_mul]

theorem ofLittleEndian_lt (bytes : List UInt8) : ofLittleEndian bytes < 256 ^ bytes.length := by
  induction bytes with
  | nil => simp [ofLittleEndian]
  | cons byte rest ih =>
    have small := byte.toNat_lt
    simp only [ofLittleEndian, List.length_cons, Nat.pow_succ]
    omega

/-- The bytes that a 32-bit length can count. -/
abbrev Countable (bytes : List UInt8) : Prop := bytes.length < 2 ^ 32

namespace Decode

variable {α β : Type}

/-- The reader takes the bytes and gives the value, whatever follows. -/
def Takes (read : Decode α) (bytes : List UInt8) (value : α) : Prop :=
  ∀ rest position,
    read ⟨bytes ++ rest, position⟩ = .ok value ⟨rest, position + bytes.length⟩

/-- The reader finds the bytes nested too deeply, whatever follows. -/
def RefusesDepth (read : Decode α) (bytes : List UInt8) : Prop :=
  ∀ rest position, ∃ offset reader,
    read ⟨bytes ++ rest, position⟩ = .error (.nestedTooDeeply offset) reader

/-- The reader gives the value if it fits, and finds it nested too deeply otherwise. -/
structure Answers (read : Decode α) (bytes : List UInt8) (fits : Prop) (value : α) : Prop where
  takes : fits → read.Takes bytes value
  refuses : ¬ fits → read.RefusesDepth bytes

/-- The reader gives back whatever countable bytes were written for. -/
def Inverts (read : Decode α) (write : α → List UInt8) (fits : α → Prop) : Prop :=
  ∀ value, Countable (write value) → read.Answers (write value) (fits value) value

/-! ### Composition -/

theorem Takes.pure (value : α) : (Pure.pure value : Decode α).Takes [] value := by
  intro rest position
  simp [Pure.pure, EStateM.pure]

theorem Takes.bind {read : Decode α} {next : α → Decode β} {front back : List UInt8} {value : α}
    {result : β} (first : read.Takes front value) (second : (next value).Takes back result) :
    (read >>= next).Takes (front ++ back) result := by
  intro rest position
  have hfirst := first (back ++ rest) position
  have hsecond := second rest (position + front.length)
  simp only [Bind.bind, EStateM.bind, List.append_assoc, hfirst, hsecond, List.length_append,
    Nat.add_assoc]

theorem Takes.map {read : Decode α} {bytes : List UInt8} {value : α} (f : α → β)
    (taken : read.Takes bytes value) : (f <$> read).Takes bytes (f value) := by
  intro rest position
  simp only [Functor.map, EStateM.map, taken rest position]

theorem Takes.bind_pure {read : Decode α} {bytes : List UInt8} {value : α} (f : α → β)
    (taken : read.Takes bytes value) :
    (read >>= fun value => Pure.pure (f value)).Takes bytes (f value) := by
  have h : (read >>= fun value => Pure.pure (f value)).Takes (bytes ++ []) (f value) :=
    taken.bind (Takes.pure (f value))
  rw [List.append_nil] at h
  exact h

theorem Takes.answers {read : Decode α} {bytes : List UInt8} {value : α}
    (taken : read.Takes bytes value) : read.Answers bytes True value :=
  ⟨fun _ => taken, fun h => absurd trivial h⟩

theorem Answers.congr {read : Decode α} {bytes : List UInt8} {fits fits' : Prop} {value : α}
    (answered : read.Answers bytes fits value) (same : fits ↔ fits') :
    read.Answers bytes fits' value := by
  rw [← propext same]
  exact answered

theorem Answers.bind {read : Decode α} {next : α → Decode β} {front back : List UInt8}
    {fits fits' : Prop} {value : α} {result : β} (first : read.Answers front fits value)
    (second : (next value).Answers back fits' result) :
    (read >>= next).Answers (front ++ back) (fits ∧ fits') result := by
  constructor
  · intro h
    exact (first.takes h.1).bind (second.takes h.2)
  · intro h rest position
    by_cases hfits : fits
    · have hsecond : ¬ fits' := fun h' => h ⟨hfits, h'⟩
      obtain ⟨offset, reader, hread⟩ :=
        second.refuses hsecond rest (position + front.length)
      refine ⟨offset, reader, ?_⟩
      simp only [Bind.bind, EStateM.bind, List.append_assoc,
        first.takes hfits (back ++ rest) position, hread]
    · obtain ⟨offset, reader, hread⟩ := first.refuses hfits (back ++ rest) position
      refine ⟨offset, reader, ?_⟩
      simp only [Bind.bind, EStateM.bind, List.append_assoc, hread]

theorem Answers.bind_pure {read : Decode α} {bytes : List UInt8} {fits : Prop} {value : α}
    (f : α → β) (answered : read.Answers bytes fits value) :
    (read >>= fun value => Pure.pure (f value)).Answers bytes fits (f value) := by
  have h : (read >>= fun value => Pure.pure (f value)).Answers (bytes ++ []) (fits ∧ True)
      (f value) :=
    answered.bind (Takes.pure (f value)).answers
  rw [List.append_nil] at h
  exact h.congr (and_iff_left trivial)

/-! ### Fields of fixed width -/

theorem takes_bytes (bytes : List UInt8) : (Decode.bytes bytes.length).Takes bytes bytes := by
  intro rest position
  have henough : hasAtLeast bytes.length (bytes ++ rest) = true := by
    rw [hasAtLeast_iff, List.length_append]
    omega
  simp [Decode.bytes, henough]

theorem takes_number (width n : Nat) (h : n < 256 ^ width) :
    (Decode.number width).Takes (littleEndian width n) n := by
  have hbytes := takes_bytes (littleEndian width n)
  rw [length_littleEndian] at hbytes
  have hnumber := hbytes.map ofLittleEndian
  rw [ofLittleEndian_littleEndian, Nat.mod_eq_of_lt h] at hnumber
  exact hnumber

theorem takes_u8 (value : UInt8) : Decode.u8.Takes (Encode.u8 value) value := by
  have h := (takes_number 1 value.toNat value.toNat_lt).map UInt8.ofNat
  have hbytes : littleEndian 1 value.toNat = Encode.u8 value := by
    have hsmall := value.toNat_lt
    simp [littleEndian, Encode.u8, Nat.mod_eq_of_lt hsmall]
  rw [hbytes, UInt8.ofNat_toNat] at h
  exact h

theorem takes_u32 (value : UInt32) : Decode.u32.Takes (Encode.u32 value) value := by
  have h := (takes_number 4 value.toNat value.toNat_lt).map UInt32.ofNat
  rw [UInt32.ofNat_toNat] at h
  exact h

theorem takes_i64 (value : Int64) : Decode.i64.Takes (Encode.i64 value) value := by
  have h := (takes_number 8 value.toUInt64.toNat value.toUInt64.toNat_lt).map
    fun n => (UInt64.ofNat n).toInt64
  simp only [UInt64.ofNat_toNat] at h
  exact h

theorem takes_f64 (value : Binary64) : Decode.f64.Takes (Encode.f64 value) value := by
  have h := (takes_number 8 value.bits.toNat value.bits.toNat_lt).map
    fun n => (⟨UInt64.ofNat n⟩ : Binary64)
  simp only [UInt64.ofNat_toNat] at h
  exact h

/-! ### Strings -/

theorem length_string (text : String) :
    (Encode.string text).length = 4 + text.utf8ByteSize := by
  simp only [Encode.string, List.length_append, Encode.length_count, Array.length_toList]
  rfl

theorem fromUTF8?_toUTF8 (text : String) : String.fromUTF8? text.toUTF8 = some text := by
  simp only [String.fromUTF8?, String.toUTF8_eq_toByteArray, dif_pos text.isValidUTF8]
  rfl

theorem takes_textOf (text : String) :
    (Decode.textOf text.utf8ByteSize).Takes text.toUTF8.data.toList text := by
  intro rest position
  have hlength : text.toUTF8.data.toList.length = text.utf8ByteSize := by
    rw [Array.length_toList]
    rfl
  have hbytes := takes_bytes text.toUTF8.data.toList rest position
  rw [hlength] at hbytes
  have hutf8 : text.toUTF8.data.toList.toByteArray = text.toUTF8 := by
    apply ByteArray.ext
    simp [List.data_toByteArray]
  simp only [Decode.textOf, Decode.position, Bind.bind, EStateM.bind, hbytes, hutf8,
    fromUTF8?_toUTF8, Pure.pure, EStateM.pure, hlength]

theorem takes_string_of_lt (text : String) (h : text.utf8ByteSize < 2 ^ 32) :
    Decode.string.Takes (Encode.string text) text :=
  (takes_number 4 text.utf8ByteSize h).bind (takes_textOf text)

theorem takes_string (text : String) (h : Countable (Encode.string text)) :
    Decode.string.Takes (Encode.string text) text := by
  apply takes_string_of_lt
  rw [Countable, length_string] at h
  omega

theorem takes_optString_of_lt (text : Option String)
    (h : ∀ found ∈ text, found.utf8ByteSize < absentLength) :
    Decode.optString.Takes (Encode.optString text) text := by
  cases text with
  | none =>
    have hmark := takes_number 4 absentLength (by decide)
    intro rest position
    simp only [Decode.optString, Encode.optString, Encode.count, Bind.bind, EStateM.bind,
      hmark rest position, if_true, Pure.pure, EStateM.pure]
  | some text =>
    have hsize : text.utf8ByteSize < absentLength := h text rfl
    have hnumber : text.utf8ByteSize < 256 ^ 4 := by
      simp only [absentLength] at hsize
      omega
    have hbody : (if text.utf8ByteSize = absentLength then Pure.pure none
        else return some (← Decode.textOf text.utf8ByteSize)).Takes
          text.toUTF8.data.toList (some text) := by
      rw [if_neg (Nat.ne_of_lt hsize)]
      exact (takes_textOf text).bind_pure some
    exact (takes_number 4 text.utf8ByteSize hnumber).bind hbody

/-- A string of countable bytes is shorter than the mark of an absent one says. -/
theorem takes_optString (text : Option String) (h : Countable (Encode.optString text)) :
    Decode.optString.Takes (Encode.optString text) text := by
  apply takes_optString_of_lt
  intro found hfound
  cases hfound
  simp only [Encode.optString, Countable, length_string] at h
  simp only [absentLength]
  omega

/-! ### Lists -/

/-- Elements that take at least one byte each are no more than their bytes. -/
theorem length_le_flatMap {write : α → List UInt8} (hpos : ∀ value, 0 < (write value).length)
    (values : List α) : values.length ≤ (values.flatMap write).length := by
  induction values with
  | nil => simp
  | cons value rest ih =>
    have hvalue := hpos value
    simp only [List.flatMap_cons, List.length_cons, List.length_append]
    omega

theorem answers_many {read : Decode α} {write : α → List UInt8} {fits : α → Prop}
    (element : read.Inverts write fits) (values : List α)
    (h : Countable (values.flatMap write)) :
    (Decode.many read values.length).Answers (values.flatMap write) (∀ value ∈ values, fits value)
      values := by
  induction values with
  | nil => exact (Takes.pure []).answers.congr (by simp)
  | cons value rest ih =>
    have hsplit : (write value).length + (rest.flatMap write).length < 2 ^ 32 := by
      rw [← List.length_append, ← List.flatMap_cons]
      exact h
    have hvalue := element value (by rw [Countable]; omega)
    have hrest := ih (by rw [Countable]; omega)
    have hboth : (Decode.many read (rest.length + 1)).Answers (write value ++ rest.flatMap write)
        (fits value ∧ ∀ value ∈ rest, fits value) (value :: rest) :=
      hvalue.bind (hrest.bind_pure (value :: ·))
    exact hboth.congr (by simp)

/-- A number of elements is taken where as many bytes follow it. -/
theorem count_eq_ok {announced : Nat} {rest : List UInt8} (hsmall : announced < 2 ^ 32)
    (hroom : announced ≤ rest.length) (position : Nat) :
    Decode.count ⟨Encode.count announced ++ rest, position⟩ =
      .ok announced ⟨rest, position + 4⟩ := by
  have hnumber := takes_number 4 announced hsmall rest position
  have hroom : hasAtLeast announced rest = true := (hasAtLeast_iff _ _).mpr hroom
  rw [length_littleEndian] at hnumber
  have hget : ∀ reader : Reader, (get : Decode Reader) reader = .ok reader reader := fun _ => rfl
  simp only [Decode.count, Decode.position, Encode.count, Bind.bind, EStateM.bind, hnumber, hget,
    hroom, if_true, Pure.pure, EStateM.pure]

/-- The number in front of a list is never beyond the bytes that follow it. -/
theorem inverts_list {read : Decode α} {write : α → List UInt8} {fits : α → Prop}
    (element : read.Inverts write fits) (hpos : ∀ value, 0 < (write value).length) :
    (Decode.list read).Inverts (Encode.list write) (fun values => ∀ value ∈ values, fits value) := by
  intro values h
  have hfew := length_le_flatMap hpos values
  have hlength : (Encode.list write values).length = 4 + (values.flatMap write).length := by
    simp [Encode.list, Encode.count]
  have hmany := answers_many element values (by rw [Countable] at h ⊢; omega)
  have hcount : ∀ rest position,
      Decode.count ⟨Encode.list write values ++ rest, position⟩ =
        .ok values.length ⟨values.flatMap write ++ rest, position + 4⟩ := by
    intro rest position
    rw [Encode.list, List.append_assoc]
    apply count_eq_ok
    · rw [Countable] at h
      omega
    · rw [List.length_append]
      omega
  constructor
  · intro hfits rest position
    have hread := hmany.takes hfits rest (position + 4)
    simp only [Decode.list, Bind.bind, EStateM.bind, hcount, hread, hlength, Nat.add_assoc]
  · intro hfits rest position
    obtain ⟨offset, reader, hread⟩ := hmany.refuses hfits rest (position + 4)
    refine ⟨offset, reader, ?_⟩
    simp only [Decode.list, Bind.bind, EStateM.bind, hcount, hread]

end Decode

end LateBinding
