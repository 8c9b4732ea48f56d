import LateBinding.Proofs.Codec.Canonical
import LateBinding.Proofs.Codec.Checksum

/-!
# Corrupted units are not accepted

A unit with one byte changed is refused by the check that the byte belongs to. The flags have no
such check, but the payload is read to its end as they say: if constant objects are announced that
are not there, or are there unannounced, that is found out. The other flags mean nothing and may be
anything.

The header says how long a unit is, so no accepted unit is the beginning of another.
-/

namespace LateBinding

/-- One byte of the bytes is another, and that is all. -/
structure DiffersOnlyAt (index : Nat) (bytes other : List UInt8) : Prop where
  length_eq : other.length = bytes.length
  getElem?_ne : other[index]? ≠ bytes[index]?
  getElem?_eq : ∀ place, place ≠ index → other[place]? = bytes[place]?

namespace DiffersOnlyAt

variable {index : Nat} {bytes other : List UInt8}

theorem set {byte : UInt8} (hin : index < bytes.length) (hne : byte ≠ bytes[index]) :
    DiffersOnlyAt index bytes (bytes.set index byte) where
  length_eq := List.length_set
  getElem?_ne := by
    rw [List.getElem?_set_self hin, List.getElem?_eq_getElem hin]
    exact fun h => hne (Option.some.inj h)
  getElem?_eq := fun _ hplace => List.getElem?_set_ne hplace.symm

/-- A stretch of the bytes that leaves out the place is the same. -/
theorem slice_eq (differs : DiffersOnlyAt index bytes other) {start width : Nat}
    (h : index < start ∨ start + width ≤ index) :
    (other.drop start).take width = (bytes.drop start).take width := by
  apply List.ext_getElem?
  intro place
  rw [List.getElem?_take, List.getElem?_take]
  split
  · next hplace =>
    rw [List.getElem?_drop, List.getElem?_drop]
    exact differs.getElem?_eq _ (by omega)
  · rfl

theorem slice_ne (differs : DiffersOnlyAt index bytes other) {start width : Nat}
    (hstart : start ≤ index) (hwidth : index < start + width) :
    (other.drop start).take width ≠ (bytes.drop start).take width := by
  intro h
  have hplace := congrArg (fun bytes => bytes[index - start]?) h
  simp only [List.getElem?_take, List.getElem?_drop] at hplace
  rw [if_pos (by omega), if_pos (by omega), Nat.add_sub_cancel' hstart] at hplace
  exact differs.getElem?_ne hplace

theorem drop_eq (differs : DiffersOnlyAt index bytes other) {start : Nat} (h : index < start) :
    other.drop start = bytes.drop start := by
  apply List.ext_getElem?
  intro place
  rw [List.getElem?_drop, List.getElem?_drop]
  exact differs.getElem?_eq _ (by omega)

theorem drop (differs : DiffersOnlyAt index bytes other) {start : Nat} (h : start ≤ index) :
    DiffersOnlyAt (index - start) (bytes.drop start) (other.drop start) where
  length_eq := by rw [List.length_drop, List.length_drop, differs.length_eq]
  getElem?_ne := by
    rw [List.getElem?_drop, List.getElem?_drop, Nat.add_sub_cancel' h]
    exact differs.getElem?_ne
  getElem?_eq := by
    intro place hplace
    rw [List.getElem?_drop, List.getElem?_drop]
    exact differs.getElem?_eq _ (by omega)

theorem lt_length (differs : DiffersOnlyAt index bytes other) : index < bytes.length := by
  by_contra hout
  apply differs.getElem?_ne
  rw [List.getElem?_eq_none (Nat.le_of_not_lt hout),
    List.getElem?_eq_none (by rw [differs.length_eq]; exact Nat.le_of_not_lt hout)]

theorem crc32_ne (differs : DiffersOnlyAt index bytes other) : crc32 other ≠ crc32 bytes := by
  have hin := differs.lt_length
  have hin' : index < other.length := differs.length_eq ▸ hin
  have hfront : (other.drop 0).take index = (bytes.drop 0).take index :=
    differs.slice_eq (Or.inr (by omega))
  rw [List.drop_zero, List.drop_zero] at hfront
  have hback : other.drop (index + 1) = bytes.drop (index + 1) := differs.drop_eq (by omega)
  have hsplit : bytes.take index ++ bytes[index] :: bytes.drop (index + 1) = bytes := by
    rw [List.getElem_cons_drop, List.take_append_drop]
  have hsplit' : bytes.take index ++ other[index] :: bytes.drop (index + 1) = other := by
    rw [← hfront, ← hback, List.getElem_cons_drop, List.take_append_drop]
  have hne : other[index] ≠ bytes[index] := by
    intro heq
    apply differs.getElem?_ne
    rw [List.getElem?_eq_getElem hin, List.getElem?_eq_getElem hin', heq]
  have hsums := crc32_ne_of_byte_ne (bytes.take index) (bytes.drop (index + 1)) hne
  rwa [hsplit, hsplit'] at hsums

end DiffersOnlyAt

namespace LoadUnit

open Decode

variable {index : Nat} {bytes other : List UInt8} {unit : LoadUnit}

/-! ### Fields of the header -/

theorem headerField_eq (differs : DiffersOnlyAt index bytes other) {field : Nat}
    (h : index < 4 * field ∨ 4 * field + 4 ≤ index) :
    headerField other field = headerField bytes field :=
  differs.slice_eq h

theorem headerField_ne (differs : DiffersOnlyAt index bytes other) {field : Nat}
    (hstart : 4 * field ≤ index) (hwidth : index < 4 * field + 4) :
    headerField other field ≠ headerField bytes field :=
  differs.slice_ne hstart hwidth

/-- A field that is changed stands for another number. -/
theorem number_headerField_ne (differs : DiffersOnlyAt index bytes other)
    (hlong : headerLength ≤ bytes.length) {field : Nat} (hfield : field < 5)
    (hstart : 4 * field ≤ index) (hwidth : index < 4 * field + 4) :
    ofLittleEndian (headerField other field) ≠ ofLittleEndian (headerField bytes field) := by
  intro heq
  have hlong' : headerLength ≤ other.length := differs.length_eq ▸ hlong
  apply headerField_ne differs hstart hwidth
  rw [← littleEndian_field (length_headerField hlong hfield),
    ← littleEndian_field (length_headerField hlong' hfield), heq]

theorem headerWord_ne (differs : DiffersOnlyAt index bytes other)
    (hlong : headerLength ≤ bytes.length) {field : Nat} (hfield : field < 5)
    (hstart : 4 * field ≤ index) (hwidth : index < 4 * field + 4) :
    headerWord other field ≠ headerWord bytes field := by
  intro heq
  have hlong' : headerLength ≤ other.length := differs.length_eq ▸ hlong
  apply headerField_ne differs hstart hwidth
  rw [← encode_headerWord (length_headerField hlong hfield),
    ← encode_headerWord (length_headerField hlong' hfield), heq]

/-! ### Changed flags -/

theorem and_staticsFlag (flags : UInt32) :
    flags &&& staticsFlag = 0 ∨ flags &&& staticsFlag = 1 := by
  have hbit : (flags &&& staticsFlag).toNat = flags.toNat % 2 := by
    rw [UInt32.toNat_and]
    exact Nat.and_one_is_mod _
  rcases Nat.mod_two_eq_zero_or_one flags.toNat with hlow | hlow
  · exact Or.inl (UInt32.toNat_inj.mp (hbit.trans hlow))
  · exact Or.inr (UInt32.toNat_inj.mp (hbit.trans hlow))

/-- The other value of the flag is the opposite announcement. -/
theorem announced_eq_not {flags flags' : UInt32}
    (h : flags' &&& staticsFlag ≠ flags &&& staticsFlag) :
    (flags' &&& staticsFlag != 0) = !(flags &&& staticsFlag != 0) := by
  rcases and_staticsFlag flags with hold | hold <;>
    rcases and_staticsFlag flags' with hnew | hnew <;> rw [hold, hnew] at h ⊢ <;>
    first | rfl | exact absurd rfl h

/-- Flags that announce constant objects as the old ones do are the only thing that changes. -/
theorem decodeRest_of_same_announcement {version flags flags' : UInt32} {payload : List UInt8}
    (accepted : decodeRest version flags payload = .ok unit)
    (h : flags' &&& staticsFlag = flags &&& staticsFlag) :
    decodeRest version flags' payload = .ok { unit with flags := flags' } := by
  obtain ⟨position, hread⟩ := decodeRest_eq_ok_iff.mp accepted
  obtain ⟨hversion, hflags, middle, front, hstatics⟩ := decodePayload_eq_ok_iff.mp hread
  have hsame : decodeStatics flags' = decodeStatics flags := by
    unfold decodeStatics
    rw [h]
  refine decodeRest_eq_ok_iff.mpr ⟨position, decodePayload_eq_ok_iff.mpr
    ⟨hversion, rfl, middle, front, ?_⟩⟩
  rw [hsame]
  exact hstatics

/-- The number of constant objects is left over when they are no longer announced. -/
theorem decodeRest_of_no_longer_announced {version flags flags' : UInt32} {payload : List UInt8}
    (accepted : decodeRest version flags payload = .ok unit)
    (h : (flags &&& staticsFlag != 0) = true) (h' : ¬ (flags' &&& staticsFlag != 0) = true) :
    ∃ offset, decodeRest version flags' payload = .error (.trailingData offset) := by
  obtain ⟨position, hread⟩ := decodeRest_eq_ok_iff.mp accepted
  obtain ⟨hversion, hflags, middle, front, hstatics⟩ := decodePayload_eq_ok_iff.mp hread
  rw [decodeStatics_of_announced h] at hstatics
  have hleft : middle.rest ≠ [] := by
    obtain ⟨taken, htaken, spells⟩ := rewrites_list rewrites_staticGroup _ _ _ hstatics
    have hpos := length_list_pos StaticGroup.encode unit.statics
    rw [← spells.length_eq] at hpos
    rw [htaken, List.append_nil]
    exact List.ne_nil_of_length_pos hpos
  refine ⟨middle.position, ?_⟩
  rw [decodeRest, front.decodePayload_eq, decodeStatics_of_not_announced h']
  exact if_pos hleft

/-- Nothing is left to read constant objects from when they are announced but not there. -/
theorem decodeRest_of_newly_announced {version flags flags' : UInt32} {payload : List UInt8}
    (accepted : decodeRest version flags payload = .ok unit)
    (h : ¬ (flags &&& staticsFlag != 0) = true) (h' : (flags' &&& staticsFlag != 0) = true) :
    ∃ offset, decodeRest version flags' payload = .error (.decode (.unexpectedEnd offset)) := by
  obtain ⟨position, hread⟩ := decodeRest_eq_ok_iff.mp accepted
  obtain ⟨hversion, hflags, middle, front, hstatics⟩ := decodePayload_eq_ok_iff.mp hread
  obtain ⟨-, rfl⟩ := statics_of_not_announced h hstatics
  refine ⟨position, ?_⟩
  rw [decodeRest, front.decodePayload_eq, decodeStatics_of_announced h']
  rfl

/-! ### Changed units -/

theorem flagsWord_of_decode (accepted : decode bytes = .ok unit) :
    flagsWord bytes = unit.flags := by
  have headed := Headed.of_decode accepted
  rw [headed.decode_eq, decodeRest_eq_ok_iff] at accepted
  obtain ⟨position, hread⟩ := accepted
  exact (decodePayload_eq_ok_iff.mp hread).2.1.symm

/-- A change of the mark is the first thing that is noticed. -/
theorem decode_of_changed_mark (headed : Headed bytes) (differs : DiffersOnlyAt index bytes other)
    (h : index < 4) : decode other = .error (.invalidMagic (headerField other 0)) := by
  have hmark : headerField other 0 ≠ headerField bytes 0 :=
    headerField_ne differs (by omega) (by omega)
  rw [headed.mark] at hmark
  rw [decode_eq (differs.length_eq ▸ headed.long), if_pos hmark]

theorem decode_of_changed_version (headed : Headed bytes)
    (differs : DiffersOnlyAt index bytes other) (h : 4 ≤ index ∧ index < 8) :
    decode other = .error (.unsupportedVersion (headerWord other 1)) := by
  have hmark : headerField other 0 = headerField bytes 0 := headerField_eq differs (by omega)
  have hversion : headerWord other 1 ≠ headerWord bytes 1 :=
    headerWord_ne differs headed.long (by decide) (by omega) (by omega)
  rw [headed.mark] at hmark
  rw [headed.version] at hversion
  rw [decode_eq (differs.length_eq ▸ headed.long), if_neg (not_not_intro hmark), if_pos hversion]

/-- No check of the header covers the flags. -/
theorem decode_of_changed_flags (headed : Headed bytes) (differs : DiffersOnlyAt index bytes other)
    (h : 8 ≤ index ∧ index < 12) :
    decode other = decodeRest currentVersion (flagsWord other) (bytes.drop headerLength) := by
  have hpayload : other.drop headerLength = bytes.drop headerLength :=
    differs.drop_eq (show index < 20 by omega)
  have headed' : Headed other := by
    constructor
    · rw [differs.length_eq]
      exact headed.long
    · rw [headerField_eq differs (by omega), headed.mark]
    · rw [headerWord, headerField_eq differs (by omega), ← headerWord, headed.version]
    · rw [headerField_eq differs (by omega), headed.declared, hpayload]
    · rw [headerWord, headerField_eq differs (by omega), ← headerWord, ← headed.checksum, hpayload]
  rw [headed'.decode_eq, hpayload]

/-- Behind the flags, what is changed is either described by the header or describes the rest. -/
theorem decode_of_changed_description (headed : Headed bytes)
    (differs : DiffersOnlyAt index bytes other) (h : 12 ≤ index) :
    decode other =
      if ofLittleEndian (headerField other 3) ≠ (other.drop headerLength).length then
        .error (.lengthMismatch (ofLittleEndian (headerField other 3))
          (other.drop headerLength).length)
      else if crc32 (other.drop headerLength) ≠ headerWord other 4 then
        .error (.checksumMismatch (headerWord other 4) (crc32 (other.drop headerLength)))
      else decodeRest currentVersion (flagsWord other) (other.drop headerLength) := by
  have hmark : headerField other 0 = magic := by
    rw [headerField_eq differs (by omega), headed.mark]
  have hversion : headerWord other 1 = currentVersion := by
    rw [headerWord, headerField_eq differs (by omega), ← headerWord, headed.version]
  rw [decode_eq (differs.length_eq ▸ headed.long), if_neg (not_not_intro hmark),
    if_neg (not_not_intro hversion), hversion]

theorem length_drop_eq (differs : DiffersOnlyAt index bytes other) (start : Nat) :
    (other.drop start).length = (bytes.drop start).length := by
  rw [List.length_drop, List.length_drop, differs.length_eq]

theorem decode_of_changed_length (headed : Headed bytes) (differs : DiffersOnlyAt index bytes other)
    (h : 12 ≤ index ∧ index < 16) :
    decode other = .error (.lengthMismatch (ofLittleEndian (headerField other 3))
      (bytes.drop headerLength).length) := by
  have hdeclared : ofLittleEndian (headerField other 3) ≠ ofLittleEndian (headerField bytes 3) :=
    number_headerField_ne differs headed.long (by decide) (by omega) (by omega)
  rw [headed.declared] at hdeclared
  rw [decode_of_changed_description headed differs h.1, length_drop_eq differs, if_pos hdeclared]

/-- The checksum of the header and that of the payload agree no longer once one of them changes. -/
theorem decode_of_changed_payload (headed : Headed bytes)
    (differs : DiffersOnlyAt index bytes other) (h : 16 ≤ index) :
    decode other = .error (.checksumMismatch (headerWord other 4)
      (crc32 (other.drop headerLength))) := by
  have hdeclared : ofLittleEndian (headerField other 3) = (other.drop headerLength).length := by
    rw [headerField_eq differs (by omega), headed.declared, length_drop_eq differs]
  have hchecksum : crc32 (other.drop headerLength) ≠ headerWord other 4 := by
    by_cases hpast : index < 20
    · have hword : headerWord other 4 ≠ headerWord bytes 4 :=
        headerWord_ne differs headed.long (by decide) (by omega) (by omega)
      have hpayload : other.drop headerLength = bytes.drop headerLength := differs.drop_eq hpast
      rw [hpayload, headed.checksum]
      exact hword.symm
    · have hpayload : crc32 (other.drop headerLength) ≠ crc32 (bytes.drop headerLength) :=
        (differs.drop (Nat.le_of_not_lt hpast)).crc32_ne
      rw [headerWord, headerField_eq differs (by omega), ← headerWord, ← headed.checksum]
      exact hpayload
  rw [decode_of_changed_description headed differs (by omega), if_neg (not_not_intro hdeclared),
    if_pos hchecksum]

/-! ### Shorter and longer units -/

theorem headerField_append {front : List UInt8} (hlong : headerLength ≤ front.length)
    (back : List UInt8) {field : Nat} (hfield : field < 5) :
    headerField (front ++ back) field = headerField front field := by
  have htwenty : 20 ≤ front.length := hlong
  rw [headerField, headerField, List.drop_append_of_le_length (by omega),
    List.take_append_of_le_length (by rw [List.length_drop]; omega)]

/-- A unit that is accepted does not begin with another one that is. -/
theorem eq_of_begins {unit' : LoadUnit} (accepted : decode bytes = .ok unit)
    (accepted' : decode other = .ok unit') (h : bytes <+: other) : bytes = other := by
  obtain ⟨back, rfl⟩ := h
  have headed := Headed.of_decode accepted
  have headed' := Headed.of_decode accepted'
  have htwenty : 20 ≤ bytes.length := headed.long
  have hdeclared := headed'.declared
  rw [headerField_append headed.long back (by decide), headed.declared, List.length_drop,
    List.length_drop, List.length_append] at hdeclared
  have hnone : back.length = 0 := by
    change bytes.length - 20 = bytes.length + back.length - 20 at hdeclared
    omega
  rw [List.length_eq_zero_iff.mp hnone, List.append_nil]

theorem error_of_not_accepted (h : ∀ unit, decode bytes ≠ .ok unit) :
    ∃ error, decode bytes = .error error := by
  cases hdecode : decode bytes with
  | error error => exact ⟨error, rfl⟩
  | ok unit => exact absurd hdecode (h unit)

/-- A unit with one byte changed is refused, unless the byte is one of the flags and the constant
objects remain announced, or unannounced, as they were; then nothing but the flags is different.
Units that are cut short or continued are refused. -/
theorem corruption_detected (accepted : decode bytes = .ok unit) :
    (∀ index other, DiffersOnlyAt index bytes other →
      (index < 4 → decode other = .error (.invalidMagic (other.take 4))) ∧
      (4 ≤ index ∧ index < 8 → decode other = .error (.unsupportedVersion (headerWord other 1))) ∧
      (8 ≤ index ∧ index < 12 → flagsWord other ≠ unit.flags ∧
        (flagsWord other &&& 1 = unit.flags &&& 1 →
          decode other = .ok { unit with flags := flagsWord other }) ∧
        (flagsWord other &&& 1 ≠ unit.flags &&& 1 → if unit.hasStatics
          then ∃ offset, decode other = .error (.trailingData offset)
          else ∃ offset, decode other = .error (.decode (.unexpectedEnd offset)))) ∧
      (12 ≤ index ∧ index < 16 → ∃ declared actual,
        decode other = .error (.lengthMismatch declared actual)) ∧
      (16 ≤ index → ∃ expected actual,
        decode other = .error (.checksumMismatch expected actual))) ∧
    (∀ front, front <+: bytes → front ≠ bytes → ∃ error, decode front = .error error) ∧
    (∀ longer, bytes <+: longer → longer ≠ bytes → ∃ error, decode longer = .error error) := by
  have headed := Headed.of_decode accepted
  refine ⟨?_, ?_, ?_⟩
  · intro index other differs
    refine ⟨decode_of_changed_mark headed differs, decode_of_changed_version headed differs, ?_, ?_,
      ?_⟩
    · intro h
      have hdecode := decode_of_changed_flags headed differs h
      have hflags := flagsWord_of_decode accepted
      have hrest := accepted
      rw [headed.decode_eq, hflags] at hrest
      refine ⟨?_, ?_, ?_⟩
      · rw [← hflags]
        exact headerWord_ne differs headed.long (by decide) (by omega) (by omega)
      · intro hsame
        rw [hdecode]
        exact decodeRest_of_same_announcement hrest hsame
      · intro hflipped
        have hopposite : (flagsWord other &&& staticsFlag != 0) = !unit.hasStatics :=
          announced_eq_not hflipped
        rw [hdecode]
        cases hstatics : unit.hasStatics with
        | true =>
          rw [hstatics] at hopposite
          exact decodeRest_of_no_longer_announced hrest hstatics (by rw [hopposite]; decide)
        | false =>
          rw [hstatics] at hopposite
          exact decodeRest_of_newly_announced hrest (ne_true_of_eq_false hstatics) hopposite
    · intro h
      exact ⟨_, _, decode_of_changed_length headed differs h⟩
    · intro h
      exact ⟨_, _, decode_of_changed_payload headed differs h⟩
  · intro front hfront hne
    apply error_of_not_accepted
    intro unit' accepted'
    exact hne (eq_of_begins accepted' accepted hfront)
  · intro longer hlonger hne
    apply error_of_not_accepted
    intro unit' accepted'
    exact hne (eq_of_begins accepted accepted' hlonger).symm

theorem corruption_detected_oneTruth :
    decode oneTruth.encode = .ok oneTruth ∧
    (∃ offset, decode (oneTruth.encode.set 8 0) = .error (.trailingData offset)) ∧
    decode (oneTruth.encode.set 9 1) = .ok { oneTruth with flags := 0x101 } ∧
    ∃ expected actual,
      decode (oneTruth.encode.set 55 0) = .error (.checksumMismatch expected actual) := by
  have accepted : decode oneTruth.encode = .ok oneTruth := by decide +kernel
  obtain ⟨hchanged, -, -⟩ := corruption_detected accepted
  have hunannounced := hchanged 8 (oneTruth.encode.set 8 0)
    (.set (by decide +kernel) (by decide +kernel))
  have hunused := hchanged 9 (oneTruth.encode.set 9 1)
    (.set (by decide +kernel) (by decide +kernel))
  have hpayload := hchanged 55 (oneTruth.encode.set 55 0)
    (.set (by decide +kernel) (by decide +kernel))
  refine ⟨accepted, ?_, ?_, ?_⟩
  · exact (hunannounced.2.2.1 (by decide)).2.2 (by decide +kernel)
  · have hflags : flagsWord (oneTruth.encode.set 9 1) = 0x101 := by decide +kernel
    rw [hflags] at hunused
    exact (hunused.2.2.1 (by decide)).2.1 (by decide)
  · exact hpayload.2.2.2.2 (by decide)

end LoadUnit

end LateBinding
