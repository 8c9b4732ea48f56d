import LateBinding.Proofs.Codec.Rewriting

/-!
# Where readings end

A reading can fail, and another can follow it from where it ended. So more has to be known of a
failure than that it happened: which bytes were taken by then, and which offset it names. A reading
is *safe* when it ends further on within the bytes, and names no offset behind them. Reading a field
has one of five outcomes, and each says where the next reading starts.
-/

namespace LateBinding

/-- The offset that an error was noticed at. -/
def DecodeError.offset : DecodeError → Nat
  | .unexpectedEnd offset => offset
  | .invalidText offset => offset
  | .invalidTag _ offset => offset
  | .nestedTooDeeply offset => offset

namespace Reader

/-- The offset behind the last byte. -/
def limit (reader : Reader) : Nat := reader.position + reader.rest.length

/-- The later reader is left when the bytes between the two are taken. -/
def Reaches (start final : Reader) : Prop :=
  ∃ taken, start.rest = taken ++ final.rest ∧ final.position = start.position + taken.length

theorem Reaches.refl (reader : Reader) : reader.Reaches reader := ⟨[], rfl, rfl⟩

theorem Reaches.trans {first second third : Reader} (front : first.Reaches second)
    (back : second.Reaches third) : first.Reaches third := by
  obtain ⟨taken, hrest, hposition⟩ := front
  obtain ⟨taken', hrest', hposition'⟩ := back
  refine ⟨taken ++ taken', ?_, ?_⟩
  · rw [hrest, hrest', List.append_assoc]
  · rw [hposition', hposition, List.length_append, Nat.add_assoc]

theorem Reaches.position_le {start final : Reader} (reaches : start.Reaches final) :
    start.position ≤ final.position := by
  obtain ⟨taken, -, hposition⟩ := reaches
  omega

theorem Reaches.limit_eq {start final : Reader} (reaches : start.Reaches final) :
    final.limit = start.limit := by
  obtain ⟨taken, hrest, hposition⟩ := reaches
  rw [limit, limit, hrest, hposition, List.length_append, Nat.add_assoc]

theorem position_le_limit (reader : Reader) : reader.position ≤ reader.limit :=
  Nat.le_add_right _ _

@[simp] theorem limit_of (bytes : List UInt8) : (Reader.of bytes).limit = bytes.length :=
  Nat.zero_add _

/-- The reader stands within the bytes: it has what is behind its position, and no more. -/
structure Within (bytes : List UInt8) (reader : Reader) : Prop where
  rest_eq : reader.rest = bytes.drop reader.position
  position_add_remaining : reader.position + reader.rest.length = bytes.length

theorem within_of_reaches {bytes : List UInt8} {reader : Reader}
    (reaches : (Reader.of bytes).Reaches reader) : reader.Within bytes where
  rest_eq := by
    obtain ⟨taken, hrest, hposition⟩ := reaches
    have hbytes : bytes = taken ++ reader.rest := hrest
    have hlength : reader.position = taken.length := by
      rw [hposition]
      exact Nat.zero_add _
    rw [hbytes, hlength, List.drop_left]
  position_add_remaining := reaches.limit_eq.trans (limit_of bytes)

end Reader

namespace Decode

variable {α β : Type}

/-! ### Taking a failure apart -/

theorem bind_eq_error_iff {read : Decode α} {next : α → Decode β} {start final : Reader}
    {error : DecodeError} :
    (read >>= next) start = .error error final ↔ read start = .error error final ∨
      ∃ value middle, read start = .ok value middle ∧ next value middle = .error error final := by
  simp only [Bind.bind, EStateM.bind]
  cases read start with
  | ok value middle =>
    simp only [reduceCtorEq, false_or, EStateM.Result.ok.injEq]
    constructor
    · intro h
      exact ⟨value, middle, ⟨rfl, rfl⟩, h⟩
    · rintro ⟨_, _, ⟨rfl, rfl⟩, h⟩
      exact h
  | error => simp

theorem map_eq_error_iff {read : Decode α} {f : α → β} {start final : Reader}
    {error : DecodeError} :
    (f <$> read) start = .error error final ↔ read start = .error error final := by
  simp only [Functor.map, EStateM.map]
  cases read start with
  | ok value middle => simp
  | error => simp

theorem bytes_eq_error_iff {count : Nat} {start final : Reader} {error : DecodeError} :
    Decode.bytes count start = .error error final ↔
      start.rest.length < count ∧ error = .unexpectedEnd start.position ∧ final = start := by
  unfold Decode.bytes
  split
  · next henough =>
    rw [hasAtLeast_iff] at henough
    simp
    omega
  · next hshort =>
    rw [hasAtLeast_iff, Nat.not_le] at hshort
    simp [hshort, eq_comm]

theorem number_eq_error_iff {width : Nat} {start final : Reader} {error : DecodeError} :
    Decode.number width start = .error error final ↔
      start.rest.length < width ∧ error = .unexpectedEnd start.position ∧ final = start :=
  map_eq_error_iff.trans bytes_eq_error_iff

/-! ### Safe readings -/

/-- From this reader, the reading ends further on, and a failure is noticed within the bytes. -/
structure SafeFrom (read : Decode α) (start : Reader) : Prop where
  reaches_of_ok : ∀ {value final}, read start = .ok value final → start.Reaches final
  reaches_of_error : ∀ {error final}, read start = .error error final → start.Reaches final
  offset_le : ∀ {error final}, read start = .error error final → error.offset ≤ start.limit

def Safe (read : Decode α) : Prop := ∀ start, read.SafeFrom start

variable {read : Decode α} {start : Reader}

theorem SafeFrom.pure (value : α) : (Pure.pure value : Decode α).SafeFrom start where
  reaches_of_ok h := by
    cases h
    exact Reader.Reaches.refl start
  reaches_of_error h := nomatch h
  offset_le h := nomatch h

theorem SafeFrom.throw {error : DecodeError} (h : error.offset ≤ start.limit) :
    (MonadExcept.throw error : Decode α).SafeFrom start where
  reaches_of_ok h := nomatch h
  reaches_of_error h := by
    cases h
    exact Reader.Reaches.refl start
  offset_le h' := by
    cases h'
    exact h

theorem SafeFrom.bind {next : α → Decode β} (first : read.SafeFrom start)
    (second : ∀ value middle, read start = .ok value middle → (next value).SafeFrom middle) :
    (read >>= next).SafeFrom start where
  reaches_of_ok h := by
    obtain ⟨value, middle, hread, hnext⟩ := bind_eq_ok_iff.mp h
    exact (first.reaches_of_ok hread).trans ((second value middle hread).reaches_of_ok hnext)
  reaches_of_error h := by
    rcases bind_eq_error_iff.mp h with hread | ⟨value, middle, hread, hnext⟩
    · exact first.reaches_of_error hread
    · exact (first.reaches_of_ok hread).trans ((second value middle hread).reaches_of_error hnext)
  offset_le h := by
    rcases bind_eq_error_iff.mp h with hread | ⟨value, middle, hread, hnext⟩
    · exact first.offset_le hread
    · rw [← (first.reaches_of_ok hread).limit_eq]
      exact (second value middle hread).offset_le hnext

theorem Safe.bind {next : α → Decode β} (first : read.Safe) (second : ∀ value, (next value).Safe) :
    (read >>= next).Safe :=
  fun start => (first start).bind fun value middle _ => second value middle

theorem Safe.pure (value : α) : (Pure.pure value : Decode α).Safe := fun _ => SafeFrom.pure value

theorem Safe.map (f : α → β) (safe : read.Safe) : (f <$> read).Safe := fun start =>
  { reaches_of_ok := by
      intro value final h
      obtain ⟨found, hread, -⟩ := map_eq_ok_iff.mp h
      exact (safe start).reaches_of_ok hread
    reaches_of_error := fun h => (safe start).reaches_of_error (map_eq_error_iff.mp h)
    offset_le := fun h => (safe start).offset_le (map_eq_error_iff.mp h) }

/-- Asking for the position takes nothing. What follows can name it as the offset of a failure. -/
theorem safeFrom_position_bind {next : Nat → Decode β}
    (second : (next start.position).SafeFrom start) : (Decode.position >>= next).SafeFrom start :=
  ⟨second.reaches_of_ok, second.reaches_of_error, second.offset_le⟩

theorem safeFrom_get_bind {next : Reader → Decode β} (second : (next start).SafeFrom start) :
    ((get : Decode Reader) >>= next).SafeFrom start :=
  ⟨second.reaches_of_ok, second.reaches_of_error, second.offset_le⟩

/-- The two readers around bytes that are taken. -/
theorem ends_of_bytes {count : Nat} {final : Reader} {taken : List UInt8}
    (h : Decode.bytes count start = .ok taken final) :
    taken.length = count ∧ ∃ rest position, start = ⟨taken ++ rest, position⟩ ∧
      final = ⟨rest, position + count⟩ := by
  obtain ⟨all, position⟩ := start
  have hlength := length_of_bytes h
  have hrest : all = taken ++ final.rest := restores_bytes count _ taken final h
  unfold Decode.bytes at h
  split at h
  · cases h
    exact ⟨hlength, _, position, congrArg (Reader.mk · position) hrest, rfl⟩
  · cases h

theorem safe_bytes (count : Nat) : (Decode.bytes count).Safe := by
  intro start
  constructor
  · intro taken final h
    obtain ⟨rfl, rest, position, rfl, rfl⟩ := ends_of_bytes h
    exact ⟨taken, rfl, rfl⟩
  · intro error final h
    obtain ⟨-, -, rfl⟩ := bytes_eq_error_iff.mp h
    exact Reader.Reaches.refl final
  · intro error final h
    obtain ⟨-, rfl, -⟩ := bytes_eq_error_iff.mp h
    exact start.position_le_limit

theorem safe_number (width : Nat) : (Decode.number width).Safe := (safe_bytes width).map _

theorem safe_u8 : Decode.u8.Safe := (safe_number 1).map _

theorem safe_u32 : Decode.u32.Safe := (safe_number 4).map _

theorem safe_i64 : Decode.i64.Safe := (safe_number 8).map _

theorem safe_f64 : Decode.f64.Safe := (safe_number 8).map _

theorem safe_textOf (length : Nat) : (Decode.textOf length).Safe := by
  intro start
  apply safeFrom_position_bind
  apply (safe_bytes length start).bind
  intro body middle hbody
  split
  · exact SafeFrom.pure _
  · apply SafeFrom.throw
    rw [((safe_bytes length start).reaches_of_ok hbody).limit_eq]
    exact start.position_le_limit

theorem safe_string : Decode.string.Safe := (safe_number 4).bind safe_textOf

theorem safe_optString : Decode.optString.Safe := by
  apply (safe_number 4).bind
  intro length
  split
  · exact Safe.pure none
  · exact (safe_textOf length).bind fun text => Safe.pure (some text)

theorem safe_count : Decode.count.Safe := by
  intro start
  apply safeFrom_position_bind
  apply (safe_number 4 start).bind
  intro announced middle hannounced
  apply safeFrom_get_bind
  split
  · exact SafeFrom.pure announced
  · apply SafeFrom.throw
    rw [((safe_number 4 start).reaches_of_ok hannounced).limit_eq]
    exact start.position_le_limit

theorem safe_many (element : read.Safe) (count : Nat) : (Decode.many read count).Safe := by
  induction count with
  | zero => exact Safe.pure []
  | succ left ih => exact element.bind fun value => ih.bind fun rest => Safe.pure (value :: rest)

theorem safe_list (element : read.Safe) : (Decode.list read).Safe :=
  safe_count.bind (safe_many element)

/-- What a reading gives, and the reader that it leaves, also where it fails. -/
def attempt (read : Decode α) (start : Reader) : Except DecodeError α × Reader :=
  match read start with
  | .ok value final => (.ok value, final)
  | .error error final => (.error error, final)

theorem attempt_of_ok {value : α} {final : Reader} (h : read start = .ok value final) :
    read.attempt start = (.ok value, final) := by
  rw [attempt, h]

theorem Safe.reaches_attempt (safe : read.Safe) (start : Reader) :
    start.Reaches (read.attempt start).2 := by
  unfold attempt
  split
  · next h => exact (safe start).reaches_of_ok h
  · next h => exact (safe start).reaches_of_error h

end Decode

/-! ### Fields -/

open Decode

theorem FieldKind.safe_read (kind : FieldKind) : kind.read.Safe := by
  cases kind with
  | u8 => exact safe_u8.map _
  | u32 => exact safe_u32.map _
  | i64 => exact safe_i64.map _
  | f64 => exact safe_f64.map _
  | bytes width => exact (safe_bytes width).map _
  | string => exact safe_string.map _
  | optString => exact safe_optString.map _
  | count => exact safe_count.map _

/-- The field can be read where so many bytes follow it. Lengths have 32 bits, the greatest of them
is the mark of an absent string, and a number of elements is no greater than what follows it. -/
def Field.Fits (following : Nat) : Field → Prop
  | .string text => text.utf8ByteSize < 2 ^ 32
  | .optString text => ∀ found ∈ text, found.utf8ByteSize < absentLength
  | .count announced => announced < 2 ^ 32 ∧ announced ≤ following
  | _ => True

instance (following : Nat) : (field : Field) → Decidable (field.Fits following)
  | .string text => inferInstanceAs (Decidable (text.utf8ByteSize < 2 ^ 32))
  | .optString text =>
    inferInstanceAs (Decidable (∀ found ∈ text, found.utf8ByteSize < absentLength))
  | .count announced => inferInstanceAs (Decidable (announced < 2 ^ 32 ∧ announced ≤ following))
  | .u8 _ => .isTrue trivial
  | .u32 _ => .isTrue trivial
  | .i64 _ => .isTrue trivial
  | .f64 _ => .isTrue trivial
  | .bytes _ => .isTrue trivial

/-- The width of the part that all fields of a kind have. -/
def FieldKind.front : FieldKind → Nat
  | .u8 => 1
  | .u32 => 4
  | .i64 => 8
  | .f64 => 8
  | .bytes width => width
  | .string => 4
  | .optString => 4
  | .count => 4

/-- The number in front of a field announces the bytes of a string. -/
def FieldKind.Announces (kind : FieldKind) (length : Nat) : Prop :=
  kind = .string ∨ kind = .optString ∧ length ≠ absentLength

/-- What becomes of reading a field: a field or an error, and the reader that is left. -/
inductive Reads : FieldKind → Reader → Except DecodeError Field → Reader → Prop
  | taken (field : Field) (rest : List UInt8) (position : Nat) (fits : field.Fits rest.length) :
      Reads field.kind ⟨field.encode ++ rest, position⟩ (.ok field)
        ⟨rest, position + field.encode.length⟩
  /-- Nothing is taken of a part of fixed width that is cut short. -/
  | short (kind : FieldKind) (start : Reader) (missing : start.rest.length < kind.front) :
      Reads kind start (.error (.unexpectedEnd start.position)) start
  /-- A string is cut short: its length has been taken. -/
  | cut (kind : FieldKind) (front rest : List UInt8) (position : Nat) (width : front.length = 4)
      (announces : kind.Announces (ofLittleEndian front))
      (missing : rest.length < ofLittleEndian front) :
      Reads kind ⟨front ++ rest, position⟩ (.error (.unexpectedEnd (position + 4)))
        ⟨rest, position + 4⟩
  /-- A string is no text: its length and its bytes have been taken. -/
  | garbled (kind : FieldKind) (front body rest : List UInt8) (position : Nat)
      (width : front.length = 4) (announces : kind.Announces (ofLittleEndian front))
      (whole : body.length = ofLittleEndian front)
      (no_text : String.fromUTF8? body.toByteArray = none) :
      Reads kind ⟨front ++ (body ++ rest), position⟩ (.error (.invalidText (position + 4)))
        ⟨rest, position + 4 + body.length⟩
  /-- A number of elements is beyond the bytes behind it, and has been taken. -/
  | beyond (front rest : List UInt8) (position : Nat) (width : front.length = 4)
      (missing : rest.length < ofLittleEndian front) :
      Reads .count ⟨front ++ rest, position⟩ (.error (.unexpectedEnd position))
        ⟨rest, position + 4⟩

/-! ### Fields that are read -/

theorem Decode.Restores.map {α β : Type} {read : Decode α} {write : α → List UInt8} {f : α → β}
    {write' : β → List UInt8} (restores : read.Restores write)
    (same : ∀ value, write' (f value) = write value) : (f <$> read).Restores write' := by
  intro start value final hread
  obtain ⟨found, hfound, rfl⟩ := map_eq_ok_iff.mp hread
  rw [same]
  exact restores start found final hfound

theorem FieldKind.restores_read (kind : FieldKind) : kind.read.Restores Field.encode := by
  cases kind with
  | u8 => exact restores_u8.map fun _ => rfl
  | u32 => exact restores_u32.map fun _ => rfl
  | i64 => exact restores_i64.map fun _ => rfl
  | f64 => exact restores_f64.map fun _ => rfl
  | bytes width => exact (restores_bytes width).map fun _ => rfl
  | string => exact restores_string.map fun _ => rfl
  | optString => exact restores_optString.map fun _ => rfl
  | count => exact restores_count.map fun _ => rfl

theorem size_of_string {start final : Reader} {text : String}
    (hread : Decode.string start = .ok text final) : text.utf8ByteSize < 2 ^ 32 := by
  obtain ⟨length, middle, hlength, hread⟩ := bind_eq_ok_iff.mp hread
  rw [(rest_of_textOf hread).2]
  exact (rest_of_number hlength).2

theorem size_of_optString {start final : Reader} {text : Option String}
    (hread : Decode.optString start = .ok text final) :
    ∀ found ∈ text, found.utf8ByteSize < absentLength := by
  obtain ⟨length, middle, hlength, hread⟩ := bind_eq_ok_iff.mp hread
  have hsmall := (rest_of_number hlength).2
  split at hread
  · cases hread
    intro found hfound
    cases hfound
  · next hpresent =>
    obtain ⟨found, _, hfound, hread⟩ := bind_eq_ok_iff.mp hread
    cases hread
    intro _ hmem
    cases hmem
    rw [(rest_of_textOf hfound).2]
    simp only [absentLength] at hpresent ⊢
    omega

theorem room_of_count {start final : Reader} {announced : Nat}
    (hread : Decode.count start = .ok announced final) :
    announced < 2 ^ 32 ∧ announced ≤ final.rest.length := by
  obtain ⟨_, _, hposition, hread⟩ := bind_eq_ok_iff.mp hread
  cases hposition
  obtain ⟨number, middle, hnumber, hread⟩ := bind_eq_ok_iff.mp hread
  obtain ⟨reader, _, hreader, hread⟩ := bind_eq_ok_iff.mp hread
  cases hreader
  split at hread
  · next hroom =>
    cases hread
    exact ⟨(rest_of_number hnumber).2, (hasAtLeast_iff _ _).mp hroom⟩
  · cases hread

/-- A field that is read is of the kind that was asked for, and fits in front of what is left. -/
theorem FieldKind.fits_of_read {kind : FieldKind} {start final : Reader} {field : Field}
    (hread : kind.read start = .ok field final) :
    field.kind = kind ∧ field.Fits final.rest.length := by
  cases kind with
  | bytes width =>
    obtain ⟨value, hvalue, rfl⟩ := map_eq_ok_iff.mp hread
    exact ⟨congrArg FieldKind.bytes (length_of_bytes hvalue), trivial⟩
  | string =>
    obtain ⟨text, htext, rfl⟩ := map_eq_ok_iff.mp hread
    exact ⟨rfl, size_of_string htext⟩
  | optString =>
    obtain ⟨text, htext, rfl⟩ := map_eq_ok_iff.mp hread
    exact ⟨rfl, size_of_optString htext⟩
  | count =>
    obtain ⟨announced, hannounced, rfl⟩ := map_eq_ok_iff.mp hread
    exact ⟨rfl, room_of_count hannounced⟩
  | _ =>
    obtain ⟨value, -, rfl⟩ := map_eq_ok_iff.mp hread
    exact ⟨rfl, trivial⟩

theorem Reads.of_ok {kind : FieldKind} {start final : Reader} {field : Field}
    (hread : kind.read start = .ok field final) : Reads kind start (.ok field) final := by
  obtain ⟨rfl, fits⟩ := FieldKind.fits_of_read hread
  obtain ⟨taken, hrest, hposition⟩ := (field.kind.safe_read start).reaches_of_ok hread
  have hencoded := field.kind.restores_read start field final hread
  have htaken : taken = field.encode := List.append_cancel_right (hrest.symm.trans hencoded)
  obtain ⟨all, position⟩ := start
  obtain ⟨rest, later⟩ := final
  subst htaken
  change all = field.encode ++ rest at hencoded
  change later = position + field.encode.length at hposition
  subst hencoded hposition
  exact .taken field rest position fits

/-! ### Fields that are not read -/

/-- The two readers around a number that is taken, and its bytes. -/
theorem ends_of_number {width n : Nat} {start final : Reader}
    (hread : Decode.number width start = .ok n final) :
    ∃ front rest position, front.length = width ∧ ofLittleEndian front = n ∧
      start = ⟨front ++ rest, position⟩ ∧ final = ⟨rest, position + width⟩ := by
  obtain ⟨taken, htaken, rfl⟩ := map_eq_ok_iff.mp hread
  obtain ⟨hwidth, rest, position, hstart, hfinal⟩ := ends_of_bytes htaken
  exact ⟨taken, rest, position, hwidth, rfl, hstart, hfinal⟩

theorem Reads.of_textOf_error {kind : FieldKind} {front rest : List UInt8} {position : Nat}
    {final : Reader} {error : DecodeError} (width : front.length = 4)
    (announces : kind.Announces (ofLittleEndian front))
    (hread : Decode.textOf (ofLittleEndian front) ⟨rest, position + 4⟩ = .error error final) :
    Reads kind ⟨front ++ rest, position⟩ (.error error) final := by
  rcases bind_eq_error_iff.mp hread with hposition | ⟨_, _, hposition, hread⟩
  · cases hposition
  cases hposition
  rcases bind_eq_error_iff.mp hread with hbody | ⟨body, middle, hbody, hread⟩
  · obtain ⟨missing, rfl, rfl⟩ := bytes_eq_error_iff.mp hbody
    exact .cut kind front rest position width announces missing
  · cases no_text : String.fromUTF8? body.toByteArray with
    | some text =>
      rw [no_text] at hread
      cases hread
    | none =>
      rw [no_text] at hread
      cases hread
      obtain ⟨whole, left, _, hstart, rfl⟩ := ends_of_bytes hbody
      cases hstart
      rw [← whole]
      exact .garbled kind front body left position width announces whole no_text

theorem Reads.of_number_error {kind : FieldKind} {start final : Reader} {error : DecodeError}
    (hread : Decode.number kind.front start = .error error final) :
    Reads kind start (.error error) final := by
  obtain ⟨missing, rfl, rfl⟩ := number_eq_error_iff.mp hread
  exact .short kind final missing

theorem Reads.of_string_error {start final : Reader} {error : DecodeError}
    (hread : Decode.string start = .error error final) :
    Reads .string start (.error error) final := by
  rcases bind_eq_error_iff.mp hread with hnumber | ⟨length, middle, hnumber, hread⟩
  · exact of_number_error hnumber
  obtain ⟨front, rest, position, width, rfl, rfl, rfl⟩ := ends_of_number hnumber
  exact of_textOf_error width (Or.inl rfl) hread

theorem Reads.of_optString_error {start final : Reader} {error : DecodeError}
    (hread : Decode.optString start = .error error final) :
    Reads .optString start (.error error) final := by
  rcases bind_eq_error_iff.mp hread with hnumber | ⟨length, middle, hnumber, hread⟩
  · exact of_number_error hnumber
  obtain ⟨front, rest, position, width, rfl, rfl, rfl⟩ := ends_of_number hnumber
  split at hread
  · cases hread
  · next hpresent =>
    rcases bind_eq_error_iff.mp hread with htext | ⟨_, _, _, hread⟩
    · exact of_textOf_error width (Or.inr ⟨rfl, hpresent⟩) htext
    · cases hread

theorem Reads.of_count_error {start final : Reader} {error : DecodeError}
    (hread : Decode.count start = .error error final) :
    Reads .count start (.error error) final := by
  rcases bind_eq_error_iff.mp hread with hposition | ⟨_, _, hposition, hread⟩
  · cases hposition
  cases hposition
  rcases bind_eq_error_iff.mp hread with hnumber | ⟨announced, middle, hnumber, hread⟩
  · exact of_number_error hnumber
  obtain ⟨front, rest, position, width, rfl, rfl, rfl⟩ := ends_of_number hnumber
  rcases bind_eq_error_iff.mp hread with hreader | ⟨_, _, hreader, hread⟩
  · cases hreader
  cases hreader
  split at hread
  · cases hread
  · next hmissing =>
    rw [hasAtLeast_iff, Nat.not_le] at hmissing
    cases hread
    exact .beyond front rest position width hmissing

theorem Reads.of_error {kind : FieldKind} {start final : Reader} {error : DecodeError}
    (hread : kind.read start = .error error final) : Reads kind start (.error error) final := by
  cases kind with
  | u8 => exact of_number_error (map_eq_error_iff.mp (map_eq_error_iff.mp hread))
  | u32 => exact of_number_error (map_eq_error_iff.mp (map_eq_error_iff.mp hread))
  | i64 => exact of_number_error (map_eq_error_iff.mp (map_eq_error_iff.mp hread))
  | f64 => exact of_number_error (map_eq_error_iff.mp (map_eq_error_iff.mp hread))
  | bytes width =>
    obtain ⟨missing, rfl, rfl⟩ := bytes_eq_error_iff.mp (map_eq_error_iff.mp hread)
    exact .short (.bytes width) final missing
  | string => exact of_string_error (map_eq_error_iff.mp hread)
  | optString => exact of_optString_error (map_eq_error_iff.mp hread)
  | count => exact of_count_error (map_eq_error_iff.mp hread)

theorem reads_attempt (kind : FieldKind) (start : Reader) :
    Reads kind start (kind.read.attempt start).1 (kind.read.attempt start).2 := by
  unfold Decode.attempt
  split
  · next hread => exact .of_ok hread
  · next hread => exact .of_error hread

/-! ### Readings one after the other -/

/-- Readings of fields one after the other, each with the position that it starts at. A reading that
fails is followed by the next one all the same. -/
def Reader.readAll : List FieldKind → Reader → List (Nat × Except DecodeError Field) × Reader
  | [], start => ([], start)
  | kind :: kinds, start =>
    let (outcome, next) := kind.read.attempt start
    let (outcomes, final) := readAll kinds next
    ((start.position, outcome) :: outcomes, final)

theorem Reader.reaches_readAll (kinds : List FieldKind) (start : Reader) :
    start.Reaches (start.readAll kinds).2 := by
  induction kinds generalizing start with
  | nil => exact Reaches.refl start
  | cons kind kinds ih => exact (kind.safe_read.reaches_attempt start).trans (ih _)

end LateBinding
