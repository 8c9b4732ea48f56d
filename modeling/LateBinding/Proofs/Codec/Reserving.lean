import LateBinding.Proofs.Codec.Canonical
import LateBinding.Proofs.Codec.Readings

/-!
# The room that decoding reserves

A list is preceded by the number of its elements, and room is reserved for them before the first of
them is read. The number comes from the bytes, so nothing but the bytes that are left can bound it.
To speak of these reservations the decoders are written once more, as readings that also tell what
they reserve. Without the reservations each of them is the decoder it was written after.
-/

namespace LateBinding

open Decode

/-- Room for so many elements, and the reader when it is reserved. -/
structure Reservation where
  capacity : Nat
  reader : Reader
  deriving DecidableEq, Repr

/-- A reading, and what it reserves when it starts from a reader. -/
structure Traced (α : Type) where
  run : Decode α
  reservations : Reader → List Reservation

namespace Traced

variable {α β : Type}

/-- A reading that reserves nothing. -/
def lift (read : Decode α) : Traced α := ⟨read, fun _ => []⟩

def reserve (capacity : Nat) : Traced Unit := ⟨pure (), fun reader => [⟨capacity, reader⟩]⟩

instance : Monad Traced where
  pure value := lift (pure value)
  bind first next :=
    { run := first.run >>= fun value => (next value).run
      reservations := fun start => first.reservations start ++
        match first.run start with
        | .ok value middle => (next value).reservations middle
        | .error _ _ => [] }

@[simp] theorem run_pure (value : α) : (pure value : Traced α).run = pure value := rfl

@[simp] theorem run_lift (read : Decode α) : (lift read).run = read := rfl

@[simp] theorem run_reserve (capacity : Nat) : (reserve capacity).run = pure () := rfl

@[simp] theorem run_bind (first : Traced α) (next : α → Traced β) :
    (first >>= next).run = first.run >>= fun value => (next value).run := rfl

def many (element : Traced α) : Nat → Traced (List α)
  | 0 => return []
  | left + 1 => return (← element) :: (← many element left)

/-- A list, with room reserved for as many elements as are announced. -/
def list (element : Traced α) : Traced (List α) := do
  let announced ← lift Decode.count
  reserve announced
  many element announced

@[simp] theorem run_many (element : Traced α) (count : Nat) :
    (element.many count).run = Decode.many element.run count := by
  induction count with
  | zero => rfl
  | succ left ih => simp only [many, Decode.many, run_bind, run_pure, ih]

@[simp] theorem run_list (element : Traced α) : element.list.run = Decode.list element.run := by
  simp only [list, Decode.list, run_bind, run_lift, run_reserve, pure_bind, run_many]

theorem reservations_list_of_ok {element : Traced α} {start middle : Reader} {announced : Nat}
    (hread : Decode.count start = .ok announced middle) :
    element.list.reservations start =
      ⟨announced, middle⟩ :: (element.many announced).reservations middle := by
  simp only [list, Bind.bind, lift, reserve, hread]
  rfl

theorem reservations_list_of_error {element : Traced α} {start final : Reader}
    {error : DecodeError} (hread : Decode.count start = .error error final) :
    element.list.reservations start = [] := by
  simp only [list, Bind.bind, lift, hread]
  rfl

/-- The reading is safe, and never reserves room for more elements than bytes are left. -/
structure Sound (traced : Traced α) : Prop where
  safe : traced.run.Safe
  fits : ∀ start, ∀ reservation ∈ traced.reservations start,
    start.Reaches reservation.reader ∧
      reservation.capacity ≤ reservation.reader.rest.length

theorem sound_lift {read : Decode α} (safe : read.Safe) : (lift read).Sound :=
  ⟨safe, fun _ _ hmem => nomatch hmem⟩

theorem sound_pure (value : α) : (pure value : Traced α).Sound := sound_lift (Safe.pure value)

theorem Sound.bind {first : Traced α} {next : α → Traced β} (front : first.Sound)
    (back : ∀ value, (next value).Sound) : (first >>= next).Sound where
  safe := front.safe.bind fun value => (back value).safe
  fits := by
    intro start reservation hmem
    rcases List.mem_append.mp hmem with hfirst | hnext
    · exact front.fits start reservation hfirst
    · split at hnext
      · next value middle hread =>
        obtain ⟨reaches, room⟩ := (back value).fits middle reservation hnext
        exact ⟨((front.safe start).reaches_of_ok hread).trans reaches, room⟩
      · cases hnext

theorem sound_many {element : Traced α} (sound : element.Sound) (count : Nat) :
    (element.many count).Sound := by
  induction count with
  | zero => exact sound_pure []
  | succ left ih => exact sound.bind fun value => ih.bind fun rest => sound_pure (value :: rest)

/-- The number that was read has been found to be no greater than what is left. -/
theorem sound_list {element : Traced α} (sound : element.Sound) : element.list.Sound where
  safe := by
    rw [run_list]
    exact safe_list sound.safe
  fits := by
    intro start reservation hmem
    cases hread : Decode.count start with
    | error error final =>
      rw [reservations_list_of_error hread] at hmem
      cases hmem
    | ok announced middle =>
      rw [reservations_list_of_ok hread] at hmem
      have reaches := (safe_count start).reaches_of_ok hread
      cases hmem with
      | head => exact ⟨reaches, (room_of_count hread).2⟩
      | tail _ hmem =>
        obtain ⟨further, room⟩ := (sound_many sound announced).fits middle reservation hmem
        exact ⟨reaches.trans further, room⟩

/-! ### Records -/

theorem safe_selectorRef : SelectorRef.decode.Safe :=
  safe_string.bind fun _ => safe_optString.bind fun _ => Safe.pure _

theorem safe_methodDef : MethodDef.decode.Safe :=
  safe_string.bind fun _ => safe_string.bind fun _ => safe_string.bind fun _ => Safe.pure _

theorem safe_constant : Constant.decode.Safe := by
  intro start
  apply safeFrom_position_bind
  apply (safe_u8 start).bind
  intro tag middle htag
  split
  · exact SafeFrom.pure _
  split
  · exact (safe_u8.bind fun _ => Safe.pure _) middle
  split
  · exact (safe_i64.bind fun _ => Safe.pure _) middle
  split
  · exact (safe_f64.bind fun _ => Safe.pure _) middle
  split
  · exact (safe_string.bind fun _ => Safe.pure _) middle
  · apply SafeFrom.throw
    rw [((safe_u8 start).reaches_of_ok htag).limit_eq]
    exact start.position_le_limit

def methods : Traced (Sided (List MethodDef)) := do
  let plain ← list (lift MethodDef.decode)
  let metaclass ← list (lift MethodDef.decode)
  return { plain, metaclass }

theorem run_methods : methods.run = decodeMethods := by
  simp only [methods, run_bind, run_list, run_lift, run_pure]
  rfl

theorem sound_methods : methods.Sound :=
  have sound := sound_list (sound_lift safe_methodDef)
  sound.bind fun _ => sound.bind fun _ => sound_pure _

def protocolWithin : Nat → Traced Protocol
  | 0 => lift (Protocol.decodeWithin 0)
  | levels + 1 => do
    let name ← lift Decode.string
    let parents ← list (protocolWithin levels)
    return .node name parents

theorem run_protocolWithin (levels : Nat) :
    (protocolWithin levels).run = Protocol.decodeWithin levels := by
  induction levels with
  | zero => rfl
  | succ levels ih =>
    simp only [protocolWithin, run_bind, run_list, run_lift, run_pure, ih]
    rfl

theorem sound_protocolWithin (levels : Nat) : (protocolWithin levels).Sound := by
  induction levels with
  | zero =>
    apply sound_lift
    intro start
    exact safeFrom_position_bind (SafeFrom.throw start.position_le_limit)
  | succ levels ih =>
    exact (sound_lift safe_string).bind fun _ => (sound_list ih).bind fun _ => sound_pure _

def protocols : Traced (List Protocol) := list (protocolWithin Protocol.depthLimit)

theorem run_protocols : protocols.run = Decode.list Protocol.decode := by
  rw [protocols, run_list, run_protocolWithin]
  rfl

theorem sound_protocols : protocols.Sound := sound_list (sound_protocolWithin _)

def classDef : Traced ClassDef := do
  let name ← lift Decode.string
  let superclass ← lift Decode.optString
  let size ← lift Decode.u32
  let methods ← methods
  let protocols ← protocols
  return { name, superclass, size, methods, protocols }

theorem run_classDef : classDef.run = ClassDef.decode := by
  simp only [classDef, run_bind, run_lift, run_methods, run_protocols, run_pure]
  rfl

theorem sound_classDef : classDef.Sound :=
  (sound_lift safe_string).bind fun _ => (sound_lift safe_optString).bind fun _ =>
    (sound_lift safe_u32).bind fun _ => sound_methods.bind fun _ =>
      sound_protocols.bind fun _ => sound_pure _

def categoryDef : Traced CategoryDef := do
  let name ← lift Decode.string
  let className ← lift Decode.string
  let methods ← methods
  let protocols ← protocols
  return { name, className, methods, protocols }

theorem run_categoryDef : categoryDef.run = CategoryDef.decode := by
  simp only [categoryDef, run_bind, run_lift, run_methods, run_protocols, run_pure]
  rfl

theorem sound_categoryDef : categoryDef.Sound :=
  (sound_lift safe_string).bind fun _ => (sound_lift safe_string).bind fun _ =>
    sound_methods.bind fun _ => sound_protocols.bind fun _ => sound_pure _

def staticGroup : Traced StaticGroup := do
  let className ← lift Decode.string
  let instances ← list (list (lift Constant.decode))
  return { className, instances }

theorem run_staticGroup : staticGroup.run = StaticGroup.decode := by
  simp only [staticGroup, run_bind, run_list, run_lift, run_pure]
  rfl

theorem sound_staticGroup : staticGroup.Sound :=
  (sound_lift safe_string).bind fun _ =>
    (sound_list (sound_list (sound_lift safe_constant))).bind fun _ => sound_pure _

/-! ### Payloads -/

def statics (flags : UInt32) : Traced (List StaticGroup) :=
  if flags &&& LoadUnit.staticsFlag != 0 then list staticGroup else pure []

theorem sound_statics (flags : UInt32) : (statics flags).Sound := by
  unfold statics
  split
  · exact sound_list sound_staticGroup
  · exact sound_pure []

theorem run_statics (flags : UInt32) : (statics flags).run =
    if flags &&& LoadUnit.staticsFlag != 0 then Decode.list StaticGroup.decode else pure [] := by
  unfold statics
  split
  · rw [run_list, run_staticGroup]
  · rfl

def payload (version flags : UInt32) : Traced LoadUnit := do
  let name ← lift Decode.string
  let selectors ← list (lift SelectorRef.decode)
  let classes ← list classDef
  let categories ← list categoryDef
  let statics ← statics flags
  return { version, flags, name, selectors, classes, categories, statics }

theorem run_payload (version flags : UInt32) :
    (payload version flags).run = LoadUnit.decodePayload version flags := by
  simp only [payload, run_bind, run_list, run_lift, run_classDef, run_categoryDef, run_statics,
    run_pure]
  refine bind_congr fun _ => bind_congr fun _ => bind_congr fun _ => bind_congr fun _ => ?_
  split <;> rfl

theorem sound_payload (version flags : UInt32) : (payload version flags).Sound :=
  (sound_lift safe_string).bind fun _ => (sound_list (sound_lift safe_selectorRef)).bind fun _ =>
    (sound_list sound_classDef).bind fun _ => (sound_list sound_categoryDef).bind fun _ =>
      (sound_statics flags).bind fun _ => sound_pure _

end Traced

/-! ### Headers -/

/-- The offset that a refusal names, if it names one. -/
def UnitError.offset? : UnitError → Option Nat
  | .decode error => some error.offset
  | .trailingData offset => some offset
  | _ => none

namespace LoadUnit

variable {α β : Type}

/-- A stage of decoding ends further on, or refuses the unit at an offset within the bytes. -/
structure SafeStage (stage : StateT Reader (Except UnitError) α) : Prop where
  reaches : ∀ {start value final}, stage.run start = .ok (value, final) → start.Reaches final
  offset_le : ∀ {start error}, stage.run start = .error error →
    ∀ offset ∈ error.offset?, offset ≤ start.limit

theorem safeStage_pure (value : α) :
    SafeStage (pure value : StateT Reader (Except UnitError) α) where
  reaches h := by
    cases h
    exact .refl _
  offset_le h := nomatch h

/-- A stage that refuses every unit without naming an offset. -/
theorem safeStage_of_refuses {stage : StateT Reader (Except UnitError) α} {error : UnitError}
    (refuses : ∀ start, stage.run start = .error error) (hnone : error.offset? = none) :
    SafeStage stage where
  reaches {start} {value} {final} h := by
    rw [refuses start] at h
    cases h
  offset_le {start} {found} h offset hoffset := by
    rw [refuses start] at h
    cases h
    rw [hnone] at hoffset
    cases hoffset

theorem safeStage_reading {read : Decode α} (safe : read.Safe) : SafeStage (reading read) where
  reaches h := (safe _).reaches_of_ok (reading_eq_ok_iff.mp h)
  offset_le := by
    intro start error h offset hoffset
    change reading read start = _ at h
    unfold reading at h
    split at h
    · cases h
    · next found _ hread =>
      cases h
      cases hoffset
      exact (safe start).offset_le hread

theorem SafeStage.bind {first : StateT Reader (Except UnitError) α}
    {next : α → StateT Reader (Except UnitError) β} (front : SafeStage first)
    (back : ∀ value, SafeStage (next value)) : SafeStage (first >>= next) where
  reaches h := by
    obtain ⟨value, middle, hfirst, hnext⟩ := run_bind_eq_ok_iff.mp h
    exact (front.reaches hfirst).trans ((back value).reaches hnext)
  offset_le := by
    intro start error h offset hoffset
    cases hfirst : first.run start with
    | error found =>
      have hsame : error = found := by
        change (first.run start >>= fun pair => (next pair.1).run pair.2) = _ at h
        rw [hfirst] at h
        cases h
        rfl
      exact front.offset_le hfirst offset (hsame ▸ hoffset)
    | ok pair =>
      have hnext : (next pair.1).run pair.2 = .error error := by
        change (first.run start >>= fun pair => (next pair.1).run pair.2) = _ at h
        rw [hfirst] at h
        exact h
      rw [← (front.reaches hfirst).limit_eq]
      exact (back pair.1).offset_le hnext offset hoffset

theorem safeStage_decodeHeader : SafeStage decodeHeader := by
  have word := safeStage_reading safe_u32
  apply (safeStage_reading (safe_bytes 4)).bind
  intro mark
  split
  · exact safeStage_of_refuses (fun _ => rfl) rfl
  apply word.bind
  intro version
  dsimp only
  split
  · exact safeStage_of_refuses (fun _ => rfl) rfl
  · exact word.bind fun _ => (safeStage_reading (safe_number 4)).bind fun _ =>
      word.bind fun _ => safeStage_pure _

/-! ### Units -/

/-- What comes of a unit whose payload has been read: nothing may be left. -/
def judge : Except DecodeError LoadUnit × Reader → Except UnitError LoadUnit
  | (.error error, _) => .error (.decode error)
  | (.ok unit, left) => if left.rest ≠ [] then .error (.trailingData left.position) else .ok unit

/-- Decode a unit, and tell the reservations that are made for it. The header reserves nothing. -/
def decodeTraced (bytes : List UInt8) : Except UnitError LoadUnit × List Reservation :=
  match decodeHeader.run (Reader.of bytes) with
  | .error error => (.error error, [])
  | .ok ((version, flags, declared, checksum), reader) =>
    if declared ≠ reader.rest.length then
      (.error (.lengthMismatch declared reader.rest.length), [])
    else if crc32 reader.rest ≠ checksum then
      (.error (.checksumMismatch checksum (crc32 reader.rest)), [])
    else
      (judge ((Traced.payload version flags).run.attempt reader),
        (Traced.payload version flags).reservations reader)

theorem decodeTraced_fst (bytes : List UInt8) : (decodeTraced bytes).1 = decode bytes := by
  unfold decodeTraced
  cases hheader : decodeHeader.run (Reader.of bytes) with
  | error error => exact (decode_of_header_error hheader).symm
  | ok header =>
    obtain ⟨⟨version, flags, declared, checksum⟩, reader⟩ := header
    simp only [decode, hheader, Bind.bind, Except.bind, Traced.run_payload]
    split
    · rfl
    split
    · rfl
    simp only [StateT.run, reading, attempt]
    cases decodePayload version flags reader with
    | error error left => rfl
    | ok unit left =>
      simp only [judge]
      split <;> rfl

/-- A unit is refused for its header, or what becomes of it is decided by its payload. -/
theorem decodeTraced_cases (bytes : List UInt8) :
    (∃ error, decodeTraced bytes = (.error error, []) ∧
      ∀ offset ∈ error.offset?, offset ≤ bytes.length) ∨
    ∃ version flags declared checksum reader,
      decodeHeader.run (Reader.of bytes) = .ok ((version, flags, declared, checksum), reader) ∧
      decodeTraced bytes = (judge ((Traced.payload version flags).run.attempt reader),
        (Traced.payload version flags).reservations reader) := by
  unfold decodeTraced
  cases hheader : decodeHeader.run (Reader.of bytes) with
  | error error =>
    refine .inl ⟨error, rfl, ?_⟩
    rw [← Reader.limit_of bytes]
    exact safeStage_decodeHeader.offset_le hheader
  | ok header =>
    obtain ⟨⟨version, flags, declared, checksum⟩, reader⟩ := header
    dsimp only
    split
    · exact .inl ⟨_, rfl, fun offset hoffset => nomatch hoffset⟩
    split
    · exact .inl ⟨_, rfl, fun offset hoffset => nomatch hoffset⟩
    exact .inr ⟨version, flags, declared, checksum, reader, rfl, rfl⟩

/-- A unit that is accepted has been read to its last byte. -/
theorem read_to_end {bytes : List UInt8} {unit : LoadUnit} (accepted : decode bytes = .ok unit) :
    ∃ version flags declared checksum reader,
      decodeHeader.run (Reader.of bytes) = .ok ((version, flags, declared, checksum), reader) ∧
      decodePayload version flags reader = .ok unit ⟨[], bytes.length⟩ := by
  rw [← decodeTraced_fst] at accepted
  rcases decodeTraced_cases bytes with ⟨error, htraced, -⟩ |
      ⟨version, flags, declared, checksum, reader, hheader, htraced⟩
  · rw [htraced] at accepted
    cases accepted
  · have safe := (Traced.sound_payload version flags).safe
    rw [Traced.run_payload] at htraced safe
    rw [htraced] at accepted
    refine ⟨version, flags, declared, checksum, reader, hheader, ?_⟩
    cases hread : decodePayload version flags reader with
    | error error left =>
      rw [attempt, hread] at accepted
      cases accepted
    | ok found left =>
      rw [attempt_of_ok hread, judge] at accepted
      split at accepted
      · cases accepted
      · next hrest =>
        cases accepted
        have hlimit := ((safeStage_decodeHeader.reaches hheader).trans
          ((safe reader).reaches_of_ok hread)).limit_eq
        obtain ⟨rest, position⟩ := left
        have hempty : rest = [] := not_not.mp hrest
        subst hempty
        have hposition : position = bytes.length := hlimit.trans (Reader.limit_of bytes)
        rw [hposition]

/-- A refusal names no offset behind the last byte. -/
theorem offset_le_of_refused {bytes : List UInt8} {error : UnitError}
    (refused : decode bytes = .error error) : ∀ offset ∈ error.offset?, offset ≤ bytes.length := by
  rw [← decodeTraced_fst] at refused
  rcases decodeTraced_cases bytes with ⟨found, htraced, hoffset⟩ |
      ⟨version, flags, declared, checksum, reader, hheader, htraced⟩
  · rw [htraced] at refused
    cases refused
    exact hoffset
  · have safe := (Traced.sound_payload version flags).safe
    have reaches := safeStage_decodeHeader.reaches hheader
    have hlimit := reaches.limit_eq.trans (Reader.limit_of bytes)
    rw [htraced] at refused
    unfold attempt at refused
    split at refused
    · next unit left hread =>
      rw [judge] at refused
      split at refused
      · cases refused
        intro offset hoffset
        cases hoffset
        have hleft := ((safe reader).reaches_of_ok hread).limit_eq
        have hposition := left.position_le_limit
        omega
      · cases refused
    · next found left hread =>
      cases refused
      intro offset hoffset
      cases hoffset
      have hfound := (safe reader).offset_le hread
      omega

theorem reservations_fit (bytes : List UInt8) :
    ∀ reservation ∈ (decodeTraced bytes).2, (Reader.of bytes).Reaches reservation.reader ∧
      reservation.capacity ≤ reservation.reader.rest.length := by
  intro reservation hmem
  rcases decodeTraced_cases bytes with ⟨error, htraced, -⟩ |
      ⟨version, flags, declared, checksum, reader, hheader, htraced⟩
  · rw [htraced] at hmem
    cases hmem
  · rw [htraced] at hmem
    obtain ⟨reaches, room⟩ := (Traced.sound_payload version flags).fits reader reservation hmem
    exact ⟨(safeStage_decodeHeader.reaches hheader).trans reaches, room⟩

/-- Whatever the bytes are, and whatever is read of them one after the other, the reader stands
within them and has left what is behind its position; what becomes of the next field is one of the
five outcomes, and the position never goes back. A unit that is accepted has been read to its last
byte, one that is refused names no offset behind it, and room is never reserved for more elements
than there are bytes left in the input at that point. -/
theorem reading_stays_within (bytes : List UInt8) :
    (∀ kinds : List FieldKind,
      let reader := ((Reader.of bytes).readAll kinds).2
      reader.Within bytes ∧ ∀ kind, ∃ outcome next, kind.read.attempt reader = (outcome, next) ∧
        Reads kind reader outcome next ∧ reader.position ≤ next.position) ∧
    (∀ unit, decode bytes = .ok unit → ∃ version flags declared checksum reader,
      decodeHeader.run (Reader.of bytes) = .ok ((version, flags, declared, checksum), reader) ∧
      decodePayload version flags reader = .ok unit ⟨[], bytes.length⟩) ∧
    (∀ error, decode bytes = .error error → ∀ offset ∈ error.offset?, offset ≤ bytes.length) ∧
    (decodeTraced bytes).1 = decode bytes ∧
    ∀ reservation ∈ (decodeTraced bytes).2, reservation.reader.Within bytes ∧
      reservation.capacity ≤ reservation.reader.rest.length := by
  refine ⟨?_, fun _ => read_to_end, fun _ => offset_le_of_refused, decodeTraced_fst bytes, ?_⟩
  · intro kinds reader
    refine ⟨Reader.within_of_reaches (Reader.reaches_readAll kinds (Reader.of bytes)), ?_⟩
    intro kind
    exact ⟨_, _, rfl, reads_attempt kind reader, (kind.safe_read.reaches_attempt reader).position_le⟩
  · intro reservation hmem
    obtain ⟨reaches, room⟩ := reservations_fit bytes reservation hmem
    exact ⟨Reader.within_of_reaches reaches, room⟩

theorem reading_stays_within_oneTruth :
    decode oneTruth.encode = .ok oneTruth ∧
    (∃ version flags reader,
      decodePayload version flags reader = .ok oneTruth ⟨[], oneTruth.encode.length⟩) ∧
    decode (oneTruth.encode.take 7) = .error (.decode (.unexpectedEnd 4)) ∧
    4 ≤ (oneTruth.encode.take 7).length ∧
    (decodeTraced oneTruth.encode).2.map (·.capacity) = [0, 0, 0, 1, 1, 1] := by
  have accepted : decode oneTruth.encode = .ok oneTruth := by decide +kernel
  have refused : decode (oneTruth.encode.take 7) = .error (.decode (.unexpectedEnd 4)) := by
    decide +kernel
  obtain ⟨-, hend, -⟩ := reading_stays_within oneTruth.encode
  obtain ⟨version, flags, _, _, reader, -, hread⟩ := hend oneTruth accepted
  obtain ⟨-, -, hoffset, -⟩ := reading_stays_within (oneTruth.encode.take 7)
  refine ⟨accepted, ⟨version, flags, reader, hread⟩, refused, hoffset _ refused 4 rfl, ?_⟩
  decide +kernel

end LoadUnit

end LateBinding
