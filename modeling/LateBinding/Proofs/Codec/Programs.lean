import LateBinding.Proofs.Codec.Readings

/-!
# Reading what a program wrote

A program is any sequence of acts of writing. Patches reach back into bytes that were written before
them, so the bytes cannot be read off act by act from the left. What makes up for it is that a patch
only ever falls on a whole place that was reserved: all bytes in front of such a place, and all
behind it, are as if the patch had not been made. So each reserved place ends with the number of the
last patch at its offset, and every other field as it was written.
-/

namespace LateBinding

/-! ### Programs -/

/-- How many bytes an act adds. -/
def Emission.width : Emission → Nat
  | .field content => content.encode.length
  | .reserve => 4
  | .patch _ _ => 0

/-- How many bytes a program adds. -/
def widthOf (program : List Emission) : Nat := (program.map Emission.width).sum

/-- The bytes after a program, if none of its patches is beyond the end. -/
def emitAll (bytes : List UInt8) (program : List Emission) : Option (List UInt8) :=
  program.foldlM emit bytes

/-- The number that an act patches in at an offset. -/
def Emission.patchTo? (offset : Nat) : Emission → Option UInt32
  | .patch place value => if place = offset then some value else none
  | _ => none

/-- The number that a program leaves at a reserved offset: its last patch there, or zero. -/
def lastPatch (offset : Nat) (program : List Emission) : UInt32 :=
  (program.filterMap (Emission.patchTo? offset)).getLastD 0

/-- The fields that a program leaves from an offset on, each with the offset it stands at. -/
def layout (offset : Nat) : List Emission → List (Nat × Field)
  | [] => []
  | .field field :: rest => (offset, field) :: layout (offset + field.encode.length) rest
  | .reserve :: rest => (offset, .u32 (lastPatch offset rest)) :: layout (offset + 4) rest
  | .patch _ _ :: rest => layout offset rest

/-- The bytes of fields that stand one after the other. -/
def encodeLayout (fields : List (Nat × Field)) : List UInt8 :=
  fields.flatMap fun entry => entry.2.encode

/-- The kind of field that an act is read back as. A patch is read with the field it falls on. -/
def Emission.kind? : Emission → Option FieldKind
  | .field content => some content.kind
  | .reserve => some .u32
  | .patch _ _ => none

/-- A program that is written at an offset, after places were reserved: it patches only reserved
places, and every field can be read in front of all that is written after it. -/
inductive Proper : (reserved : List Nat) → (offset : Nat) → List Emission → Prop
  | nil {reserved offset} : Proper reserved offset []
  | field {reserved offset field rest} (fits : field.Fits (widthOf rest))
      (proper : Proper reserved (offset + field.encode.length) rest) :
      Proper reserved offset (.field field :: rest)
  | reserve {reserved offset rest} (proper : Proper (offset :: reserved) (offset + 4) rest) :
      Proper reserved offset (.reserve :: rest)
  | patch {reserved offset place value rest} (known : place ∈ reserved)
      (proper : Proper reserved offset rest) :
      Proper reserved offset (.patch place value :: rest)

/-- Whether a program is proper can be found out by going through it once. -/
instance decidableProper : (reserved : List Nat) → (offset : Nat) → (program : List Emission) →
    Decidable (Proper reserved offset program)
  | _, _, [] => .isTrue .nil
  | reserved, offset, .field content :: rest =>
    have := decidableProper reserved (offset + content.encode.length) rest
    decidable_of_iff
      (content.Fits (widthOf rest) ∧ Proper reserved (offset + content.encode.length) rest)
      ⟨fun h => .field h.1 h.2, fun | .field fits proper => ⟨fits, proper⟩⟩
  | reserved, offset, .reserve :: rest =>
    have := decidableProper (offset :: reserved) (offset + 4) rest
    decidable_of_iff (Proper (offset :: reserved) (offset + 4) rest)
      ⟨.reserve, fun | .reserve proper => proper⟩
  | reserved, offset, .patch place _ :: rest =>
    have := decidableProper reserved offset rest
    decidable_of_iff (place ∈ reserved ∧ Proper reserved offset rest)
      ⟨fun h => .patch h.1 h.2, fun | .patch known proper => ⟨known, proper⟩⟩

/-! ### Patches -/

theorem getElem?_patchAt {bytes patched : List UInt8} {offset index : Nat} {value : UInt32}
    (h : patchAt bytes offset value = some patched)
    (outside : index < offset ∨ offset + 4 ≤ index) : patched[index]? = bytes[index]? := by
  unfold patchAt at h
  split at h
  · next hroom =>
    cases h
    have hfour := Encode.length_u32 value
    have htake : (bytes.take offset).length = offset := by
      rw [List.length_take]
      omega
    rw [List.append_assoc]
    rcases outside with hbefore | hbehind
    · rw [List.getElem?_append_left (by omega), List.getElem?_take_of_lt hbefore]
    · rw [List.getElem?_append_right (by omega), List.getElem?_append_right (by omega), htake,
        hfour, List.getElem?_drop]
      congr 1
      omega
  · cases h

theorem patchAt_eq_none {bytes : List UInt8} {offset : Nat} {value : UInt32}
    (h : bytes.length < offset + 4) : patchAt bytes offset value = none :=
  if_neg (Nat.not_le.mpr h)

theorem patchAt_append_of_le {front : List UInt8} {offset : Nat} (h : offset + 4 ≤ front.length)
    (back : List UInt8) (value : UInt32) :
    patchAt (front ++ back) offset value = (patchAt front offset value).map (· ++ back) := by
  have hwhole : offset + 4 ≤ (front ++ back).length := by
    rw [List.length_append]
    omega
  rw [patchAt, patchAt, if_pos h, if_pos hwhole, Option.map_some,
    List.take_append_of_le_length (by omega), List.drop_append_of_le_length h]
  simp only [List.append_assoc]

theorem patchAt_length (front : List UInt8) (old new : UInt32) :
    patchAt (front ++ Encode.u32 old) front.length new = some (front ++ Encode.u32 new) := by
  have hwhole : (front ++ Encode.u32 old).length = front.length + 4 := by
    rw [List.length_append, Encode.length_u32]
  rw [patchAt, if_pos (Nat.le_of_eq hwhole.symm), List.take_left, ← hwhole, List.drop_length,
    List.append_nil]

/-! ### Patches of a program in bytes that stood before it -/

/-- The bytes with the number that an act patches in, if it patches within them. -/
def patchedBy (bytes : List UInt8) : Emission → List UInt8
  | .patch offset value => (patchAt bytes offset value).getD bytes
  | _ => bytes

def patchedByAll (bytes : List UInt8) (program : List Emission) : List UInt8 :=
  program.foldl patchedBy bytes

@[simp] theorem length_patchedBy (bytes : List UInt8) (act : Emission) :
    (patchedBy bytes act).length = bytes.length := by
  cases act with
  | patch offset value =>
    cases h : patchAt bytes offset value with
    | none => simp [patchedBy, h]
    | some patched => simp [patchedBy, h, length_patchAt h]
  | _ => rfl

theorem length_patchedByAll (bytes : List UInt8) (program : List Emission) :
    (patchedByAll bytes program).length = bytes.length := by
  induction program generalizing bytes with
  | nil => rfl
  | cons act rest ih => exact (ih (patchedBy bytes act)).trans (length_patchedBy bytes act)

/-- The act patches nothing from the one offset to the other. -/
def Emission.Spares (low high : Nat) (act : Emission) : Prop :=
  ∀ place value, act = .patch place value → place + 4 ≤ low ∨ high ≤ place

theorem patchedBy_append {front back : List UInt8} {act : Emission}
    (spares : act.Spares front.length (front.length + back.length)) :
    patchedBy (front ++ back) act = patchedBy front act ++ back := by
  cases act with
  | patch place value =>
    simp only [patchedBy]
    rcases spares place value rfl with hfront | hbehind
    · rw [patchAt_append_of_le hfront]
      cases patchAt front place value <;> rfl
    · rw [patchAt_eq_none (by rw [List.length_append]; omega), patchAt_eq_none (by omega)]
      rfl
  | _ => rfl

theorem patchedByAll_append {front back : List UInt8} {program : List Emission}
    (spares : ∀ act ∈ program, act.Spares front.length (front.length + back.length)) :
    patchedByAll (front ++ back) program = patchedByAll front program ++ back := by
  induction program generalizing front with
  | nil => rfl
  | cons act rest ih =>
    have hfirst := spares act List.mem_cons_self
    have hrest : ∀ act' ∈ rest, act'.Spares (patchedBy front act).length
        ((patchedBy front act).length + back.length) := by
      intro act' hmem
      rw [length_patchedBy]
      exact spares act' (List.mem_cons_of_mem act hmem)
    change patchedByAll (patchedBy (front ++ back) act) rest = _
    rw [patchedBy_append hfirst, ih hrest]
    rfl

/-- A reserved place takes up each number that is patched in at its offset. -/
theorem patchedByAll_append_u32 {front : List UInt8} (old : UInt32) {program : List Emission}
    (whole : ∀ act ∈ program, act.Spares front.length (front.length + 4) ∨
      ∃ value, act = .patch front.length value) :
    patchedByAll (front ++ Encode.u32 old) program = patchedByAll front program ++
      Encode.u32 ((program.filterMap (Emission.patchTo? front.length)).getLastD old) := by
  induction program generalizing front old with
  | nil => rfl
  | cons act rest ih =>
    have hrest : ∀ act' ∈ rest, act'.Spares (patchedBy front act).length
        ((patchedBy front act).length + 4) ∨
          ∃ value, act' = .patch (patchedBy front act).length value := by
      intro act' hmem
      rw [length_patchedBy]
      exact whole act' (List.mem_cons_of_mem act hmem)
    replace ih := fun old => ih old hrest
    simp only [length_patchedBy] at ih
    change patchedByAll (patchedBy (front ++ Encode.u32 old) act) rest = _
    rcases whole act List.mem_cons_self with spares | ⟨value, rfl⟩
    · have hmiss : act.patchTo? front.length = none := by
        cases act with
        | patch place value =>
          have hapart := spares place value rfl
          exact if_neg (by omega)
        | _ => rfl
      rw [← Encode.length_u32 old] at spares
      rw [patchedBy_append spares, ih old, List.filterMap_cons_none hmiss]
      rfl
    · have hhit : (Emission.patch front.length value).patchTo? front.length = some value :=
        if_pos rfl
      have hback : patchedBy (front ++ Encode.u32 old) (.patch front.length value) =
          patchedBy front (.patch front.length value) ++ Encode.u32 value := by
        simp only [patchedBy]
        rw [patchAt_length, patchAt_eq_none (by omega)]
        rfl
      rw [hback, ih value, List.filterMap_cons_some hhit, List.getLastD_cons]
      rfl

/-! ### What a program writes -/

/-- A program patches places that were reserved before it, or reserves them itself. -/
theorem Proper.place {reserved : List Nat} {offset place : Nat} {value : UInt32}
    {program : List Emission} (proper : Proper reserved offset program)
    (hmem : .patch place value ∈ program) : place ∈ reserved ∨ offset ≤ place := by
  induction proper with
  | nil => cases hmem
  | field fits _ ih =>
    cases hmem with
    | tail _ hmem => exact (ih hmem).imp_right (by omega)
  | reserve _ ih =>
    cases hmem with
    | tail _ hmem =>
      rcases ih hmem with hknown | hbehind
      · rcases List.mem_cons.mp hknown with rfl | hknown
        · exact .inr (Nat.le_refl _)
        · exact .inl hknown
      · exact .inr (by omega)
  | patch known _ ih =>
    cases hmem with
    | head => exact .inl known
    | tail _ hmem => exact ih hmem

/-- Writing leaves the bytes that stood before, with the patches that fall on them, and behind them
the fields of the program. -/
theorem emitAll_eq {reserved : List Nat} {offset : Nat} {program : List Emission}
    (proper : Proper reserved offset program) (bytes : List UInt8) (hoffset : bytes.length = offset)
    (within : ∀ place ∈ reserved, place + 4 ≤ offset) :
    emitAll bytes program =
      some (patchedByAll bytes program ++ encodeLayout (layout offset program)) := by
  induction proper generalizing bytes with
  | nil => simp [emitAll, patchedByAll, layout, encodeLayout]
  | @field reserved offset content rest fits proper ih =>
    subst hoffset
    have hlength : (bytes ++ content.encode).length = bytes.length + content.encode.length :=
      List.length_append
    have hrest := ih _ hlength fun place hmem => by
      have hplace := within place hmem
      omega
    have hspares : ∀ act ∈ rest,
        act.Spares bytes.length (bytes.length + content.encode.length) := by
      rintro _ hmem place value rfl
      exact (proper.place hmem).imp_left (within place)
    change emitAll (bytes ++ content.encode) rest = _
    rw [hrest, patchedByAll_append hspares, List.append_assoc]
    rfl
  | @reserve reserved offset rest proper ih =>
    subst hoffset
    have hlength : (bytes ++ Encode.u32 0).length = bytes.length + 4 := by
      rw [List.length_append, Encode.length_u32]
    have hrest := ih _ hlength fun place hmem => by
      rcases List.mem_cons.mp hmem with rfl | hmem
      · exact Nat.le_refl _
      · exact Nat.le_add_right_of_le (within place hmem)
    have hwhole : ∀ act ∈ rest, act.Spares bytes.length (bytes.length + 4) ∨
        ∃ value, act = .patch bytes.length value := by
      intro act hmem
      by_cases hhit : ∃ value, act = .patch bytes.length value
      · exact .inr hhit
      · refine .inl fun place value hact => ?_
        subst hact
        rcases proper.place hmem with hknown | hbehind
        · rcases List.mem_cons.mp hknown with rfl | hknown
          · exact absurd ⟨value, rfl⟩ hhit
          · exact .inl (within place hknown)
        · exact .inr hbehind
    change emitAll (bytes ++ Encode.u32 0) rest = _
    rw [hrest, patchedByAll_append_u32 0 hwhole, List.append_assoc]
    rfl
  | @patch reserved offset place value rest known proper ih =>
    subst hoffset
    have hroom : place + 4 ≤ bytes.length := within place known
    have hpatched : emit bytes (.patch place value) =
        some (patchedBy bytes (.patch place value)) := by
      simp only [emit, patchedBy, patchAt, if_pos hroom, Option.getD_some]
    have hrest := ih _ (length_patchedBy bytes (.patch place value)) within
    rw [emitAll, List.foldlM_cons, hpatched]
    exact hrest

/-! ### What is read back -/

theorem read_encode {field : Field} {rest : List UInt8} (fits : field.Fits rest.length)
    (position : Nat) :
    field.kind.read ⟨field.encode ++ rest, position⟩ =
      .ok field ⟨rest, position + field.encode.length⟩ := by
  cases field with
  | u8 value => exact (Decode.takes_u8 value).map Field.u8 rest position
  | u32 value => exact (Decode.takes_u32 value).map Field.u32 rest position
  | i64 value => exact (Decode.takes_i64 value).map Field.i64 rest position
  | f64 value => exact (Decode.takes_f64 value).map Field.f64 rest position
  | bytes value => exact (Decode.takes_bytes value).map Field.bytes rest position
  | string text => exact (Decode.takes_string_of_lt text fits).map Field.string rest position
  | optString text =>
    exact (Decode.takes_optString_of_lt text fits).map Field.optString rest position
  | count announced =>
    have hcount := Decode.count_eq_ok fits.1 fits.2 position
    simp only [FieldKind.read, Field.kind, Field.encode, Functor.map, EStateM.map, hcount,
      Encode.length_count]

theorem length_encodeLayout (offset : Nat) (program : List Emission) :
    (encodeLayout (layout offset program)).length = widthOf program := by
  induction program generalizing offset with
  | nil => rfl
  | cons act rest ih =>
    cases act with
    | field content =>
      change (content.encode ++ encodeLayout _).length = content.encode.length + widthOf rest
      rw [List.length_append, ih]
    | reserve =>
      change (Encode.u32 _ ++ encodeLayout _).length = 4 + widthOf rest
      rw [List.length_append, ih, Encode.length_u32]
    | patch place value =>
      change (encodeLayout (layout offset rest)).length = 0 + widthOf rest
      rw [ih, Nat.zero_add]

theorem readAll_cons_encode {field : Field} {rest : List UInt8} (fits : field.Fits rest.length)
    (kinds : List FieldKind) (position : Nat) :
    Reader.readAll (field.kind :: kinds) ⟨field.encode ++ rest, position⟩ =
      ((position, .ok field) :: (Reader.readAll kinds ⟨rest, position + field.encode.length⟩).1,
        (Reader.readAll kinds ⟨rest, position + field.encode.length⟩).2) := by
  rw [Reader.readAll, Decode.attempt_of_ok (read_encode fits position)]

/-- The outcomes of readings that give these fields at these offsets. -/
def readsOf (fields : List (Nat × Field)) : List (Nat × Except DecodeError Field) :=
  fields.map fun entry => (entry.1, .ok entry.2)

theorem readAll_layout {reserved : List Nat} {offset : Nat} {program : List Emission}
    (proper : Proper reserved offset program) :
    Reader.readAll (program.filterMap Emission.kind?) ⟨encodeLayout (layout offset program), offset⟩ =
      (readsOf (layout offset program), ⟨[], offset + widthOf program⟩) := by
  induction proper with
  | nil => rfl
  | @field reserved offset content rest fits proper ih =>
    rw [← length_encodeLayout (offset + content.encode.length)] at fits
    change Reader.readAll (content.kind :: _) ⟨content.encode ++ encodeLayout _, offset⟩ = _
    rw [readAll_cons_encode fits, ih, Nat.add_assoc]
    rfl
  | @reserve reserved offset rest proper ih =>
    have hfour : (Field.u32 (lastPatch offset rest)).encode.length = 4 := Encode.length_u32 _
    have fits : (Field.u32 (lastPatch offset rest)).Fits
      (encodeLayout (layout (offset + 4) rest)).length := trivial
    change Reader.readAll ((Field.u32 (lastPatch offset rest)).kind :: _)
      ⟨(Field.u32 (lastPatch offset rest)).encode ++ encodeLayout _, offset⟩ = _
    rw [readAll_cons_encode fits, hfour, ih, Nat.add_assoc]
    rfl
  | @patch reserved offset place value rest known proper ih =>
    change Reader.readAll (rest.filterMap Emission.kind?) ⟨encodeLayout (layout offset rest), offset⟩ =
      (readsOf (layout offset rest), ⟨[], offset + (0 + widthOf rest)⟩)
    rw [ih, Nat.zero_add]

/-- A program from nothing writes as many bytes as its acts add. Reading them, kind by kind in the
order of writing, gives every field as it was written and every reserved place with its last patch,
each at the offset behind the one before, and takes all bytes. A patch, wherever it falls, changes
no byte outside its four. -/
theorem program_read_back (program : List Emission) (proper : Proper [] 0 program) :
    (∃ bytes, emitAll [] program = some bytes ∧ bytes.length = widthOf program ∧
      (Reader.of bytes).readAll (program.filterMap Emission.kind?) =
        (readsOf (layout 0 program), ⟨[], bytes.length⟩)) ∧
    ∀ (bytes patched : List UInt8) (offset : Nat) (value : UInt32),
      emit bytes (.patch offset value) = some patched →
        patched.length = bytes.length ∧
          ∀ index, index < offset ∨ offset + 4 ≤ index → patched[index]? = bytes[index]? := by
  constructor
  · have hbytes := emitAll_eq proper [] rfl fun place hmem => nomatch hmem
    have hempty : patchedByAll [] program = [] :=
      List.eq_nil_of_length_eq_zero (length_patchedByAll [] program)
    rw [hempty, List.nil_append] at hbytes
    refine ⟨_, hbytes, length_encodeLayout 0 program, ?_⟩
    have hread := readAll_layout proper
    rw [Nat.zero_add] at hread
    rw [length_encodeLayout]
    exact hread
  · intro bytes patched offset value h
    exact ⟨length_patchAt h, fun index outside => getElem?_patchAt h outside⟩

/-- Two reserved places around fields of every kind. The one is patched twice, also while bytes are
still written; the other never. A raw field of no bytes shares an offset with a reserved place. -/
def patchingSample : List Emission :=
  [.field (.bytes []), .reserve, .field (.u8 200), .field (.optString (some "")), .patch 0 7,
    .field (.optString none), .field (.string "é…"), .reserve, .field (.i64 (-1)),
    .patch 0 0xFFFFFFFF, .field (.f64 ⟨0x7FF8000000000001⟩), .field (.count 3),
    .field (.bytes [1, 2, 3]), .field (.u32 5)]

theorem program_read_back_patching : Proper [] 0 patchingSample ∧
    ∃ bytes, emitAll [] patchingSample = some bytes ∧
      (Reader.of bytes).readAll (patchingSample.filterMap Emission.kind?) =
        ([(0, .ok (.bytes [])), (0, .ok (.u32 0xFFFFFFFF)), (4, .ok (.u8 200)),
          (5, .ok (.optString (some ""))), (9, .ok (.optString none)), (13, .ok (.string "é…")),
          (22, .ok (.u32 0)), (26, .ok (.i64 (-1))), (34, .ok (.f64 ⟨0x7FF8000000000001⟩)),
          (42, .ok (.count 3)), (46, .ok (.bytes [1, 2, 3])), (49, .ok (.u32 5))], ⟨[], 53⟩) := by
  have proper : Proper [] 0 patchingSample := by decide +kernel
  obtain ⟨bytes, hbytes, hlength, hread⟩ := (program_read_back patchingSample proper).1
  have hwidth : widthOf patchingSample = 53 := by decide +kernel
  rw [hlength, hwidth] at hread
  refine ⟨proper, bytes, hbytes, hread.trans ?_⟩
  decide +kernel

end LateBinding
