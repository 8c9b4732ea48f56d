import LateBinding.LoadUnit.Decode
import LateBinding.Proofs.Codec.Fields

/-!
# Writing again what was read

Whatever a reader gives, it took the bytes that this is written as. There is one exception. The
value of a truth constant is written as 0 or 1, but every other byte is read as 1 is. So the bytes
that were taken and those that are written have the same length, and they agree in all places but
those of such values.
-/

namespace LateBinding

/-! ### Spelling -/

/-- The bytes stand for the same as what is written. At the loose offsets each stands for a truth
value: the byte before is the tag of a truth constant, and zero alone is false. -/
structure Spells (loose : List Nat) (bytes written : List UInt8) : Prop where
  length_eq : bytes.length = written.length
  strict : ∀ index, index ∉ loose → bytes[index]? = written[index]?
  truth : ∀ index ∈ loose, 0 < index ∧ bytes[index - 1]? = some 1 ∧
    ∃ byte, bytes[index]? = some byte ∧ written[index]? = some (if byte = 0 then 0 else 1)

namespace Spells

variable {loose loose' : List Nat} {bytes bytes' written written' : List UInt8}

theorem nil_iff : Spells [] bytes written ↔ bytes = written := by
  constructor
  · intro spells
    exact List.ext_getElem? fun index => spells.strict index List.not_mem_nil
  · intro h
    subst h
    exact ⟨rfl, fun _ _ => rfl, fun index hindex => absurd hindex List.not_mem_nil⟩

theorem append (front : Spells loose bytes written) (back : Spells loose' bytes' written') :
    Spells (loose ++ loose'.map (written.length + ·)) (bytes ++ bytes') (written ++ written') where
  length_eq := by simp only [List.length_append, front.length_eq, back.length_eq]
  strict := by
    intro index hindex
    rw [List.mem_append, List.mem_map, not_or] at hindex
    by_cases hin : index < bytes.length
    · rw [List.getElem?_append_left hin, List.getElem?_append_left (front.length_eq ▸ hin)]
      exact front.strict index hindex.1
    · have hout : written.length ≤ index := by
        rw [← front.length_eq]
        exact Nat.le_of_not_lt hin
      rw [List.getElem?_append_right (Nat.le_of_not_lt hin), List.getElem?_append_right hout,
        front.length_eq]
      apply back.strict
      intro hmem
      exact hindex.2 ⟨index - written.length, hmem, by omega⟩
  truth := by
    intro index hindex
    rcases List.mem_append.mp hindex with hfront | hback
    · obtain ⟨hpos, htag, byte, hbyte, hwritten⟩ := front.truth index hfront
      have hin : index < bytes.length := (List.getElem?_eq_some_iff.mp hbyte).1
      refine ⟨hpos, ?_, byte, ?_, ?_⟩
      · rw [List.getElem?_append_left (by omega), htag]
      · rw [List.getElem?_append_left hin, hbyte]
      · rw [List.getElem?_append_left (front.length_eq ▸ hin), hwritten]
    · obtain ⟨inner, hinner, rfl⟩ := List.mem_map.mp hback
      obtain ⟨hpos, htag, byte, hbyte, hwritten⟩ := back.truth inner hinner
      have hlength := front.length_eq
      refine ⟨by omega, ?_, byte, ?_, ?_⟩
      · rw [List.getElem?_append_right (by omega), ← htag]
        congr 1
        omega
      · rw [List.getElem?_append_right (by omega), ← hbyte]
        congr 1
        omega
      · rw [List.getElem?_append_right (by omega), Nat.add_sub_cancel_left, hwritten]

/-- What stands in front of bytes and is written as it stood moves their loose offsets. -/
theorem prepend (front : List UInt8) (spells : Spells loose bytes written) :
    Spells (loose.map (front.length + ·)) (front ++ bytes) (front ++ written) :=
  (nil_iff.mpr (Eq.refl front)).append spells

/-- Bytes and what is written differ only where a truth value is neither 0 nor 1. -/
theorem large_of_ne (spells : Spells loose bytes written) {index : Nat}
    (hne : written[index]? ≠ bytes[index]?) :
    index ∈ loose ∧ ∃ byte, bytes[index]? = some byte ∧ 1 < byte := by
  have hindex : index ∈ loose := by
    by_contra hstrict
    exact hne (spells.strict index hstrict).symm
  obtain ⟨-, -, byte, hbyte, hwritten⟩ := spells.truth index hindex
  refine ⟨hindex, byte, hbyte, ?_⟩
  rw [hbyte, hwritten, ne_eq, Option.some_inj] at hne
  rw [UInt8.lt_iff_toNat_lt]
  have hone : (1 : UInt8).toNat = 1 := rfl
  by_contra hsmall
  apply hne
  split
  · next hzero => exact hzero.symm
  · next hpos =>
    have hpos' : byte.toNat ≠ 0 := fun h => hpos (UInt8.toNat_inj.mp h)
    exact UInt8.toNat_inj.mp (by omega)

theorem eq_of_le_one (spells : Spells loose bytes written)
    (hplain : ∀ index ∈ loose, ∀ byte, bytes[index]? = some byte → byte ≤ 1) : written = bytes := by
  apply List.ext_getElem?
  intro index
  by_contra hne
  obtain ⟨hindex, byte, hbyte, hlarge⟩ := spells.large_of_ne hne
  exact UInt8.not_le.mpr hlarge (hplain index hindex byte hbyte)

end Spells

namespace Decode

variable {α β : Type}

/-! ### Taking a run apart -/

theorem bind_eq_ok_iff {read : Decode α} {next : α → Decode β} {start final : Reader} {result : β} :
    (read >>= next) start = .ok result final ↔
      ∃ value middle, read start = .ok value middle ∧ next value middle = .ok result final := by
  simp only [Bind.bind, EStateM.bind]
  constructor
  · intro h
    split at h
    · next value middle heq => exact ⟨value, middle, heq, h⟩
    · cases h
  · intro h
    obtain ⟨value, middle, heq, h⟩ := h
    rw [heq]
    exact h

theorem map_eq_ok_iff {read : Decode α} {f : α → β} {start final : Reader} {result : β} :
    (f <$> read) start = .ok result final ↔ ∃ value, read start = .ok value final ∧
      f value = result := by
  simp only [Functor.map, EStateM.map]
  constructor
  · intro h
    split at h
    · next value middle heq =>
      cases h
      exact ⟨value, heq, rfl⟩
    · cases h
  · intro h
    obtain ⟨value, heq, rfl⟩ := h
    rw [heq]

/-! ### Readers that take what is written -/

/-- Whatever the reader gives, it took bytes that stand for it. -/
def Rewrites (read : Decode α) (write : α → List UInt8) (loose : α → List Nat) : Prop :=
  ∀ start value final, read start = .ok value final →
    ∃ taken, start.rest = taken ++ final.rest ∧ Spells (loose value) taken (write value)

/-- Whatever the reader gives, it took the bytes that this is written as. -/
def Restores (read : Decode α) (write : α → List UInt8) : Prop :=
  ∀ start value final, read start = .ok value final → start.rest = write value ++ final.rest

variable {read : Decode α} {write : α → List UInt8} {loose : α → List Nat}

theorem Restores.rewrites (restores : read.Restores write) : read.Rewrites write fun _ => [] := by
  intro start value final hread
  exact ⟨write value, restores start value final hread, Spells.nil_iff.mpr rfl⟩

theorem Rewrites.restores (rewrites : read.Rewrites write loose)
    (hnone : ∀ value, loose value = []) : read.Restores write := by
  intro start value final hread
  obtain ⟨taken, htaken, spells⟩ := rewrites start value final hread
  rw [hnone, Spells.nil_iff] at spells
  rw [htaken, spells]

/-! ### Fields -/

theorem restores_bytes (count : Nat) : (Decode.bytes count).Restores id := by
  intro start taken final hread
  unfold Decode.bytes at hread
  split at hread
  · cases hread
    exact (List.take_append_drop count start.rest).symm
  · cases hread

theorem length_of_bytes {count : Nat} {start final : Reader} {taken : List UInt8}
    (hread : Decode.bytes count start = .ok taken final) : taken.length = count := by
  unfold Decode.bytes at hread
  split at hread
  · next henough =>
    cases hread
    rw [List.length_take]
    exact Nat.min_eq_left ((hasAtLeast_iff count start.rest).mp henough)
  · cases hread

/-- A number of a fixed width holds all that its bytes do. -/
theorem rest_of_number {width n : Nat} {start final : Reader}
    (hread : Decode.number width start = .ok n final) :
    start.rest = littleEndian width n ++ final.rest ∧ n < 256 ^ width := by
  obtain ⟨taken, htaken, rfl⟩ := map_eq_ok_iff.mp hread
  have hlength := length_of_bytes htaken
  subst hlength
  rw [littleEndian_ofLittleEndian]
  exact ⟨restores_bytes _ start taken final htaken, ofLittleEndian_lt taken⟩

theorem restores_of_number {width : Nat} {f : Nat → α}
    (hwrite : ∀ n, n < 256 ^ width → write (f n) = littleEndian width n) :
    (f <$> Decode.number width).Restores write := by
  intro start value final hread
  obtain ⟨n, hn, rfl⟩ := map_eq_ok_iff.mp hread
  obtain ⟨hrest, hsmall⟩ := rest_of_number hn
  rw [hrest, hwrite n hsmall]

theorem restores_u8 : Decode.u8.Restores Encode.u8 := by
  apply restores_of_number
  intro n hsmall
  have hmod : n % 256 = n := Nat.mod_eq_of_lt (by omega)
  rw [littleEndian, littleEndian, hmod]
  rfl

theorem restores_u32 : Decode.u32.Restores Encode.u32 := by
  apply restores_of_number
  intro n hsmall
  rw [Encode.u32, UInt32.toNat_ofNat_of_lt' (by simpa using hsmall)]

theorem restores_i64 : Decode.i64.Restores Encode.i64 := by
  apply restores_of_number
  intro n hsmall
  change littleEndian 8 (UInt64.ofNat n).toNat = _
  rw [UInt64.toNat_ofNat_of_lt' (by simpa using hsmall)]

theorem restores_f64 : Decode.f64.Restores Encode.f64 := by
  apply restores_of_number
  intro n hsmall
  rw [Encode.f64, UInt64.toNat_ofNat_of_lt' (by simpa using hsmall)]

theorem toUTF8_of_fromUTF8? {bytes : ByteArray} {text : String}
    (h : String.fromUTF8? bytes = some text) : text.toUTF8 = bytes := by
  unfold String.fromUTF8? at h
  split at h
  · cases h
    rfl
  · cases h

theorem rest_of_textOf {length : Nat} {start final : Reader} {text : String}
    (hread : Decode.textOf length start = .ok text final) :
    start.rest = text.toUTF8.data.toList ++ final.rest ∧ text.utf8ByteSize = length := by
  obtain ⟨position, _, hposition, hread⟩ := bind_eq_ok_iff.mp hread
  cases hposition
  obtain ⟨body, middle, hbody, hread⟩ := bind_eq_ok_iff.mp hread
  cases htext : String.fromUTF8? body.toByteArray with
  | none =>
    rw [htext] at hread
    cases hread
  | some found =>
    rw [htext] at hread
    cases hread
    have hbytes : text.toUTF8.data.toList = body := by
      rw [toUTF8_of_fromUTF8? htext, List.data_toByteArray]
    refine ⟨?_, ?_⟩
    · rw [hbytes]
      exact restores_bytes length start body _ hbody
    · rw [← length_of_bytes hbody, ← hbytes, Array.length_toList]
      rfl

theorem restores_string : Decode.string.Restores Encode.string := by
  intro start text final hread
  obtain ⟨length, middle, hlength, hread⟩ := bind_eq_ok_iff.mp hread
  obtain ⟨hrest, hsize⟩ := rest_of_textOf hread
  rw [(rest_of_number hlength).1, hrest, Encode.string, Encode.count, hsize, List.append_assoc]

theorem restores_optString : Decode.optString.Restores Encode.optString := by
  intro start text final hread
  obtain ⟨length, middle, hlength, hread⟩ := bind_eq_ok_iff.mp hread
  have hfront := (rest_of_number hlength).1
  by_cases habsent : length = absentLength
  · rw [if_pos habsent] at hread
    cases hread
    rw [hfront, habsent]
    rfl
  · rw [if_neg habsent] at hread
    obtain ⟨found, _, hfound, hread⟩ := bind_eq_ok_iff.mp hread
    cases hread
    obtain ⟨hrest, hsize⟩ := rest_of_textOf hfound
    rw [hfront, hrest, Encode.optString, Encode.string, Encode.count, hsize, List.append_assoc]

/-! ### Lists -/

/-- The loose offsets of elements that are written one after the other. -/
def looseInAll (write : α → List UInt8) (loose : α → List Nat) : List α → List Nat
  | [] => []
  | value :: rest => loose value ++ (looseInAll write loose rest).map ((write value).length + ·)

/-- The loose offsets of a list: its elements stand behind their number. -/
def looseInList (write : α → List UInt8) (loose : α → List Nat) (values : List α) : List Nat :=
  (looseInAll write loose values).map (4 + ·)

theorem looseInList_eq_nil (hnone : ∀ value, loose value = []) (values : List α) :
    looseInList write loose values = [] := by
  have hall : looseInAll write loose values = [] := by
    induction values with
    | nil => rfl
    | cons value rest ih => rw [looseInAll, hnone, ih, List.map_nil, List.append_nil]
  rw [looseInList, hall, List.map_nil]

theorem rewrites_many (element : read.Rewrites write loose) (count : Nat) :
    (Decode.many read count).Rewrites (·.flatMap write) (looseInAll write loose) := by
  induction count with
  | zero =>
    intro start values final hread
    cases hread
    exact ⟨[], rfl, Spells.nil_iff.mpr rfl⟩
  | succ count ih =>
    intro start values final hread
    obtain ⟨value, middle, hvalue, hread⟩ := bind_eq_ok_iff.mp hread
    obtain ⟨rest, _, hrest, hread⟩ := bind_eq_ok_iff.mp hread
    cases hread
    obtain ⟨front, hfront, spellsFront⟩ := element start value middle hvalue
    obtain ⟨back, hback, spellsBack⟩ := ih middle rest _ hrest
    refine ⟨front ++ back, ?_, ?_⟩
    · rw [hfront, hback, List.append_assoc]
    · exact spellsFront.append spellsBack

theorem length_of_many {count : Nat} {start final : Reader} {values : List α}
    (hread : Decode.many read count start = .ok values final) : values.length = count := by
  induction count generalizing start values with
  | zero =>
    cases hread
    rfl
  | succ count ih =>
    obtain ⟨value, middle, -, hread⟩ := bind_eq_ok_iff.mp hread
    obtain ⟨rest, _, hrest, hread⟩ := bind_eq_ok_iff.mp hread
    cases hread
    rw [List.length_cons, ih hrest]

theorem restores_count : Decode.count.Restores Encode.count := by
  intro start announced final hread
  obtain ⟨position, _, hposition, hread⟩ := bind_eq_ok_iff.mp hread
  cases hposition
  obtain ⟨number, middle, hnumber, hread⟩ := bind_eq_ok_iff.mp hread
  obtain ⟨reader, _, hreader, hread⟩ := bind_eq_ok_iff.mp hread
  cases hreader
  split at hread
  · cases hread
    exact (rest_of_number hnumber).1
  · cases hread

theorem rewrites_list (element : read.Rewrites write loose) :
    (Decode.list read).Rewrites (Encode.list write) (looseInList write loose) := by
  intro start values final hread
  obtain ⟨announced, middle, hannounced, hread⟩ := bind_eq_ok_iff.mp hread
  obtain ⟨taken, htaken, spells⟩ := rewrites_many element announced middle values final hread
  have hlength := length_of_many hread
  subst hlength
  refine ⟨Encode.count values.length ++ taken, ?_, ?_⟩
  · rw [restores_count start _ middle hannounced, htaken, List.append_assoc]
  · rw [Encode.list, looseInList, ← Encode.length_count values.length]
    exact spells.prepend _

theorem restores_list (element : read.Restores write) :
    (Decode.list read).Restores (Encode.list write) :=
  (rewrites_list element.rewrites).restores (looseInList_eq_nil fun _ => rfl)

end Decode

/-! ### Records -/

open Decode

theorem restores_selectorRef : SelectorRef.decode.Restores SelectorRef.encode := by
  intro start ref final hread
  obtain ⟨name, afterName, hname, hread⟩ := bind_eq_ok_iff.mp hread
  obtain ⟨types, afterTypes, htypes, hread⟩ := bind_eq_ok_iff.mp hread
  cases hread
  rw [restores_string _ _ _ hname, restores_optString _ _ _ htypes, SelectorRef.encode,
    List.append_assoc]

theorem restores_methodDef : MethodDef.decode.Restores MethodDef.encode := by
  intro start method final hread
  obtain ⟨name, afterName, hname, hread⟩ := bind_eq_ok_iff.mp hread
  obtain ⟨types, afterTypes, htypes, hread⟩ := bind_eq_ok_iff.mp hread
  obtain ⟨symbol, afterSymbol, hsymbol, hread⟩ := bind_eq_ok_iff.mp hread
  cases hread
  rw [restores_string _ _ _ hname, restores_string _ _ _ htypes, restores_string _ _ _ hsymbol,
    MethodDef.encode, List.append_assoc, List.append_assoc]

theorem restores_methods : decodeMethods.Restores encodeMethods := by
  intro start methods final hread
  obtain ⟨plain, afterPlain, hplain, hread⟩ := bind_eq_ok_iff.mp hread
  obtain ⟨metaclass, afterMeta, hmetaclass, hread⟩ := bind_eq_ok_iff.mp hread
  cases hread
  have restores := restores_list restores_methodDef
  rw [restores _ _ _ hplain, restores _ _ _ hmetaclass, encodeMethods, List.append_assoc]

theorem Protocol.restores_decodeWithin (levels : Nat) :
    (decodeWithin levels).Restores encode := by
  induction levels with
  | zero =>
    intro start protocol final hread
    obtain ⟨position, middle, -, hread⟩ := bind_eq_ok_iff.mp hread
    cases hread
  | succ levels ih =>
    intro start protocol final hread
    obtain ⟨name, afterName, hname, hread⟩ := bind_eq_ok_iff.mp hread
    obtain ⟨parents, afterParents, hparents, hread⟩ := bind_eq_ok_iff.mp hread
    cases hread
    rw [restores_string _ _ _ hname, restores_list ih _ _ _ hparents, encode,
      encodeAll_eq_flatMap, Encode.list]
    simp only [List.append_assoc]

theorem restores_protocols : (Decode.list Protocol.decode).Restores (Encode.list Protocol.encode) :=
  restores_list (Protocol.restores_decodeWithin _)

theorem restores_classDef : ClassDef.decode.Restores ClassDef.encode := by
  intro start cls final hread
  obtain ⟨name, afterName, hname, hread⟩ := bind_eq_ok_iff.mp hread
  obtain ⟨superclass, afterSuperclass, hsuperclass, hread⟩ := bind_eq_ok_iff.mp hread
  obtain ⟨size, afterSize, hsize, hread⟩ := bind_eq_ok_iff.mp hread
  obtain ⟨methods, afterMethods, hmethods, hread⟩ := bind_eq_ok_iff.mp hread
  obtain ⟨protocols, afterProtocols, hprotocols, hread⟩ := bind_eq_ok_iff.mp hread
  cases hread
  rw [restores_string _ _ _ hname, restores_optString _ _ _ hsuperclass,
    restores_u32 _ _ _ hsize, restores_methods _ _ _ hmethods,
    restores_protocols _ _ _ hprotocols, ClassDef.encode]
  simp only [List.append_assoc]

theorem restores_categoryDef : CategoryDef.decode.Restores CategoryDef.encode := by
  intro start category final hread
  obtain ⟨name, afterName, hname, hread⟩ := bind_eq_ok_iff.mp hread
  obtain ⟨className, afterClassName, hclassName, hread⟩ := bind_eq_ok_iff.mp hread
  obtain ⟨methods, afterMethods, hmethods, hread⟩ := bind_eq_ok_iff.mp hread
  obtain ⟨protocols, afterProtocols, hprotocols, hread⟩ := bind_eq_ok_iff.mp hread
  cases hread
  rw [restores_string _ _ _ hname, restores_string _ _ _ hclassName,
    restores_methods _ _ _ hmethods, restores_protocols _ _ _ hprotocols, CategoryDef.encode]
  simp only [List.append_assoc]

/-! ### Constants -/

/-- Where the value of a truth constant stands in the bytes of a constant. -/
def Constant.truthOffsets : Constant → List Nat
  | .bool _ => [1]
  | _ => []

def StaticGroup.truthOffsets (group : StaticGroup) : List Nat :=
  (looseInList (Encode.list Constant.encode)
    (looseInList Constant.encode Constant.truthOffsets) group.instances).map
      ((Encode.string group.className).length + ·)

theorem spells_bool (byte : UInt8) :
    Spells [1] [1, byte] (Constant.encode (.bool (byte != 0))) where
  length_eq := by
    cases byte != 0 <;> rfl
  strict := by
    intro index hindex
    match index with
    | 0 => rfl
    | 1 => exact absurd List.mem_cons_self hindex
    | _ + 2 => cases byte != 0 <;> rfl
  truth := by
    intro index hindex
    cases List.mem_singleton.mp hindex
    refine ⟨by omega, rfl, byte, rfl, ?_⟩
    by_cases hzero : byte = 0
    · rw [hzero]
      rfl
    · simp [Constant.encode, Encode.u8, hzero]

theorem rewrites_constant : Constant.decode.Rewrites Constant.encode Constant.truthOffsets := by
  intro start constant final hread
  obtain ⟨position, _, hposition, hread⟩ := bind_eq_ok_iff.mp hread
  cases hposition
  obtain ⟨tag, middle, htag, hread⟩ := bind_eq_ok_iff.mp hread
  have hfront := restores_u8 _ _ _ htag
  split at hread
  · next heq =>
    cases hread
    rw [heq] at hfront
    exact ⟨[0], hfront, Spells.nil_iff.mpr rfl⟩
  split at hread
  · next heq =>
    obtain ⟨byte, _, hbyte, hread⟩ := bind_eq_ok_iff.mp hread
    cases hread
    rw [heq, restores_u8 _ _ _ hbyte] at hfront
    exact ⟨[1, byte], hfront, spells_bool byte⟩
  split at hread
  · next heq =>
    obtain ⟨value, _, hvalue, hread⟩ := bind_eq_ok_iff.mp hread
    cases hread
    rw [heq, restores_i64 _ _ _ hvalue] at hfront
    exact ⟨Constant.encode (.int value), hfront, Spells.nil_iff.mpr rfl⟩
  split at hread
  · next heq =>
    obtain ⟨value, _, hvalue, hread⟩ := bind_eq_ok_iff.mp hread
    cases hread
    rw [heq, restores_f64 _ _ _ hvalue] at hfront
    exact ⟨Constant.encode (.float value), hfront, Spells.nil_iff.mpr rfl⟩
  split at hread
  · next heq =>
    obtain ⟨value, _, hvalue, hread⟩ := bind_eq_ok_iff.mp hread
    cases hread
    rw [heq, restores_string _ _ _ hvalue, ← List.append_assoc] at hfront
    exact ⟨Constant.encode (.text value), hfront, Spells.nil_iff.mpr rfl⟩
  · cases hread

theorem rewrites_staticGroup :
    StaticGroup.decode.Rewrites StaticGroup.encode StaticGroup.truthOffsets := by
  intro start group final hread
  obtain ⟨className, afterName, hname, hread⟩ := bind_eq_ok_iff.mp hread
  obtain ⟨instances, afterInstances, hinstances, hread⟩ := bind_eq_ok_iff.mp hread
  cases hread
  obtain ⟨taken, htaken, spells⟩ :=
    rewrites_list (rewrites_list rewrites_constant) afterName instances _ hinstances
  refine ⟨Encode.string className ++ taken, ?_, spells.prepend _⟩
  rw [restores_string _ _ _ hname, htaken, List.append_assoc]

end LateBinding
