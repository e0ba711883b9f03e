import Mathlib.Data.List.Basic
import Mathlib.Data.Vector.Basic
import Mathlib.Tactic.Ring

/-!
# Borsh

The binary object serialization of fixed-width numbers, arrays, vectors, strings and structs: numbers are
little-endian, a vector starts with the number of its elements in 32 bits, and the fields of a struct
follow each other.

A format is a pair of functions that may fail, with the law that what was written of a value that its
type admits is read back, whatever follows; the format of a compound type is built from the formats of
its parts, and its law from theirs.

Results:
* `fromSlice_toVec`: the bytes of a value are read back;
* `uint`, `array`, `seq`, `vec`, `via`: the formats.
-/

namespace Astria.Lib

/-- A serialization of the values of a type. -/
structure Borsh (α : Type) where
  serialize : α → Option (List UInt8)
  /-- Reads a value off the front of some bytes. -/
  deserialize : List UInt8 → Option (α × List UInt8)
  /-- The values that the type has in the source. -/
  Admits : α → Prop
  deserialize_serialize : ∀ {a : α} {bytes : List UInt8} (rest : List UInt8), Admits a →
    serialize a = some bytes → deserialize (bytes ++ rest) = some (a, rest)

namespace Borsh

variable {α β : Type}

/-- `borsh::to_vec`. -/
def toVec (c : Borsh α) (a : α) : Option (List UInt8) := c.serialize a

/-- `borsh::from_slice`, which leaves no bytes unread. -/
def fromSlice (c : Borsh α) (bytes : List UInt8) : Option α :=
  match c.deserialize bytes with
  | some (a, []) => some a
  | _ => none

theorem fromSlice_toVec (c : Borsh α) {a : α} {bytes : List UInt8} (ha : c.Admits a)
    (h : c.toVec a = some bytes) : c.fromSlice bytes = some a := by
  have hread := c.deserialize_serialize [] ha h
  rw [List.append_nil] at hread
  unfold fromSlice
  rw [hread]

/-! ## Numbers and arrays -/

/-- The bytes of a number, the lowest first. -/
def leBytes : ℕ → ℕ → List UInt8
  | 0, _ => []
  | width + 1, a => UInt8.ofNat (a % 256) :: leBytes width (a / 256)

def ofLeBytes : List UInt8 → ℕ
  | [] => 0
  | b :: bytes => b.toNat + 256 * ofLeBytes bytes

@[simp] theorem length_leBytes (width a : ℕ) : (leBytes width a).length = width := by
  induction width generalizing a with
  | zero => rfl
  | succ width ih => rw [leBytes, List.length_cons, ih]

theorem ofLeBytes_leBytes {width a : ℕ} (h : a < 256 ^ width) : ofLeBytes (leBytes width a) = a := by
  induction width generalizing a with
  | zero =>
    rw [pow_zero] at h
    rw [leBytes, ofLeBytes]
    omega
  | succ width ih =>
    have hdiv : a / 256 < 256 ^ width := by
      rw [Nat.div_lt_iff_lt_mul (by norm_num)]
      rwa [pow_succ] at h
    have hbyte : (UInt8.ofNat (a % 256)).toNat = a % 256 := by
      rw [UInt8.toNat_ofNat']
      omega
    rw [leBytes, ofLeBytes, ih hdiv, hbyte, Nat.mod_add_div]

/-- An unsigned integer of some bytes. -/
def uint (width : ℕ) : Borsh ℕ where
  serialize a := some (leBytes width a)
  deserialize bytes :=
    if width ≤ bytes.length then some (ofLeBytes (bytes.take width), bytes.drop width) else none
  Admits a := a < 256 ^ width
  deserialize_serialize := by
    intro a bytes rest ha h
    obtain rfl := Option.some.inj h
    rw [if_pos (by simp), List.take_left' (length_leBytes width a),
      List.drop_left' (length_leBytes width a), ofLeBytes_leBytes ha]

/-- `[u8; N]`. -/
def array (width : ℕ) : Borsh (List.Vector UInt8 width) where
  serialize a := some a.toList
  deserialize bytes :=
    if h : width ≤ bytes.length then
      some (⟨bytes.take width, List.length_take_of_le h⟩, bytes.drop width)
    else none
  Admits _ := True
  deserialize_serialize := by
    intro a bytes rest _ h
    obtain rfl := Option.some.inj h
    have hlen : a.toList.length = width := a.toList_length
    have hle : width ≤ (a.toList ++ rest).length := by simp
    refine (dif_pos hle).trans (congrArg some (Prod.ext ?_ (List.drop_left' hlen)))
    exact List.Vector.toList_injective (List.take_left' hlen)

/-! ## Compound formats -/

/-- Two fields of a struct. -/
def seq (c : Borsh α) (d : Borsh β) : Borsh (α × β) where
  serialize v := do
    let bytes ← c.serialize v.1
    let bytes' ← d.serialize v.2
    some (bytes ++ bytes')
  deserialize bytes := do
    let (a, bytes) ← c.deserialize bytes
    let (b, bytes) ← d.deserialize bytes
    some ((a, b), bytes)
  Admits v := c.Admits v.1 ∧ d.Admits v.2
  deserialize_serialize := by
    rintro ⟨a, b⟩ bytes rest ⟨ha, hb⟩ h
    simp only [Option.bind_eq_bind, Option.bind_eq_some_iff] at h
    obtain ⟨first, hfirst, second, hsecond, h⟩ := h
    obtain rfl := Option.some.inj h
    rw [List.append_assoc]
    simp only [Option.bind_eq_bind, c.deserialize_serialize _ ha hfirst, Option.bind_some,
      d.deserialize_serialize _ hb hsecond]

/-- The format of a type whose values are written as values of another. -/
def via (c : Borsh α) (write : β → Option α) (read : α → Option β) (admits : β → Prop)
    (law : ∀ {b : β} {a : α}, admits b → write b = some a → c.Admits a ∧ read a = some b) :
    Borsh β where
  serialize b := do
    let a ← write b
    c.serialize a
  deserialize bytes := do
    let (a, bytes) ← c.deserialize bytes
    let b ← read a
    some (b, bytes)
  Admits := admits
  deserialize_serialize := by
    intro b bytes rest hb h
    simp only [Option.bind_eq_bind, Option.bind_eq_some_iff] at h
    obtain ⟨a, hwrite, h⟩ := h
    obtain ⟨ha, hread⟩ := law hb hwrite
    simp only [Option.bind_eq_bind, c.deserialize_serialize _ ha h, Option.bind_some, hread]

/-- A variant of an enum, behind its number. -/
def tagged (tag : UInt8) (c : Borsh α) : Borsh α where
  serialize a := (c.serialize a).map (tag :: ·)
  deserialize bytes :=
    match bytes with
    | [] => none
    | first :: bytes => if first = tag then c.deserialize bytes else none
  Admits := c.Admits
  deserialize_serialize := by
    intro a bytes rest ha h
    obtain ⟨content, hcontent, rfl⟩ := Option.map_eq_some_iff.mp h
    simpa using c.deserialize_serialize rest ha hcontent

/-! ## Vectors -/

/-- The elements of a vector, one after the other. -/
def serializeAll (c : Borsh α) : List α → Option (List UInt8)
  | [] => some []
  | a :: as => do
    let bytes ← c.serialize a
    let bytes' ← c.serializeAll as
    some (bytes ++ bytes')

def deserializeMany (c : Borsh α) : ℕ → List UInt8 → Option (List α × List UInt8)
  | 0, bytes => some ([], bytes)
  | count + 1, bytes => do
    let (a, bytes) ← c.deserialize bytes
    let (as, bytes) ← c.deserializeMany count bytes
    some (a :: as, bytes)

theorem deserializeMany_serializeAll (c : Borsh α) {as : List α} {bytes : List UInt8}
    (rest : List UInt8) (ha : ∀ a ∈ as, c.Admits a) (h : c.serializeAll as = some bytes) :
    c.deserializeMany as.length (bytes ++ rest) = some (as, rest) := by
  induction as generalizing bytes with
  | nil =>
    obtain rfl := Option.some.inj h
    rfl
  | cons a as ih =>
    simp only [serializeAll, Option.bind_eq_bind, Option.bind_eq_some_iff] at h
    obtain ⟨first, hfirst, second, hsecond, h⟩ := h
    obtain rfl := Option.some.inj h
    rw [List.append_assoc, List.length_cons, deserializeMany]
    simp only [Option.bind_eq_bind, Option.bind_some,
      c.deserialize_serialize _ (ha a List.mem_cons_self) hfirst,
      ih (fun b hb => ha b (List.mem_cons_of_mem a hb)) hsecond]

/-- `Vec<T>`, which is not written if its length is not a number of 32 bits. -/
def vec (c : Borsh α) : Borsh (List α) where
  serialize as := do
    let bytes ← c.serializeAll as
    if as.length < 256 ^ 4 then some (leBytes 4 as.length ++ bytes) else none
  deserialize bytes := do
    let (count, bytes) ← (uint 4).deserialize bytes
    c.deserializeMany count bytes
  Admits as := ∀ a ∈ as, c.Admits a
  deserialize_serialize := by
    intro as bytes rest ha h
    simp only [Option.bind_eq_bind, Option.bind_eq_some_iff] at h
    obtain ⟨content, hcontent, h⟩ := h
    split_ifs at h with hlen
    obtain rfl := Option.some.inj h
    rw [List.append_assoc]
    have hcount := (uint 4).deserialize_serialize (content ++ rest) hlen rfl
    simp only [Option.bind_eq_bind, hcount, Option.bind_some,
      c.deserializeMany_serializeAll rest ha hcontent]

/-- `u8`. -/
def byte : Borsh UInt8 where
  serialize b := some [b]
  deserialize bytes :=
    match bytes with
    | [] => none
    | b :: bytes => some (b, bytes)
  Admits _ := True
  deserialize_serialize := by
    intro b bytes rest _ h
    obtain rfl := Option.some.inj h
    rfl

/-- `Vec<u8>`. -/
def bytes : Borsh (List UInt8) := vec byte

/-- The bytes of a string are those of that string alone. -/
theorem fromUTF8_toUTF8 (s : String) : String.fromUTF8? ⟨s.toUTF8.data.toList.toArray⟩ = some s := by
  have hbytes : (⟨s.toUTF8.data.toList.toArray⟩ : ByteArray) = s.toUTF8 := by
    rw [Array.toArray_toList]
  rw [hbytes]
  exact dif_pos s.isValidUTF8

/-- `String`. -/
def string : Borsh String :=
  bytes.via (fun s => some s.toUTF8.data.toList) (fun bytes => String.fromUTF8? ⟨bytes.toArray⟩)
    (fun _ => True) (by
      intro s bytes _ h
      obtain rfl := Option.some.inj h
      exact ⟨fun _ _ => trivial, fromUTF8_toUTF8 s⟩)

end Borsh

end Astria.Lib
