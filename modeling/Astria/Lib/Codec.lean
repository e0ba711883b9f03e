import Mathlib.Data.List.Forall2

/-!
# Decoders and encoders

A decoder reads a value off a message and may refuse it; an encoder writes a value as a message.  Where
several messages stand for one value, or a decoder refuses what was never decoded, an encoder is no
inverse.  What a wire format is to keep is weaker: a value that was decoded is decoded from its encoding
again.

Results:
* `bind_eq_ok`: a sequence of decoders succeeds if each of them does;
* `Stable.collect`, `Stable.required`, `Stable.transpose`: lists and fields of a stable format are
  stable.
-/

namespace Astria.Lib.Codec

variable {ε R α β : Type}

/-- A value that was decoded from a message is decoded from its encoding again. -/
def Stable (decode : R → Except ε α) (encode : α → R) : Prop :=
  ∀ ⦃r a⦄, decode r = .ok a → decode (encode a) = .ok a

/-- A sequence of two decoders. -/
theorem bind_eq_ok {x : Except ε α} {f : α → Except ε β} {b : β} :
    x >>= f = .ok b ↔ ∃ a, x = .ok a ∧ f a = .ok b := by
  cases x with
  | error e =>
    constructor
    · intro h
      cases h
    · rintro ⟨_, h, _⟩
      cases h
  | ok a =>
    constructor
    · intro h
      exact ⟨a, rfl, h⟩
    · rintro ⟨_, ha, h⟩
      cases ha
      exact h

/-- The decoded elements of a list, or the first error. -/
def collect (decode : R → Except ε α) : List R → Except ε (List α)
  | [] => .ok []
  | r :: rs => do
    let a ← decode r
    let as ← collect decode rs
    .ok (a :: as)

/-- The decoded value of a field that has to be set. -/
def required (unset : ε) (decode : R → Except ε α) : Option R → Except ε α
  | none => .error unset
  | some r => decode r

/-- The decoded value of an optional field, if it is set. -/
def transpose (decode : R → Except ε α) : Option R → Except ε (Option α)
  | none => .ok none
  | some r => do
    let a ← decode r
    .ok (some a)

/-- The values of a list are decoded one by one. -/
theorem collect_eq_ok {decode : R → Except ε α} {rs : List R} {as : List α} :
    collect decode rs = .ok as ↔ List.Forall₂ (fun r a => decode r = .ok a) rs as := by
  induction rs generalizing as with
  | nil =>
    rw [collect, List.forall₂_nil_left_iff]
    exact ⟨fun h => (Except.ok.inj h).symm, fun h => by rw [h]⟩
  | cons r rs ih =>
    rw [collect, bind_eq_ok, List.forall₂_cons_left_iff]
    constructor
    · rintro ⟨a, ha, h⟩
      obtain ⟨as', has, h⟩ := bind_eq_ok.mp h
      exact ⟨a, as', ha, ih.mp has, (Except.ok.inj h).symm⟩
    · rintro ⟨a, as', ha, has, rfl⟩
      exact ⟨a, ha, bind_eq_ok.mpr ⟨as', ih.mpr has, rfl⟩⟩

/-- A list of values that their encodings are decoded to. -/
theorem collect_map {decode : R → Except ε α} {encode : α → R} {as : List α}
    (h : ∀ a ∈ as, decode (encode a) = .ok a) : collect decode (as.map encode) = .ok as := by
  rw [collect_eq_ok, List.forall₂_map_left_iff, List.forall₂_same]
  exact h

theorem Stable.collect {decode : R → Except ε α} {encode : α → R} (h : Stable decode encode) :
    Stable (collect decode) (List.map encode) := by
  intro rs as has
  refine collect_map ?_
  have hall := collect_eq_ok.mp has
  clear has
  induction hall with
  | nil => exact fun a ha => absurd ha List.not_mem_nil
  | cons hr _ ih =>
    intro a ha
    rcases List.mem_cons.mp ha with rfl | ha
    · exact h hr
    · exact ih a ha

theorem Stable.required {unset : ε} {decode : R → Except ε α} {encode : α → R}
    (h : Stable decode encode) : Stable (required unset decode) fun a => some (encode a) := by
  intro o a ha
  cases o with
  | none => cases ha
  | some r => exact h ha

theorem Stable.transpose {decode : R → Except ε α} {encode : α → R} (h : Stable decode encode) :
    Stable (transpose decode) (Option.map encode) := by
  intro r o ho
  cases r with
  | none =>
    obtain rfl := Except.ok.inj ho
    rfl
  | some r =>
    obtain ⟨a, ha, ho⟩ := bind_eq_ok.mp ho
    obtain rfl := Except.ok.inj ho
    exact bind_eq_ok.mpr ⟨a, h ha, rfl⟩

end Astria.Lib.Codec
