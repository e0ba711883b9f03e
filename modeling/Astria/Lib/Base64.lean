import Mathlib.Data.List.Nodup
import Mathlib.Data.List.GetD

/-!
# URL-safe base64

The padded encoding of RFC 4648 with the URL-safe alphabet: three bytes give four digits of
six bits, a last group of one or two bytes is padded with `=`.

Results:
* `length_encode`: the length of an encoding depends on the length of the input alone;
* `encode_injective`: inputs of one length have different encodings.
-/

namespace Astria.Lib.Base64

/-- The digits, by value. -/
def alphabet : List Char :=
  "ABCDEFGHIJKLMNOPQRSTUVWXYZabcdefghijklmnopqrstuvwxyz0123456789-_".toList

/-- The digit of a six-bit value. -/
def digit (n : ℕ) : Char := alphabet.getD n '='

/-- The padded encoding. -/
def encode : List UInt8 → List Char
  | [] => []
  | [a] => [digit (a.toNat / 4), digit (a.toNat % 4 * 16), '=', '=']
  | [a, b] =>
    [digit (a.toNat / 4), digit (a.toNat % 4 * 16 + b.toNat / 16), digit (b.toNat % 16 * 4), '=']
  | a :: b :: c :: rest =>
    digit (a.toNat / 4) :: digit (a.toNat % 4 * 16 + b.toNat / 16) ::
      digit (b.toNat % 16 * 4 + c.toNat / 64) :: digit (c.toNat % 64) :: encode rest

theorem alphabet_length : alphabet.length = 64 := by decide

theorem alphabet_nodup : alphabet.Nodup := by decide

/-- Different six-bit values have different digits. -/
theorem digit_injective {m n : ℕ} (hm : m < 64) (hn : n < 64) (h : digit m = digit n) :
    m = n := by
  rw [← alphabet_length] at hm hn
  unfold digit at h
  rw [List.getD_eq_getElem _ _ hm, List.getD_eq_getElem _ _ hn] at h
  exact (alphabet_nodup.getElem_inj_iff).mp h

theorem length_encode (bs : List UInt8) : (encode bs).length = 4 * ((bs.length + 2) / 3) := by
  induction bs using encode.induct with
  | case1 => rfl
  | case2 a => simp [encode]
  | case3 a b => simp [encode]
  | case4 a b c rest ih =>
    simp only [encode, List.length_cons, ih]
    omega

/-- Inputs of one length have different encodings. -/
theorem encode_injective {xs ys : List UInt8} (hlen : xs.length = ys.length)
    (h : encode xs = encode ys) : xs = ys := by
  induction xs using encode.induct generalizing ys with
  | case1 => exact (List.length_eq_zero_iff.mp hlen.symm).symm
  | case2 a =>
    match ys, hlen with
    | [a'], _ =>
      have ha := a.toNat_lt
      have ha' := a'.toNat_lt
      simp only [encode, List.cons.injEq] at h
      have h0 := digit_injective (by omega) (by omega) h.1
      have h1 := digit_injective (by omega) (by omega) h.2.1
      have : a = a' := UInt8.toNat_inj.mp (by omega)
      rw [this]
  | case3 a b =>
    match ys, hlen with
    | [a', b'], _ =>
      have ha := a.toNat_lt
      have ha' := a'.toNat_lt
      have hb := b.toNat_lt
      have hb' := b'.toNat_lt
      simp only [encode, List.cons.injEq] at h
      have h0 := digit_injective (by omega) (by omega) h.1
      have h1 := digit_injective (by omega) (by omega) h.2.1
      have h2 := digit_injective (by omega) (by omega) h.2.2.1
      have hae : a = a' := UInt8.toNat_inj.mp (by omega)
      have hbe : b = b' := UInt8.toNat_inj.mp (by omega)
      rw [hae, hbe]
  | case4 a b c rest ih =>
    match ys, hlen with
    | a' :: b' :: c' :: rest', hlen =>
      have ha := a.toNat_lt
      have ha' := a'.toNat_lt
      have hb := b.toNat_lt
      have hb' := b'.toNat_lt
      have hc := c.toNat_lt
      have hc' := c'.toNat_lt
      simp only [encode, List.cons.injEq] at h
      have h0 := digit_injective (by omega) (by omega) h.1
      have h1 := digit_injective (by omega) (by omega) h.2.1
      have h2 := digit_injective (by omega) (by omega) h.2.2.1
      have h3 := digit_injective (by omega) (by omega) h.2.2.2.1
      have hae : a = a' := UInt8.toNat_inj.mp (by omega)
      have hbe : b = b' := UInt8.toNat_inj.mp (by omega)
      have hce : c = c' := UInt8.toNat_inj.mp (by omega)
      rw [hae, hbe, hce, ih (by simpa using hlen) h.2.2.2.2]

end Astria.Lib.Base64
