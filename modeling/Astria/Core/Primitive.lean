import Mathlib.Algebra.GroupWithZero.Nat
import Mathlib.Data.Vector.Basic

/-!
# Primitive types of the sequencer and the conductor

Byte strings, the checked and saturating machine arithmetic the code uses, addresses,
rollup ids and asset denominations (`crates/astria-core/src/primitive/v1`).

A machine integer is a natural number; the operations that can leave its range are the
checked and saturating ones below, with the bound of the type as an argument.

Results:
* `checkedAdd_eq_some`, `checkedSub_eq_some`: the checked operations are exact or fail;
* `TracePrefixed.utf8ByteSize_display`: the computed display length is the length.
-/

namespace Astria.Core

abbrev Bytes := List UInt8

/-- A report of `eyre`: the outermost context first. -/
abbrev Report := List String

/-! ## Machine integers -/

/-- `u32::MAX`. -/
def u32Max : ℕ := 2 ^ 32 - 1

/-- `u64::MAX`. -/
def u64Max : ℕ := 2 ^ 64 - 1

/-- `i64::MAX`, the greatest height of CometBFT. -/
def maxHeight : ℕ := 2 ^ 63 - 1

/-- `u128::MAX`. -/
def u128Max : ℕ := 2 ^ 128 - 1

/-- `checked_add` of an unsigned type with largest value `max`. -/
def checkedAdd (max a b : ℕ) : Option ℕ :=
  if a + b ≤ max then some (a + b) else none

/-- `checked_sub` of an unsigned type. -/
def checkedSub (a b : ℕ) : Option ℕ :=
  if b ≤ a then some (a - b) else none

/-- `checked_mul` of an unsigned type with largest value `max`. -/
def checkedMul (max a b : ℕ) : Option ℕ :=
  if a * b ≤ max then some (a * b) else none

/-- `saturating_add` of an unsigned type with largest value `max`. -/
def saturatingAdd (max a b : ℕ) : ℕ := min (a + b) max

/-- `saturating_mul` of an unsigned type with largest value `max`. -/
def saturatingMul (max a b : ℕ) : ℕ := min (a * b) max

@[simp] theorem checkedAdd_eq_some {max a b c : ℕ} :
    checkedAdd max a b = some c ↔ c = a + b ∧ a + b ≤ max := by
  unfold checkedAdd
  split_ifs with h <;> simp [h, eq_comm]

@[simp] theorem checkedSub_eq_some {a b c : ℕ} :
    checkedSub a b = some c ↔ b ≤ a ∧ a = c + b := by
  unfold checkedSub
  split_ifs with h
  · rw [Option.some.injEq]
    omega
  · simp [h]

theorem checkedAdd_eq_none {max a b : ℕ} : checkedAdd max a b = none ↔ max < a + b := by
  unfold checkedAdd
  split_ifs with h
  · simp [h]
  · simpa using h

theorem saturatingAdd_le (max a b : ℕ) : saturatingAdd max a b ≤ max := Nat.min_le_right _ _

/-! ## Addresses and identifiers -/

/-- `[u8; ADDRESS_LEN]`. -/
abbrev AddressBytes := List.Vector UInt8 20

/-- An array of 32 bytes: a SHA-256 digest or an identifier of that length. -/
abbrev Bytes32 := List.Vector UInt8 32

/-- A 20-byte address with the human readable prefix of its bech32m form. -/
structure Address where
  bytes : AddressBytes
  hrp : String
  deriving DecidableEq

abbrev TransactionId := Bytes32

/-- A rollup id (`primitive/v1/mod.rs`, `RollupId`). -/
structure RollupId where
  inner : Bytes32
  deriving DecidableEq

/-! ## Asset denominations -/

abbrev PortId := String

abbrev ChannelId := String

/-- `ibc/<hash>` (`asset/denom.rs`, `IbcPrefixed`). -/
structure IbcPrefixed where
  id : Bytes32
  deriving DecidableEq

structure PortAndChannel where
  port : PortId
  channel : ChannelId
  deriving DecidableEq

/-- `[port/channel/..]base_denom` (`asset/denom.rs`, `TracePrefixed`). -/
structure TracePrefixed where
  trace : List PortAndChannel
  baseDenom : String
  deriving DecidableEq

/-- A denomination of an asset (`asset/denom.rs`, `Denom`). -/
inductive Denom where
  | tracePrefixed (trace : TracePrefixed)
  | ibcPrefixed (ibc : IbcPrefixed)
  deriving DecidableEq

/-- The bytes of a string, `str::as_bytes`. -/
def asBytes (s : String) : Bytes := s.toUTF8.data.toList

/-- A number is displayed by its digits, which no other number has. -/
theorem natToString_injective {m n : ℕ} (h : toString m = toString n) : m = n := by
  have hdigits := congrArg String.toList h
  simp only [toString, Nat.repr_eq_ofList_toDigits, String.toList_ofList] at hdigits
  rw [← Nat.ofDigitChars_ten_toDigits (n := m), hdigits, Nat.ofDigitChars_ten_toDigits]

namespace TracePrefixed

/-- The display form: every segment followed by a slash, then the base. -/
def display (d : TracePrefixed) : String :=
  (d.trace.map fun seg => seg.port ++ "/" ++ seg.channel ++ "/").foldr (· ++ ·) d.baseDenom

def hasLeadingPort (d : TracePrefixed) (port : PortId) : Bool :=
  d.trace.head?.map (·.port) == some port

def hasLeadingChannel (d : TracePrefixed) (channel : ChannelId) : Bool :=
  d.trace.head?.map (·.channel) == some channel

/-- `pop_leading_port_and_channel`. -/
def popLeadingPortAndChannel (d : TracePrefixed) : TracePrefixed :=
  { d with trace := d.trace.tail }

def displayLen (d : TracePrefixed) : ℕ :=
  (d.trace.map fun seg => seg.port.utf8ByteSize + seg.channel.utf8ByteSize + 2).sum +
    d.baseDenom.utf8ByteSize

end TracePrefixed

namespace Denom

/-- `display_len`: `ibc/` and 64 hex characters for the hashed form. -/
def displayLen : Denom → ℕ
  | .tracePrefixed trace => trace.displayLen
  | .ibcPrefixed _ => 68

/-- The two hexadecimal digits of a byte, `{byte:02x}`. -/
def hexByte (b : UInt8) : List Char :=
  [Nat.digitChar (b.toNat / 16), Nat.digitChar (b.toNat % 16)]

/-- The display form, `to_string`. -/
def toString : Denom → String
  | .tracePrefixed trace => trace.display
  | .ibcPrefixed ibc => "ibc/" ++ String.ofList (ibc.id.toList.flatMap hexByte)

end Denom

/-! ### Parsing -/

/-- `u8::is_ascii_whitespace`. -/
def isAsciiWhitespace (c : Char) : Bool :=
  c = ' ' || c = '\t' || c = '\n' || c.val = 12 || c = '\r'

/-- `TraceSegments::from_str` on the pieces between the slashes of the path. -/
def parseTraceSegments : List (List Char) → Option (List PortAndChannel)
  | [] => some []
  | [_] => none
  | port :: channel :: rest =>
    if port = [] ∨ channel = [] then none
    else (parseTraceSegments rest).map fun segments =>
      { port := String.ofList port, channel := String.ofList channel } :: segments

/-- `TracePrefixed::from_str`. -/
def TracePrefixed.parse (s : String) : Option TracePrefixed :=
  let chars := s.toList
  if chars.any fun c => 128 ≤ c.val || isAsciiWhitespace c then none
  else
    let pieces := chars.splitOn '/'
    match parseTraceSegments pieces.dropLast, pieces.getLast? with
    | some trace, some base =>
      if base = [] then none else some { trace := trace, baseDenom := String.ofList base }
    | _, _ => none

/-- The value of a hexadecimal digit. -/
def hexDigit (c : Char) : Option ℕ :=
  if '0' ≤ c ∧ c ≤ '9' then some (c.toNat - 48)
  else if 'a' ≤ c ∧ c ≤ 'f' then some (c.toNat - 87)
  else if 'A' ≤ c ∧ c ≤ 'F' then some (c.toNat - 55)
  else none

/-- Hexadecimal digits, two to a byte. -/
def parseHex : List Char → Option Bytes
  | [] => some []
  | [_] => none
  | high :: low :: rest =>
    match hexDigit high, hexDigit low, parseHex rest with
    | some h, some l, some bytes => some (UInt8.ofNat (h * 16 + l) :: bytes)
    | _, _, _ => none

/-- `IbcPrefixed::from_str`. -/
def IbcPrefixed.parse (s : String) : Option IbcPrefixed :=
  match s.toList.splitOn '/' with
  | [scheme, hex] =>
    if scheme = "ibc".toList then
      match parseHex hex with
      | some bytes => if h : bytes.length = 32 then some ⟨⟨bytes, h⟩⟩ else none
      | none => none
    else none
  | _ => none

/-- `Denom::from_str`. -/
def Denom.parse (s : String) : Option Denom :=
  if "ibc/".toList.isPrefixOf s.toList then (IbcPrefixed.parse s).map .ibcPrefixed
  else (TracePrefixed.parse s).map .tracePrefixed

/-- `u128::from_str`: decimal digits after an optional plus sign. -/
def parseU128 (s : String) : Option ℕ :=
  let digits := match s.toList with
    | '+' :: rest => rest
    | chars => chars
  if digits = [] ∨ digits.any (fun c => !('0' ≤ c && c ≤ '9')) then none
  else
    let value := digits.foldl (fun acc c => acc * 10 + (c.toNat - 48)) 0
    if value ≤ u128Max then some value else none

example : Denom.parse "transfer/channel-0/utia" =
    some (.tracePrefixed ⟨[⟨"transfer", "channel-0"⟩], "utia"⟩) := by decide

/-- The length of the display form is what `display_len` computes. -/
theorem TracePrefixed.utf8ByteSize_display (d : TracePrefixed) :
    d.display.utf8ByteSize = d.displayLen := by
  obtain ⟨trace, base⟩ := d
  simp only [display, displayLen]
  induction trace with
  | nil => simp
  | cons seg rest ih =>
    simp only [List.map_cons, List.foldr_cons, List.sum_cons, String.utf8ByteSize_append]
    rw [ih]
    have hslash : ("/" : String).utf8ByteSize = 1 := by decide
    omega

end Astria.Core
