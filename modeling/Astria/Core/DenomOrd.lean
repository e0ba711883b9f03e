import Astria.Core.Denom
import Astria.Lib.Separator

/-!
# The order of asset denominations

The comparisons of `crates/astria-core/src/primitive/v1/asset/denom.rs`, which are meant to give the
order of the texts without building them.  They compare pieces where the texts have a piece and a slash,
so they are wrong about a piece that goes on from another one with a character below the slash, about a
base that is the leading port of a longer trace, and about a trace that begins with the port `ibc`.

Results:
* `TracePrefixed.cmp_eq_compare_iff`: two traces are compared like their texts exactly if they fit;
* `IbcPrefixed.cmp_eq_compare`: two hashes always are;
* `compareTraceToIbc_eq_compare_iff`: a trace and a hash are unless the trace begins with `ibc`;
* `denomOrd_sound_iff`: the order is total on a set of denominations, and that of the texts, exactly if
  every two of them fit.
-/

namespace Astria.Core

open Astria.Lib Std

/-! ## Comparisons -/

/-- `str::cmp`: the order of the bytes of two texts is that of their characters. -/
def strCmp (a b : String) : Ordering := compare a.toList b.toList

/-- `Ord::cmp` of `PortAndChannel`. -/
def PortAndChannel.cmp (a b : PortAndChannel) : Ordering :=
  (strCmp a.port b.port).then (strCmp a.channel b.channel)

/-- `Ord::cmp` of `TraceSegments`: the first two segments that differ, or the lengths. -/
def TraceSegments.cmp (a b : List PortAndChannel) : Ordering :=
  ((a.zip b).findSome? fun segments =>
    (some (segments.1.cmp segments.2)).filter fun cmp => cmp ≠ .eq).getD
      (compare a.length b.length)

/-- `Ord::cmp` of `TracePrefixed`. -/
def TracePrefixed.cmp (a b : TracePrefixed) : Ordering :=
  match a.trace, b.trace with
  | [], [] => strCmp a.baseDenom b.baseDenom
  | [], leading :: _ => strCmp a.baseDenom leading.port
  | leading :: _, [] => strCmp leading.port b.baseDenom
  | _ :: _, _ :: _ =>
    (TraceSegments.cmp a.trace b.trace).then (strCmp a.baseDenom b.baseDenom)

/-- `Ord::cmp` of `IbcPrefixed`: the bytes of the two hashes. -/
def IbcPrefixed.cmp (a b : IbcPrefixed) : Ordering := compare a.id.toList b.id.toList

/-- `compare_trace_to_ibc`. -/
def compareTraceToIbc (trace : TracePrefixed) : Ordering :=
  match trace.trace with
  | leading :: _ => strCmp leading.port "ibc/"
  | [] => strCmp trace.baseDenom "ibc/"

/-- `Ord::cmp` of `Denom`. -/
def Denom.cmp : Denom → Denom → Ordering
  | .tracePrefixed a, .tracePrefixed b => a.cmp b
  | .tracePrefixed trace, .ibcPrefixed _ => compareTraceToIbc trace
  | .ibcPrefixed a, .ibcPrefixed b => a.cmp b
  | .ibcPrefixed _, .tracePrefixed trace => (compareTraceToIbc trace).swap

/-! ## The text of a trace -/

theorem IsPiece.slash_notMem {piece : List Char} (h : IsPiece piece) : '/' ∉ piece :=
  fun hslash => (h.2 '/' hslash).2.2 rfl

/-- The text of some segments and a base. -/
def traceText : List PortAndChannel → String → List Char
  | [], base => base.toList
  | segment :: rest, base =>
    segment.port.toList ++ '/' :: (segment.channel.toList ++ '/' :: traceText rest base)

theorem TracePrefixed.toList_display_eq (d : TracePrefixed) :
    d.display.toList = traceText d.trace d.baseDenom := by
  obtain ⟨trace, base⟩ := d
  unfold display
  dsimp only
  induction trace with
  | nil => rfl
  | cons segment trace ih =>
    have hslash : "/".toList = ['/'] := rfl
    rw [List.map_cons, List.foldr_cons, String.toList_append, ih, String.toList_append,
      String.toList_append, String.toList_append, hslash, traceText]
    simp only [List.append_assoc, List.cons_append, List.nil_append]

/-! ## Two traces -/

theorem strCmp_self (a : String) : strCmp a a = .eq := compare_self

theorem strCmp_ne_eq {a b : String} (h : a ≠ b) : strCmp a b ≠ .eq :=
  compare_ne_eq fun heq => h (String.toList_inj.mp heq)

theorem PortAndChannel.cmp_of_port_ne {a b : PortAndChannel} (h : a.port ≠ b.port) :
    a.cmp b = strCmp a.port b.port := by
  have hne := strCmp_ne_eq h
  unfold cmp
  cases hcmp : strCmp a.port b.port with
  | lt => rfl
  | eq => exact absurd hcmp hne
  | gt => rfl

theorem PortAndChannel.cmp_of_port_eq {a b : PortAndChannel} (h : a.port = b.port) :
    a.cmp b = strCmp a.channel b.channel := by
  unfold cmp
  rw [h, strCmp_self, Ordering.eq_then]

theorem TraceSegments.cmp_cons_cons (s s' : PortAndChannel) (a b : List PortAndChannel) :
    cmp (s :: a) (s' :: b) = (s.cmp s').then (cmp a b) := by
  have hlen : compare (a.length + 1) (b.length + 1) = compare a.length b.length := by
    simp [Nat.compare_eq_ite_lt]
  unfold cmp
  rw [List.zip_cons_cons, List.findSome?_cons, List.length_cons, List.length_cons, hlen]
  cases s.cmp s' <;> rfl

/-- Two traces whose texts are compared like their parts, `base` and `base'` being the bases.  Where the
segments differ, the two pieces that differ are apart; where one trace ends first, its base comes before
the other's next port. -/
def SegmentsFit (base base' : String) : List PortAndChannel → List PortAndChannel → Prop
  | [], [] => True
  | [], s' :: _ => compare base.toList (s'.port.toList ++ ['/']) = .lt
  | s :: _, [] => compare base'.toList (s.port.toList ++ ['/']) = .lt
  | s :: a, s' :: b =>
    if s.port ≠ s'.port then Apart '/' s.port.toList s'.port.toList
    else if s.channel ≠ s'.channel then Apart '/' s.channel.toList s'.channel.toList
    else SegmentsFit base base' a b

/-- The comparison of the segments and then of the bases is that of the texts exactly if they fit. -/
theorem segments_cmp_eq_compare_iff {base base' : String} (hbase : IsPiece base.toList)
    (hbase' : IsPiece base'.toList) {a b : List PortAndChannel} (ha : ∀ s ∈ a, s.Valid)
    (hb : ∀ s ∈ b, s.Valid) :
    (TraceSegments.cmp a b).then (strCmp base base') =
        compare (traceText a base) (traceText b base') ↔ SegmentsFit base base' a b := by
  induction a generalizing b with
  | nil =>
    cases b with
    | nil => simp [TraceSegments.cmp, traceText, SegmentsFit, strCmp]
    | cons s' b =>
      have hcmp : TraceSegments.cmp [] (s' :: b) = .lt := by
        simp [TraceSegments.cmp, Nat.compare_eq_ite_lt]
      rw [hcmp, Ordering.lt_then, traceText, traceText, SegmentsFit,
        compare_sep_congr hbase.slash_notMem _ _ [], eq_comm]
  | cons s a ih =>
    cases b with
    | nil =>
      have hcmp : TraceSegments.cmp (s :: a) [] = .gt := by
        simp [TraceSegments.cmp, Nat.compare_eq_ite_lt]
      rw [hcmp, Ordering.gt_then, traceText, traceText, SegmentsFit, eq_comm, OrientedCmp.gt_iff_lt,
        compare_sep_congr hbase'.slash_notMem _ _ []]
    | cons s' b =>
      obtain ⟨hport, hchannel⟩ := ha s (by simp)
      obtain ⟨hport', hchannel'⟩ := hb s' (by simp)
      rw [TraceSegments.cmp_cons_cons, traceText, traceText, SegmentsFit]
      by_cases hp : s.port = s'.port
      · rw [if_neg (not_not.mpr hp), PortAndChannel.cmp_of_port_eq hp, hp, compare_append_left,
          compare_cons_self]
        by_cases hc : s.channel = s'.channel
        · rw [if_neg (not_not.mpr hc), hc, strCmp_self, compare_append_left, compare_cons_self]
          exact ih (fun s h => ha s (by simp [h])) (fun s h => hb s (by simp [h]))
        · have hne : s.channel.toList ≠ s'.channel.toList := fun h => hc (String.toList_inj.mp h)
          have hiff := compare_append_sep_iff hchannel.slash_notMem hchannel'.slash_notMem hne
            (traceText a base) (traceText b base')
          rw [if_pos hc, ← hiff, eq_comm]
          have hcmp := strCmp_ne_eq hc
          unfold strCmp at hcmp ⊢
          cases h : compare s.channel.toList s'.channel.toList with
          | lt => rfl
          | eq => exact absurd h hcmp
          | gt => rfl
      · have hne : s.port.toList ≠ s'.port.toList := fun h => hp (String.toList_inj.mp h)
        have hiff := compare_append_sep_iff hport.slash_notMem hport'.slash_notMem hne
          (s.channel.toList ++ '/' :: traceText a base)
          (s'.channel.toList ++ '/' :: traceText b base')
        rw [if_pos hp, ← hiff, eq_comm, PortAndChannel.cmp_of_port_ne hp]
        have hcmp := strCmp_ne_eq hp
        unfold strCmp at hcmp ⊢
        cases h : compare s.port.toList s'.port.toList with
        | lt => rfl
        | eq => exact absurd h hcmp
        | gt => rfl

/-- A base that is compared with a leading port. -/
def BaseFits (base port : String) : Prop :=
  base ≠ port ∧ ¬ Overtakes '/' port.toList base.toList

theorem baseFits_iff {base port : String} (hbase : IsPiece base.toList) (rest : List Char) :
    compare base.toList (port.toList ++ '/' :: rest) = strCmp base port ↔ BaseFits base port := by
  unfold BaseFits strCmp
  by_cases heq : base = port
  · have hlt : compare port.toList (port.toList ++ '/' :: rest) = .lt := by
      have := compare_append_left port.toList [] ('/' :: rest)
      rwa [List.append_nil] at this
    rw [heq, hlt, compare_self]
    simp
  · have hne : base.toList ≠ port.toList := fun h => heq (String.toList_inj.mp h)
    rw [compare_sep_right_iff hbase.slash_notMem hne]
    simp [heq]

/-- Two traces that are compared like their texts. -/
def TracePrefixed.Fits (a b : TracePrefixed) : Prop :=
  match a.trace, b.trace with
  | [], [] => True
  | [], leading :: _ => BaseFits a.baseDenom leading.port
  | leading :: _, [] => BaseFits b.baseDenom leading.port
  | _ :: _, _ :: _ => SegmentsFit a.baseDenom b.baseDenom a.trace b.trace

theorem TracePrefixed.cmp_eq_compare_iff {a b : TracePrefixed} (ha : a.Valid) (hb : b.Valid) :
    a.cmp b = strCmp a.display b.display ↔ a.Fits b := by
  have hsegments := segments_cmp_eq_compare_iff ha.base hb.base ha.trace hb.trace
  unfold strCmp
  rw [toList_display_eq, toList_display_eq]
  obtain ⟨trace, base⟩ := a
  obtain ⟨trace', base'⟩ := b
  unfold cmp Fits
  cases trace with
  | nil =>
    cases trace' with
    | nil => simp [traceText, strCmp]
    | cons s' rest' =>
      dsimp only
      rw [traceText, traceText, eq_comm, baseFits_iff ha.base]
  | cons s rest =>
    cases trace' with
    | nil =>
      dsimp only
      rw [traceText, traceText, ← baseFits_iff hb.base (s.channel.toList ++ '/' :: traceText rest base)]
      unfold strCmp
      rw [OrientedOrd.eq_swap, OrientedOrd.eq_swap (b := base'.toList), Ordering.swap_inj, eq_comm]
    | cons s' rest' => exact hsegments

/-! ## Hashes -/

theorem compare_digitChar {m n : ℕ} (hm : m < 16) (hn : n < 16) :
    compare (Nat.digitChar m) (Nat.digitChar n) = compare m n := by
  have hall : ∀ m n : Fin 16, compare (Nat.digitChar m.val) (Nat.digitChar n.val) =
      compare m.val n.val := by
    decide
  exact hall ⟨m, hm⟩ ⟨n, hn⟩

theorem compare_uint8 (a b : UInt8) : compare a b = compare a.toNat b.toNat := by
  rw [Nat.compare_eq_ite_lt]
  change compareOfLessAndEq a b = _
  unfold compareOfLessAndEq
  simp only [UInt8.lt_iff_toNat_lt, ← UInt8.toNat_inj]
  split_ifs <;> first | rfl | omega

/-- The two digits of a byte are ordered like the byte. -/
theorem compare_hexByte_append (a b : UInt8) (l m : List Char) :
    compare (Denom.hexByte a ++ l) (Denom.hexByte b ++ m) = (compare a b).then (compare l m) := by
  have ha := a.toNat_lt
  have hb := b.toNat_lt
  have hdigits : (compare (a.toNat / 16) (b.toNat / 16)).then
      (compare (a.toNat % 16) (b.toNat % 16)) = compare a.toNat b.toNat := by
    simp only [Nat.compare_eq_ite_lt]
    split_ifs <;> first | rfl | omega
  unfold Denom.hexByte
  simp only [List.cons_append, List.nil_append]
  rw [List.compare_cons_cons, List.compare_cons_cons, compare_digitChar (by omega) (by omega), compare_digitChar (by omega) (by omega),
    ← Ordering.then_assoc, hdigits, compare_uint8]

theorem compare_hexBytes (a b : Bytes) :
    compare (a.flatMap Denom.hexByte) (b.flatMap Denom.hexByte) = compare a b := by
  induction a generalizing b with
  | nil => cases b <;> rfl
  | cons x a ih =>
    cases b with
    | nil => rfl
    | cons y b =>
      rw [List.flatMap_cons, List.flatMap_cons, compare_hexByte_append, ih, List.compare_cons_cons]

theorem IbcPrefixed.cmp_eq_compare (a b : IbcPrefixed) :
    a.cmp b = strCmp (Denom.ibcPrefixed a).toString (Denom.ibcPrefixed b).toString := by
  unfold cmp strCmp
  rw [Denom.toList_toString_ibc, Denom.toList_toString_ibc, compare_append_left, compare_cons_self,
    compare_hexBytes]

/-! ## A trace and a hash -/

/-- A trace that does not begin with the port `ibc`, or whose text after it comes before the hash. -/
def TracePrefixed.FitsIbc (d : TracePrefixed) (ibc : IbcPrefixed) : Prop :=
  match d.trace with
  | [] => True
  | leading :: rest =>
    leading.port = "ibc" →
      compare (leading.channel.toList ++ '/' :: traceText rest d.baseDenom)
        (ibc.id.toList.flatMap Denom.hexByte) = .lt

/-- No character of `ibc` is below the slash. -/
theorem not_overtakes_ibc (p : List Char) : ¬ Overtakes '/' p "ibc".toList := by
  intro h
  obtain ⟨c, r, heq, hc⟩ := overtakes_iff.mp h
  have hmem : c ∈ ['i', 'b', 'c'] := by
    rw [show ['i', 'b', 'c'] = "ibc".toList from rfl, heq]
    simp
  simp only [List.mem_cons, List.not_mem_nil, or_false] at hmem
  revert hc
  rcases hmem with rfl | rfl | rfl <;> decide

theorem compareTraceToIbc_eq_compare_iff {d : TracePrefixed} (h : d.Valid) (ibc : IbcPrefixed) :
    compareTraceToIbc d = strCmp d.display (Denom.ibcPrefixed ibc).toString ↔ d.FitsIbc ibc := by
  have hscheme : "ibc/".toList = "ibc".toList ++ '/' :: [] := rfl
  unfold strCmp
  rw [TracePrefixed.toList_display_eq, Denom.toList_toString_ibc]
  obtain ⟨trace, base⟩ := d
  unfold compareTraceToIbc TracePrefixed.FitsIbc strCmp
  cases trace with
  | nil =>
    rw [traceText, hscheme]
    exact iff_of_true (compare_sep_congr h.base.slash_notMem _ _ _) trivial
  | cons leading rest =>
    have hport := (h.trace leading (by simp)).port
    dsimp only
    rw [traceText, hscheme]
    by_cases heq : leading.port = "ibc"
    · have hlt : compare "ibc".toList ("ibc".toList ++ ['/']) = .lt := by decide
      rw [heq, hlt, compare_append_left, compare_cons_self, eq_comm]
      simp
    · have hne : leading.port.toList ≠ "ibc".toList := fun h => heq (String.toList_inj.mp h)
      rw [compare_append_sep_left hport.slash_notMem (by decide) hne (not_overtakes_ibc _) _ _ []]
      simp [heq]

/-! ## All denominations -/

/-- What a denomination is that was parsed, or that popping and pushing segments led to. -/
def Denom.Valid : Denom → Prop
  | .tracePrefixed d => d.Valid
  | .ibcPrefixed _ => True

abbrev ValidDenom := { d : Denom // d.Valid }

/-- Two denominations that are compared like their texts. -/
def Denom.Fits : Denom → Denom → Prop
  | .tracePrefixed a, .tracePrefixed b => a.Fits b
  | .tracePrefixed d, .ibcPrefixed ibc => d.FitsIbc ibc
  | .ibcPrefixed _, .ibcPrefixed _ => True
  | .ibcPrefixed ibc, .tracePrefixed d => d.FitsIbc ibc

theorem Denom.cmp_eq_compare_iff {a b : Denom} (ha : a.Valid) (hb : b.Valid) :
    a.cmp b = strCmp a.toString b.toString ↔ a.Fits b := by
  cases a with
  | tracePrefixed a =>
    cases b with
    | tracePrefixed b => exact TracePrefixed.cmp_eq_compare_iff ha hb
    | ibcPrefixed ibc => exact compareTraceToIbc_eq_compare_iff ha ibc
  | ibcPrefixed ibc =>
    cases b with
    | tracePrefixed d =>
      have hiff := compareTraceToIbc_eq_compare_iff hb ibc
      change (compareTraceToIbc d).swap = strCmp (Denom.ibcPrefixed ibc).toString d.display ↔
        d.FitsIbc ibc
      unfold strCmp at hiff ⊢
      rw [← hiff, OrientedOrd.eq_swap, Ordering.swap_inj]
    | ibcPrefixed ibc' =>
      exact iff_of_true (IbcPrefixed.cmp_eq_compare ibc ibc') trivial

/-- Different denominations have different texts. -/
theorem Denom.toString_injective {a b : Denom} (ha : a.Valid) (hb : b.Valid)
    (h : a.toString = b.toString) : a = b := by
  have hkinds : ∀ {d : TracePrefixed} (ibc : IbcPrefixed), d.Valid →
      d.display ≠ (Denom.ibcPrefixed ibc).toString := by
    intro d ibc hd heq
    have hsplit := congrArg (fun s => (s.toList.splitOn '/').length) heq
    rw [TracePrefixed.splitOn_display hd, Denom.toList_toString_ibc,
      List.splitOn_append_cons_self_of_not_mem (by decide),
      List.splitOn_eq_singleton (slash_not_mem_hexByte _), TracePrefixed.pieces, List.length_append,
      TracePrefixed.length_segmentPieces] at hsplit
    simp only [List.length_cons, List.length_nil] at hsplit
    omega
  cases a with
  | tracePrefixed a =>
    cases b with
    | tracePrefixed b =>
      have hparse := TracePrefixed.parse_display ha
      have heq : a.display = b.display := h
      rw [heq, TracePrefixed.parse_display hb] at hparse
      rw [Option.some.inj hparse]
    | ibcPrefixed ibc => exact absurd h (hkinds ibc ha)
  | ibcPrefixed ibc =>
    cases b with
    | tracePrefixed d => exact absurd h.symm (hkinds ibc hb)
    | ibcPrefixed ibc' =>
      have hparse := IbcPrefixed.parse_toString ibc
      rw [h, IbcPrefixed.parse_toString] at hparse
      rw [Option.some.inj hparse]

/-- The order of some denominations is that of their texts, and it is a total order. -/
structure OrdSound (S : Set ValidDenom) : Prop where
  lexical : ∀ a ∈ S, ∀ b ∈ S, a.val.cmp b.val = strCmp a.val.toString b.val.toString
  eq_iff : ∀ a ∈ S, ∀ b ∈ S, a.val.cmp b.val = .eq ↔ a = b
  swap : ∀ a ∈ S, ∀ b ∈ S, b.val.cmp a.val = (a.val.cmp b.val).swap
  trans : ∀ a ∈ S, ∀ b ∈ S, ∀ c ∈ S, (a.val.cmp b.val).isLE → (b.val.cmp c.val).isLE →
    (a.val.cmp c.val).isLE

/-- The order of a set of denominations is as promised exactly if every two of them fit. -/
theorem denomOrd_sound_iff (S : Set ValidDenom) :
    OrdSound S ↔ ∀ a ∈ S, ∀ b ∈ S, a.val.Fits b.val := by
  constructor
  · intro h a ha b hb
    exact (Denom.cmp_eq_compare_iff a.property b.property).mp (h.lexical a ha b hb)
  · intro h
    have hlexical : ∀ a ∈ S, ∀ b ∈ S, a.val.cmp b.val = strCmp a.val.toString b.val.toString :=
      fun a ha b hb => (Denom.cmp_eq_compare_iff a.property b.property).mpr (h a ha b hb)
    refine ⟨hlexical, ?_, ?_, ?_⟩
    · intro a ha b hb
      rw [hlexical a ha b hb]
      constructor
      · intro heq
        have htext := String.toList_inj.mp (LawfulEqOrd.eq_of_compare heq)
        exact Subtype.ext (Denom.toString_injective a.property b.property htext)
      · rintro rfl
        exact strCmp_self _
    · intro a ha b hb
      rw [hlexical a ha b hb, hlexical b hb a ha]
      exact OrientedOrd.eq_swap
    · intro a ha b hb c hc
      rw [hlexical a ha b hb, hlexical b hb c hc, hlexical a ha c hc]
      unfold strCmp
      exact TransCmp.isLE_trans

/-- The base `a`. -/
def baseA : ValidDenom :=
  ⟨.tracePrefixed { trace := [], baseDenom := "a" }, by simp, by decide⟩

/-- The denomination `a/b/c`. -/
def traceA : ValidDenom :=
  ⟨.tracePrefixed { trace := [{ port := "a", channel := "b" }], baseDenom := "c" }, by
    constructor
    · simp only [List.mem_singleton, forall_eq]
      exact ⟨by decide, by decide⟩
    · decide⟩

/-- `a` and `a/b/c` compare equal. -/
theorem not_ordSound_univ :
    Denom.parse "a" = some baseA.val ∧ Denom.parse "a/b/c" = some traceA.val ∧
      baseA.val.cmp traceA.val = .eq ∧ ¬ OrdSound Set.univ := by
  have hcmp : baseA.val.cmp traceA.val = .eq := by decide
  refine ⟨by decide, by decide, hcmp, fun h => ?_⟩
  have heq := (h.eq_iff baseA (Set.mem_univ _) traceA (Set.mem_univ _)).mp hcmp
  have htrace := congrArg Subtype.val heq
  revert htrace
  decide

/-- `a-b/c/d` comes before `a/c/d`, and is said to come after it. -/
example :
    TracePrefixed.cmp ⟨[⟨"a-b", "c"⟩], "d"⟩ ⟨[⟨"a", "c"⟩], "d"⟩ = .gt ∧
      strCmp "a-b/c/d" "a/c/d" = .lt := by
  decide

end Astria.Core
