import Astria.Sequencer.TestUtils
import Mathlib.Tactic.IntervalCases

/-!
# Round trips of asset denominations

The text of a denomination and its parts (`crates/astria-core/src/primitive/v1/asset/denom.rs`).  The
parser tells an `ibc/<hash>` from a trace by the first four characters, and cuts a trace at its
slashes; a trace that is changed afterwards is written without a look at what it now begins with.

Results:
* `TracePrefixed.parse_eq_some`: the traces that are parsed are the valid ones, from their own text;
* `Denom.parse_toString`: a denomination that was parsed is parsed from its text again;
* `Denom.toString_of_parse`: that text is the one it was parsed from, up to the case of the hash;
* `Denom.parse_display`: a valid trace is read back exactly if it does not begin with `ibc`;
* `denoms_roundTrip_iff`: all of it for every trace that popping and pushing segments leads to.
-/

namespace Astria.Core

open Astria.Sequencer (External)

/-! ## Pieces -/

/-- What a port, a channel or a base is: not empty, ASCII without blanks, and without a slash. -/
def IsPiece (piece : List Char) : Prop :=
  piece ≠ [] ∧ ∀ c ∈ piece, c.val < 128 ∧ isAsciiWhitespace c = false ∧ c ≠ '/'

instance (piece : List Char) : Decidable (IsPiece piece) :=
  @instDecidableAnd _ _ inferInstance (List.decidableBAll _ piece)

structure PortAndChannel.Valid (segment : PortAndChannel) : Prop where
  port : IsPiece segment.port.toList
  channel : IsPiece segment.channel.toList

/-- The pieces of the segments of a trace. -/
def segmentPieces (trace : List PortAndChannel) : List (List Char) :=
  trace.flatMap fun segment => [segment.port.toList, segment.channel.toList]

theorem parseTraceSegments_segmentPieces {trace : List PortAndChannel}
    (h : ∀ segment ∈ trace, segment.Valid) :
    parseTraceSegments (segmentPieces trace) = some trace := by
  induction trace with
  | nil => rfl
  | cons segment trace ih =>
    have hsegment := h segment (List.mem_cons_self ..)
    have hrest := ih (fun s hs => h s (List.mem_cons_of_mem _ hs))
    unfold segmentPieces at hrest ⊢
    rw [List.flatMap_cons, List.cons_append, List.singleton_append, parseTraceSegments,
      if_neg (by rintro (hp | hc); exacts [hsegment.port.1 hp, hsegment.channel.1 hc]), hrest,
      Option.map_some, String.ofList_toList, String.ofList_toList]

theorem parseTraceSegments_eq_some {pieces : List (List Char)} {trace : List PortAndChannel}
    (h : parseTraceSegments pieces = some trace) :
    pieces = segmentPieces trace ∧ ∀ piece ∈ pieces, piece ≠ [] := by
  induction pieces using parseTraceSegments.induct generalizing trace with
  | case1 =>
    cases h
    exact ⟨rfl, fun _ hpiece => absurd hpiece List.not_mem_nil⟩
  | case2 piece => cases h
  | case3 port channel rest hempty =>
    rw [parseTraceSegments, if_pos hempty] at h
    cases h
  | case4 port channel rest hempty ih =>
    rw [parseTraceSegments, if_neg hempty] at h
    obtain ⟨segments, hsegments, rfl⟩ := Option.map_eq_some_iff.mp h
    obtain ⟨hpieces, hne⟩ := ih hsegments
    constructor
    · rw [hpieces]
      unfold segmentPieces
      rw [List.flatMap_cons, String.toList_ofList, String.toList_ofList]
      rfl
    · intro piece hpiece
      rw [List.mem_cons, List.mem_cons] at hpiece
      rcases hpiece with rfl | rfl | hpiece
      · exact fun hp => hempty (Or.inl hp)
      · exact fun hc => hempty (Or.inr hc)
      · exact hne piece hpiece

theorem mem_intercalate_slash {pieces : List (List Char)} {c : Char}
    (h : c ∈ ['/'].intercalate pieces) : c = '/' ∨ ∃ piece ∈ pieces, c ∈ piece := by
  induction pieces with
  | nil => cases h
  | cons piece pieces ih =>
    by_cases hnil : pieces = []
    · rw [hnil, List.intercalate_singleton] at h
      exact Or.inr ⟨piece, List.mem_cons_self .., h⟩
    · rw [List.intercalate_cons_of_ne_nil hnil, List.append_assoc, List.mem_append,
        List.singleton_append, List.mem_cons] at h
      rcases h with h | h | h
      · exact Or.inr ⟨piece, List.mem_cons_self .., h⟩
      · exact Or.inl h
      · rcases ih h with h | ⟨p, hp, h⟩
        · exact Or.inl h
        · exact Or.inr ⟨p, List.mem_cons_of_mem _ hp, h⟩

theorem mem_intercalate_of_mem {pieces : List (List Char)} {piece : List Char} {c : Char}
    (hpiece : piece ∈ pieces) (hc : c ∈ piece) : c ∈ ['/'].intercalate pieces := by
  induction pieces with
  | nil => cases hpiece
  | cons p pieces ih =>
    by_cases hnil : pieces = []
    · rw [hnil] at hpiece ⊢
      rw [List.intercalate_singleton]
      rw [List.mem_singleton] at hpiece
      rw [← hpiece]
      exact hc
    · rw [List.intercalate_cons_of_ne_nil hnil, List.append_assoc, List.mem_append,
        List.singleton_append, List.mem_cons]
      rcases List.mem_cons.mp hpiece with rfl | hpiece
      · exact Or.inl hc
      · exact Or.inr (Or.inr (ih hpiece))

/-- The pieces of a split have no slash. -/
theorem not_mem_of_mem_splitOn {l piece : List Char} (h : piece ∈ l.splitOn '/') : '/' ∉ piece := by
  induction l generalizing piece with
  | nil =>
    rw [List.splitOn_nil, List.mem_singleton] at h
    rw [h]
    exact List.not_mem_nil
  | cons c l ih =>
    rw [List.splitOn_cons_eq_if_modifyHead] at h
    obtain ⟨first, rest, hsplit⟩ := List.exists_cons_of_ne_nil (List.splitOn_ne_nil '/' l)
    rw [hsplit] at h ih
    split_ifs at h with hc
    · rcases List.mem_cons.mp h with rfl | h
      · exact List.not_mem_nil
      · exact ih h
    · rw [List.modifyHead_cons] at h
      rcases List.mem_cons.mp h with rfl | h
      · rw [List.mem_cons, not_or]
        exact ⟨fun heq => hc (beq_iff_eq.mpr heq.symm), ih (List.mem_cons_self ..)⟩
      · exact ih (List.mem_cons_of_mem _ h)

/-! ## Hexadecimal digits -/

theorem hexDigit_digitChar {n : ℕ} (h : n < 16) : hexDigit (Nat.digitChar n) = some n := by
  have hall : ∀ m : Fin 16, hexDigit (Nat.digitChar m.val) = some m.val := by decide
  exact hall ⟨n, h⟩

theorem digitChar_of_hexDigit {c : Char} {n : ℕ} (h : hexDigit c = some n) :
    n < 16 ∧ Nat.digitChar n = c.toLower := by
  have hofNat : Char.ofNat c.toNat = c := Char.ofNat_toNat c
  have hle (a b : Char) (hab : a ≤ b) : a.toNat ≤ b.toNat := hab
  unfold hexDigit at h
  split_ifs at h with h1 h2 h3
  · have hlow : 48 ≤ c.toNat := hle _ _ h1.1
    have hhigh : c.toNat ≤ 57 := hle _ _ h1.2
    obtain rfl := Option.some.inj h
    rw [← hofNat]
    interval_cases c.toNat <;> decide
  · have hlow : 97 ≤ c.toNat := hle _ _ h2.1
    have hhigh : c.toNat ≤ 102 := hle _ _ h2.2
    obtain rfl := Option.some.inj h
    rw [← hofNat]
    interval_cases c.toNat <;> decide
  · have hlow : 65 ≤ c.toNat := hle _ _ h3.1
    have hhigh : c.toNat ≤ 70 := hle _ _ h3.2
    obtain rfl := Option.some.inj h
    rw [← hofNat]
    interval_cases c.toNat <;> decide

theorem parseHex_hexByte (bytes : Bytes) : parseHex (bytes.flatMap Denom.hexByte) = some bytes := by
  induction bytes with
  | nil => rfl
  | cons b bytes ih =>
    have hb : b.toNat < 256 := b.toNat_lt
    rw [List.flatMap_cons, Denom.hexByte, List.cons_append, List.singleton_append, parseHex,
      hexDigit_digitChar (by omega), hexDigit_digitChar (by omega), ih]
    dsimp only
    rw [show b.toNat / 16 * 16 + b.toNat % 16 = b.toNat by omega, UInt8.ofNat_toNat]

theorem hexByte_of_parseHex {hex : List Char} {bytes : Bytes} (h : parseHex hex = some bytes) :
    bytes.flatMap Denom.hexByte = hex.map Char.toLower := by
  induction hex using parseHex.induct generalizing bytes with
  | case1 =>
    obtain rfl := Option.some.inj h
    rfl
  | case2 c => cases h
  | case3 high low rest n m tail htail hlow hhigh ih =>
    rw [parseHex, hhigh, hlow, htail] at h
    obtain rfl := Option.some.inj h
    obtain ⟨hn, hhigh⟩ := digitChar_of_hexDigit hhigh
    obtain ⟨hm, hlow⟩ := digitChar_of_hexDigit hlow
    have hbyte : (UInt8.ofNat (n * 16 + m)).toNat = n * 16 + m := by
      rw [UInt8.toNat_ofNat']
      omega
    rw [List.flatMap_cons, ih htail, Denom.hexByte, hbyte,
      show (n * 16 + m) / 16 = n by omega, show (n * 16 + m) % 16 = m by omega, hhigh, hlow]
    rfl
  | case4 high low rest hnone ih =>
    rw [parseHex] at h
    split at h
    · exact absurd (hnone _ _ _ ‹_› ‹_› ‹_›) id
    · cases h

theorem slash_not_mem_hexByte (bytes : Bytes) : '/' ∉ bytes.flatMap Denom.hexByte := by
  have hdigit {n : ℕ} (h : n < 16) : '/' ≠ Nat.digitChar n := by
    have hall : ∀ m : Fin 16, '/' ≠ Nat.digitChar m.val := by decide
    exact hall ⟨n, h⟩
  intro h
  obtain ⟨b, -, hmem⟩ := List.mem_flatMap.mp h
  have hb : b.toNat < 256 := b.toNat_lt
  rw [Denom.hexByte, List.mem_cons, List.mem_singleton] at hmem
  rcases hmem with hmem | hmem
  · exact hdigit (by omega) hmem
  · exact hdigit (by omega) hmem

/-- Two characters of one byte each stand for a byte. -/
theorem utf8ByteSize_hexBytes (bytes : Bytes) :
    (String.ofList (bytes.flatMap Denom.hexByte)).utf8ByteSize = 2 * bytes.length := by
  have hdigit {n : ℕ} (h : n < 16) : (Nat.digitChar n).utf8Size = 1 := by
    have hall : ∀ m : Fin 16, (Nat.digitChar m.val).utf8Size = 1 := by decide
    exact hall ⟨n, h⟩
  induction bytes with
  | nil => rfl
  | cons b bytes ih =>
    have hb : b.toNat < 256 := b.toNat_lt
    rw [List.flatMap_cons, String.ofList_append, String.utf8ByteSize_append, ih, Denom.hexByte,
      ← List.singleton_append, String.ofList_append, String.utf8ByteSize_append,
      ← String.singleton_eq_ofList, ← String.singleton_eq_ofList, String.utf8ByteSize_singleton,
      String.utf8ByteSize_singleton, hdigit (by omega), hdigit (by omega), List.length_cons]
    omega

/-! ## Traces -/

namespace TracePrefixed

/-- `push_trace_segment`: the segment goes to the end of the trace. -/
def pushTraceSegment (d : TracePrefixed) (segment : PortAndChannel) : TracePrefixed :=
  { d with trace := d.trace ++ [segment] }

/-- What a trace is made of that was parsed. -/
structure Valid (d : TracePrefixed) : Prop where
  trace : ∀ segment ∈ d.trace, segment.Valid
  base : IsPiece d.baseDenom.toList

/-- The pieces between the slashes of the text. -/
def pieces (d : TracePrefixed) : List (List Char) := segmentPieces d.trace ++ [d.baseDenom.toList]

theorem toList_display (d : TracePrefixed) : d.display.toList = ['/'].intercalate d.pieces := by
  obtain ⟨trace, base⟩ := d
  unfold display pieces segmentPieces
  dsimp only
  induction trace with
  | nil => rw [List.flatMap_nil, List.nil_append, List.intercalate_singleton]; rfl
  | cons segment trace ih =>
    have hslash : "/".toList = ['/'] := rfl
    rw [List.map_cons, List.foldr_cons, List.flatMap_cons, String.toList_append, ih,
      String.toList_append, String.toList_append, String.toList_append, hslash]
    simp only [List.cons_append, List.nil_append]
    rw [List.intercalate_cons_cons, List.intercalate_cons_of_ne_nil (by simp)]
    simp only [List.append_assoc, List.cons_append]

theorem Valid.isPiece {d : TracePrefixed} (h : d.Valid) : ∀ piece ∈ d.pieces, IsPiece piece := by
  intro piece hpiece
  unfold pieces segmentPieces at hpiece
  rw [List.mem_append, List.mem_flatMap, List.mem_singleton] at hpiece
  rcases hpiece with ⟨segment, hsegment, hpiece⟩ | rfl
  · rw [List.mem_cons, List.mem_singleton] at hpiece
    rcases hpiece with rfl | rfl
    · exact (h.trace segment hsegment).port
    · exact (h.trace segment hsegment).channel
  · exact h.base

theorem splitOn_display {d : TracePrefixed} (h : d.Valid) :
    d.display.toList.splitOn '/' = d.pieces := by
  rw [toList_display]
  refine List.splitOn_intercalate '/' ?_ (List.append_ne_nil_of_right_ne_nil _ (by simp))
  intro piece hpiece hslash
  exact ((h.isPiece piece hpiece).2 '/' hslash).2.2 rfl

/-- The text of a valid trace has no character that the parser refuses. -/
theorem display_clean {d : TracePrefixed} (h : d.Valid) :
    (d.display.toList.any fun c => 128 ≤ c.val || isAsciiWhitespace c) = false := by
  rw [List.any_eq_false]
  intro c hc
  rw [toList_display] at hc
  rcases mem_intercalate_slash hc with rfl | ⟨piece, hpiece, hc⟩
  · decide
  · obtain ⟨hascii, hblank, -⟩ := (h.isPiece piece hpiece).2 c hc
    rw [hblank, Bool.or_false, decide_eq_true_iff]
    exact UInt32.not_le.mpr hascii

theorem parse_display {d : TracePrefixed} (h : d.Valid) : parse d.display = some d := by
  obtain ⟨trace, base⟩ := d
  unfold parse
  dsimp only
  rw [display_clean h, splitOn_display h]
  unfold pieces
  dsimp only
  rw [if_neg Bool.false_ne_true, List.dropLast_concat, List.getLast?_concat,
    parseTraceSegments_segmentPieces h.trace]
  dsimp only
  rw [if_neg h.base.1, String.ofList_toList]

theorem valid_of_pieces {d : TracePrefixed} (h : ∀ piece ∈ d.pieces, IsPiece piece) : d.Valid := by
  unfold pieces segmentPieces at h
  constructor
  · intro segment hsegment
    have hin (piece : List Char) (hpiece : piece ∈ [segment.port.toList, segment.channel.toList]) :
        IsPiece piece :=
      h piece (List.mem_append_left _ (List.mem_flatMap.mpr ⟨segment, hsegment, hpiece⟩))
    exact ⟨hin _ (List.mem_cons_self ..), hin _ (List.mem_cons_of_mem _ (List.mem_cons_self ..))⟩
  · exact h _ (List.mem_append_right _ (List.mem_singleton_self _))

/-- A trace that is parsed is valid, and its text is what was parsed. -/
theorem parse_eq_some {s : String} {d : TracePrefixed} :
    parse s = some d ↔ d.Valid ∧ d.display = s := by
  constructor
  · intro h
    unfold parse at h
    dsimp only at h
    split_ifs at h with hclean
    rw [Bool.not_eq_true, List.any_eq_false] at hclean
    cases htrace : parseTraceSegments (s.toList.splitOn '/').dropLast with
    | none =>
      rw [htrace] at h
      cases h
    | some trace =>
      cases hbase : (s.toList.splitOn '/').getLast? with
      | none =>
        rw [htrace, hbase] at h
        cases h
      | some base =>
        rw [htrace, hbase] at h
        dsimp only at h
        split_ifs at h with hempty
        obtain rfl := Option.some.inj h
        obtain ⟨hpieces, hne⟩ := parseTraceSegments_eq_some htrace
        have hsplit : TracePrefixed.pieces ⟨trace, String.ofList base⟩ = s.toList.splitOn '/' := by
          unfold pieces
          dsimp only
          rw [String.toList_ofList, ← hpieces]
          exact List.dropLast_append_getLast? base hbase
        have hdisplay : display ⟨trace, String.ofList base⟩ = s := by
          rw [← String.toList_inj, toList_display, hsplit, List.intercalate_splitOn]
        refine ⟨valid_of_pieces ?_, hdisplay⟩
        intro piece hpiece
        have hin := hpiece
        rw [hsplit] at hin
        constructor
        · unfold pieces at hpiece
          dsimp only at hpiece
          rw [List.mem_append, List.mem_singleton, String.toList_ofList, ← hpieces] at hpiece
          rcases hpiece with hpiece | rfl
          · exact hne piece hpiece
          · exact hempty
        · intro c hc
          have hmem : c ∈ s.toList := by
            rw [← hdisplay, toList_display, hsplit]
            exact mem_intercalate_of_mem hin hc
          have hok := hclean c hmem
          rw [Bool.or_eq_true, not_or, decide_eq_true_iff, Bool.not_eq_true] at hok
          exact ⟨UInt32.not_le.mp hok.1, hok.2, fun hslash =>
            not_mem_of_mem_splitOn hin (hslash ▸ hc)⟩
  · rintro ⟨hvalid, rfl⟩
    exact parse_display hvalid

theorem length_segmentPieces (trace : List PortAndChannel) :
    (segmentPieces trace).length = 2 * trace.length := by
  unfold segmentPieces
  induction trace with
  | nil => rfl
  | cons segment trace ih =>
    rw [List.flatMap_cons, List.length_append, ih, List.length_cons]
    simp only [List.length_cons, List.length_nil]
    omega

/-- A text that begins with `ibc/` has `ibc` for its first piece. -/
theorem isPrefixOf_display {d : TracePrefixed} (h : d.Valid) :
    "ibc/".toList.isPrefixOf d.display.toList = d.hasLeadingPort "ibc" := by
  have hsplit := splitOn_display h
  have hibc : '/' ∉ "ibc".toList := by decide
  obtain ⟨trace, base⟩ := d
  unfold hasLeadingPort
  rw [Bool.eq_iff_iff, List.isPrefixOf_iff_prefix, beq_iff_eq]
  constructor
  · rintro ⟨rest, hrest⟩
    rw [← hrest, show "ibc/".toList = "ibc".toList ++ ['/'] from rfl, List.append_assoc,
      List.singleton_append, List.splitOn_append_cons_self_of_not_mem hibc] at hsplit
    cases trace with
    | nil =>
      -- a base alone has no slash, so the text is cut once at most
      obtain ⟨-, hnil⟩ := List.cons.inj hsplit
      exact (List.splitOn_ne_nil _ _ hnil).elim
    | cons segment trace =>
      obtain ⟨hport, -⟩ := List.cons.inj hsplit
      rw [List.head?_cons, Option.map_some, ← String.toList_inj.mp hport]
  · intro hport
    cases trace with
    | nil => cases hport
    | cons segment trace =>
      rw [List.head?_cons, Option.map_some, Option.some.injEq] at hport
      rw [toList_display]
      unfold pieces segmentPieces
      rw [List.flatMap_cons, List.cons_append, List.cons_append,
        List.intercalate_cons_of_ne_nil (by simp), hport]
      exact List.prefix_append ..

end TracePrefixed

/-! ## The hash of a trace -/

theorem asBytes_append (s t : String) : asBytes (s ++ t) = asBytes s ++ asBytes t := by
  unfold asBytes
  rw [String.toUTF8_eq_toByteArray, String.toByteArray_append, ByteArray.data_append,
    Array.toList_append]
  rfl

/-- What `to_ibc_prefixed` feeds to its hasher, one update after the other. -/
def TracePrefixed.hasherInput (d : TracePrefixed) : Bytes :=
  (d.trace.flatMap fun segment =>
    asBytes segment.port ++ asBytes "/" ++ asBytes segment.channel ++ asBytes "/") ++
      asBytes d.baseDenom

theorem TracePrefixed.hasherInput_eq (d : TracePrefixed) : d.hasherInput = asBytes d.display := by
  obtain ⟨trace, base⟩ := d
  unfold hasherInput display
  dsimp only
  induction trace with
  | nil => rfl
  | cons segment trace ih =>
    rw [List.flatMap_cons, List.append_assoc, ih, List.map_cons, List.foldr_cons, asBytes_append,
      asBytes_append, asBytes_append, asBytes_append]

section Hash

variable [ext : External]

/-- `to_ibc_prefixed`, as the source hashes the trace without writing it out. -/
def TracePrefixed.hashSegments (d : TracePrefixed) : IbcPrefixed :=
  { id := ext.sha256 d.hasherInput }

theorem TracePrefixed.hashSegments_eq (d : TracePrefixed) : d.hashSegments = d.toIbcPrefixed := by
  unfold hashSegments toIbcPrefixed
  rw [hasherInput_eq]

end Hash

/-! ## Denominations -/

theorem IbcPrefixed.exists_hex_of_parse {s : String} {ibc : IbcPrefixed}
    (h : IbcPrefixed.parse s = some ibc) :
    ∃ hex, s.toList = "ibc/".toList ++ hex ∧ parseHex hex = some ibc.id.toList := by
  have hjoin : ['/'].intercalate (s.toList.splitOn '/') = s.toList := List.intercalate_splitOn ..
  unfold parse at h
  split at h
  next scheme hex hsplit =>
    rw [hsplit, List.intercalate_cons_cons, List.intercalate_singleton] at hjoin
    split_ifs at h with hscheme
    split at h
    next bytes hhex =>
      split_ifs at h with hlength
      obtain rfl := Option.some.inj h
      exact ⟨hex, by rw [← hjoin, hscheme]; rfl, hhex⟩
    next => cases h
  next => cases h

theorem Denom.toList_toString_ibc (ibc : IbcPrefixed) :
    (Denom.ibcPrefixed ibc).toString.toList =
      "ibc".toList ++ '/' :: ibc.id.toList.flatMap Denom.hexByte := by
  have hhex : (String.ofList (ibc.id.toList.flatMap Denom.hexByte)).toList =
      ibc.id.toList.flatMap Denom.hexByte := String.toList_ofList
  rw [Denom.toString, String.toList_append, hhex,
    show "ibc/".toList = "ibc".toList ++ ['/'] from rfl, List.append_assoc, List.singleton_append]

theorem IbcPrefixed.parse_toString (ibc : IbcPrefixed) :
    IbcPrefixed.parse (Denom.ibcPrefixed ibc).toString = some ibc := by
  have hsplit : (Denom.ibcPrefixed ibc).toString.toList.splitOn '/' =
      ["ibc".toList, ibc.id.toList.flatMap Denom.hexByte] := by
    rw [Denom.toList_toString_ibc, List.splitOn_append_cons_self_of_not_mem (by decide),
      List.splitOn_eq_singleton (slash_not_mem_hexByte _)]
  simp [parse, hsplit, parseHex_hexByte]

/-- The kind of a text: `ibc/` at its start, or a trace. -/
theorem Denom.parse_eq_some {s : String} {d : Denom} (h : Denom.parse s = some d) :
    ("ibc/".toList.isPrefixOf s.toList = true ∧
      ∃ ibc, d = .ibcPrefixed ibc ∧ IbcPrefixed.parse s = some ibc) ∨
    ("ibc/".toList.isPrefixOf s.toList = false ∧
      ∃ trace, d = .tracePrefixed trace ∧ TracePrefixed.parse s = some trace) := by
  unfold parse at h
  split_ifs at h with hscheme
  · obtain ⟨ibc, hibc, rfl⟩ := Option.map_eq_some_iff.mp h
    exact Or.inl ⟨hscheme, ibc, rfl, hibc⟩
  · obtain ⟨trace, htrace, rfl⟩ := Option.map_eq_some_iff.mp h
    exact Or.inr ⟨Bool.not_eq_true _ ▸ hscheme, trace, rfl, htrace⟩

/-- A denomination that was parsed is parsed from its own text again. -/
theorem Denom.parse_toString {s : String} {d : Denom} (h : Denom.parse s = some d) :
    Denom.parse d.toString = some d := by
  rcases Denom.parse_eq_some h with ⟨-, ibc, rfl, -⟩ | ⟨-, trace, rfl, htrace⟩
  · have hibc : "ibc/".toList.isPrefixOf (Denom.ibcPrefixed ibc).toString.toList = true := by
      rw [List.isPrefixOf_iff_prefix, Denom.toList_toString_ibc]
      exact ⟨_, List.append_assoc "ibc".toList ['/'] _⟩
    unfold parse
    rw [if_pos hibc, IbcPrefixed.parse_toString, Option.map_some]
  · obtain ⟨-, rfl⟩ := TracePrefixed.parse_eq_some.mp htrace
    exact h

/-- A text, with the digits of the hash of an `ibc/<hash>` in lower case. -/
def Denom.lowerHex : Denom → String → String
  | .tracePrefixed _, s => s
  | .ibcPrefixed _, s => s.map Char.toLower

theorem Denom.toString_of_parse {s : String} {d : Denom} (h : Denom.parse s = some d) :
    d.toString = d.lowerHex s := by
  rcases Denom.parse_eq_some h with ⟨-, ibc, rfl, hibc⟩ | ⟨-, trace, rfl, htrace⟩
  · obtain ⟨hex, hs, hhex⟩ := IbcPrefixed.exists_hex_of_parse hibc
    unfold lowerHex
    dsimp only
    rw [← String.toList_inj, Denom.toList_toString_ibc, String.toList_map, hs, List.map_append,
      ← hexByte_of_parseHex hhex]
    rfl
  · exact (TracePrefixed.parse_eq_some.mp htrace).2

theorem Denom.utf8ByteSize_toString (d : Denom) : d.toString.utf8ByteSize = d.displayLen := by
  cases d with
  | tracePrefixed trace => exact trace.utf8ByteSize_display
  | ibcPrefixed ibc =>
    have hscheme : ("ibc/" : String).utf8ByteSize = 4 := by decide
    rw [Denom.toString, String.utf8ByteSize_append, hscheme, utf8ByteSize_hexBytes,
      List.Vector.toList_length, displayLen]

/-- A valid trace is read back exactly if it does not begin with the port `ibc`; the text of one
that does is taken for an `ibc/<hash>` and refused. -/
theorem Denom.parse_display {t : TracePrefixed} (h : t.Valid) :
    Denom.parse t.display =
      if t.hasLeadingPort "ibc" then none else some (.tracePrefixed t) := by
  unfold parse
  rw [TracePrefixed.isPrefixOf_display h]
  by_cases hport : t.hasLeadingPort "ibc" = true
  · rw [if_pos hport, if_pos hport, Option.map_eq_none_iff]
    unfold IbcPrefixed.parse
    rw [TracePrefixed.splitOn_display h]
    split
    next scheme hex hpieces =>
      -- an odd number of pieces: two for a segment and one for the base
      have hlength : t.pieces.length = 2 := by rw [hpieces]; rfl
      unfold TracePrefixed.pieces at hlength
      rw [List.length_append, TracePrefixed.length_segmentPieces, List.length_singleton] at hlength
      omega
    next => rfl
  · rw [if_neg hport, if_neg hport, TracePrefixed.parse_display h, Option.map_some]

/-! ## Changed traces -/

/-- What is done to a trace between two texts of it. -/
inductive TraceOp where
  | pop
  | push (segment : PortAndChannel)

namespace TraceOp

def apply : TraceOp → TracePrefixed → TracePrefixed
  | pop, d => d.popLeadingPortAndChannel
  | push segment, d => d.pushTraceSegment segment

/-- The segments that are pushed have a port and a channel. -/
def Valid : TraceOp → Prop
  | pop => True
  | push segment => segment.Valid

/-- The operations, one after the other. -/
def run (ops : List TraceOp) (d : TracePrefixed) : TracePrefixed :=
  ops.foldl (fun d op => op.apply d) d

theorem apply_valid {op : TraceOp} {d : TracePrefixed} (hop : op.Valid) (hd : d.Valid) :
    (op.apply d).Valid := by
  cases op with
  | pop =>
    exact ⟨fun segment hsegment => hd.trace segment (List.mem_of_mem_tail hsegment), hd.base⟩
  | push segment =>
    refine ⟨fun s hs => ?_, hd.base⟩
    rcases List.mem_append.mp hs with hs | hs
    · exact hd.trace s hs
    · rw [List.mem_singleton.mp hs]
      exact hop

theorem run_valid {ops : List TraceOp} {d : TracePrefixed} (hops : ∀ op ∈ ops, op.Valid)
    (hd : d.Valid) : (run ops d).Valid := by
  induction ops generalizing d with
  | nil => exact hd
  | cons op ops ih =>
    have happly := apply_valid (hops op (List.mem_cons_self ..)) hd
    exact ih (fun o ho => hops o (List.mem_cons_of_mem _ ho)) happly

end TraceOp

section RoundTrips

variable [ext : External]

/-- What a changed trace `t` is to satisfy: it is read back from its text as itself, and it is
hashed as that text. -/
structure RoundTrips (t : TracePrefixed) : Prop where
  reads : Denom.parse t.display = some (.tracePrefixed t)
  hash : t.hashSegments.id = ext.sha256 (asBytes t.display)

theorem roundTrips_iff {t : TracePrefixed} (h : t.Valid) :
    RoundTrips t ↔ t.hasLeadingPort "ibc" = false := by
  have hread := Denom.parse_display h
  constructor
  · intro htrips
    rw [htrips.reads] at hread
    by_contra hport
    rw [if_pos (Bool.not_eq_false _ ▸ hport)] at hread
    cases hread
  · intro hport
    rw [hport, if_neg Bool.false_ne_true] at hread
    exact ⟨hread, by rw [t.hashSegments_eq]; rfl⟩

/-- A text that is parsed is the text of what was parsed, up to the case of a hash, and as long as
`display_len` says. A trace that pops and pushes of valid segments make of a parsed one is read
back and hashed as its text says exactly if its first port, where it has one, is not `ibc`. -/
theorem denoms_roundTrip_iff {s : String} {d : Denom} (h : Denom.parse s = some d) :
    d.toString = d.lowerHex s ∧ d.displayLen = d.toString.utf8ByteSize ∧
      ∀ t ops, d = .tracePrefixed t → (∀ op ∈ ops, TraceOp.Valid op) →
        (RoundTrips (TraceOp.run ops t) ↔ (TraceOp.run ops t).hasLeadingPort "ibc" = false) := by
  refine ⟨Denom.toString_of_parse h, d.utf8ByteSize_toString.symm, ?_⟩
  rintro t ops rfl hops
  rcases Denom.parse_eq_some h with ⟨-, ibc, heq, -⟩ | ⟨-, trace, heq, htrace⟩
  · cases heq
  · cases heq
    obtain ⟨hvalid, -⟩ := TracePrefixed.parse_eq_some.mp htrace
    exact roundTrips_iff (TraceOp.run_valid hops hvalid)

end RoundTrips

section Tests

open scoped Astria.Sequencer.TestUtils

/-- A token that came over two channels, and its first hop taken off. -/
theorem denoms_roundTrip_iff_utia :
    RoundTrips (TraceOp.run [.pop]
      ⟨[⟨"transfer", "channel-0"⟩, ⟨"transfer", "channel-1"⟩], "utia"⟩) := by
  have hparse : Denom.parse "transfer/channel-0/transfer/channel-1/utia" = some (.tracePrefixed
      ⟨[⟨"transfer", "channel-0"⟩, ⟨"transfer", "channel-1"⟩], "utia"⟩) := by decide
  obtain ⟨-, -, hruns⟩ := denoms_roundTrip_iff hparse
  exact (hruns _ [.pop] rfl (by simp [TraceOp.Valid])).mpr (by decide)

/-- With the first hop taken off, a trace over a port named `ibc` is no longer read. -/
theorem poppedTrace_unreadable :
    ¬ ∀ s t ops, Denom.parse s = some (.tracePrefixed t) → (∀ op ∈ ops, TraceOp.Valid op) →
      RoundTrips (TraceOp.run ops t) := by
  intro hall
  have hreads := (hall "transfer/channel-0/ibc/channel-1/utia"
    ⟨[⟨"transfer", "channel-0"⟩, ⟨"ibc", "channel-1"⟩], "utia"⟩ [.pop] (by decide)
    (by simp [TraceOp.Valid])).reads
  revert hreads
  decide

end Tests

end Astria.Core
