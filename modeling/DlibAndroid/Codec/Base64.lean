import DlibAndroid.Lib.Exec
import DlibAndroid.Lib.Word
import Mathlib.Data.List.GetD

/-!
# `base64`

`encode` writes four characters for three bytes and a line ending before every twentieth of these
groups. `decode` reads characters one at a time, leaves out those that mean nothing and gives three
bytes for every four it has kept.

`decode_eq` says what `decode` comes to on any text, against `decodeQuads`, which has no buffer. The
table `decode` looks its characters up in has `UCHAR_MAX` entries, one less than there are
characters, so the byte 255 in a text leads outside it. And at the end of the text one more entry is
looked up before the end is noticed, that of a byte of `inbuf` which nobody may have written: it is
not, when fewer than four characters were kept and the last one was (`Unwritten`). If that byte of
the stack happens to be 255, the text leads outside the table without containing 255.
-/

set_option autoImplicit false

namespace DlibAndroid.Codec.Base64

open CCore

inductive LineEnding where
  | CR
  | LF
  | CRLF
  deriving DecidableEq

/-- `encode_table` -/
def encodeTable : List UInt8 :=
  ['A', 'B', 'C', 'D', 'E', 'F', 'G', 'H', 'I', 'J', 'K', 'L', 'M', 'N', 'O', 'P', 'Q', 'R', 'S',
    'T', 'U', 'V', 'W', 'X', 'Y', 'Z', 'a', 'b', 'c', 'd', 'e', 'f', 'g', 'h', 'i', 'j', 'k', 'l',
    'm', 'n', 'o', 'p', 'q', 'r', 's', 't', 'u', 'v', 'w', 'x', 'y', 'z', '0', '1', '2', '3', '4',
    '5', '6', '7', '8', '9', '+', '/'].map fun ch => UInt8.ofNat ch.toNat

def badValue : UInt8 := 100

/-- `decode_table`, with `UCHAR_MAX` entries, made from the other. -/
def decodeTable : List UInt8 :=
  (List.range 64).foldl
    (fun table i => table.set (encodeTable.getD i 0).toNat (UInt8.ofNat i))
    (List.replicate 255 badValue)

/-- `'='` -/
def pad : UInt8 := 61

/-! ## Encoding -/

/-- `encode_table[i]` -/
def char (i : UInt8) : UInt8 := encodeTable.getD i.toNat 0

def newline : LineEnding → List UInt8
  | .CR => [13]
  | .LF => [10]
  | .CRLF => [13, 10]

/-- The characters for what `sgetn` has put into `inbuf`. -/
def group : List UInt8 → List UInt8
  | [a] =>
    [char ((a &&& 0xfc) >>> 2), char (((a &&& 0x03) <<< 4) ||| ((0 : UInt8) >>> 4)), pad, pad]
  | [a, b] =>
    [char ((a &&& 0xfc) >>> 2), char (((a &&& 0x03) <<< 4) ||| ((b &&& 0xf0) >>> 4)),
      char (((b &&& 0x0f) <<< 2) ||| ((0 : UInt8) >>> 6)), pad]
  | [a, b, c] =>
    [char ((a &&& 0xfc) >>> 2), char (((a &&& 0x03) <<< 4) ||| ((b &&& 0xf0) >>> 4)),
      char (((b &&& 0x0f) <<< 2) ||| ((c &&& 0xc0) >>> 6)), char (c &&& 0x3f)]
  | _ => []

/-- The loop of `encode`. -/
def encodeLoop (eol : LineEnding) : Nat → List UInt8 → List UInt8
  | _, [] => []
  | counter, a :: b :: c :: rest =>
    (if counter = 0 then newline eol else []) ++ group [a, b, c] ++
      encodeLoop eol ((if counter = 0 then 19 else counter) - 1) rest
  | counter, last => (if counter = 0 then newline eol else []) ++ group last

def encode (eol : LineEnding) (input : List UInt8) : List UInt8 := encodeLoop eol 19 input

/-! ## Decoding -/

/-- `decode_table[ch]` -/
def lookup (ch : UInt8) : Exec UInt8 :=
  if ch.toNat < decodeTable.length then .ok (decodeTable.getD ch.toNat 0) else .error .outOfRange

/-- The locals of `decode`, and what it has written. -/
structure Decoder where
  inbuf : List UInt8
  pos : Nat
  out : List UInt8

/-- Four values packed into three bytes. -/
def pack (a b c d : UInt8) : List UInt8 :=
  [(a <<< 2) ||| (b >>> 4), (b <<< 4) ||| (c >>> 2), (c <<< 6) ||| d]

/-- `outsize` -/
def outsize (c d : UInt8) : Nat := if d = pad then if c = pad then 1 else 2 else 3

/-- What is done with four characters. Their values take their places in `inbuf`. -/
def Decoder.flush (s : Decoder) : Exec Decoder := do
  let size := outsize (s.inbuf.getD 2 0) (s.inbuf.getD 3 0)
  let a ← lookup (s.inbuf.getD 0 0)
  let b ← lookup (s.inbuf.getD 1 0)
  let c ← lookup (s.inbuf.getD 2 0)
  let d ← lookup (s.inbuf.getD 3 0)
  pure ⟨[a, b, c, d], 0, s.out ++ (pack a b c d).take size⟩

/-- `if (inbuf_pos == 4)` -/
def Decoder.room (s : Decoder) : Exec Decoder := if s.pos = 4 then s.flush else pure s

/-- A character read. -/
def Decoder.read (s : Decoder) (ch : UInt8) : Exec Decoder := do
  let value ← lookup ch
  pure ⟨s.inbuf.set s.pos ch, if value ≠ badValue ∨ ch = pad then s.pos + 1 else s.pos, s.out⟩

/-- The loop of `decode`, once a character has been read. -/
def decodeLoop : List UInt8 → Decoder → Exec Decoder
  | [], s => do
    let s ← s.room
    let _ ← lookup (s.inbuf.getD s.pos 0)
    pure s
  | ch :: input, s => do
    let s ← s.room
    let s ← s.read ch
    decodeLoop input s

/-- The text of `decode_error`. -/
def truncated (pos : Nat) : String :=
  toString pos ++ " extra characters were found at the end of the encoded data." ++
    "  This may indicate that the data stream has been truncated."

/-- `decode`. Returns what is written, and the error if one is thrown. The four bytes are what
`inbuf` holds before anything is read. -/
def decode (inbuf input : List UInt8) : Exec (List UInt8 × Option String) :=
  match input with
  | [] => pure ([], none)
  | ch :: input => do
    let value ← lookup ch
    let s ← decodeLoop input ⟨inbuf.set 0 ch, if value ≠ badValue then 1 else 0, []⟩
    pure (s.out, if s.pos ≠ 0 then some (truncated s.pos) else none)

/-! ## The tables -/

/-- What there is to know about the table: its length, that it is the other one's inverse, and
what it says of the characters that are not in that one. -/
theorem decodeTable_facts : decodeTable.length = 255 ∧
    (∀ i < 64, (char (.ofNat i)).toNat < 255 ∧
      decodeTable.getD (char (.ofNat i)).toNat 0 = .ofNat i) ∧
    (∀ i < 255, decodeTable.getD i 0 ≠ 255) ∧
    ∀ ch ∈ [pad, 13, 10], decodeTable.getD ch.toNat 0 = badValue := by
  decide +kernel

theorem length_decodeTable : decodeTable.length = 255 := decodeTable_facts.1

theorem decodeTable_char {i : UInt8} (hi : i.toNat < 64) :
    (char i).toNat < 255 ∧ decodeTable.getD (char i).toNat 0 = i := by
  have hfacts := decodeTable_facts.2.1 i.toNat hi
  rwa [UInt8.ofNat_toNat] at hfacts

/-- A character with a value. -/
def Valued (ch : UInt8) : Prop := decodeTable.getD ch.toNat 0 ≠ badValue

instance (ch : UInt8) : Decidable (Valued ch) := inferInstanceAs (Decidable (_ ≠ _))

/-- A character that counts. -/
def Counts (ch : UInt8) : Prop := Valued ch ∨ ch = pad

instance (ch : UInt8) : Decidable (Counts ch) := inferInstanceAs (Decidable (_ ∨ _))

theorem valued_char {i : UInt8} (hi : i.toNat < 64) : Valued (char i) := by
  rw [Valued, (decodeTable_char hi).2]
  rintro rfl
  exact absurd hi (by decide)

theorem not_valued_pad : ¬ Valued pad :=
  not_not.mpr (decodeTable_facts.2.2.2 pad List.mem_cons_self)

theorem not_counts_newline (eol : LineEnding) : ∀ ch ∈ newline eol, ¬ Counts ch := by
  have hpad : pad ∉ [13, 10] := by decide
  have hbad : ∀ ch ∈ [13, 10], ¬ Counts ch := by
    rintro ch hch (hvalued | rfl)
    · exact hvalued (decodeTable_facts.2.2.2 ch (List.mem_cons_of_mem _ hch))
    · exact hpad hch
  intro ch hch
  refine hbad ch ?_
  cases eol with
  | CR => exact List.mem_cons.mpr (.inl (List.mem_singleton.mp hch))
  | LF => exact List.mem_cons_of_mem _ hch
  | CRLF => exact hch

theorem lookup_eq_ok {ch : UInt8} (h : ch ≠ 255) :
    lookup ch = .ok (decodeTable.getD ch.toNat 0) := by
  have hlt : ch.toNat < 255 := by
    have := ch.toNat_lt
    have hne : ch.toNat ≠ 255 := fun heq => h (UInt8.toNat_inj.mp heq)
    omega
  exact if_pos (length_decodeTable ▸ hlt)

theorem lookup_255 : lookup 255 = .error .outOfRange := by
  refine if_neg ?_
  rw [length_decodeTable]
  decide

/-! ## Decoding without a buffer -/

/-- The value of a character. -/
def value (ch : UInt8) : UInt8 := decodeTable.getD ch.toNat 0

/-- The bytes of four characters. -/
def quad (a b c d : UInt8) : List UInt8 :=
  (pack (value a) (value b) (value c) (value d)).take (outsize c d)

/-- The bytes of all groups that are whole. -/
def decodeQuads : List UInt8 → List UInt8
  | a :: b :: c :: d :: rest => quad a b c d ++ decodeQuads rest
  | _ => []

/-- The characters that are kept. A `'='` is not, when the text begins with it. -/
def kept : List UInt8 → List UInt8
  | [] => []
  | ch :: input => (if Valued ch then [ch] else []) ++ input.filter Counts

/-- The characters kept so far and the ones to come. -/
def Decoder.pending (s : Decoder) (input : List UInt8) : List UInt8 :=
  s.inbuf.take s.pos ++ input.filter Counts

/-- What holds in the loop. -/
structure Decoder.Ok (s : Decoder) : Prop where
  length : s.inbuf.length = 4
  pos_le : s.pos ≤ 4
  kept : 255 ∉ s.inbuf.take s.pos

/-- The byte looked up at the end is 255. No group is completed any more that would replace it, and
no character that is left out comes last and takes its place. -/
def Decoder.Stale (s : Decoder) (input : List UInt8) : Prop :=
  (s.pending input).length < 4 ∧ (∀ ch ∈ input.getLast?, Counts ch) ∧
    s.inbuf.getD (s.pending input).length 0 = 255

/-- The byte of `inbuf` looked up at the end is one that `decode` has not written: fewer than four
characters are kept, and the last one is. -/
def Unwritten (input : List UInt8) : Prop :=
  (kept input).length < 4 ∧ kept input.dropLast ≠ kept input

instance (input : List UInt8) : Decidable (Unwritten input) :=
  inferInstanceAs (Decidable (_ ∧ _))

section Decode

variable {s : Decoder} {input inbuf : List UInt8} {ch : UInt8}

theorem value_ne {ch : UInt8} (h : ch ≠ 255) : value ch ≠ 255 := by
  have hne : ch.toNat ≠ 255 := fun heq => h (UInt8.toNat_inj.mp heq)
  have hlt := ch.toNat_lt
  exact decodeTable_facts.2.2.1 ch.toNat (by omega)

theorem exists_four {l : List UInt8} (h : l.length = 4) : ∃ a b c d, l = [a, b, c, d] := by
  match l, h with
  | [a, b, c, d], _ => exact ⟨a, b, c, d, rfl⟩

/-- The characters of a whole group are turned into bytes, and `inbuf` has their values then. -/
theorem flush_eq (h : s.Ok) (hpos : s.pos = 4) :
    ∃ a b c d, s.inbuf = [a, b, c, d] ∧
      s.flush = .ok ⟨[value a, value b, value c, value d], 0, s.out ++ quad a b c d⟩ ∧
      255 ∉ [value a, value b, value c, value d] := by
  obtain ⟨a, b, c, d, hinbuf⟩ := exists_four h.length
  have hkept := h.kept
  rw [hpos, hinbuf] at hkept
  simp only [List.take_succ_cons, List.take_zero, List.mem_cons, List.not_mem_nil, or_false,
    not_or] at hkept
  obtain ⟨ha, hb, hc, hd⟩ := hkept
  refine ⟨a, b, c, d, hinbuf, ?_, ?_⟩
  · simp only [Decoder.flush, hinbuf, List.getD_cons_zero, List.getD_cons_succ,
      lookup_eq_ok (Ne.symm ha), lookup_eq_ok (Ne.symm hb), lookup_eq_ok (Ne.symm hc),
      lookup_eq_ok (Ne.symm hd), ok_bind, pure_eq_ok]
    rfl
  · simp only [List.mem_cons, List.not_mem_nil, or_false, not_or]
    exact ⟨(value_ne (Ne.symm ha)).symm, (value_ne (Ne.symm hb)).symm,
      (value_ne (Ne.symm hc)).symm, (value_ne (Ne.symm hd)).symm⟩

/-- The beginning of a round: there is room for a character then, and nothing is lost. -/
theorem room_spec (h : s.Ok) (input : List UInt8) :
    ∃ s', s.room = .ok s' ∧ s'.Ok ∧ s'.pos < 4 ∧ (s'.Stale input ↔ s.Stale input) ∧
      s'.out ++ decodeQuads (s'.pending input) =
        s.out ++ decodeQuads (s.pending input) ∧
      (s'.pending input).length % 4 = (s.pending input).length % 4 := by
  by_cases hpos : s.pos = 4
  · obtain ⟨a, b, c, d, hinbuf, hflush, hvalues⟩ := flush_eq h hpos
    refine ⟨_, (if_pos hpos).trans hflush, ⟨rfl, Nat.zero_le _, List.not_mem_nil⟩,
      Nat.zero_lt_succ 3, ⟨?_, ?_⟩, ?_, ?_⟩
    · -- values are below 255
      rintro ⟨hlt, -, hbyte⟩
      rw [List.getD_eq_getElem _ _ hlt] at hbyte
      exact absurd (hbyte ▸ List.getElem_mem _) hvalues
    · rintro ⟨hlt, -⟩
      have hlength : (s.pending input).length = 4 + (input.filter Counts).length := by
        rw [Decoder.pending, List.length_append, hpos, hinbuf]
        rfl
      omega
    · simp [Decoder.pending, hinbuf, hpos, decodeQuads]
    · simp [Decoder.pending, hinbuf, hpos]
      omega
  · exact ⟨s, if_neg hpos, h, h.pos_le.lt_of_ne hpos, Iff.rfl, rfl, rfl⟩

theorem take_set_same {l : List UInt8} {i : Nat} : (l.set i ch).take i = l.take i :=
  List.take_set_of_le le_rfl

theorem take_set_succ {l : List UInt8} {i : Nat} (h : i < l.length) :
    (l.set i ch).take (i + 1) = l.take i ++ [ch] := by
  rw [List.take_add_one, take_set_same, List.getElem?_set_self h, Option.toList_some]

theorem getD_set_same {l : List UInt8} {i : Nat} (h : i < l.length) :
    (l.set i ch).getD i 0 = ch := by
  rw [List.getD_eq_getElem _ _ (by rwa [List.length_set]), List.getElem_set_self]

theorem getD_set_ne {l : List UInt8} {i j : Nat} (h : i ≠ j) :
    (l.set i ch).getD j 0 = l.getD j 0 := by
  rw [List.getD_eq_getElem?_getD, List.getD_eq_getElem?_getD, List.getElem?_set_ne h]

theorem filter_cons_counts (hcounts : Counts ch) :
    (ch :: input).filter Counts = ch :: input.filter Counts :=
  List.filter_cons_of_pos (decide_eq_true hcounts)

theorem filter_cons_not_counts (hcounts : ¬ Counts ch) :
    (ch :: input).filter Counts = input.filter Counts :=
  List.filter_cons_of_neg fun hdec => hcounts (of_decide_eq_true hdec)

/-- No byte is unwritten behind a character that is left out. -/
theorem not_counts_getLast (h : ¬ Counts ch) (hnone : input.filter Counts = []) :
    ¬ ∀ last ∈ (ch :: input).getLast?, Counts last := by
  intro hlast
  obtain ⟨last, hsome⟩ := Option.ne_none_iff_exists'.mp
    (mt List.getLast?_eq_none_iff.mp (List.cons_ne_nil ch input))
  have hcounts := hlast last hsome
  rcases List.mem_cons.mp (List.mem_of_getLast? hsome) with rfl | hmem
  · exact h hcounts
  · have hkept : last ∈ input.filter Counts := List.mem_filter.mpr ⟨hmem, decide_eq_true hcounts⟩
    rw [hnone] at hkept
    exact absurd hkept List.not_mem_nil

/-- A character read. It is kept if it counts, and overwritten by the next one if not. -/
theorem read_spec (h : s.Ok) (hpos : s.pos < 4) (hch : ch ≠ 255) (input : List UInt8) :
    ∃ s', s.read ch = .ok s' ∧ s'.Ok ∧ (s'.Stale input ↔ s.Stale (ch :: input)) ∧
      s'.out = s.out ∧ s'.pending input = s.pending (ch :: input) := by
  have hlen := h.length
  have hlt : s.pos < s.inbuf.length := hlen ▸ hpos
  have htake : (s.inbuf.take s.pos).length = s.pos := List.length_take_of_le hlt.le
  refine ⟨⟨s.inbuf.set s.pos ch, if value ch ≠ badValue ∨ ch = pad then s.pos + 1 else s.pos,
    s.out⟩, by rw [Decoder.read, lookup_eq_ok hch]; rfl, ?_⟩
  by_cases hcounts : Counts ch
  · have hnext : (if value ch ≠ badValue ∨ ch = pad then s.pos + 1 else s.pos) = s.pos + 1 :=
      if_pos hcounts
    rw [hnext]
    have hpending : (⟨s.inbuf.set s.pos ch, s.pos + 1, s.out⟩ : Decoder).pending input =
        s.pending (ch :: input) := by
      rw [Decoder.pending, Decoder.pending, filter_cons_counts hcounts, take_set_succ hlt,
        List.append_assoc, List.singleton_append]
    refine ⟨⟨(List.length_set ..).trans hlen, hpos, ?_⟩, ?_, rfl, hpending⟩
    · rw [take_set_succ hlt]
      simpa [hch.symm] using h.kept
    · -- the byte that is looked up is further on
      have hne : s.pos ≠ (s.pending (ch :: input)).length := by
        rw [Decoder.pending, filter_cons_counts hcounts, List.length_append, htake,
          List.length_cons]
        omega
      have hlast : (∀ last ∈ input.getLast?, Counts last) ↔
          ∀ last ∈ (ch :: input).getLast?, Counts last := by
        cases input with
        | nil => simp [hcounts]
        | cons a rest => rw [List.getLast?_cons_cons]
      rw [Decoder.Stale, Decoder.Stale, hpending, hlast, getD_set_ne hne]
  · have hsame : (if value ch ≠ badValue ∨ ch = pad then s.pos + 1 else s.pos) = s.pos :=
      if_neg hcounts
    rw [hsame]
    have hpending : (⟨s.inbuf.set s.pos ch, s.pos, s.out⟩ : Decoder).pending input =
        s.pending (ch :: input) := by
      rw [Decoder.pending, Decoder.pending, filter_cons_not_counts hcounts, take_set_same]
    refine ⟨⟨(List.length_set ..).trans hlen, h.pos_le, ?_⟩, ?_, rfl, hpending⟩
    · rw [take_set_same]
      exact h.kept
    · rw [Decoder.Stale, Decoder.Stale, hpending]
      have hlength : (s.pending (ch :: input)).length = s.pos + (input.filter Counts).length := by
        rw [Decoder.pending, filter_cons_not_counts hcounts, List.length_append, htake]
      by_cases hnone : input.filter Counts = []
      · -- this character is in the place that is looked up
        rw [hnone, List.length_nil, Nat.add_zero] at hlength
        rw [hlength, getD_set_same hlt]
        exact ⟨fun hstale => absurd hstale.2.2 hch,
          fun hstale => absurd hstale.2.1 (not_counts_getLast hcounts hnone)⟩
      · have hpositive := List.length_pos_iff.mpr hnone
        have hlast : (∀ last ∈ input.getLast?, Counts last) ↔
            ∀ last ∈ (ch :: input).getLast?, Counts last := by
          cases input with
          | nil => exact absurd rfl hnone
          | cons a rest => rw [List.getLast?_cons_cons]
        rw [hlast, getD_set_ne (by omega)]

/-- **The loop**, on a text without 255. -/
theorem decodeLoop_spec (h : s.Ok) (hinput : 255 ∉ input) :
    (s.Stale input → decodeLoop input s = .error .outOfRange) ∧
      (¬ s.Stale input → ∃ s', decodeLoop input s = .ok s' ∧
        s'.out = s.out ++ decodeQuads (s.pending input) ∧
        s'.pos = (s.pending input).length % 4) := by
  induction input generalizing s with
  | nil =>
    obtain ⟨s', hroom, hok, hpos, hstale, hout, hmod⟩ := room_spec h []
    have hpending : s'.pending [] = s'.inbuf.take s'.pos := List.append_nil _
    have hlen : (s'.pending []).length = s'.pos := by
      rw [hpending, List.length_take, hok.length]
      omega
    have hbyte : s'.Stale [] ↔ s'.inbuf.getD s'.pos 0 = 255 := by
      rw [Decoder.Stale, hlen]
      exact ⟨fun hs => hs.2.2, fun hs => ⟨hpos, by simp, hs⟩⟩
    have hnil : decodeQuads (s'.pending []) = [] := by
      match hp : s'.pending [], hlen with
      | a :: b :: c :: d :: _, hlen =>
        simp at hlen
        omega
      | [], _ | [_], _ | [_, _], _ | [_, _, _], _ => rfl
    rw [decodeLoop, hroom, ok_bind, ← hstale, hbyte]
    refine ⟨fun heq => by rw [heq, lookup_255]; rfl, fun hne => ⟨s', ?_, ?_, ?_⟩⟩
    · rw [lookup_eq_ok hne, ok_bind, pure_eq_ok]
    · rw [← hout, hnil, List.append_nil]
    · rw [← hmod, hlen, Nat.mod_eq_of_lt hpos]
  | cons ch input ih =>
    have hch : ch ≠ 255 := fun heq => hinput (heq ▸ List.mem_cons_self)
    have hrest : 255 ∉ input := fun hmem => hinput (List.mem_cons_of_mem _ hmem)
    obtain ⟨s', hroom, hok, hpos, hstale, hout, hmod⟩ := room_spec h (ch :: input)
    obtain ⟨s₁, hs₁, hok₁, hstale₁, hout₁, hpending⟩ := read_spec hok hpos hch input
    obtain ⟨hfault, hdone⟩ := ih hok₁ hrest
    rw [decodeLoop, hroom, ok_bind, hs₁, ok_bind, ← hstale, ← hstale₁]
    refine ⟨hfault, fun hread => ?_⟩
    obtain ⟨s'', hloop, hout', hpos'⟩ := hdone hread
    rw [hpending] at hout' hpos'
    exact ⟨s'', hloop, by rw [hout', hout₁, hout], hpos'.trans hmod⟩

/-- A byte 255 is not passed over. -/
theorem decodeLoop_fault (h : s.Ok) (hinput : 255 ∈ input) :
    decodeLoop input s = .error .outOfRange := by
  induction input generalizing s with
  | nil => cases hinput
  | cons ch input ih =>
    obtain ⟨s', hroom, hok, hpos, -⟩ := room_spec h (ch :: input)
    rw [decodeLoop, hroom, ok_bind]
    by_cases hch : ch = 255
    · rw [Decoder.read, hch, lookup_255]
      rfl
    · obtain ⟨s₁, hs₁, hok₁, -⟩ := read_spec hok hpos hch input
      rw [hs₁, ok_bind]
      exact ih hok₁ ((List.mem_cons.mp hinput).resolve_left (Ne.symm hch))

end Decode

/-! ## What `decode` comes to -/

section Decode

variable {inbuf input : List UInt8} {ch : UInt8}

/-- The state in which the loop begins. -/
def Decoder.first (inbuf : List UInt8) (ch : UInt8) : Decoder :=
  ⟨inbuf.set 0 ch, if value ch ≠ badValue then 1 else 0, []⟩

theorem decode_cons (hch : ch ≠ 255) : decode inbuf (ch :: input) =
    decodeLoop input (.first inbuf ch) >>= fun s =>
      .ok (s.out, if s.pos ≠ 0 then some (truncated s.pos) else none) := by
  rw [decode, lookup_eq_ok hch, ok_bind]
  rfl

theorem first_ok (hlen : inbuf.length = 4) (hch : ch ≠ 255) : (Decoder.first inbuf ch).Ok := by
  obtain ⟨a, b, c, d, rfl⟩ := exists_four hlen
  refine ⟨rfl, ?_, ?_⟩
  · simp only [Decoder.first]
    split <;> decide
  · simp only [Decoder.first]
    split
    · exact fun hmem => hch (List.mem_singleton.mp hmem).symm
    · exact List.not_mem_nil

theorem first_pending (hlen : inbuf.length = 4) :
    (Decoder.first inbuf ch).pending input = kept (ch :: input) := by
  obtain ⟨a, b, c, d, rfl⟩ := exists_four hlen
  by_cases hvalue : value ch ≠ badValue
  · have hkept : kept (ch :: input) = [ch] ++ input.filter Counts :=
      congrArg (· ++ input.filter Counts) (if_pos hvalue)
    simp only [Decoder.pending, Decoder.first, if_pos hvalue, hkept]
    rfl
  · have hkept : kept (ch :: input) = [] ++ input.filter Counts :=
      congrArg (· ++ input.filter Counts) (if_neg hvalue)
    simp only [Decoder.pending, Decoder.first, if_neg hvalue, hkept]
    rfl

/-- A text with a byte 255. -/
theorem decode_fault (hlen : inbuf.length = 4) (h : 255 ∈ input) :
    decode inbuf input = .error .outOfRange := by
  obtain ⟨ch, input, rfl⟩ := List.exists_cons_of_ne_nil (List.ne_nil_of_mem h)
  by_cases hch : ch = 255
  · rw [decode, hch, lookup_255]
    rfl
  · have hinput : 255 ∈ input := (List.mem_cons.mp h).resolve_left (Ne.symm hch)
    rw [decode_cons hch, decodeLoop_fault (first_ok hlen hch) hinput]
    rfl

theorem kept_append_singleton (last : UInt8) : kept (ch :: (input ++ [last])) =
    kept (ch :: input) ++ if Counts last then [last] else [] := by
  rw [kept, kept, List.filter_append, List.append_assoc]
  by_cases hcounts : Counts last
  · rw [if_pos hcounts, filter_cons_counts hcounts, List.filter_nil]
  · rw [if_neg hcounts, filter_cons_not_counts hcounts, List.filter_nil]

/-- When the loop begins, a byte is stale that nobody will write and that is 255. -/
theorem first_stale (hlen : inbuf.length = 4) (hch : ch ≠ 255) :
    (Decoder.first inbuf ch).Stale input ↔
      Unwritten (ch :: input) ∧ inbuf.getD (kept (ch :: input)).length 0 = 255 := by
  rw [Decoder.Stale, Unwritten, first_pending hlen]
  -- the first byte is written at once
  have hbyte : (Decoder.first inbuf ch).inbuf.getD (kept (ch :: input)).length 0 = 255 ↔
      kept (ch :: input) ≠ [] ∧ inbuf.getD (kept (ch :: input)).length 0 = 255 := by
    by_cases hnone : kept (ch :: input) = []
    · rw [hnone, List.length_nil, Decoder.first, getD_set_same (by omega)]
      exact ⟨fun heq => absurd heq hch, fun heq => absurd rfl heq.1⟩
    · have hpositive := List.length_pos_iff.mpr hnone
      rw [Decoder.first, getD_set_ne (by omega), and_iff_right hnone]
  rw [hbyte]
  rcases List.eq_nil_or_concat input with rfl | ⟨init, last, rfl⟩
  · have hdrop : kept [ch].dropLast = [] := rfl
    have hnone : ∀ last ∈ ([] : List UInt8).getLast?, Counts last := fun _ h => by cases h
    rw [hdrop, and_iff_right hnone, and_assoc, ne_comm]
  · have hdrop : (ch :: (init ++ [last])).dropLast = ch :: init := by
      rw [← List.cons_append, List.dropLast_concat]
    rw [List.concat_eq_append, hdrop, List.getLast?_concat, kept_append_singleton]
    by_cases hcounts : Counts last
    · simp [hcounts]
    · simp [hcounts]

/-- A text without one. -/
theorem decode_eq_ok (hlen : inbuf.length = 4) (h : 255 ∉ input)
    (hread : ¬ (Unwritten input ∧ inbuf.getD (kept input).length 0 = 255)) :
    decode inbuf input = .ok (decodeQuads (kept input), if (kept input).length % 4 ≠ 0 then
      some (truncated ((kept input).length % 4)) else none) := by
  cases input with
  | nil => rfl
  | cons ch input =>
    obtain ⟨hch, hinput⟩ := List.ne_and_not_mem_of_not_mem_cons h
    rw [← first_stale hlen (Ne.symm hch)] at hread
    obtain ⟨s, hloop, hout, hpos⟩ :=
      (decodeLoop_spec (first_ok hlen (Ne.symm hch)) hinput).2 hread
    rw [first_pending hlen] at hout hpos
    rw [decode_cons (Ne.symm hch), hloop, ok_bind, hout, hpos]
    rfl

/-- A text that ends where `inbuf` holds an old 255. -/
theorem decode_stale (hlen : inbuf.length = 4) (h : 255 ∉ input) (hunwritten : Unwritten input)
    (hbyte : inbuf.getD (kept input).length 0 = 255) :
    decode inbuf input = .error .outOfRange := by
  cases input with
  | nil => exact absurd rfl hunwritten.2
  | cons ch input =>
    obtain ⟨hch, hinput⟩ := List.ne_and_not_mem_of_not_mem_cons h
    have hstale := (first_stale hlen (Ne.symm hch)).mpr ⟨hunwritten, hbyte⟩
    rw [decode_cons (Ne.symm hch),
      (decodeLoop_spec (first_ok hlen (Ne.symm hch)) hinput).1 hstale]
    rfl

end Decode

/-- **`decode`.** A text with a byte 255 leads outside the table, and so does a text that ends where
`decode` has written nothing in `inbuf` and 255 was there before. Any other text gives the bytes of
its whole groups, and an error when characters are left over. -/
theorem decode_eq (inbuf input : List UInt8) (hlen : inbuf.length = 4) :
    decode inbuf input =
      if 255 ∈ input ∨ Unwritten input ∧ inbuf.getD (kept input).length 0 = 255 then
        .error .outOfRange
      else
        .ok (decodeQuads (kept input), if (kept input).length % 4 ≠ 0 then
          some (truncated ((kept input).length % 4)) else none) := by
  split
  · rename_i h
    by_cases hmem : 255 ∈ input
    · exact decode_fault hlen hmem
    · obtain ⟨hunwritten, hbyte⟩ := h.resolve_left hmem
      exact decode_stale hlen hmem hunwritten hbyte
  · rename_i h
    obtain ⟨hmem, hread⟩ := not_or.mp h
    exact decode_eq_ok hlen hmem hread

/-- Two characters, with an old 255 in the third place of `inbuf`. -/
theorem decode_eq_stale : decode [0, 0, 255, 0] [84, 87] = .error .outOfRange :=
  (decode_eq [0, 0, 255, 0] [84, 87] rfl).trans (if_pos (by decide +kernel))

/-- A character that is left out, at the end, takes its place. -/
example : (decode [0, 0, 255, 0] [84, 87, 10]).toOption = some ([], some (truncated 2)) := by
  decide +kernel

/-! ## Six bits and eight -/

/-- The four values of three bytes. -/
theorem first_value (a : UInt8) : ((a &&& 0xfc) >>> 2).toNat = a.toNat / 4 :=
  byte_and_shiftRight a rfl

theorem second_value (a b : UInt8) : (((a &&& 0x03) <<< 4) ||| ((b &&& 0xf0) >>> 4)).toNat =
    a.toNat % 4 * 16 + b.toNat / 16 := by
  have hmask : (a &&& 0x03).toNat = a.toNat % 4 := byte_and_low a 2 rfl
  have hleft : ((a &&& 0x03) <<< 4).toNat = (a &&& 0x03).toNat % 16 * 2 ^ 4 := byte_shiftLeft _ 4
  have hright : ((b &&& 0xf0) >>> 4).toNat = b.toNat / 16 := byte_and_shiftRight b rfl
  have hlt := b.toNat_lt
  rw [byte_or_low 4 hleft (by omega), hleft, hright, hmask]
  omega

theorem third_value (b c : UInt8) : (((b &&& 0x0f) <<< 2) ||| ((c &&& 0xc0) >>> 6)).toNat =
    b.toNat % 16 * 4 + c.toNat / 64 := by
  have hmask : (b &&& 0x0f).toNat = b.toNat % 16 := byte_and_low b 4 rfl
  have hleft : ((b &&& 0x0f) <<< 2).toNat = (b &&& 0x0f).toNat % 64 * 2 ^ 2 := byte_shiftLeft _ 2
  have hright : ((c &&& 0xc0) >>> 6).toNat = c.toNat / 64 := byte_and_shiftRight c rfl
  have hlt := c.toNat_lt
  rw [byte_or_low 2 hleft (by omega), hleft, hright, hmask]
  omega

theorem fourth_value (c : UInt8) : (c &&& 0x3f).toNat = c.toNat % 64 := byte_and_low c 6 rfl

/-- The three bytes of four values. -/
theorem pack_first {a b : UInt8} (ha : a.toNat < 64) (hb : b.toNat < 64) :
    ((a <<< 2) ||| (b >>> 4)).toNat = a.toNat * 4 + b.toNat / 16 := by
  have hleft : (a <<< 2).toNat = a.toNat % 64 * 2 ^ 2 := byte_shiftLeft a 2
  have hright : (b >>> 4).toNat = b.toNat / 16 := byte_shiftRight b 4
  rw [byte_or_low 2 hleft (by omega), hleft, hright]
  omega

theorem pack_second {b c : UInt8} (hc : c.toNat < 64) :
    ((b <<< 4) ||| (c >>> 2)).toNat = b.toNat % 16 * 16 + c.toNat / 4 := by
  have hleft : (b <<< 4).toNat = b.toNat % 16 * 2 ^ 4 := byte_shiftLeft b 4
  have hright : (c >>> 2).toNat = c.toNat / 4 := byte_shiftRight c 2
  rw [byte_or_low 4 hleft (by omega), hleft, hright]
  rfl

theorem pack_third {c d : UInt8} (hd : d.toNat < 64) :
    ((c <<< 6) ||| d).toNat = c.toNat % 4 * 64 + d.toNat := by
  have hleft : (c <<< 6).toNat = c.toNat % 4 * 2 ^ 6 := byte_shiftLeft c 6
  rw [byte_or_low 6 hleft (by omega), hleft]
  rfl

/-! ## Round trip -/

/-- All the groups, on one line. -/
def groups : List UInt8 → List UInt8
  | a :: b :: c :: rest => group [a, b, c] ++ groups rest
  | last => group last

section RoundTrip

variable {i : UInt8}

theorem value_char (h : i.toNat < 64) : value (char i) = i := (decodeTable_char h).2

theorem char_ne_pad (h : i.toNat < 64) : char i ≠ pad :=
  fun heq => not_valued_pad (heq ▸ valued_char h)

theorem pad_ne : pad ≠ 255 := by decide

theorem char_ne (h : i.toNat < 64) : char i ≠ 255 := by
  intro heq
  have hlt := (decodeTable_char h).1
  rw [heq] at hlt
  exact absurd hlt (by decide)

/-- The characters of a group. -/
theorem group_three (a b c : UInt8) : ∃ i j k l,
    group [a, b, c] = [char i, char j, char k, char l] ∧
    i.toNat = a.toNat / 4 ∧ j.toNat = a.toNat % 4 * 16 + b.toNat / 16 ∧
      k.toNat = b.toNat % 16 * 4 + c.toNat / 64 ∧ l.toNat = c.toNat % 64 :=
  ⟨_, _, _, _, rfl, first_value a, second_value a b, third_value b c, fourth_value c⟩

theorem group_two (a b : UInt8) : ∃ i j k, group [a, b] = [char i, char j, char k, pad] ∧
    i.toNat = a.toNat / 4 ∧ j.toNat = a.toNat % 4 * 16 + b.toNat / 16 ∧
      k.toNat = b.toNat % 16 * 4 :=
  ⟨_, _, _, rfl, first_value a, second_value a b, third_value b 0⟩

theorem group_one (a : UInt8) : ∃ i j, group [a] = [char i, char j, pad, pad] ∧
    i.toNat = a.toNat / 4 ∧ j.toNat = a.toNat % 4 * 16 :=
  ⟨_, _, rfl, first_value a, second_value a 0⟩

theorem quad_three (a b c : UInt8) (rest : List UInt8) :
    decodeQuads (group [a, b, c] ++ rest) = [a, b, c] ++ decodeQuads rest := by
  obtain ⟨i, j, k, l, hgroup, hi, hj, hk, hl⟩ := group_three a b c
  have ha := a.toNat_lt
  have hb := b.toNat_lt
  have hc := c.toNat_lt
  have hquad : quad (char i) (char j) (char k) (char l) = [a, b, c] := by
    rw [quad, outsize, if_neg (char_ne_pad (by omega)), value_char (by omega),
      value_char (by omega), value_char (by omega), value_char (by omega), pack]
    simp only [List.take_succ_cons, List.take_zero, List.cons.injEq, and_true, ← UInt8.toNat_inj]
    rw [pack_first (by omega) (by omega), pack_second (by omega), pack_third (by omega)]
    omega
  rw [hgroup, ← hquad]
  rfl

theorem quad_two (a b : UInt8) : decodeQuads (group [a, b]) = [a, b] := by
  obtain ⟨i, j, k, hgroup, hi, hj, hk⟩ := group_two a b
  have ha := a.toNat_lt
  have hb := b.toNat_lt
  rw [hgroup]
  simp only [decodeQuads, quad, outsize, if_true]
  rw [if_neg (char_ne_pad (by omega)), value_char (by omega), value_char (by omega),
    value_char (by omega), pack]
  simp only [List.take_succ_cons, List.take_zero, List.append_nil, List.cons.injEq, and_true,
    ← UInt8.toNat_inj]
  rw [pack_first (by omega) (by omega), pack_second (by omega)]
  omega

theorem quad_one (a : UInt8) : decodeQuads (group [a]) = [a] := by
  obtain ⟨i, j, hgroup, hi, hj⟩ := group_one a
  have ha := a.toNat_lt
  rw [hgroup]
  simp only [decodeQuads, quad, outsize, if_true]
  rw [value_char (by omega), value_char (by omega), pack]
  simp only [List.take_succ_cons, List.take_zero, List.append_nil, List.cons.injEq, and_true,
    ← UInt8.toNat_inj]
  rw [pack_first (by omega) (by omega)]
  omega

theorem forall_four {p : UInt8 → Prop} {w x y z ch : UInt8} (h : ch ∈ [w, x, y, z]) (hw : p w)
    (hx : p x) (hy : p y) (hz : p z) : p ch := by
  simp only [List.mem_cons, List.not_mem_nil, or_false] at h
  rcases h with rfl | rfl | rfl | rfl
  · exact hw
  · exact hx
  · exact hy
  · exact hz

/-- What a group is made of. -/
theorem group_mem {bytes : List UInt8} {ch : UInt8} (h : ch ∈ group bytes) :
    Counts ch ∧ ch ≠ 255 := by
  have hchar : ∀ i : UInt8, i.toNat < 64 → Counts (char i) ∧ char i ≠ 255 :=
    fun i hi => ⟨.inl (valued_char hi), char_ne hi⟩
  have hpad : Counts pad ∧ pad ≠ 255 := ⟨.inr rfl, pad_ne⟩
  match bytes with
  | [a] =>
    obtain ⟨i, j, hgroup, hi, hj⟩ := group_one a
    have ha := a.toNat_lt
    rw [hgroup] at h
    exact forall_four (p := fun ch => Counts ch ∧ ch ≠ 255) h (hchar i (by omega))
      (hchar j (by omega)) hpad hpad
  | [a, b] =>
    obtain ⟨i, j, k, hgroup, hi, hj, hk⟩ := group_two a b
    have ha := a.toNat_lt
    have hb := b.toNat_lt
    rw [hgroup] at h
    exact forall_four (p := fun ch => Counts ch ∧ ch ≠ 255) h (hchar i (by omega))
      (hchar j (by omega)) (hchar k (by omega)) hpad
  | [a, b, c] =>
    obtain ⟨i, j, k, l, hgroup, hi, hj, hk, hl⟩ := group_three a b c
    have ha := a.toNat_lt
    have hb := b.toNat_lt
    have hc := c.toNat_lt
    rw [hgroup] at h
    exact forall_four (p := fun ch => Counts ch ∧ ch ≠ 255) h (hchar i (by omega))
      (hchar j (by omega)) (hchar k (by omega)) (hchar l (by omega))
  | [] => cases h
  | _ :: _ :: _ :: _ :: _ => cases h

theorem length_group {bytes : List UInt8} : (group bytes).length % 4 = 0 := by
  match bytes with
  | [_] | [_, _] | [_, _, _] | [] | _ :: _ :: _ :: _ :: _ => simp [group]

theorem mem_groups {input : List UInt8} {ch : UInt8} (h : ch ∈ groups input) :
    Counts ch ∧ ch ≠ 255 := by
  induction input using groups.induct with
  | case1 a b c rest ih =>
    rcases List.mem_append.mp h with h | h
    · exact group_mem h
    · exact ih h
  | case2 last hlast =>
    rw [groups] at h
    · exact group_mem h
    · exact hlast

theorem length_groups (input : List UInt8) : (groups input).length % 4 = 0 := by
  induction input using groups.induct with
  | case1 a b c rest ih =>
    have hgroup : (group [a, b, c]).length = 4 := rfl
    rw [groups, List.length_append, hgroup]
    omega
  | case2 last hlast =>
    rw [groups]
    · exact length_group
    · exact hlast

/-- **The groups are the text**, whatever its length. -/
theorem decodeQuads_groups (input : List UInt8) : decodeQuads (groups input) = input := by
  induction input using groups.induct with
  | case1 a b c rest ih => rw [groups, quad_three, ih, List.cons_append, List.cons_append,
      List.cons_append, List.nil_append]
  | case2 last hlast =>
    match last, hlast with
    | [], _ => rfl
    | [a], _ => exact quad_one a
    | [a, b], _ => exact quad_two a b
    | a :: b :: c :: rest, hlast => exact absurd rfl (hlast a b c rest)

/-- The line endings are what does not count. -/
theorem filter_encodeLoop (eol : LineEnding) (counter : Nat) (input : List UInt8) :
    (encodeLoop eol counter input).filter Counts = groups input := by
  have hend : ∀ n : Nat, (if n = 0 then newline eol else []).filter Counts = [] := by
    intro n
    split
    · exact List.filter_eq_nil_iff.mpr fun ch hch hdec =>
        not_counts_newline eol ch hch (of_decide_eq_true hdec)
    · rfl
  have hgroup : ∀ bytes, (group bytes).filter Counts = group bytes := fun bytes =>
    List.filter_eq_self.mpr fun ch hch => decide_eq_true (group_mem hch).1
  induction counter, input using encodeLoop.induct with
  | case1 counter => rfl
  | case2 counter a b c rest ih =>
    rw [encodeLoop, groups, List.filter_append, List.filter_append, hend, hgroup, ih,
      List.nil_append]
  | case3 counter last hne hlast =>
    rw [encodeLoop, groups, List.filter_append, hend, hgroup, List.nil_append]
    all_goals assumption

/-- A text does not begin with a line ending, nor with padding. -/
theorem encode_cons (eol : LineEnding) {input : List UInt8} (h : input ≠ []) :
    ∃ ch rest, encode eol input = ch :: rest ∧ Valued ch := by
  have hfirst : ∀ a : UInt8, Valued (char ((a &&& 0xfc) >>> 2)) := fun a => by
    have := a.toNat_lt
    refine valued_char ?_
    rw [first_value]
    omega
  match input, h with
  | [a], _ => exact ⟨_, _, rfl, hfirst a⟩
  | [a, b], _ => exact ⟨_, _, rfl, hfirst a⟩
  | a :: b :: c :: rest, _ => exact ⟨_, _, rfl, hfirst a⟩

theorem kept_encode (eol : LineEnding) (input : List UInt8) :
    kept (encode eol input) = groups input := by
  by_cases h : input = []
  · subst h
    rfl
  · obtain ⟨ch, rest, hencode, hvalued⟩ := encode_cons eol h
    have hfilter := filter_encodeLoop eol 19 input
    change (encode eol input).filter Counts = _ at hfilter
    rw [hencode] at hfilter ⊢
    have hcounts : Counts ch := .inl hvalued
    have hcons : (ch :: rest).filter Counts = ch :: rest.filter Counts :=
      List.filter_cons_of_pos (decide_eq_true hcounts)
    rw [← hfilter, kept, if_pos hvalued, hcons, List.singleton_append]

end RoundTrip

/-- **Round trip**, with lines that end in any way, and whatever was in `inbuf` before. -/
theorem decode_encode (eol : LineEnding) (input inbuf : List UInt8) (hlen : inbuf.length = 4) :
    decode inbuf (encode eol input) = .ok (input, none) := by
  have hkept := kept_encode eol input
  have hlength := length_groups input
  have h255 : 255 ∉ encode eol input := by
    intro hmem
    have hfilter := filter_encodeLoop eol 19 input
    -- past the end of the table
    have hend : decodeTable.getD (255 : UInt8).toNat 0 = 0 :=
      List.getD_eq_default _ _ length_decodeTable.le
    have hcounts : Counts 255 := .inl (by rw [Valued, hend]; decide)
    have hgroups : 255 ∈ groups input := by
      rw [← hfilter]
      exact List.mem_filter.mpr ⟨hmem, decide_eq_true hcounts⟩
    exact (mem_groups hgroups).2 rfl
  have hread : ¬ Unwritten (encode eol input) := by
    rintro ⟨hlt, hlast⟩
    by_cases hempty : input = []
    · subst hempty
      exact hlast rfl
    · -- what is kept is at least one group
      obtain ⟨ch, rest, hencode, hvalued⟩ := encode_cons eol hempty
      have hpositive : 0 < (kept (encode eol input)).length := by
        rw [hencode, kept, if_pos hvalued]
        exact Nat.zero_lt_succ _
      rw [hkept] at hlt hpositive
      omega
  rw [decode_eq_ok hlen h255 fun h => hread h.1, hkept, decodeQuads_groups, hlength]
  rfl

theorem decode_encode_oneByte :
    decode [255, 255, 255, 255] (encode .CRLF [77]) = .ok ([77], none) :=
  decode_encode .CRLF [77] [255, 255, 255, 255] rfl

end DlibAndroid.Codec.Base64
