import DlibAndroid.Codec.ContextModel
import DlibAndroid.Codec.Crc32
import DlibAndroid.Codec.RangeCoder

/-!
# `compress_stream::kernel_1ea`

A byte is a symbol of a context model with 257 symbols, the last of which is the end. Behind the end
come the four bytes of the checksum, and between every twenty thousand symbols a marker, which is
passed to the coder past the model.

`decompress_compress` is the round trip of the whole: range coder, context model, markers and
checksum. `decompress` does not know where the compressed bytes end; it stops behind them, so what
follows in the stream is still there to be read.
-/

set_option autoImplicit false

namespace DlibAndroid.Codec

open CCore

/-- `entropy_encoder_model<257, …>::kernel_5a`, on a platform with such an `unsigned long`. -/
def kernel5a (longBits : Nat) : Params := ⟨257, 200000, 4, longBits⟩

theorem kernel5a_ok (longBits : Nat) : (kernel5a longBits).Ok where
  one_lt := show 1 < 257 by decide
  alphabet_lt := show 257 < 10000 by decide
  nodes := show 4096 < 200000 by decide

def eofSymbol : Nat := 256

/-- `coder.encode(1500,1501,8000)` -/
def marker : Slot := ⟨1500, 1501, 8000⟩

/-! ## The two loops -/

/-- The locals of `compress`. -/
structure Compressor where
  coder : EntropyEncoder
  model : Model
  crc : UInt32
  count : Nat

namespace Compressor

variable (P : Params)

/-- `model.encode(symbol)`, through the coder. -/
def encodeSymbol (symbol : Nat) (s : Compressor) : Exec (Option Compressor) :=
  thenRun (encode P symbol s.model) fun r => do
    let coder ← encodeSlots r.1 s.coder
    pure (some { s with coder := coder, model := r.2 })

def encodeSymbols : List Nat → Compressor → Exec (Option Compressor)
  | [], s => pure (some s)
  | symbol :: symbols, s => thenRun (s.encodeSymbol P symbol) (encodeSymbols symbols)

/-- A known value every 20000 symbols, and `++count`. -/
def mark (s : Compressor) : Exec (Option Compressor) :=
  if s.count ≠ 20000 then pure (some { s with count := s.count + 1 })
  else do
    let coder ← encodeSlots [marker] s.coder
    pure (some { s with coder := coder, count := 1 })

/-- The loop, over what `sbumpc` has yet to give. -/
def loop : List UInt8 → Compressor → Exec (Option Compressor)
  | [], s => thenRun s.mark fun s => thenRun (s.encodeSymbol P eofSymbol) fun s =>
      s.encodeSymbols P ((bytesOf (Crc32.getChecksum s.crc)).map UInt8.toNat)
  | temp :: input, s => thenRun s.mark fun s => thenRun (s.encodeSymbol P temp.toNat) fun s =>
      loop input { s with crc := Crc32.add s.crc temp }

end Compressor

/-- `compress`. The coder flushes as it is destroyed. -/
def compress (P : Params) (input : List UInt8) : Exec (Option (List UInt8)) :=
  thenRun (Compressor.loop P input ⟨.setStream [], .init, Crc32.initial, 0⟩) fun s =>
    pure (some s.coder.flush.out)

/-- The locals of `decompress`, and what it has written. -/
structure Decompressor where
  coder : EntropyDecoder
  model : Model
  crc : UInt32
  count : Nat
  out : List UInt8

/-- The text of either `decompression_error`. -/
def decompressionError : String := "Error detected in compressed data stream."

namespace Decompressor

variable (P : Params)

/-- `model.decode(symbol)`. -/
def decodeSymbol (s : Decompressor) : Exec (Option (Nat × Decompressor)) :=
  thenRun (decode EntropyDecoder.coder P s.model s.coder) fun r =>
    pure (some (r.1, { s with coder := r.2.2, model := r.2.1 }))

/-- So many symbols, each as a byte. -/
def decodeBytes : Nat → Decompressor → Exec (Option (List UInt8 × Decompressor))
  | 0, s => pure (some ([], s))
  | n + 1, s => thenRun (s.decodeSymbol P) fun r =>
      thenRun (decodeBytes n r.2) fun rest => pure (some (UInt8.ofNat r.1 :: rest.1, rest.2))

def write (byte : UInt8) (s : Decompressor) : Decompressor :=
  { s with crc := Crc32.add s.crc byte, out := s.out ++ [byte] }

/-- The known value, checked, and `++count`. -/
def mark (s : Decompressor) : Exec (Except String Decompressor) :=
  if s.count ≠ 20000 then pure (.ok { s with count := s.count + 1 })
  else do
    let got ← EntropyDecoder.coder.getTarget marker.total s.coder
    -- any other slot means that the two sides have parted
    if got.1 ≠ marker.low then pure (.error decompressionError)
    else
      let coder := EntropyDecoder.coder.decode marker.low marker.high got.2
      pure (.ok { s with coder := coder, count := 1 })

/-- Four bytes as an `unsigned long`. -/
def word (bytes : List UInt8) : UInt32 :=
  bytes.foldl (fun checksum byte => (checksum <<< 8) ||| byte.toUInt32) 0

/-- The loop, `n` times round at most. -/
def loop : Nat → Decompressor → Exec (Option (Except String Decompressor))
  | 0, _ => pure none
  | n + 1, s => do
    let marked ← s.mark
    match marked with
    | .error e => pure (some (.error e))
    | .ok s => thenRun (s.decodeSymbol P) fun r =>
        if r.1 ≠ eofSymbol then loop n (r.2.write (.ofNat r.1))
        else thenRun (r.2.decodeBytes P 4) fun last =>
          if word last.1 ≠ Crc32.getChecksum last.2.crc then
            pure (some (.error decompressionError))
          else pure (some (.ok last.2))

end Decompressor

/-- `decompress`. -/
def decompress (P : Params) (n : Nat) (input : List UInt8) :
    Exec (Option (Except String Decompressor)) := do
  let coder ← EntropyDecoder.setStream input
  Decompressor.loop P n ⟨coder, .init, Crc32.initial, 0, []⟩

/-! ## In step -/

section Round

variable {P : Params} {input rest : List UInt8}
variable {s s₁ s' : Compressor} {f g : Compressor → Exec (Option Compressor)}
variable {xs ys slots : List Slot}

/-- The decompressor is where the compressor was: its model, its checksum and its count are the
same. -/
structure InStep (s : Compressor) (t : Decompressor) : Prop where
  model : t.model = s.model
  crc : t.crc = s.crc
  count : t.count = s.count

/-- A part of `compress` goes from the one state to the other and passes these slots to the coder,
whatever the coder's state is. -/
structure Passes (P : Params) (f : Compressor → Exec (Option Compressor)) (s s' : Compressor)
    (slots : List Slot) : Prop where
  run : ∀ e, f { s with coder := e } =
    encodeSlots slots e >>= fun e => pure (some { s' with coder := e })
  ok : ∀ slot ∈ slots, slot.Ok
  inv : s'.model.Inv P

theorem encodeSlots_append (xs ys : List Slot) (e : EntropyEncoder) :
    encodeSlots (xs ++ ys) e = encodeSlots xs e >>= encodeSlots ys := by
  rw [encodeSlots, forEach_append]
  rfl

/-- One part after the other. -/
theorem Passes.andThen (hf : Passes P f s s₁ xs) (hg : Passes P g s₁ s' ys) :
    Passes P (fun s => thenRun (f s) g) s s' (xs ++ ys) := by
  refine ⟨fun e => ?_, fun slot hslot => ?_, hg.inv⟩
  · rw [encodeSlots_append, hf.run]
    cases hxs : encodeSlots xs e with
    | error fault => rfl
    | ok e₁ => exact hg.run e₁
  · exact (List.mem_append.mp hslot).elim (hf.ok slot) (hg.ok slot)

/-- A symbol, on both sides. -/
theorem encodeSymbol_passes (hP : P.Ok) (hs : s.model.Inv P) (symbol : Nat)
    (hsymbol : symbol < P.alphabetSize) :
    ∃ s' slots, Passes P (Compressor.encodeSymbol P symbol) s s' slots ∧ s'.crc = s.crc ∧
      s'.count = s.count ∧ ∀ (t : Decompressor) (d' : EntropyDecoder), t.model = s.model →
        EntropyDecoder.coder.Serves slots t.coder d' →
          t.decodeSymbol P = .ok (some (symbol, { t with coder := d', model := s'.model })) := by
  obtain ⟨slots, m, hencode, hinv, hok, hdecode⟩ := symbol_decoded hP hs hsymbol
  refine ⟨{ s with model := m }, slots, ⟨fun e => ?_, hok, hinv⟩, rfl, rfl,
    fun t d' hmodel hserves => ?_⟩
  · rw [Compressor.encodeSymbol, thenRun_some hencode]
  · rw [Decompressor.decodeSymbol, thenRun_some (hmodel ▸ hdecode _ _ _ hserves)]
    rfl

theorem encodeSymbols_passes (hP : P.Ok) (hs : s.model.Inv P) (symbols : List Nat)
    (hsymbols : ∀ symbol ∈ symbols, symbol < P.alphabetSize) :
    ∃ s' slots, Passes P (Compressor.encodeSymbols P symbols) s s' slots ∧
      ∀ (t : Decompressor) (d' : EntropyDecoder), t.model = s.model →
        EntropyDecoder.coder.Serves slots t.coder d' →
          t.decodeBytes P symbols.length =
            .ok (some (symbols.map .ofNat, { t with coder := d', model := s'.model })) := by
  induction symbols generalizing s with
  | nil =>
    refine ⟨s, [], ⟨fun e => rfl, nofun, hs⟩, fun t d' hmodel hserves => ?_⟩
    cases hserves
    rw [← hmodel]
    rfl
  | cons symbol symbols ih =>
    obtain ⟨s₁, xs, hfirst, -, -, hdecode⟩ :=
      encodeSymbol_passes hP hs symbol (hsymbols symbol List.mem_cons_self)
    obtain ⟨s', ys, hrest, hdecode'⟩ := ih hfirst.inv fun x hx =>
      hsymbols x (List.mem_cons_of_mem _ hx)
    refine ⟨s', xs ++ ys, hfirst.andThen hrest, fun t d' hmodel hserves => ?_⟩
    obtain ⟨d₁, hxs, hys⟩ := Coder.serves_append.mp hserves
    rw [List.length_cons, Decompressor.decodeBytes, thenRun_some (hdecode t d₁ hmodel hxs),
      thenRun_some (hdecode' _ d' rfl hys)]
    rfl

/-- The marker is what the decompressor expects. -/
theorem mark_passes (s : Compressor) (hs : s.model.Inv P) :
    ∃ s' slots, Passes P Compressor.mark s s' slots ∧ s'.model = s.model ∧ s'.crc = s.crc ∧
      ∀ (t : Decompressor) (d' : EntropyDecoder), t.count = s.count →
        EntropyDecoder.coder.Serves slots t.coder d' →
          t.mark = .ok (.ok { t with coder := d', count := s'.count }) := by
  by_cases hcount : s.count ≠ 20000
  · refine ⟨{ s with count := s.count + 1 }, [], ⟨fun e => ?_, nofun, hs⟩, rfl, rfl,
      fun t d' hstep hserves => ?_⟩
    · exact if_pos hcount
    · cases hserves
      rw [Decompressor.mark, if_pos (hstep ▸ hcount), hstep]
      rfl
  · refine ⟨{ s with count := 1 }, [marker], ⟨fun e => ?_, ?_, hs⟩, rfl, rfl,
      fun t d' hstep hserves => ?_⟩
    · exact if_neg hcount
    · rintro slot (_ | ⟨_, ⟨⟩⟩)
      exact ⟨by decide, by decide, by decide⟩
    · obtain _ | ⟨hget, hlow, hhigh, hrest⟩ := hserves
      cases hrest
      obtain rfl := Nat.le_antisymm hlow (Nat.le_of_lt_succ hhigh)
      rw [Decompressor.mark, if_neg (hstep ▸ hcount), hget]
      rfl

/-- The four bytes of a checksum make the checksum. -/
theorem word_bytesOf (a : UInt32) : Decompressor.word (bytesOf a) = a := by
  have hwindow : (Decompressor.word (bytesOf a)).toNat = window (bytesOf a) := by
    have h0 := (a >>> 24).toUInt8.toNat_lt
    have h1 := (a >>> 16).toUInt8.toNat_lt
    have h2 := (a >>> 8).toUInt8.toNat_lt
    simp only [Decompressor.word, bytesOf, window, List.foldl_cons, List.foldl_nil, toNat_push,
      UInt32.toNat_zero, List.getD_cons_zero, List.getD_cons_succ]
    omega
  rw [← UInt32.toNat_inj, hwindow, ← List.append_nil (bytesOf a), window_bytesOf]

/-- **The loop of `compress`, and that of `decompress` over what it wrote.** -/
theorem loop_passes (hP : P.Ok) (halphabet : P.alphabetSize = 257) (hs : s.model.Inv P)
    (input : List UInt8) : ∃ s' slots, Passes P (Compressor.loop P input) s s' slots ∧
      ∀ (t : Decompressor) (d' : EntropyDecoder) (n : Nat), input.length < n → InStep s t →
        EntropyDecoder.coder.Serves slots t.coder d' →
          ∃ t', Decompressor.loop P n t = .ok (some (.ok t')) ∧ t'.coder = d' ∧
            t'.out = t.out ++ input := by
  have hbyte : ∀ b : UInt8, b.toNat < P.alphabetSize := fun b =>
    halphabet ▸ b.toNat_lt.trans (by decide)
  induction input generalizing s with
  | nil =>
    obtain ⟨s₁, xs, hmark, hmodel₁, hcrc₁, hmarked⟩ := mark_passes s hs
    obtain ⟨s₂, ys, heof, hcrc₂, -, hend⟩ :=
      encodeSymbol_passes hP hmark.inv eofSymbol (halphabet ▸ by decide)
    obtain ⟨s', zs, hsum, hlast⟩ := encodeSymbols_passes hP heof.inv
      ((bytesOf (Crc32.getChecksum s₂.crc)).map UInt8.toNat) (by simp [hbyte])
    have hsum' : Passes P (fun s => Compressor.encodeSymbols P
        ((bytesOf (Crc32.getChecksum s.crc)).map UInt8.toNat) s) s₂ s' zs :=
      ⟨hsum.run, hsum.ok, hsum.inv⟩
    refine ⟨s', xs ++ (ys ++ zs), hmark.andThen (heof.andThen hsum'), ?_⟩
    intro t d' n hn hstep hserves
    obtain ⟨n, rfl⟩ := Nat.exists_eq_succ_of_ne_zero (Nat.ne_of_gt hn)
    obtain ⟨d₁, hxs, hserves⟩ := Coder.serves_append.mp hserves
    obtain ⟨d₂, hys, hzs⟩ := Coder.serves_append.mp hserves
    have hbytes : ((bytesOf (Crc32.getChecksum s₂.crc)).map UInt8.toNat).map UInt8.ofNat =
        bytesOf (Crc32.getChecksum t.crc) := by
      rw [hstep.crc, ← hcrc₁, ← hcrc₂, List.map_map]
      exact List.map_id'' (fun _ => UInt8.ofNat_toNat) _
    refine ⟨⟨d', s'.model, t.crc, s₁.count, t.out⟩, ?_, rfl, (List.append_nil t.out).symm⟩
    rw [Decompressor.loop, hmarked t d₁ hstep.count hxs, ok_bind]
    change thenRun (Decompressor.decodeSymbol P _) _ = _
    rw [thenRun_some (hend { t with coder := d₁, count := s₁.count } d₂
      (hstep.model.trans hmodel₁.symm) hys), if_neg (not_not.mpr rfl)]
    change thenRun (Decompressor.decodeBytes P ((bytesOf (Crc32.getChecksum s₂.crc)).map
      UInt8.toNat).length _) _ = _
    rw [thenRun_some (hlast _ d' rfl hzs), hbytes, word_bytesOf, if_neg (not_not.mpr rfl)]
    rfl
  | cons temp input ih =>
    obtain ⟨s₁, xs, hmark, hmodel₁, hcrc₁, hmarked⟩ := mark_passes s hs
    obtain ⟨s₂, ys, hsymbol, hcrc₂, hcount₂, hdecode⟩ :=
      encodeSymbol_passes hP hmark.inv temp.toNat (hbyte temp)
    obtain ⟨s', zs, hloop, hrest⟩ := ih (s := { s₂ with crc := Crc32.add s₂.crc temp }) hsymbol.inv
    have hloop' : Passes P (fun s => Compressor.loop P input { s with crc := Crc32.add s.crc temp })
        s₂ s' zs := ⟨hloop.run, hloop.ok, hloop.inv⟩
    refine ⟨s', xs ++ (ys ++ zs), hmark.andThen (hsymbol.andThen hloop'), ?_⟩
    intro t d' n hn hstep hserves
    obtain ⟨n, rfl⟩ := Nat.exists_eq_succ_of_ne_zero (Nat.ne_of_gt (Nat.zero_lt_of_lt hn))
    obtain ⟨d₁, hxs, hserves⟩ := Coder.serves_append.mp hserves
    obtain ⟨d₂, hys, hzs⟩ := Coder.serves_append.mp hserves
    have hne : temp.toNat ≠ eofSymbol := temp.toNat_lt.ne
    have hcrc : Crc32.add t.crc temp = Crc32.add s₂.crc temp := by
      rw [hstep.crc, hcrc₂, hcrc₁]
    obtain ⟨t', hrun, hcoder, hout⟩ := hrest
      ⟨d₂, s₂.model, Crc32.add t.crc temp, s₁.count, t.out ++ [temp]⟩ d' n
      (Nat.lt_of_succ_lt_succ hn) ⟨rfl, hcrc, hcount₂.symm⟩ hzs
    refine ⟨t', ?_, hcoder, ?_⟩
    · rw [Decompressor.loop, hmarked t d₁ hstep.count hxs, ok_bind]
      change thenRun (Decompressor.decodeSymbol P _) _ = _
      rw [thenRun_some (hdecode { t with coder := d₁, count := s₁.count } d₂
        (hstep.model.trans hmodel₁.symm) hys), if_pos hne, UInt8.ofNat_toNat]
      exact hrun
    · rw [hout, List.append_assoc, List.singleton_append]

end Round

/-- **Round trip.** Every text is compressed, and `decompress` comes back with it, over whatever
else is in the stream behind it, of which it reads nothing. A round for every byte and one for the
end are enough. -/
theorem decompress_compress (longBits : Nat) (input rest : List UInt8) :
    ∃ bytes, compress (kernel5a longBits) input = .ok (some bytes) ∧ ∀ n, input.length < n →
      ∃ t, decompress (kernel5a longBits) n (bytes ++ rest) = .ok (some (.ok t)) ∧ t.out = input ∧
        t.coder.input = rest := by
  have hP := kernel5a_ok longBits
  obtain ⟨s', slots, hpasses, hdecompress⟩ :=
    loop_passes (s := ⟨.setStream [], .init, Crc32.initial, 0⟩) hP rfl (init_inv hP) input
  obtain ⟨e, sent, hencode, hready, hcodes⟩ :=
    encodeSlots_codes (e := .setStream []) Range.initial_ready hpasses.ok
  obtain ⟨d, d', hset, hserves, hrest⟩ := flush_serves hready hcodes rest
  refine ⟨e.flush.out, ?_, fun n hn => ?_⟩
  · have hrun := hpasses.run (.setStream [])
    rw [hencode, ok_bind, pure_eq_ok] at hrun
    rw [compress, thenRun_some hrun]
    rfl
  · obtain ⟨t', hloop, hcoder, hout⟩ := hdecompress ⟨d, .init, Crc32.initial, 0, []⟩ d' n hn
      ⟨rfl, rfl, rfl⟩ hserves
    refine ⟨t', ?_, hout, hcoder ▸ hrest⟩
    rw [decompress, hset, ok_bind, hloop]

end DlibAndroid.Codec
