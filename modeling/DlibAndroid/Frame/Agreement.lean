import DlibAndroid.Frame.Picture

/-!
# Do the two paths see the same frame?

The same picture can reach the library as the bytes of a texture or as the ints of a bitmap. The
frames ought to be each other's flip. Both are known in closed form (`samplingTexture_shows`,
`sampling_shows`), so the question reduces, cell by cell, to one about gray values:
`samplingTexture` promotes a plain `char` where `sampling` masks out a channel.

With an unsigned `char` nothing differs. With a signed one a byte from 128 on is promoted to a
negative number, and `luma_promoted_lt` shows that the weighted sum then always drops. What the
conversion back to `unsigned char` makes of a negative sum is left open by the language, so the
exact condition (`framesAgree_iff`) is about every answer it may give.
-/

set_option autoImplicit false

namespace DlibAndroid

open CCore

/-- Both samplers, on the two layouts of one picture, from whatever frames and factors they find:
they end with the same factor, and the frames are each other's flip. -/
def FramesAgree (abi : Abi) (buffer : Block UInt8) (src : Block (BitVec 32))
    (width height : Int) : Prop :=
  ∀ (sample₁ sample₂ : Block Int) (dest₁ dest₂ : Array2d) (L₁ L₂ : Ledger),
    sample₁.size = 1 → sample₂.size = 1 →
    ∃ texture ints imgT imgI,
      samplingTexture abi buffer width height sample₁ dest₁ L₁ = .ok texture ∧
      sampling abi src width height sample₂ dest₂ L₂ = .ok ints ∧
      texture.dest.view = .ok imgT ∧ ints.dest.view = .ok imgI ∧
      imgT.IsFlipOf imgI ∧ texture.sample = ints.sample

/-- The colour behind the frame's cell in sampled row `i` and column `j`. -/
def sampledColour (bytes : Nat → UInt8) (width height : Int) (i j : Nat) : Rgb :=
  rgbaPixel bytes (gridPixel width height i j)

/-- The gray `samplingTexture` computes for a colour. -/
def Abi.promotedGray (abi : Abi) (c : Rgb) : UInt8 :=
  abi.gray (abi.charToInt c.red) (abi.charToInt c.green) (abi.charToInt c.blue)

/-- No channel of the colour reaches 128. -/
def Rgb.Dark (c : Rgb) : Prop := c.red.toNat < 128 ∧ c.green.toNat < 128 ∧ c.blue.toNat < 128

instance (c : Rgb) : Decidable c.Dark := inferInstanceAs (Decidable (_ ∧ _))

/-! ## One cell -/

theorem promotedGray_eq {abi : Abi} {c : Rgb} (h : abi.charSigned = false ∨ c.Dark) :
    abi.promotedGray c = c.gray := by
  have hpromote : ∀ b : UInt8, abi.charSigned = false ∨ b.toNat < 128 →
      abi.charToInt b = b.toNat := fun b => Abi.charToInt_of_unsigned
  rw [Abi.promotedGray, hpromote _ (h.imp_right fun d => d.1),
    hpromote _ (h.imp_right fun d => d.2.1), hpromote _ (h.imp_right fun d => d.2.2), Abi.gray_eq]

/-- The promotion of a signed `char` takes 256 off every byte from 128 on. -/
theorem charToInt_of_signed {abi : Abi} (h : abi.charSigned = true) (b : UInt8) :
    abi.charToInt b = if 128 ≤ b.toNat then (b.toNat : Int) - 256 else b.toNat := by
  simp [Abi.charToInt, h]

/-- A bright channel lowers the weighted sum, whichever channel it is. -/
theorem luma_promoted_lt (abi : Abi) {c : Rgb} (h : abi.charSigned = true) (hc : ¬ c.Dark) :
    luma (abi.charToInt c.red) (abi.charToInt c.green) (abi.charToInt c.blue) <
      ((299 * c.red.toNat + 587 * c.green.toNat + 114 * c.blue.toNat) / 1000 : Nat) := by
  have hr := c.red.toNat_lt
  have hg := c.green.toNat_lt
  have hb := c.blue.toNat_lt
  have hbright : 128 ≤ c.red.toNat ∨ 128 ≤ c.green.toNat ∨ 128 ≤ c.blue.toNat := by
    unfold Rgb.Dark at hc
    omega
  simp only [charToInt_of_signed h, luma]
  have hsum : 299 * (if 128 ≤ c.red.toNat then (c.red.toNat : Int) - 256 else c.red.toNat) +
      587 * (if 128 ≤ c.green.toNat then (c.green.toNat : Int) - 256 else c.green.toNat) +
      114 * (if 128 ≤ c.blue.toNat then (c.blue.toNat : Int) - 256 else c.blue.toNat) ≤
      299 * c.red.toNat + 587 * c.green.toNat + 114 * c.blue.toNat - 29184 := by
    split_ifs <;> omega
  generalize 299 * (if 128 ≤ c.red.toNat then (c.red.toNat : Int) - 256 else c.red.toNat) +
      587 * (if 128 ≤ c.green.toNat then (c.green.toNat : Int) - 256 else c.green.toNat) +
      114 * (if 128 ≤ c.blue.toNat then (c.blue.toNat : Int) - 256 else c.blue.toNat) = n at hsum
  -- truncation is the floor above zero, and stays below one underneath
  by_cases hn : 0 ≤ n
  · rw [Int.tdiv_eq_ediv_of_nonneg hn]
    omega
  · have hneg : (-n).tdiv 1000 = -n.tdiv 1000 := Int.neg_tdiv ..
    rw [Int.tdiv_eq_ediv_of_nonneg (by omega)] at hneg
    omega

/-- The ABI with a signed `char` on which the colour `c` comes out differently: a negative sum may
be converted to anything, so to anything but the gray of `c`. -/
def Abi.signedAway (c : Rgb) : Abi :=
  ⟨true, fun v => if v < 0 then c.gray + 1 else .ofNat v.toNat, fun b => by
    rw [if_neg (by omega), Int.toNat_natCast, UInt8.ofNat_toNat]⟩

theorem promotedGray_ne {c : Rgb} (hc : ¬ c.Dark) :
    (Abi.signedAway c).promotedGray c ≠ c.gray := by
  have hr := c.red.toNat_lt
  have hg := c.green.toNat_lt
  have hb := c.blue.toNat_lt
  have hlt := luma_promoted_lt (Abi.signedAway c) rfl hc
  unfold Abi.promotedGray Abi.gray
  generalize luma ((Abi.signedAway c).charToInt c.red) ((Abi.signedAway c).charToInt c.green)
    ((Abi.signedAway c).charToInt c.blue) = v at hlt
  by_cases hv : v < 0
  · rw [show (Abi.signedAway c).narrow v = c.gray + 1 from if_pos hv]
    intro h
    have hgray := c.gray.toNat_lt
    have hnat := congrArg UInt8.toNat h
    rw [UInt8.toNat_add, show (1 : UInt8).toNat = 1 from rfl] at hnat
    omega
  · rw [show (Abi.signedAway c).narrow v = .ofNat v.toNat from if_neg hv, Rgb.gray]
    intro h
    have hnat := congrArg UInt8.toNat h
    rw [UInt8.toNat_ofNat', UInt8.toNat_ofNat'] at hnat
    omega

/-! ## The whole frame -/

section Whole

variable {width height : Int} {buffer : Block UInt8} {src : Block (BitVec 32)}
  {bytes : Nat → UInt8} {alpha : Nat → UInt8}

/-- Rows counted from the bottom are the same rows. -/
theorem forall_rows_reversed {h w : Nat} {P : Nat → Nat → Prop} :
    (∀ x y, x < w → y < h → P (h - 1 - y) x) ↔ ∀ i j, i < h → j < w → P i j := by
  constructor
  · intro hall i j hi hj
    have hcell := hall j (h - 1 - i) hj (by omega)
    rwa [show h - 1 - (h - 1 - i) = i by omega] at hcell
  · intro hall x y hx hy
    exact hall _ x (by omega) hx

/-- What the two calls leave, whatever they start from, and when one frame is the flip of the
other. -/
theorem captures_ok (abi : Abi) (hw : 240 ≤ width) (hh : 1 ≤ height)
    (hfit : 4 * (width * height) ≤ 2147483647)
    (hbuffer : buffer.Holds (4 * (width * height)).toNat bytes)
    (hsrc : src.Holds (width * height).toNat fun k => (rgbaPixel bytes k).argb (alpha k))
    {sample₁ sample₂ : Block Int} (dest₁ dest₂ : Array2d) (L₁ L₂ : Ledger)
    (h₁ : sample₁.size = 1) (h₂ : sample₂.size = 1) :
    ∃ texture ints imgT imgI,
      samplingTexture abi buffer width height sample₁ dest₁ L₁ = .ok texture ∧
      sampling abi src width height sample₂ dest₂ L₂ = .ok ints ∧
      texture.dest.view = .ok imgT ∧ ints.dest.view = .ok imgI ∧
      texture.sample = ints.sample ∧
      (imgT.IsFlipOf imgI ↔ ∀ i j, i < (height / sampleFactor width height).toNat →
        j < (width / sampleFactor width height).toNat →
        abi.promotedGray (sampledColour bytes width height i j) =
          (sampledColour bytes width height i j).gray) := by
  have hfit' : width * height ≤ 2147483647 := by nlinarith
  obtain ⟨texture, htexture, hT⟩ := samplingTexture_ok abi dest₁ L₁ hw hh hfit hbuffer h₁
  obtain ⟨ints, hints, hI⟩ := sampling_ok abi dest₂ L₂ hw hh hfit' hsrc h₂
  refine ⟨texture, ints, _, _, htexture, hints, hT.view, hI.view, hT.sample.trans hI.sample.symm,
    ?_⟩
  have hshowT := samplingTexture_shows hw hT hT.view
  have hshowI := sampling_shows (rgbaPixel bytes) alpha (fun _ => rfl) hI hI.view
  exact (hshowT.flip hshowI rfl rfl).trans (forall_rows_reversed (P := fun i j =>
    abi.promotedGray (sampledColour bytes width height i j) =
      (sampledColour bytes width height i j).gray))

/-- On one ABI, the frames agree when the gray values do. -/
theorem framesAgree_iff_gray (abi : Abi) (hw : 240 ≤ width) (hh : 1 ≤ height)
    (hfit : 4 * (width * height) ≤ 2147483647)
    (hbuffer : buffer.Holds (4 * (width * height)).toNat bytes)
    (hsrc : src.Holds (width * height).toNat fun k => (rgbaPixel bytes k).argb (alpha k)) :
    FramesAgree abi buffer src width height ↔
      ∀ i j, i < (height / sampleFactor width height).toNat →
        j < (width / sampleFactor width height).toNat →
        abi.promotedGray (sampledColour bytes width height i j) =
          (sampledColour bytes width height i j).gray := by
  constructor
  · intro h
    have hfactor : (factorBlock width height).size = 1 := rfl
    obtain ⟨texture, ints, imgT, imgI, ht, hi, hvT, hvI, hflip, -⟩ :=
      h (factorBlock width height) (factorBlock width height) .new .new .empty .empty hfactor
        hfactor
    obtain ⟨texture', ints', imgT', imgI', ht', hi', hvT', hvI', -, hiff⟩ :=
      captures_ok abi hw hh hfit hbuffer hsrc .new .new .empty .empty hfactor hfactor
    obtain rfl := Except.ok.inj (ht.symm.trans ht')
    obtain rfl := Except.ok.inj (hi.symm.trans hi')
    obtain rfl := Except.ok.inj (hvT.symm.trans hvT')
    obtain rfl := Except.ok.inj (hvI.symm.trans hvI')
    exact hiff.mp hflip
  · intro h sample₁ sample₂ dest₁ dest₂ L₁ L₂ h₁ h₂
    obtain ⟨texture, ints, imgT, imgI, ht, hi, hvT, hvI, hsample, hiff⟩ :=
      captures_ok abi hw hh hfit hbuffer hsrc dest₁ dest₂ L₁ L₂ h₁ h₂
    exact ⟨texture, ints, imgT, imgI, ht, hi, hvT, hvI, hiff.mpr h, hsample⟩

/-- **When the paths agree.** On the targets with an unsigned `char`, always; on those with a
signed one, exactly for the pictures none of whose sampled pixels has a channel from 128 on. -/
theorem framesAgree_iff (signed : Bool) (hw : 240 ≤ width) (hh : 1 ≤ height)
    (hfit : 4 * (width * height) ≤ 2147483647)
    (hbuffer : buffer.Holds (4 * (width * height)).toNat bytes)
    (hsrc : src.Holds (width * height).toNat fun k => (rgbaPixel bytes k).argb (alpha k)) :
    (∀ abi : Abi, abi.charSigned = signed → FramesAgree abi buffer src width height) ↔
      signed = false ∨ ∀ i j, i < (height / sampleFactor width height).toNat →
        j < (width / sampleFactor width height).toNat →
        (sampledColour bytes width height i j).Dark := by
  constructor
  · intro h
    cases signed with
    | false => exact Or.inl rfl
    | true =>
      refine Or.inr fun i j hi hj => ?_
      by_contra hbright
      have hagree := h (Abi.signedAway (sampledColour bytes width height i j)) rfl
      rw [framesAgree_iff_gray _ hw hh hfit hbuffer hsrc] at hagree
      exact promotedGray_ne hbright (hagree i j hi hj)
  · intro h abi habi
    rw [framesAgree_iff_gray abi hw hh hfit hbuffer hsrc]
    intro i j hi hj
    exact promotedGray_eq (h.imp (fun hs => habi.trans hs) fun hd => hd i j hi hj)

end Whole

/-! ## Two plain pictures -/

/-- The bytes of a picture all of one opaque colour. -/
def plainBytes (c : Rgb) (k : Nat) : UInt8 :=
  if k % 4 = 0 then c.red else if k % 4 = 1 then c.green else if k % 4 = 2 then c.blue else 255

theorem rgbaPixel_plainBytes (c : Rgb) (k : Nat) : rgbaPixel (plainBytes c) k = c := by
  have h1 : (4 * k + 1) % 4 = 1 := by omega
  have h2 : (4 * k + 2) % 4 = 2 := by omega
  simp [rgbaPixel, plainBytes, h1, h2]

/-- A picture of 240 by 1 pixels, as a texture buffer and as a bitmap. -/
def plainBuffer (c : Rgb) : Block UInt8 := .tabulate 960 (plainBytes c) (by decide)

def plainBitmap (c : Rgb) : Block (BitVec 32) := .tabulate 240 (fun _ => c.argb 255) (by decide)

theorem holds_plainBuffer (c : Rgb) :
    (plainBuffer c).Holds (4 * (240 * 1) : Int).toNat (plainBytes c) :=
  Block.holds_tabulate (by decide)

theorem holds_plainBitmap (c : Rgb) :
    (plainBitmap c).Holds (240 * 1 : Int).toNat fun k => (rgbaPixel (plainBytes c) k).argb 255 := by
  simp only [rgbaPixel_plainBytes]
  exact Block.holds_tabulate (by decide)

theorem framesAgree_night :
    FramesAgree .x86 (plainBuffer ⟨20, 10, 30⟩) (plainBitmap ⟨20, 10, 30⟩) 240 1 := by
  refine (framesAgree_iff true (by decide) (by decide) (by decide) (holds_plainBuffer _)
    (holds_plainBitmap ⟨20, 10, 30⟩)).mpr (Or.inr fun i j _ _ => ?_) .x86 rfl
  rw [sampledColour, rgbaPixel_plainBytes]
  decide

/-- The red of this colour reaches 200. The sum stays an `unsigned char` on both sides, 53 against
129, so the two frames differ whatever becomes of negative sums. -/
theorem framesDisagree_x86 :
    ¬ FramesAgree .x86 (plainBuffer ⟨200, 100, 100⟩) (plainBitmap ⟨200, 100, 100⟩) 240 1 := by
  rw [framesAgree_iff_gray .x86 (by decide) (by decide) (by decide) (holds_plainBuffer _)
    (holds_plainBitmap ⟨200, 100, 100⟩)]
  intro h
  have hcell := h 0 0 (by decide) (by decide)
  rw [sampledColour, rgbaPixel_plainBytes] at hcell
  revert hcell
  decide

end DlibAndroid
