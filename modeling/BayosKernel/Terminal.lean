import BayosKernel.Foundation.TextPage
import BayosKernel.ScreenClearing

/-!
The screen as a page of text: `putchar` draws the glyphs of the characters on the page, and
no other pixel is lit.
-/

namespace BayosKernel

open Foundation

/-- A character as `putchar` takes it. -/
def textItem (c : Int) : TextItem Nat :=
  if c = 10 then .newline else if c = 13 then .carriageReturn else .char (c % 0x100).toNat

/-- The cells from one border to the other. -/
def FramebufferInfo.cols (info : FramebufferInfo) : Nat := (info.width - 2) / 8

def FramebufferInfo.rows (info : FramebufferInfo) : Nat := (info.height - 1) / 18

/-- The bit of a font for a pixel of a glyph. -/
def glyphBit (m : ByteMemory) (font c x y : Nat) : Bool :=
  (m (font + sizeofPsf1Header + c * 16 + y)).toNat.testBit (7 - x)

/-- The pixel belongs to the glyph of a cell. -/
def cellLit (m : ByteMemory) (font : Nat) (cell : TextCell Nat) (x y : Nat) : Bool :=
  (1 + 8 * cell.col ≤ x ∧ x < 9 + 8 * cell.col ∧ 1 + 18 * cell.row ≤ y ∧ y < 17 + 18 * cell.row) &&
    glyphBit m font cell.char (x - (1 + 8 * cell.col)) (y - (1 + 18 * cell.row))

def pageLit (m : ByteMemory) (font : Nat) (page : TextPage Nat) (x y : Nat) : Bool :=
  page.cells.any fun cell => cellLit m font cell x y

/-- Rows of `words` have room for their pixels, so that no two pixels are at one place. -/
theorem pixelIndex_injective {words x y i j : Nat} (hx : x < words) (hi : i < words)
    (h : x + y * words = i + j * words) : x = i ∧ y = j := by
  have hcol : x = i := by
    have hmod := congrArg (· % words) h
    simp only [Nat.add_mul_mod_self_right] at hmod
    rwa [Nat.mod_eq_of_lt hx, Nat.mod_eq_of_lt hi] at hmod
  subst hcol
  exact ⟨rfl, Nat.eq_of_mul_eq_mul_right (by omega) (Nat.add_left_cancel h)⟩

section Pixels

variable {fb : Framebuffer} {font glyph color left x y i j : Nat} {s : Screen} {row : UInt8}

/-- A pixel that is written, and the others. -/
theorem pixel_writePixel (hs : s.fb = fb) (hfits : fb.info.Fits fb.buffer)
    (hcolor : color < 0x100000000) (hx : x < fb.info.width) (hy : y < fb.info.height)
    (hi : i < fb.info.width) (hj : j < fb.info.height) :
    (s.writePixel x y color).pixel i j = if i = x ∧ j = y then color else s.pixel i j := by
  subst hs
  obtain ⟨haddr, -⟩ := hfits.pixelAddr_eq hx hy
  obtain ⟨haddr', -⟩ := hfits.pixelAddr_eq hi hj
  have hpixel : (s.writePixel x y color).pixel i j =
      (s.mem.store 4 (s.fb.pixelAddr x y) color).load 4 (s.fb.pixelAddr i j) := rfl
  rw [hpixel]
  split
  · rename_i hsame
    rw [hsame.1, hsame.2]
    exact ByteMemory.load_store _ hcolor
  · rename_i hother
    have hwide := hfits.wide
    have hplace : i + j * (s.fb.info.pitch / 4) ≠ x + y * (s.fb.info.pitch / 4) :=
      fun heq => hother (pixelIndex_injective (by omega) (by omega) heq)
    exact ByteMemory.load_store_apart _ (by omega)

/-- The cell at the cursor is on the screen. -/
structure Framebuffer.CellVisible (fb : Framebuffer) : Prop where
  fits : fb.info.Fits fb.buffer
  right : fb.xPos + 8 ≤ fb.info.width
  bottom : fb.yPos + 16 ≤ fb.info.height
  width : fb.info.width < 0x10000000000000000
  height : fb.info.height < 0x10000000000000000

/-- The part of a row of a glyph from `x` on. -/
theorem pixel_writeRowFrom (hs : s.fb = fb) (hcell : fb.CellVisible) (hcolor : color < 0x100000000)
    (hx : x + left ≤ 8) (hy : y < 16) (hi : i < fb.info.width) (hj : j < fb.info.height) :
    (Screen.writeRowFrom color y row left x s).pixel i j =
      if j = fb.yPos + y ∧ fb.xPos + x ≤ i ∧ i < fb.xPos + x + left ∧
          row.toNat.testBit (7 - (i - fb.xPos)) then color
      else s.pixel i j := by
  have hright := hcell.right
  have hbottom := hcell.bottom
  have hwidth := hcell.width
  have hheight := hcell.height
  induction left generalizing x s with
  | zero =>
      rw [if_neg (by omega)]
      rfl
  | succ left ih =>
      have hcol : add64 fb.xPos x = fb.xPos + x := add64_eq (by omega)
      have hrow : add64 fb.yPos y = fb.yPos + y := add64_eq (by omega)
      rw [Screen.writeRowFrom, hs, hcol, hrow]
      -- the pixel of this column comes first
      obtain ⟨s₁, hs₁, hfb, hpixel⟩ : ∃ s₁, (if row.toNat.testBit (7 - x) then
            s.writePixel (fb.xPos + x) (fb.yPos + y) color else s) = s₁ ∧ s₁.fb = fb ∧
          s₁.pixel i j = if (i = fb.xPos + x ∧ j = fb.yPos + y) ∧ row.toNat.testBit (7 - x)
            then color else s.pixel i j := by
        by_cases hbit : row.toNat.testBit (7 - x) = true
        · refine ⟨_, if_pos hbit, hs, ?_⟩
          rw [pixel_writePixel hs hcell.fits hcolor (by omega) (by omega) hi hj]
          simp only [hbit, and_true]
        · exact ⟨_, if_neg hbit, hs, (if_neg fun h => hbit h.2).symm⟩
      rw [hs₁, ih hfb (by omega), hpixel]
      by_cases hhere : i = fb.xPos + x
      · have hoffset : i - fb.xPos = x := by omega
        rw [hoffset, if_neg (by omega)]
        refine if_congr ?_ rfl rfl
        constructor
        · rintro ⟨⟨_, hj'⟩, hbit⟩
          exact ⟨hj', by omega, by omega, hbit⟩
        · rintro ⟨hj', _, _, hbit⟩
          exact ⟨⟨hhere, hj'⟩, hbit⟩
      · rw [if_neg (show ¬((i = fb.xPos + x ∧ j = fb.yPos + y) ∧ _) from fun h => hhere h.1.1)]
        refine if_congr ?_ rfl rfl
        constructor
        · rintro ⟨hj', _, _, hbit⟩
          exact ⟨hj', by omega, by omega, hbit⟩
        · rintro ⟨hj', _, _, hbit⟩
          exact ⟨hj', by omega, by omega, hbit⟩

variable {info : FramebufferInfo} {buffer : Nat} {m : ByteMemory}

/-- A row of a glyph that is visible stays in the buffer. -/
theorem Contained.writeRow (h : Contained info buffer m s) (hs : s.fb = fb)
    (hcell : fb.CellVisible) (hy : y < 16) (color : Nat) (row : UInt8) :
    Contained info buffer m (Screen.writeRowFrom color y row charRasterWidth 0 s) ∧
      (Screen.writeRowFrom color y row charRasterWidth 0 s).fb = fb := by
  subst hs
  have hinfo := h.sameInfo
  have hright := hcell.right
  have hbottom := hcell.bottom
  have hwidth := hcell.width
  have hheight := hcell.height
  rw [hinfo] at hright hbottom hwidth hheight
  refine h.writeRowFrom (fun k hk => ?_) ?_
  · rw [charRasterWidth] at hk
    rw [add64_eq (by omega)]
    omega
  · rw [add64_eq (by omega)]
    omega

/-- The rows of a glyph from `y` on; the font is not drawn over. -/
theorem pixel_writeRowsFrom (h : Contained info buffer m s) (hs : s.fb = fb)
    (hcell : fb.CellVisible) (hcolor : color < 0x100000000)
    (hglyph : ∀ s', Contained info buffer m s' → ∀ k < 16, s'.mem (glyph + k) = m (glyph + k))
    (hy : y + left ≤ 16) (hi : i < fb.info.width) (hj : j < fb.info.height) :
    (Screen.writeRowsFrom color glyph left y s).pixel i j =
      if fb.yPos + y ≤ j ∧ j < fb.yPos + y + left ∧ fb.xPos ≤ i ∧ i < fb.xPos + 8 ∧
          (m (glyph + (j - fb.yPos))).toNat.testBit (7 - (i - fb.xPos)) then color
      else s.pixel i j := by
  induction left generalizing y s with
  | zero =>
      rw [if_neg (by omega)]
      rfl
  | succ left ih =>
      obtain ⟨hrow, hfb⟩ := h.writeRow hs hcell (show y < 16 by omega) color
        (s.mem (glyph + y))
      rw [Screen.writeRowsFrom, ih hrow hfb (by omega),
        pixel_writeRowFrom hs hcell hcolor (by decide) (by omega) hi hj, hglyph s h y (by omega)]
      by_cases hhere : j = fb.yPos + y
      · have hoffset : j - fb.yPos = y := by omega
        rw [hoffset, if_neg (by omega)]
        refine if_congr ?_ rfl rfl
        constructor
        · rintro ⟨_, hle, hlt, hbit⟩
          exact ⟨by omega, by omega, by omega, by omega, hbit⟩
        · rintro ⟨_, _, hle, hlt, hbit⟩
          exact ⟨hhere, by omega, by omega, hbit⟩
      · rw [if_neg (show ¬(j = fb.yPos + y ∧ _) from fun h => hhere h.1)]
        refine if_congr ?_ rfl rfl
        constructor
        · rintro ⟨hle, hlt, hrest⟩
          exact ⟨by omega, by omega, hrest⟩
        · rintro ⟨hle, hlt, hrest⟩
          exact ⟨by omega, by omega, hrest⟩

theorem pixel_writeChar (font c color : Nat) (s : Screen) (i j : Nat) :
    (s.writeChar font c color).pixel i j =
      (Screen.writeRowsFrom color (font + sizeofPsf1Header + c * 16) 16 0 s).pixel i j := by
  have hbytes : charRasterWidth * charRasterHeight / 8 = 16 := rfl
  have hrows : charRasterHeight = 16 := rfl
  rw [Screen.writeChar, hbytes, hrows]
  -- the cursor that moves on is no part of a pixel
  generalize Screen.writeRowsFrom color (font + sizeofPsf1Header + c * 16) 16 0 s = s'
  rfl

end Pixels

/-- A geometry of 32-bit pixels in rows without a gap, and a font outside of the buffer. -/
structure Displayed (info : FramebufferInfo) (buffer font : Nat) : Prop where
  width : 9 ≤ info.width
  height : 17 ≤ info.height
  bpp : info.bpp = 32
  unpadded : info.pitch = 4 * info.width
  fits : info.Fits buffer
  somewhere : 0 < buffer
  font : font + sizeofPsf1Header + 0x1000 ≤ buffer ∨ buffer + info.pitch * info.height ≤ font

/-- The screen shows the page: the cursor, and the pixels that are lit. -/
structure Shows (info : FramebufferInfo) (buffer font : Nat) (m : ByteMemory)
    (page : TextPage Nat) (s : Screen) : Prop where
  contained : Contained info buffer m s
  col : s.fb.xPos = 1 + 8 * page.col
  row : s.fb.yPos = 1 + 18 * page.row
  pixels : ∀ x < info.width, ∀ y < info.height,
    s.pixel x y = if pageLit m font page x y then 0xffffffff else 0

section Showing

variable {info : FramebufferInfo} {buffer font c n : Nat} {m : ByteMemory} {page : TextPage Nat}
  {s : Screen}

/-- The sizes are far from 64 bits. -/
theorem Displayed.sizes (h : Displayed info buffer font) :
    info.width < 0x10000000000000000 ∧ info.height < 0x10000000000000000 := by
  have hinside := h.fits.inside
  have hsomewhere := h.somewhere
  have hpitch := h.unpadded
  have hwidth := h.width
  have hheight := h.height
  have hw : info.pitch ≤ info.pitch * info.height := Nat.le_mul_of_pos_right _ (by omega)
  have hh : info.height ≤ info.pitch * info.height := Nat.le_mul_of_pos_left _ (by omega)
  omega

/-- The glyphs are read as they were. -/
theorem Displayed.glyph (h : Displayed info buffer font) (hc : c < 0x100) (s : Screen)
    (hs : Contained info buffer m s) (k : Nat) (hk : k < 16) :
    s.mem (font + sizeofPsf1Header + c * 16 + k) = m (font + sizeofPsf1Header + c * 16 + k) := by
  have hfont := h.font
  rw [sizeofPsf1Header] at hfont ⊢
  exact hs.outside h.fits (le_of_eq h.bpp) _ (by omega)

theorem cellLit_iff {col row x y : Nat} :
    cellLit m font ⟨col, row, c⟩ x y = true ↔
      1 + 8 * col ≤ x ∧ x < 9 + 8 * col ∧ 1 + 18 * row ≤ y ∧ y < 17 + 18 * row ∧
        glyphBit m font c (x - (1 + 8 * col)) (y - (1 + 18 * row)) = true := by
  rw [cellLit, Bool.and_eq_true, decide_eq_true_eq, and_assoc, and_assoc, and_assoc]

theorem pageLit_draw (page : TextPage Nat) (c x y : Nat) :
    pageLit m font (page.draw c) x y =
      (cellLit m font ⟨page.col, page.row, c⟩ x y || pageLit m font page x y) :=
  List.any_cons

theorem Shows.carriageReturn (h : Shows info buffer font m page s) :
    Shows info buffer font m page.carriageReturn s.carriageReturn :=
  ⟨h.contained.move _ _, rfl, h.row, h.pixels⟩

theorem Shows.newline (h : Shows info buffer font m page s) (hrow : page.row < 0x100000000) :
    Shows info buffer font m page.newline s.newline := by
  refine ⟨h.contained.move _ _, rfl, ?_, h.pixels⟩
  have hold := h.row
  have hnew : s.newline.fb.yPos = add64 s.fb.yPos 18 := rfl
  rw [hnew, add64_eq (by omega), hold]
  change 1 + 18 * page.row + 18 = 1 + 18 * (page.row + 1)
  omega

/-- A cleared screen shows nothing. -/
theorem Shows.clear (hd : Displayed info buffer font) (h : Contained info buffer m s) :
    Shows info buffer font m TextPage.empty s.clear := by
  refine ⟨h.clear, rfl, rfl, fun x hx y hy => ?_⟩
  have hpixel := @pixel_clear s.fb s.mem s.written x y (by rw [h.sameInfo]; exact hd.bpp)
    (h.fits hd.fits) (by rw [h.sameBuffer]; exact hd.somewhere) (by rw [h.sameInfo]; exact hx)
    (by rw [h.sameInfo]; exact hy)
  rw [if_neg] at hpixel
  · exact hpixel
  · rw [h.sameInfo, hd.unpadded, Nat.mul_div_cancel_left _ (by decide)]
    have := not_behind_rows hx hy
    omega

/-- A character is drawn in its cell. -/
theorem Shows.draw (hd : Displayed info buffer font) (h : Shows info buffer font m page s)
    (hc : c < 0x100) (hcol : page.col < max info.cols 1) (hrow : page.row < max info.rows 1) :
    Shows info buffer font m (page.draw c) (s.writeChar font c 0xffffffff) := by
  have hx := h.col
  have hy := h.row
  have hwidth := hd.width
  have hheight := hd.height
  obtain ⟨hwide, htall⟩ := hd.sizes
  rw [FramebufferInfo.cols] at hcol
  rw [FramebufferInfo.rows] at hrow
  obtain ⟨hdrawn, hxPos, hyPos⟩ := @Contained.writeChar info buffer font 0xffffffff c m s h.contained
    (by omega) (by omega) (by omega)
  rw [add64_eq (by omega)] at hxPos
  refine ⟨hdrawn, ?_, ?_, fun x hx' y hy' => ?_⟩
  · rw [hxPos, hx]
    change 1 + 8 * page.col + 8 = 1 + 8 * (page.col + 1)
    omega
  · rw [hyPos, hy]
    rfl
  have hcell : s.fb.CellVisible := by
    have hinfo := h.contained.sameInfo
    exact ⟨h.contained.fits hd.fits, by rw [hinfo]; omega, by rw [hinfo]; omega, by rwa [hinfo],
      by rwa [hinfo]⟩
  rw [pixel_writeChar, pixel_writeRowsFrom h.contained rfl hcell (by decide) (hd.glyph hc)
    (by decide) (by rw [h.contained.sameInfo]; exact hx') (by rw [h.contained.sameInfo]; exact hy'),
    h.pixels x hx' y hy', hx, hy, pageLit_draw]
  by_cases hlit : cellLit m font ⟨page.col, page.row, c⟩ x y = true
  · have hin := cellLit_iff.mp hlit
    rw [if_pos ⟨by omega, by omega, by omega, by omega, hin.2.2.2.2⟩, hlit, Bool.true_or, if_pos rfl]
  · rw [if_neg fun hin => hlit (cellLit_iff.mpr
        ⟨by omega, by omega, by omega, by omega, hin.2.2.2.2⟩),
      Bool.eq_false_of_not_eq_true hlit, Bool.false_or]

/-- The line is wrapped where the page wraps it. -/
theorem Shows.wrap (hd : Displayed info buffer font) (h : Shows info buffer font m page s)
    (hrow : page.row < 0x100000000) (hcol : page.col < 0x100000000) :
    Shows info buffer font m (page.wrap info.cols)
      (if add64 s.fb.xPos charRasterWidth ≥ s.fb.info.width then s.newline else s) := by
  have hx := h.col
  have hwidth := hd.width
  rw [charRasterWidth, add64_eq (by omega), h.contained.sameInfo, TextPage.wrap,
    FramebufferInfo.cols]
  by_cases hfits : s.fb.xPos + 8 ≥ info.width
  · rw [if_pos hfits, if_pos (by omega)]
    exact h.newline hrow
  · rw [if_neg hfits, if_neg (by omega)]
    exact h

/-- The screen is cleared where the page is turned. -/
theorem Shows.turn (hd : Displayed info buffer font) (h : Shows info buffer font m page s)
    (hrow : page.row ≤ 0x100000000) :
    Shows info buffer font m (page.turn info.rows)
      (if add64 (add64 s.fb.yPos charRasterHeight) borderPadding ≥ s.fb.info.height then s.clear
        else s) := by
  have hy := h.row
  have hheight := hd.height
  have hsum : add64 (add64 s.fb.yPos charRasterHeight) borderPadding = s.fb.yPos + 17 := by
    rw [charRasterHeight, borderPadding, @add64_eq s.fb.yPos 16 (by omega), add64_eq (by omega)]
  rw [hsum, h.contained.sameInfo, TextPage.turn, FramebufferInfo.rows]
  by_cases hfits : s.fb.yPos + 17 ≥ info.height
  · rw [if_pos hfits, if_pos (by omega)]
    exact Shows.clear hd h.contained
  · rw [if_neg hfits, if_neg (by omega)]
    exact h

/-- What `putchar` does is what the page does. -/
theorem Shows.putchar (hd : Displayed info buffer font) (h : Shows info buffer font m page s)
    (hrow : page.row < 0x100000000) (hcol : page.col < 0x100000000) (c : Int) :
    Shows info buffer font m (page.put info.cols info.rows (textItem c)) (s.putchar font c) := by
  rw [Screen.putchar, textItem]
  split
  · exact h.newline hrow
  split
  · exact h.carriageReturn
  have hwrap := h.wrap hd hrow hcol
  have hwrapped : (page.wrap info.cols).row ≤ 0x100000000 := by
    rw [TextPage.wrap]
    split
    · exact hrow
    · exact Nat.le_of_lt hrow
  have hturn := hwrap.turn hd hwrapped
  have hc : (c % 0x100).toNat < 0x100 := by omega
  exact hturn.draw hd hc (TextPage.turn_cursor page).1 (TextPage.turn_cursor page).2

theorem Shows.putchars (hd : Displayed info buffer font) (text : List Int)
    (h : Shows info buffer font m page s) (hrow : page.row ≤ n) (hcol : page.col ≤ n)
    (hn : n + text.length < 0x100000000) :
    Shows info buffer font m
      ((text.map textItem).foldl (TextPage.put info.cols info.rows) page)
      (text.foldl (Screen.putchar font) s) := by
  induction text generalizing n page s with
  | nil => exact h
  | cons c text ih =>
      rw [List.length_cons] at hn
      obtain ⟨hcol', hrow'⟩ := TextPage.put_cursor info.cols info.rows page (textItem c)
      exact ih (n := n + 1) (h.putchar hd (by omega) (by omega) c) (by omega) (by omega) (by omega)

theorem shows_framebufferInit (hd : Displayed info buffer font) :
    Shows info buffer font m TextPage.empty (framebufferInit info buffer m) := by
  have hempty : Contained info buffer m ⟨⟨info, 0, 0, buffer⟩, m, []⟩ :=
    ⟨rfl, rfl, fun _ hp => absurd hp List.not_mem_nil, fun _ _ _ _ => rfl⟩
  exact Shows.clear hd hempty

/-- In a page that is in order, the pixels of a cell are those of its glyph. -/
theorem pageLit_cell {cell : TextCell Nat} {i j : Nat} (h : page.InOrder) (hcell : cell ∈ page.cells)
    (hi : i < 8) (hj : j < 16) :
    pageLit m font page (1 + 8 * cell.col + i) (1 + 18 * cell.row + j) =
      glyphBit m font cell.char i j := by
  have hoffset : 1 + 8 * cell.col + i - (1 + 8 * cell.col) = i ∧
      1 + 18 * cell.row + j - (1 + 18 * cell.row) = j := by omega
  rw [Bool.eq_iff_iff, pageLit, List.any_eq_true]
  constructor
  · intro ⟨⟨col, row, c⟩, hmem, hlit⟩
    have hin := cellLit_iff.mp hlit
    have hsame := h.unique hmem hcell (show col = cell.col by omega) (show row = cell.row by omega)
    subst hsame
    have hbit := hin.2.2.2.2
    rwa [hoffset.1, hoffset.2] at hbit
  · intro hbit
    refine ⟨cell, hcell, cellLit_iff.mpr ⟨by omega, by omega, by omega, by omega, ?_⟩⟩
    rwa [hoffset.1, hoffset.2]

end Showing

/-- The page that a text is printed on. -/
def printedPage (info : FramebufferInfo) (text : List Int) : TextPage Nat :=
  (text.map textItem).foldl (TextPage.put info.cols info.rows) TextPage.empty

/-- The characters that are drawn, without `\n` and `\r`. -/
def drawnChars (text : List Int) : List Nat := (text.map textItem).filterMap TextItem.printed

/-- The screen shows the last page of what was printed: a pixel is lit if it belongs to the
glyph of a character of the page, and black otherwise. The page holds the end of the text,
and without a carriage return each of its characters is drawn as its glyph. -/
theorem putchar_shows (info : FramebufferInfo) (buffer font : Nat) (m : ByteMemory)
    (text : List Int) (displayed : Displayed info buffer font) (short : text.length < 0x100000000) :
    (∀ x < info.width, ∀ y < info.height,
      (text.foldl (Screen.putchar font) (framebufferInit info buffer m)).pixel x y =
        if pageLit m font (printedPage info text) x y then 0xffffffff else 0) ∧
    (printedPage info text).chars <:+ drawnChars text ∧
    (13 ∉ text → ∀ cell ∈ (printedPage info text).cells, ∀ i < 8, ∀ j < 16,
      (text.foldl (Screen.putchar font) (framebufferInit info buffer m)).pixel
          (1 + 8 * cell.col + i) (1 + 18 * cell.row + j) =
        if glyphBit m font cell.char i j then 0xffffffff else 0) := by
  have hshows := (shows_framebufferInit (m := m) displayed).putchars displayed text (Nat.le_refl 0)
    (Nat.le_refl 0) (by omega)
  have hsuffix : (printedPage info text).chars <:+ [] ++ drawnChars text :=
    TextPage.chars_puts (text.map textItem) List.nil_suffix
  refine ⟨hshows.pixels, hsuffix, fun hreturn cell hcell i hi j hj => ?_⟩
  have hitems : TextItem.carriageReturn ∉ text.map textItem := by
    intro hmem
    obtain ⟨c, hc, hitem⟩ := List.mem_map.mp hmem
    rw [textItem] at hitem
    split at hitem
    · cases hitem
    split at hitem
    · rename_i heq
      exact hreturn (heq ▸ hc)
    · cases hitem
  have horder : (printedPage info text).InOrder :=
    TextPage.InOrder.puts (text.map textItem) TextPage.inOrder_empty hitems
  have hwithin : (printedPage info text).Within info.cols info.rows :=
    TextPage.Within.puts (text.map textItem) fun _ hcell => absurd hcell List.not_mem_nil
  obtain ⟨hcol, hrow⟩ := hwithin cell hcell
  have hwidth := displayed.width
  have hheight := displayed.height
  rw [FramebufferInfo.cols] at hcol
  rw [FramebufferInfo.rows] at hrow
  rw [hshows.pixels _ (by omega) _ (by omega), ← pageLit_cell horder hcell hi hj]
  rfl

/-- The second `A` begins a page. -/
theorem putchar_shows_lines :
    (printedPage cellInfo [65, 10, 65]).cells = [⟨0, 0, 65⟩] ∧
      ([65, 10, 65].foldl (Screen.putchar 0x4000)
        (framebufferInit cellInfo 0x1000 dotFont)).pixel 1 1 = 0xffffffff ∧
      ([65, 10, 65].foldl (Screen.putchar 0x4000)
        (framebufferInit cellInfo 0x1000 dotFont)).pixel 2 1 = 0 := by
  have hdisplayed : Displayed cellInfo 0x1000 0x4000 :=
    ⟨by decide, by decide, rfl, rfl, ⟨by decide, by decide, by decide⟩, by decide, by decide⟩
  obtain ⟨hpixels, -, -⟩ := putchar_shows cellInfo 0x1000 0x4000 dotFont [65, 10, 65] hdisplayed
    (by decide)
  refine ⟨by decide, ?_, ?_⟩
  · rw [hpixels 1 (by decide) 1 (by decide)]
    decide
  · rw [hpixels 2 (by decide) 1 (by decide)]
    decide

end BayosKernel
