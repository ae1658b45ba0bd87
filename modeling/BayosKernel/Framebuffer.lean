import BayosKernel.Foundation.ByteMemory
import Mathlib.Data.Nat.Bitwise
import Mathlib.Tactic.Ring

/-!
`framebuffer.c`: characters drawn as pixels, and the screen cleared.

`font` is the address of the symbol at the start of the font. `written` is a list of the
pixels that were written, which the code does not keep.
-/

namespace BayosKernel

open Foundation

structure FramebufferInfo where
  width : Nat
  height : Nat
  bpp : Nat
  pitch : Nat
  deriving DecidableEq, Repr

/-- The `framebuffer`, without the pointer to `putchar`. -/
structure Framebuffer where
  info : FramebufferInfo
  xPos : Nat
  yPos : Nat
  buffer : Nat
  deriving DecidableEq, Repr

/-- A pixel and the address that it was stored at. -/
structure PixelStore where
  x : Nat
  y : Nat
  addr : Nat
  deriving DecidableEq, Repr

structure Screen where
  fb : Framebuffer
  mem : ByteMemory
  written : List PixelStore

abbrev lineSpacing : Nat := 2

abbrev letterSpacing : Nat := 0

abbrev borderPadding : Nat := 1

abbrev charRasterHeight : Nat := 16

abbrev charRasterWidth : Nat := 8

/-- `sizeof(PSF1_header)`. -/
abbrev sizeofPsf1Header : Nat := 4

/-- `&arr[x + (y * (fb->info.pitch / 4))]`. -/
def Framebuffer.pixelAddr (fb : Framebuffer) (x y : Nat) : Nat :=
  add64 fb.buffer (mul64 (add64 x (mul64 y (fb.info.pitch / 4))) 4)

namespace Screen

def carriageReturn (s : Screen) : Screen := { s with fb := { s.fb with xPos := borderPadding } }

def newline (s : Screen) : Screen :=
  let yPos := add64 s.fb.yPos (charRasterHeight + lineSpacing)
  carriageReturn { s with fb := { s.fb with yPos := yPos } }

def clear (s : Screen) : Screen :=
  let size := mul64 (mul64 (s.fb.info.bpp / 8) s.fb.info.width) s.fb.info.height
  { s with fb := { s.fb with xPos := borderPadding, yPos := borderPadding },
           mem := s.mem.memset s.fb.buffer 0 size }

def writePixel (s : Screen) (x y color : Nat) : Screen :=
  let addr := s.fb.pixelAddr x y
  { s with mem := s.mem.store 4 addr color, written := ⟨x, y, addr⟩ :: s.written }

/-- The inner loop of `write_char` from `x` on, with `left` columns to go. -/
def writeRowFrom (color y : Nat) (pixelRow : UInt8) : Nat → Nat → Screen → Screen
  | 0, _, s => s
  | left + 1, x, s =>
      let s :=
        if pixelRow.toNat.testBit (7 - x) then
          s.writePixel (add64 s.fb.xPos x) (add64 s.fb.yPos y) color
        else s
      writeRowFrom color y pixelRow left (x + 1) s

/-- The outer loop from `y` on, with `left` rows to go. -/
def writeRowsFrom (color glyph : Nat) : Nat → Nat → Screen → Screen
  | 0, _, s => s
  | left + 1, y, s =>
      let s := writeRowFrom color y (s.mem (glyph + y)) charRasterWidth 0 s
      writeRowsFrom color glyph left (y + 1) s

def writeChar (font : Nat) (s : Screen) (c color : Nat) : Screen :=
  let bytesPerGlyph := charRasterWidth * charRasterHeight / 8
  let glyph := font + sizeofPsf1Header + c * bytesPerGlyph
  let s := writeRowsFrom color glyph charRasterHeight 0 s
  { s with fb := { s.fb with xPos := add64 s.fb.xPos (charRasterWidth + letterSpacing) } }

/-- A character is cut to a byte; `\n` and `\r` move the cursor only. -/
def putchar (font : Nat) (s : Screen) (c : Int) : Screen :=
  if c = 10 then s.newline
  else if c = 13 then s.carriageReturn
  else
    let newXpos := add64 s.fb.xPos charRasterWidth
    let s := if newXpos ≥ s.fb.info.width then s.newline else s
    let newYpos := add64 (add64 s.fb.yPos charRasterHeight) borderPadding
    let s := if newYpos ≥ s.fb.info.height then s.clear else s
    s.writeChar font (c % 0x100).toNat 0xffffffff

end Screen

/-- The positions are set by `clear`. -/
def framebufferInit (info : FramebufferInfo) (address : Nat) (m : ByteMemory) : Screen :=
  Screen.clear ⟨⟨info, 0, 0, address⟩, m, []⟩

/-- The buffer has room for the rows, which have room for the pixels. -/
structure FramebufferInfo.Fits (info : FramebufferInfo) (buffer : Nat) : Prop where
  aligned : 4 ∣ info.pitch
  wide : 4 * info.width ≤ info.pitch
  inside : buffer + info.pitch * info.height ≤ 0x10000000000000000

namespace FramebufferInfo.Fits

variable {fb : Framebuffer} {x y : Nat}

/-- A visible pixel lies in the buffer, where no sum wraps. -/
theorem pixelAddr_eq (h : fb.info.Fits fb.buffer) (hx : x < fb.info.width)
    (hy : y < fb.info.height) :
    fb.pixelAddr x y = fb.buffer + 4 * (x + y * (fb.info.pitch / 4)) ∧
      4 * (x + y * (fb.info.pitch / 4)) + 4 ≤ fb.info.pitch * fb.info.height := by
  obtain ⟨⟨words, hwords⟩, hwide, hinside⟩ := h
  have hdiv : fb.info.pitch / 4 = words := by omega
  have hrow : (y + 1) * words ≤ fb.info.height * words := Nat.mul_le_mul_right _ hy
  have hsize : fb.info.pitch * fb.info.height = 4 * (fb.info.height * words) := by
    rw [hwords]
    ring
  rw [Nat.succ_mul] at hrow
  have hline : mul64 y words = y * words := mul64_eq (by omega)
  have hindex : add64 x (y * words) = x + y * words := add64_eq (by omega)
  have hoffset : mul64 (x + y * words) 4 = (x + y * words) * 4 := mul64_eq (by omega)
  rw [Framebuffer.pixelAddr, hdiv, hline, hindex, hoffset, add64_eq (by omega)]
  omega

end FramebufferInfo.Fits

/-- What was drawn on the screen so far is visible, and nothing else was written. -/
structure Contained (info : FramebufferInfo) (buffer : Nat) (m : ByteMemory) (s : Screen) :
    Prop where
  sameInfo : s.fb.info = info
  sameBuffer : s.fb.buffer = buffer
  visible : ∀ p ∈ s.written, p.x < info.width ∧ p.y < info.height ∧ p.addr = s.fb.pixelAddr p.x p.y
  outside : info.Fits buffer → info.bpp ≤ 32 →
    ∀ a, (a < buffer ∨ buffer + info.pitch * info.height ≤ a) → s.mem a = m a

/-- The cursor has come no further than `n` characters take it. -/
structure CursorWithin (n : Nat) (s : Screen) : Prop where
  x : s.fb.xPos ≤ 1 + 8 * n
  y : s.fb.yPos ≤ 1 + 18 * n

section Drawing

variable {info : FramebufferInfo} {buffer font glyph color c left x y n : Nat} {m : ByteMemory}
  {s : Screen} {row : UInt8}

theorem Contained.fits (h : Contained info buffer m s) (hfits : info.Fits buffer) :
    s.fb.info.Fits s.fb.buffer := by
  rw [h.sameInfo, h.sameBuffer]
  exact hfits

theorem Contained.pixel_inside (h : Contained info buffer m s) (hfits : info.Fits buffer)
    (hx : x < info.width) (hy : y < info.height) :
    buffer ≤ s.fb.pixelAddr x y ∧ s.fb.pixelAddr x y + 4 ≤ buffer + info.pitch * info.height := by
  have hfits' := h.fits hfits
  rw [← h.sameInfo] at hx hy
  obtain ⟨haddr, hend⟩ := hfits'.pixelAddr_eq hx hy
  rw [← h.sameInfo, ← h.sameBuffer]
  omega

/-- Moving the cursor writes nothing. -/
theorem Contained.move (h : Contained info buffer m s) (xPos yPos : Nat) :
    Contained info buffer m { s with fb := { s.fb with xPos := xPos, yPos := yPos } } :=
  ⟨h.sameInfo, h.sameBuffer, h.visible, h.outside⟩

theorem Contained.clear (h : Contained info buffer m s) : Contained info buffer m s.clear := by
  refine ⟨h.sameInfo, h.sameBuffer, h.visible, fun hfits hbpp a ha => ?_⟩
  have hfour : info.bpp / 8 ≤ 4 := by omega
  have hrow : mul64 (info.bpp / 8) info.width ≤ info.pitch :=
    (Nat.mod_le _ _).trans ((Nat.mul_le_mul_right _ hfour).trans hfits.wide)
  have hsize : mul64 (mul64 (info.bpp / 8) info.width) info.height ≤ info.pitch * info.height :=
    (Nat.mod_le _ _).trans (Nat.mul_le_mul_right _ hrow)
  rw [← h.outside hfits hbpp a ha, Screen.clear, h.sameInfo, h.sameBuffer]
  exact ByteMemory.memset_outside _ (by omega)

theorem Contained.writePixel (h : Contained info buffer m s) (hx : x < info.width)
    (hy : y < info.height) : Contained info buffer m (s.writePixel x y color) := by
  refine ⟨h.sameInfo, h.sameBuffer, fun p hp => ?_, fun hfits hbpp a ha => ?_⟩
  · rcases List.mem_cons.mp hp with rfl | hp
    · exact ⟨hx, hy, rfl⟩
    · exact h.visible p hp
  · have hinside := h.pixel_inside hfits hx hy
    rw [← h.outside hfits hbpp a ha]
    exact ByteMemory.store_outside _ (by omega)

/-- A row of a glyph is drawn from the cursor on, which stays. -/
theorem Contained.writeRowFrom (h : Contained info buffer m s)
    (hx : ∀ j < x + left, add64 s.fb.xPos j < info.width) (hy : add64 s.fb.yPos y < info.height) :
    Contained info buffer m (Screen.writeRowFrom color y row left x s) ∧
      (Screen.writeRowFrom color y row left x s).fb = s.fb := by
  induction left generalizing x s with
  | zero => exact ⟨h, rfl⟩
  | succ left ih =>
      rw [Screen.writeRowFrom]
      split
      · exact ih (h.writePixel (hx x (by omega)) hy) (fun j hj => hx j (by omega)) hy
      · exact ih h (fun j hj => hx j (by omega)) hy

theorem Contained.writeRowsFrom (h : Contained info buffer m s)
    (hx : ∀ j < 8, add64 s.fb.xPos j < info.width)
    (hy : ∀ j < y + left, add64 s.fb.yPos j < info.height) :
    Contained info buffer m (Screen.writeRowsFrom color glyph left y s) ∧
      (Screen.writeRowsFrom color glyph left y s).fb = s.fb := by
  induction left generalizing y s with
  | zero => exact ⟨h, rfl⟩
  | succ left ih =>
      obtain ⟨hrow, hfb⟩ := @Contained.writeRowFrom info buffer color charRasterWidth 0 y m s
        (s.mem (glyph + y)) h (fun j hj => hx j (by simpa using hj)) (hy y (by omega))
      rw [Screen.writeRowsFrom]
      obtain ⟨hrows, hfb'⟩ := ih (y := y + 1) hrow (by rw [hfb]; exact hx) (fun j hj => by
        rw [hfb]
        exact hy j (by omega))
      exact ⟨hrows, hfb'.trans hfb⟩

/-- A glyph is visible when the cell at the cursor is. -/
theorem Contained.writeChar (h : Contained info buffer m s)
    (hx : s.fb.xPos + 7 < info.width) (hy : s.fb.yPos + 15 < info.height)
    (hbound : s.fb.xPos + 7 < 0x10000000000000000 ∧ s.fb.yPos + 15 < 0x10000000000000000) :
    Contained info buffer m (s.writeChar font c color) ∧
      (s.writeChar font c color).fb.xPos = add64 s.fb.xPos 8 ∧
      (s.writeChar font c color).fb.yPos = s.fb.yPos := by
  obtain ⟨hrows, hfb⟩ := @Contained.writeRowsFrom info buffer
    (font + sizeofPsf1Header + c * (charRasterWidth * charRasterHeight / 8)) color
    charRasterHeight 0 m s h (fun j hj => by rw [add64_eq (by omega)]; omega) (fun j hj => by
      simp only [charRasterHeight] at hj
      rw [add64_eq (by omega)]
      omega)
  refine ⟨hrows.move _ _, ?_, ?_⟩
  · simp only [Screen.writeChar, hfb]
    rfl
  · simp only [Screen.writeChar, hfb]

theorem CursorWithin.carriageReturn (h : CursorWithin n s) : CursorWithin n s.carriageReturn :=
  ⟨Nat.le_add_right 1 _, h.y⟩

theorem CursorWithin.newline (h : CursorWithin n s) (hn : n < 0x100000000) :
    CursorWithin (n + 1) s.newline := by
  have hy := h.y
  have hnew : s.newline.fb.yPos = add64 s.fb.yPos 18 := rfl
  rw [add64_eq (by omega)] at hnew
  exact ⟨Nat.le_add_right 1 _, by omega⟩

theorem CursorWithin.mono (h : CursorWithin n s) : CursorWithin (n + 1) s :=
  ⟨h.x.trans (by omega), h.y.trans (by omega)⟩

/-- The line is wrapped where the cell does not fit. -/
theorem Contained.wrapped (h : Contained info buffer m s) (hwidth : 9 ≤ info.width)
    (hcursor : CursorWithin n s) (hn : n < 0x100000000) :
    ∃ s₁, (if add64 s.fb.xPos charRasterWidth ≥ s.fb.info.width then s.newline else s) = s₁ ∧
      Contained info buffer m s₁ ∧ s₁.fb.xPos + 7 < info.width ∧ s₁.fb.xPos ≤ 1 + 8 * n ∧
      s₁.fb.yPos ≤ 1 + 18 * (n + 1) := by
  rw [h.sameInfo, charRasterWidth]
  have hx := hcursor.x
  split
  · have hnew : s.newline.fb.xPos = 1 := rfl
    exact ⟨_, rfl, h.move _ _, by omega, by omega, (hcursor.newline hn).y⟩
  · rename_i hfits
    rw [add64_eq (by omega)] at hfits
    exact ⟨s, rfl, h, by omega, hx, hcursor.mono.y⟩

/-- The screen is cleared where the cell does not fit. -/
theorem Contained.cleared (h : Contained info buffer m s) (hwidth : 9 ≤ info.width)
    (hheight : 17 ≤ info.height) (hn : n < 0x100000000) (hx : s.fb.xPos + 7 < info.width)
    (hxn : s.fb.xPos ≤ 1 + 8 * n) (hyn : s.fb.yPos ≤ 1 + 18 * (n + 1)) :
    ∃ s₁, (if add64 (add64 s.fb.yPos charRasterHeight) borderPadding ≥ s.fb.info.height then s.clear
        else s) = s₁ ∧
      Contained info buffer m s₁ ∧ s₁.fb.xPos + 7 < info.width ∧ s₁.fb.xPos ≤ 1 + 8 * n ∧
      s₁.fb.yPos + 15 < info.height ∧ s₁.fb.yPos ≤ 1 + 18 * (n + 1) := by
  rw [h.sameInfo, charRasterHeight, borderPadding]
  split
  · have hnewX : s.clear.fb.xPos = 1 := rfl
    have hnewY : s.clear.fb.yPos = 1 := rfl
    exact ⟨_, rfl, h.clear, by omega, by omega, by omega, by omega⟩
  · rename_i hfits
    rw [@add64_eq s.fb.yPos 16 (by omega), add64_eq (by omega)] at hfits
    exact ⟨s, rfl, h, hx, hxn, by omega, hyn⟩

/-- A character is drawn where its cell is on the screen, whatever the cursor was before. -/
theorem Contained.putchar (h : Contained info buffer m s) (hwidth : 9 ≤ info.width)
    (hheight : 17 ≤ info.height) (hcursor : CursorWithin n s) (hn : n < 0x100000000) (c : Int) :
    Contained info buffer m (s.putchar font c) ∧ CursorWithin (n + 1) (s.putchar font c) := by
  rw [Screen.putchar]
  split
  · exact ⟨h.move _ _, hcursor.newline hn⟩
  split
  · exact ⟨h.move _ _, hcursor.carriageReturn.mono⟩
  obtain ⟨s₁, hs₁, h₁, hx₁, hxn₁, hyn₁⟩ := h.wrapped hwidth hcursor hn
  obtain ⟨s₂, hs₂, h₂, hx₂, hxn₂, hy₂, hyn₂⟩ := h₁.cleared hwidth hheight hn hx₁ hxn₁ hyn₁
  simp only [hs₁, hs₂]
  obtain ⟨hdrawn, hx, hy⟩ := @Contained.writeChar info buffer font 0xffffffff (c % 0x100).toNat m s₂
    h₂ hx₂ hy₂ (by omega)
  rw [add64_eq (by omega)] at hx
  exact ⟨hdrawn, by omega, by omega⟩

/-- Every character moves the cursor a little, so its sums do not wrap. -/
theorem Contained.putchars (hwidth : 9 ≤ info.width) (hheight : 17 ≤ info.height) (text : List Int)
    (h : Contained info buffer m s) (hcursor : CursorWithin n s)
    (hn : n + text.length < 0x100000000) :
    Contained info buffer m (text.foldl (Screen.putchar font) s) := by
  induction text generalizing n s with
  | nil => exact h
  | cons c text ih =>
      rw [List.length_cons] at hn
      obtain ⟨hnext, hcursor'⟩ := @Contained.putchar info buffer font n m s h hwidth hheight hcursor
        (by omega) c
      exact ih hnext hcursor' (by omega)

theorem contained_framebufferInit :
    Contained info buffer m (framebufferInit info buffer m) ∧
      CursorWithin 0 (framebufferInit info buffer m) := by
  have hempty : Contained info buffer m ⟨⟨info, 0, 0, buffer⟩, m, []⟩ :=
    ⟨rfl, rfl, fun _ hp => absurd hp (List.not_mem_nil), fun _ _ _ _ => rfl⟩
  exact ⟨hempty.clear, Nat.le_refl 1, Nat.le_refl 1⟩

/-- Every pixel of a text is visible, so it lies in the buffer, as all that is stored does when a
pixel has no more than 32 bits. -/
theorem putchar_contained (hwidth : 9 ≤ info.width) (hheight : 17 ≤ info.height) (text : List Int)
    (htext : text.length < 0x100000000) :
    (∀ p ∈ (text.foldl (Screen.putchar font) (framebufferInit info buffer m)).written,
      p.x < info.width ∧ p.y < info.height) ∧
    (info.Fits buffer →
      (∀ p ∈ (text.foldl (Screen.putchar font) (framebufferInit info buffer m)).written,
        buffer ≤ p.addr ∧ p.addr + 4 ≤ buffer + info.pitch * info.height) ∧
      (info.bpp ≤ 32 → ∀ a, (a < buffer ∨ buffer + info.pitch * info.height ≤ a) →
        (text.foldl (Screen.putchar font) (framebufferInit info buffer m)).mem a = m a)) := by
  obtain ⟨hinit, hcursor⟩ := @contained_framebufferInit info buffer m
  have h := @Contained.putchars info buffer font 0 m _ hwidth hheight text hinit hcursor (by omega)
  refine ⟨fun p hp => ⟨(h.visible p hp).1, (h.visible p hp).2.1⟩, fun hfits => ⟨fun p hp => ?_, ?_⟩⟩
  · obtain ⟨hx, hy, haddr⟩ := h.visible p hp
    rw [haddr]
    exact h.pixel_inside hfits hx hy
  · exact h.outside hfits

end Drawing

/-- One cell of a glyph with a border fills this screen. -/
def cellInfo : FramebufferInfo := ⟨9, 17, 32, 36⟩

/-- `A` is a dot in the corner of its cell in the font at `0x4000`. -/
def dotFont : ByteMemory := fun a => if a = 0x4000 + 4 + 65 * 16 then 0x80 else 0

/-- The second `A` begins below the screen, which is cleared for it. -/
theorem putchar_contained_lines :
    ([65, 10, 65].foldl (Screen.putchar 0x4000)
        (framebufferInit cellInfo 0x1000 dotFont)).written = [⟨1, 1, 0x1028⟩, ⟨1, 1, 0x1028⟩] ∧
      (∀ p ∈ ([65, 10, 65].foldl (Screen.putchar 0x4000)
          (framebufferInit cellInfo 0x1000 dotFont)).written,
        0x1000 ≤ p.addr ∧ p.addr + 4 ≤ 0x1000 + 36 * 17) := by
  obtain ⟨-, hbuffer⟩ := @putchar_contained cellInfo 0x1000 0x4000 dotFont (by decide) (by decide)
    [65, 10, 65] (by decide)
  exact ⟨by decide +kernel, (hbuffer ⟨by decide, by decide, by decide⟩).1⟩

end BayosKernel
