import BayosKernel.Framebuffer

/-!
What `clear` blanks.

It takes the rows to be one after the other, where `write_pixel` puts them `pitch` bytes apart.
-/

namespace BayosKernel

open Foundation

/-- What the buffer holds for a pixel. -/
def Screen.pixel (s : Screen) (x y : Nat) : Nat := s.mem.load 4 (s.fb.pixelAddr x y)

/-- Every pixel that is seen is zero. -/
def Screen.Blank (s : Screen) : Prop :=
  ∀ x < s.fb.info.width, ∀ y < s.fb.info.height, s.pixel x y = 0

/-- Some pixel of a row comes after as many pixels as there are in all the rows. -/
theorem exists_behind_rows {width height words : Nat} (hwords : width < words)
    (hheight : 2 ≤ height) (hwidth : 0 < width) :
    width * height ≤ (width - 1) + (height - 1) * words := by
  obtain ⟨rows, rfl⟩ := Nat.exists_eq_add_of_le hheight
  have hpad : (rows + 1) * (width + 1) ≤ (rows + 1) * words := Nat.mul_le_mul_left _ hwords
  have hsplit : (rows + 1) * (width + 1) = width * (2 + rows) - width + (rows + 1) := by
    rw [Nat.mul_add width, Nat.mul_comm width 2, Nat.add_mul, Nat.mul_add rows, Nat.mul_comm rows]
    omega
  have hpos : width ≤ width * (2 + rows) := Nat.le_mul_of_pos_right _ (by omega)
  rw [show 2 + rows - 1 = rows + 1 by omega]
  omega

/-- Rows without a gap have all their pixels among the first. -/
theorem not_behind_rows {width height x y : Nat} (hx : x < width) (hy : y < height) :
    x + y * width < width * height := by
  have hrow : (y + 1) * width ≤ height * width := Nat.mul_le_mul_right _ hy
  rw [Nat.succ_mul, Nat.mul_comm height] at hrow
  omega

/-- The pixels have room in the buffer. -/
theorem FramebufferInfo.Fits.pixels_le {info : FramebufferInfo} {buffer : Nat}
    (h : info.Fits buffer) : 4 * (info.width * info.height) ≤ info.pitch * info.height := by
  rw [← Nat.mul_assoc]
  exact Nat.mul_le_mul_right _ h.wide

section Clearing

variable {fb : Framebuffer} {m : ByteMemory} {written : List PixelStore} {x y : Nat}

/-- The bytes that are cleared are as many as there are pixels, four for each. -/
theorem clear_mem (hbpp : fb.info.bpp = 32) (hfits : fb.info.Fits fb.buffer)
    (hbuffer : 0 < fb.buffer) :
    (Screen.clear ⟨fb, m, written⟩).mem =
      m.memset fb.buffer 0 (4 * (fb.info.width * fb.info.height)) := by
  have hsize := hfits.pixels_le
  have hinside := hfits.inside
  rw [Screen.clear, hbpp]
  by_cases hheight : fb.info.height = 0
  · simp [hheight, mul64]
  have hrow : 4 * fb.info.width ≤ 4 * (fb.info.width * fb.info.height) :=
    Nat.mul_le_mul_left _ (Nat.le_mul_of_pos_right _ (by omega))
  simp only [Nat.reduceDiv]
  rw [@mul64_eq 4 _ (by omega), mul64_eq (by rw [Nat.mul_assoc]; omega), Nat.mul_assoc]

/-- A pixel is cleared, or it stays as it was. -/
theorem pixel_clear (hbpp : fb.info.bpp = 32) (hfits : fb.info.Fits fb.buffer)
    (hbuffer : 0 < fb.buffer) (hx : x < fb.info.width) (hy : y < fb.info.height) :
    (Screen.clear ⟨fb, m, written⟩).pixel x y =
      if fb.info.width * fb.info.height ≤ x + y * (fb.info.pitch / 4) then
        Screen.pixel ⟨fb, m, written⟩ x y
      else 0 := by
  obtain ⟨haddr, -⟩ := hfits.pixelAddr_eq hx hy
  rw [Screen.pixel, clear_mem hbpp hfits hbuffer]
  show ByteMemory.load _ 4 (fb.pixelAddr x y) = _
  split
  · exact ByteMemory.load_congr fun a ha _ => ByteMemory.memset_outside _ (by omega)
  · exact ByteMemory.load_zero fun a ha hlt => ByteMemory.memset_inside _ (by omega)

/-- The pixels behind the cleared ones are on no screen without padding. -/
theorem padding_iff (hfits : fb.info.Fits fb.buffer) :
    (∃ x < fb.info.width, ∃ y < fb.info.height,
        fb.info.width * fb.info.height ≤ x + y * (fb.info.pitch / 4)) ↔
      ¬ (fb.info.pitch = 4 * fb.info.width ∨ fb.info.height ≤ 1 ∨ fb.info.width = 0) := by
  obtain ⟨⟨words, hwords⟩, hwide, -⟩ := hfits
  rw [show fb.info.pitch / 4 = words by omega]
  constructor
  · intro ⟨x, hx, y, hy, hbehind⟩ hor
    rcases hor with hpitch | hheight | hwidth
    · rw [show words = fb.info.width by omega] at hbehind
      exact absurd (not_behind_rows hx hy) (by omega)
    · rw [show y = 0 by omega, show fb.info.height = 1 by omega] at hbehind
      omega
    · omega
  · intro hnone
    exact ⟨fb.info.width - 1, by omega, fb.info.height - 1, by omega,
      exists_behind_rows (by omega) (by omega) (by omega)⟩

/-- Clearing stays in the buffer. It blanks the screen when the pixels that the padding of the rows
moves behind the cleared bytes were blank, which every screen has when no pixel is moved there. -/
theorem clear_blank_iff (hbpp : fb.info.bpp = 32) (hfits : fb.info.Fits fb.buffer)
    (hbuffer : 0 < fb.buffer) :
    (∀ m a, (a < fb.buffer ∨ fb.buffer + fb.info.pitch * fb.info.height ≤ a) →
      (Screen.clear ⟨fb, m, written⟩).mem a = m a) ∧
    (∀ m, (Screen.clear ⟨fb, m, written⟩).Blank ↔
      ∀ x < fb.info.width, ∀ y < fb.info.height,
        fb.info.width * fb.info.height ≤ x + y * (fb.info.pitch / 4) →
          Screen.pixel ⟨fb, m, written⟩ x y = 0) ∧
    ((∀ m, (Screen.clear ⟨fb, m, written⟩).Blank) ↔
      fb.info.pitch = 4 * fb.info.width ∨ fb.info.height ≤ 1 ∨ fb.info.width = 0) := by
  have hblank : ∀ m, (Screen.clear ⟨fb, m, written⟩).Blank ↔
      ∀ x < fb.info.width, ∀ y < fb.info.height,
        fb.info.width * fb.info.height ≤ x + y * (fb.info.pitch / 4) →
          Screen.pixel ⟨fb, m, written⟩ x y = 0 := by
    refine fun m => forall_congr' fun x => forall_congr' fun hx => forall_congr' fun y =>
      forall_congr' fun hy => ?_
    rw [pixel_clear hbpp hfits hbuffer hx hy]
    split
    · rename_i hbehind
      exact ⟨fun h _ => h, fun h => h hbehind⟩
    · rename_i hbehind
      exact ⟨fun _ h => absurd h hbehind, fun _ => rfl⟩
  refine ⟨fun m a ha => ?_, hblank, ?_⟩
  · have hsize := hfits.pixels_le
    rw [clear_mem hbpp hfits hbuffer]
    exact ByteMemory.memset_outside _ (by omega)
  · rw [← not_iff_not, ← padding_iff hfits]
    constructor
    · intro hnot
      apply Classical.byContradiction
      intro hnone
      exact hnot fun m => (hblank m).mpr fun x hx y hy hbehind =>
        absurd ⟨x, hx, y, hy, hbehind⟩ hnone
    · intro ⟨x, hx, y, hy, hbehind⟩ hall
      -- on a screen of set bytes the pixel is seen
      have hpixel := (hblank fun _ => 0xff).mp (hall _) x hx y hy hbehind
      have hbyte : (0xff : UInt8) = 0 :=
        ByteMemory.load_eq_zero_iff.mp hpixel _ (Nat.le_refl _) (by omega)
      exact absurd hbyte (by decide)

end Clearing

/-- Four bytes of padding for each row. -/
def paddedInfo : FramebufferInfo := ⟨9, 17, 32, 40⟩

/-- The last pixel of the last row keeps its color. -/
theorem paddedScreen_notBlank :
    paddedInfo.bpp = 32 ∧ paddedInfo.Fits 0x1000 ∧
      ¬ ∀ m, (Screen.clear ⟨⟨paddedInfo, 1, 1, 0x1000⟩, m, []⟩).Blank := by
  refine ⟨rfl, ⟨by decide, by decide, by decide⟩, fun h => ?_⟩
  have hlast := h (fun _ => 0xff) 8 (by decide) 16 (by decide)
  exact absurd hlast (by decide)

/-- Without padding the screen is blank, and with it when it was. -/
theorem clear_blank_iff_cell :
    (∀ m, (Screen.clear ⟨⟨cellInfo, 1, 1, 0x1000⟩, m, []⟩).Blank) ∧
      (Screen.clear ⟨⟨paddedInfo, 1, 1, 0x1000⟩, fun _ => 0, []⟩).Blank := by
  constructor
  · obtain ⟨-, -, hall⟩ := @clear_blank_iff ⟨cellInfo, 1, 1, 0x1000⟩ [] rfl
      ⟨by decide, by decide, by decide⟩ (by decide)
    exact hall.mpr (.inl rfl)
  · obtain ⟨-, hblank, -⟩ := @clear_blank_iff ⟨paddedInfo, 1, 1, 0x1000⟩ [] rfl
      ⟨by decide, by decide, by decide⟩ (by decide)
    exact (hblank _).mpr fun _ _ _ _ _ => ByteMemory.load_zero fun _ _ _ => rfl

end BayosKernel
