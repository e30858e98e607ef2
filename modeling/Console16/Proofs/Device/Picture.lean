import Console16.Device.Framebuffer
import Console16.Proofs.Device.Telling
import Mathlib.Algebra.Order.Ring.Nat
import Mathlib.Data.List.Basic

/-!
# Console16.Proofs.Device.Picture

The display after any pixels were plotted, and the file that it is saved as. Every position of the
display shows the last color that was plotted there; what is plotted outside is counted and shows
nowhere. The file has three bytes for each position, row after row, behind a header of fifteen.

* `Framebuffer.pixel?_tells`: plots, seen from one position.
* `Framebuffer.ppm_eq`: the rows of the file, one after the other, are all pixels in order.
* `Framebuffer.ppm_at`: the bytes of one pixel in the file.
* `display_shows_last_plots`: display and file after every sequence of plots.
-/

namespace Console16

/-- The pixel was plotted at this position. -/
def PixelEvent.At (e : PixelEvent) (x y : Nat) : Prop :=
  e.x.toNat = x ∧ e.y.toNat = y

instance (e : PixelEvent) (x y : Nat) : Decidable (e.At x y) :=
  inferInstanceAs (Decidable (_ ∧ _))

section
variable {α β : Type} {f : α → List β} {n : Nat}

theorem length_flatMap_blocks (hf : ∀ a, (f a).length = n) (xs : List α) :
    (xs.flatMap f).length = n * xs.length := by
  simp [List.length_flatMap, hf, Nat.mul_comm]

theorem take_drop_flatMap (hf : ∀ a, (f a).length = n) {xs : List α} {i : Nat}
    (h : i < xs.length) : ((xs.flatMap f).drop (n * i)).take n = f xs[i] := by
  have hsplit : xs.flatMap f = (xs.take i).flatMap f ++ (f xs[i] ++ (xs.drop (i + 1)).flatMap f) := by
    rw [← List.flatMap_cons, ← List.drop_eq_getElem_cons h, ← List.flatMap_append,
      List.take_append_drop]
  have hbefore : ((xs.take i).flatMap f).length = n * i := by
    rw [length_flatMap_blocks hf, List.length_take, Nat.min_eq_left (Nat.le_of_lt h)]
  rw [hsplit, List.drop_left' hbefore, List.take_left' (hf _)]

/-- Pieces of one length, one after the other, are the list they are cut from. -/
theorem flatMap_range_take_drop (xs : List α) (width count : Nat) :
    (List.range count).flatMap (fun i => (xs.drop (width * i)).take width) =
      xs.take (width * count) := by
  induction count with
  | zero => rfl
  | succ count ih =>
    rw [List.range_succ, List.flatMap_append, ih, List.flatMap_singleton, Nat.mul_succ,
      List.take_add]

end

namespace Framebuffer

variable {f : Framebuffer} {x y : Nat} {c : Color}

/-- The display after some pixels were plotted. -/
def after (f : Framebuffer) (events : List PixelEvent) : Framebuffer :=
  events.foldl (fun f e => f.plot e.x e.y e.color) f

/-! ## The display -/

theorem writes_plot (f : Framebuffer) (x y : UInt16) (c : Color) :
    (f.plot x y c).writes = f.writes + 1 := by
  unfold plot
  split <;> rfl

theorem writes_after (f : Framebuffer) (events : List PixelEvent) :
    (f.after events).writes = f.writes + events.length := by
  induction events generalizing f with
  | nil => rfl
  | cons e events ih =>
    have h := ih (f.plot e.x e.y e.color)
    rw [writes_plot, Nat.add_assoc, Nat.add_comm 1] at h
    exact h

theorem isSome_pixel?_iff (f : Framebuffer) (x y : Nat) :
    (f.pixel? x y).isSome ↔ x < screenWidth ∧ y < screenHeight := by
  unfold pixel?
  by_cases h : x < screenWidth ∧ y < screenHeight
  · simp [h]
  · simp only [h, dite_false, Option.isSome_none, Bool.false_eq_true]

theorem pixel?_plot_event (hx : x < screenWidth) (hy : y < screenHeight) (f : Framebuffer)
    (e : PixelEvent) :
    (f.plot e.x e.y e.color).pixel? x y = if e.At x y then some e.color else f.pixel? x y :=
  pixel?_plot f e.x e.y e.color hx hy

theorem pixel?_tells (hx : x < screenWidth) (hy : y < screenHeight) :
    Tells (fun (f : Framebuffer) (e : PixelEvent) => f.plot e.x e.y e.color)
      (fun f => f.pixel? x y) (fun _ e => e.At x y) (fun e => some e.color) where
  steady _ _ _ := Iff.rfl
  told f e h := by rw [pixel?_plot_event hx hy, if_pos h]
  untold f e h := by rw [pixel?_plot_event hx hy, if_neg h]

/-! ## The file -/

theorem length_rgb (c : Color) : c.rgb.length = 3 := rfl

theorem length_ppmHeader : (ppmHeader.toList.map Char.toUInt8).length = 15 := by
  decide

theorem ppmRow_eq (f : Framebuffer) (y : Nat) :
    f.ppmRow y = ((f.pixels.toList.drop (screenWidth * y)).take screenWidth).flatMap Color.rgb := by
  rw [ppmRow, Array.toList_extract, List.extract_eq_take_drop, ← Nat.mul_sub, Nat.add_sub_cancel_left,
    Nat.mul_one]
  rfl

/-- The rows one after the other are the pixels one after the other. -/
theorem ppm_eq (f : Framebuffer) :
    f.ppm = ppmHeader.toList.map Char.toUInt8 ++ f.pixels.toList.flatMap Color.rgb := by
  have hrows : ∀ count, (List.range count).flatMap f.ppmRow =
      (f.pixels.toList.take (screenWidth * count)).flatMap Color.rgb := by
    intro count
    rw [← flatMap_range_take_drop, List.flatMap_assoc]
    exact List.flatMap_congr fun y _ => f.ppmRow_eq y
  rw [ppm, hrows, List.take_of_length_le (by rw [Vector.length_toList])]

theorem ppm_header (f : Framebuffer) :
    f.ppm.take 15 = "P6\n256 192\n255\n".toList.map Char.toUInt8 := by
  rw [ppm_eq, List.take_left' length_ppmHeader]
  rfl

theorem length_ppm (f : Framebuffer) : f.ppm.length = 15 + 3 * (screenWidth * screenHeight) := by
  rw [ppm_eq, List.length_append, length_ppmHeader, length_flatMap_blocks length_rgb,
    Vector.length_toList]

theorem ppm_at (h : f.pixel? x y = some c) :
    (f.ppm.drop (15 + 3 * (screenWidth * y + x))).take 3 = c.rgb := by
  unfold pixel? at h
  split at h
  · rename_i hin
    cases h
    have hindex : screenWidth * y + x < f.pixels.toList.length := by
      rw [Vector.length_toList]
      exact (index x y hin).isLt
    rw [ppm_eq, ← List.drop_drop, List.drop_left' length_ppmHeader,
      take_drop_flatMap length_rgb hindex, Vector.getElem_toList]
    rfl
  · cases h

end Framebuffer

/-- After any plots on a blank display, each position of it shows the last color plotted there, or
color 0 if there is none, and no other position shows anything. Its file is the header and, for each
position in its place, the three bytes of the color that is shown there. -/
theorem display_shows_last_plots (events : List PixelEvent) :
    (Framebuffer.blank.after events).writes = events.length ∧
    (∀ x y, x < 256 → y < 192 → (∀ e ∈ events, ¬e.At x y) →
      (Framebuffer.blank.after events).pixel? x y = some ⟨0⟩) ∧
    (∀ x y before e later, x < 256 → y < 192 → events = before ++ e :: later → e.At x y →
      (∀ e ∈ later, ¬e.At x y) →
      (Framebuffer.blank.after events).pixel? x y = some e.color) ∧
    (∀ x y, ¬(x < 256 ∧ y < 192) → (Framebuffer.blank.after events).pixel? x y = none) ∧
    (Framebuffer.blank.after events).ppm.length = 15 + 256 * 192 * 3 ∧
    (Framebuffer.blank.after events).ppm.take 15 =
      "P6\n256 192\n255\n".toList.map Char.toUInt8 ∧
    ∀ x y c, (Framebuffer.blank.after events).pixel? x y = some c →
      ((Framebuffer.blank.after events).ppm.drop (15 + 3 * (256 * y + x))).take 3 = c.rgb := by
  refine ⟨?_, ?_, ?_, ?_, ?_, ?_, ?_⟩
  · rw [Framebuffer.writes_after]
    exact Nat.zero_add _
  · intro x y hx hy h
    have hkept : (Framebuffer.blank.after events).pixel? x y = Framebuffer.blank.pixel? x y :=
      (Framebuffer.pixel?_tells hx hy).foldl_of_none h
    rw [hkept]
    exact Framebuffer.pixel?_blank hx hy
  · rintro x y before e later hx hy rfl he hlater
    exact (Framebuffer.pixel?_tells hx hy).foldl_of_last he hlater
  · intro x y h
    rw [← Option.not_isSome_iff_eq_none, Framebuffer.isSome_pixel?_iff]
    exact h
  · exact Framebuffer.length_ppm _
  · exact Framebuffer.ppm_header _
  · intro x y c h
    exact Framebuffer.ppm_at h

/-- The last position twice, and two plots that miss the display by one column and by one row. -/
def cornerPlots : List PixelEvent :=
  [⟨255, 191, ⟨0x1c⟩⟩, ⟨256, 0, ⟨0xff⟩⟩, ⟨255, 191, ⟨0xe0⟩⟩, ⟨0, 192, ⟨0xff⟩⟩]

theorem display_shows_last_plots_of_corner :
    (Framebuffer.blank.after cornerPlots).writes = 4 ∧
      (Framebuffer.blank.after cornerPlots).pixel? 0 1 = some ⟨0⟩ ∧
      (Framebuffer.blank.after cornerPlots).pixel? 255 191 = some ⟨0xe0⟩ ∧
      (Framebuffer.blank.after cornerPlots).pixel? 256 0 = none ∧
      ((Framebuffer.blank.after cornerPlots).ppm.drop (15 + 3 * (256 * 191 + 255))).take 3 =
        [0xe0, 0, 0] := by
  obtain ⟨hwrites, hblank, hlast, houtside, -, -, hfile⟩ := display_shows_last_plots cornerPlots
  have hcorner : (Framebuffer.blank.after cornerPlots).pixel? 255 191 = some ⟨0xe0⟩ :=
    hlast 255 191 [⟨255, 191, ⟨0x1c⟩⟩, ⟨256, 0, ⟨0xff⟩⟩] ⟨255, 191, ⟨0xe0⟩⟩ [⟨0, 192, ⟨0xff⟩⟩]
      (by decide) (by decide) rfl (by decide) (by decide)
  refine ⟨hwrites, ?_, hcorner, ?_, ?_⟩
  · exact hblank 0 1 (by decide) (by decide) (by decide)
  · exact houtside 256 0 (by decide)
  · exact hfile 255 191 ⟨0xe0⟩ hcorner

end Console16
