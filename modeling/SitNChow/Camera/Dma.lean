/-
The sizes of the camera's buffers (ll_cam.c for the ESP32-S3, cam_hal.c),
without PSRAM mode: `ll_cam_calc_rgb_dma` chooses the size of a DMA node,
and of the half-buffer whose end is reported by an event.

# What the choice has to keep

The driver takes a frame only if the half-buffers fill it exactly, so a
frame must be a whole number of them, and each a whole number of nodes
(`DmaSizes.Fits`). The loops that look for such sizes stop because the
smallest half-buffer always is one (`shrinkHalf_spec`): it holds one line,
or as many as the node that was found.
-/
import SitNChow.Camera.Driver
import Mathlib.Tactic.Ring

namespace SitNChow.Camera

-- ============================================================== the sizes

/-- `LCD_CAM_DMA_NODE_BUFFER_MAX_SIZE`; an item is one byte. -/
def nodeMax : Nat := 4092

/-- What `ll_cam_dma_sizes` sets. -/
structure DmaSizes where
  dmaNodeBufferSize : Nat
  dmaBufferSize : Nat
  dmaHalfBufferSize : Nat
  dmaHalfBufferCnt : Nat
deriving DecidableEq

/-- The loop `for (i = n; i > 0; i = i - 1)` up to its `break`. -/
def searchDown (fits : Nat → Bool) : Nat → Option Nat
  | 0 => none
  | i + 1 => if fits (i + 1) = true then some (i + 1) else searchDown fits i

/-- The loop that takes lines from a node until they divide the height. -/
def shrinkNode (height lineWidth : Nat) : (linesPerNode nodeSize : Nat) → Nat
  | 0, nodeSize => nodeSize
  | lines + 1, nodeSize =>
      if height % (lines + 1) = 0 then nodeSize
      else shrinkNode height lineWidth lines (lines * lineWidth)

/-- `node_size` and `nodes_per_line`. -/
def nodeSizes (height lineWidth : Nat) : Nat × Nat :=
  if nodeMax ≤ lineWidth then
    match searchDown (fun i => lineWidth % i == 0) nodeMax with
    | some i => (i, lineWidth / i)
    | none => (nodeMax, 1)
  else
    match searchDown (fun i => i % lineWidth == 0) nodeMax with
    | some i => (shrinkNode height lineWidth (i / lineWidth) i, 1)
    | none => (nodeMax, 1)

/-- The loop that takes as much as `dma_half_buffer_min` from a
half-buffer, until the height is a multiple of its lines. -/
def shrinkHalf (height lineWidth halfMin : Nat) : (fuel half : Nat) → Nat
  | 0, half => half
  | fuel + 1, half =>
      if height % (half / lineWidth) = 0 then half
      else shrinkHalf height lineWidth halfMin fuel (half - halfMin)

/-- `ll_cam_calc_rgb_dma`, for `CONFIG_CAMERA_DMA_BUFFER_SIZE_MAX`. -/
def llCamCalcRgbDma (bufferSizeMax width height inBytesPerPixel : Nat) :
    Option DmaSizes :=
  let lineWidth := width * inBytesPerPixel
  let (nodeSize, nodesPerLine) := nodeSizes height lineWidth
  let halfMax := bufferSizeMax / 2
  if halfMax < lineWidth then none
  else
    let halfMin := nodeSize * nodesPerLine
    let half := shrinkHalf height lineWidth halfMin (halfMax / halfMin)
      (halfMax / halfMin * halfMin)
    let bufferSize := 2 * halfMax / half * half
    some {
      dmaNodeBufferSize := nodeSize
      dmaBufferSize := bufferSize
      dmaHalfBufferSize := half
      dmaHalfBufferCnt := bufferSize / half }

/-- `camera_config_t` with the frame size, for a format that is stored as
it is received, and the range of the buffer size in Kconfig. -/
structure CameraConfig where
  fbCount : Nat
  grabLatest : Bool
  jpegMode : Bool
  width : Nat
  height : Nat
  bytesPerPixel : Nat
  bufferSizeMax : Nat
  fbCount_pos : 0 < fbCount
  width_pos : 0 < width
  height_pos : 0 < height
  bytesPerPixel_pos : 0 < bytesPerPixel
  bufferSizeMax_ge : 8192 ≤ bufferSizeMax

/-- `ll_cam_dma_sizes` -/
def llCamDmaSizes (cfg : CameraConfig) : Option DmaSizes :=
  if cfg.jpegMode = true then
    some {
      dmaNodeBufferSize := 16 * 1024 / 16
      dmaBufferSize := 16 * 1024
      dmaHalfBufferSize := 16 * 1024 / 16
      dmaHalfBufferCnt := 16 }
  else
    llCamCalcRgbDma cfg.bufferSizeMax cfg.width cfg.height cfg.bytesPerPixel

-- ============================================================== the loops

theorem searchDown_some {fits : Nat → Bool} {n i : Nat}
    (h : searchDown fits n = some i) : fits i = true ∧ 0 < i ∧ i ≤ n := by
  induction n with
  | zero => cases h
  | succ n ih =>
      rw [searchDown] at h
      split at h
      next hfits =>
        obtain rfl := Option.some.inj h
        exact ⟨hfits, Nat.succ_pos n, Nat.le_refl _⟩
      next =>
        obtain ⟨hfits, hpos, hle⟩ := ih h
        exact ⟨hfits, hpos, Nat.le_succ_of_le hle⟩

theorem searchDown_isSome {fits : Nat → Bool} {n i : Nat} (hpos : 0 < i)
    (hle : i ≤ n) (hfits : fits i = true) : ∃ j, searchDown fits n = some j := by
  induction n with
  | zero => omega
  | succ n ih =>
      rw [searchDown]
      by_cases hthis : fits (n + 1) = true
      · exact ⟨n + 1, if_pos hthis⟩
      · rw [if_neg hthis]
        refine ih ?_
        by_contra hlt
        obtain rfl : i = n + 1 := by omega
        exact hthis hfits

/-- A node keeps a number of lines that divides the height. -/
theorem shrinkNode_spec (height lineWidth : Nat) {lines : Nat}
    (hpos : 0 < lines) :
    ∃ k, 0 < k ∧ k ≤ lines ∧ k ∣ height
      ∧ shrinkNode height lineWidth lines (lines * lineWidth)
        = k * lineWidth := by
  induction lines with
  | zero => omega
  | succ lines ih =>
      rw [shrinkNode]
      by_cases hdvd : height % (lines + 1) = 0
      · rw [if_pos hdvd]
        exact ⟨lines + 1, hpos, Nat.le_refl _, Nat.dvd_of_mod_eq_zero hdvd, rfl⟩
      · rw [if_neg hdvd]
        have hlines : 0 < lines := by
          rcases Nat.eq_zero_or_pos lines with rfl | hlines
          · exact absurd (Nat.mod_one height) hdvd
          · exact hlines
        obtain ⟨k, hk, hle, hkh, heq⟩ := ih hlines
        exact ⟨k, hk, Nat.le_succ_of_le hle, hkh, heq⟩

/-- One node is at most 4092 bytes long, and the nodes of a smallest
half-buffer are whole lines, by whose number the height can be divided. -/
theorem nodeSizes_spec (height : Nat) {lineWidth : Nat}
    (hwidth : 0 < lineWidth) :
    ∃ lines, 0 < lines ∧ lines ∣ height
      ∧ (nodeSizes height lineWidth).1 * (nodeSizes height lineWidth).2
        = lines * lineWidth
      ∧ 0 < (nodeSizes height lineWidth).1
      ∧ (nodeSizes height lineWidth).1 ≤ nodeMax
      ∧ lines * lineWidth ≤ max nodeMax lineWidth := by
  rw [nodeSizes]
  by_cases hlong : nodeMax ≤ lineWidth
  · rw [if_pos hlong]
    obtain ⟨i, hi⟩ : ∃ i,
        searchDown (fun i => lineWidth % i == 0) nodeMax = some i :=
      searchDown_isSome Nat.one_pos (Nat.succ_le_succ (Nat.zero_le 4091))
        (beq_iff_eq.mpr (Nat.mod_one _))
    rw [hi]
    dsimp only
    obtain ⟨hfits, hpos, hle⟩ := searchDown_some hi
    refine ⟨1, Nat.one_pos, Nat.one_dvd _, ?_, hpos, hle, ?_⟩
    · rw [Nat.one_mul]
      exact Nat.mul_div_cancel' (Nat.dvd_of_mod_eq_zero (beq_iff_eq.mp hfits))
    · rw [Nat.one_mul]
      exact Nat.le_max_right _ _
  · rw [if_neg hlong]
    obtain ⟨i, hi⟩ : ∃ i,
        searchDown (fun i => i % lineWidth == 0) nodeMax = some i :=
      searchDown_isSome hwidth (by omega) (beq_iff_eq.mpr (Nat.mod_self _))
    rw [hi]
    dsimp only
    obtain ⟨hfits, hpos, hle⟩ := searchDown_some hi
    have hdvd := Nat.dvd_of_mod_eq_zero (beq_iff_eq.mp hfits)
    have hmul : i / lineWidth * lineWidth = i := Nat.div_mul_cancel hdvd
    obtain ⟨k, hk, hkle, hkh, heq⟩ := shrinkNode_spec height lineWidth
      (Nat.div_pos (Nat.le_of_dvd hpos hdvd) hwidth)
    rw [hmul] at heq
    have hbound : k * lineWidth ≤ i :=
      hmul ▸ Nat.mul_le_mul_right lineWidth hkle
    refine ⟨k, hk, hkh, ?_, ?_, ?_, ?_⟩
    · rw [Nat.mul_one]
      exact heq
    · rw [heq]
      exact Nat.mul_pos hk hwidth
    · rw [heq]
      omega
    · exact Nat.le_trans (Nat.le_trans hbound hle) (Nat.le_max_left _ _)

/-- The loop over the half-buffer ends at a multiple of the smallest one
whose lines divide the height. -/
theorem shrinkHalf_spec {height lineWidth lines m : Nat} (hwidth : 0 < lineWidth)
    (hlines : lines ∣ height) (hm : 0 < m) :
    ∃ j, 0 < j ∧ j ≤ m ∧ j * lines ∣ height
      ∧ shrinkHalf height lineWidth (lines * lineWidth) m
        (m * (lines * lineWidth)) = j * (lines * lineWidth) := by
  induction m with
  | zero => omega
  | succ m ih =>
      have hdiv : (m + 1) * (lines * lineWidth) / lineWidth
          = (m + 1) * lines := by
        rw [← Nat.mul_assoc]
        exact Nat.mul_div_cancel _ hwidth
      rw [shrinkHalf, hdiv]
      by_cases hdvd : height % ((m + 1) * lines) = 0
      · rw [if_pos hdvd]
        exact ⟨m + 1, hm, Nat.le_refl _, Nat.dvd_of_mod_eq_zero hdvd, rfl⟩
      · rw [if_neg hdvd]
        have hm : 0 < m := by
          rcases Nat.eq_zero_or_pos m with rfl | hm
          · rw [Nat.zero_add, Nat.one_mul] at hdvd
            exact absurd (Nat.mod_eq_zero_of_dvd hlines) hdvd
          · exact hm
        have hsub : (m + 1) * (lines * lineWidth) - lines * lineWidth
            = m * (lines * lineWidth) := by
          rw [Nat.succ_mul, Nat.add_sub_cancel]
        rw [hsub]
        obtain ⟨j, hj, hle, hjh, heq⟩ := ih hm
        exact ⟨j, hj, Nat.le_succ_of_le hle, hjh, heq⟩

-- ============================================================= the choice

/-- What the sizes of a frame's buffers have to be. -/
structure DmaSizes.Fits (d : DmaSizes)
    (bufferSizeMax width height inBytesPerPixel : Nat) : Prop where
  half_pos : 0 < d.dmaHalfBufferSize
  /-- An event comes after whole lines, and the last one with the frame. -/
  lines : ∃ lines, lines ∣ height
    ∧ d.dmaHalfBufferSize = lines * (width * inBytesPerPixel)
  node_pos : 0 < d.dmaNodeBufferSize
  node_le : d.dmaNodeBufferSize ≤ nodeMax
  node_dvd : d.dmaNodeBufferSize ∣ d.dmaHalfBufferSize
  /-- While one half-buffer is read another one can be filled. -/
  cnt_ge : 2 ≤ d.dmaHalfBufferCnt
  buffer_eq : d.dmaBufferSize = d.dmaHalfBufferCnt * d.dmaHalfBufferSize
  buffer_le : d.dmaBufferSize ≤ bufferSizeMax

variable {bufferSizeMax width height inBytesPerPixel : Nat}

/-- The choice fails exactly if a line is longer than half of the buffer.
Otherwise the loops find sizes that fit the frame. -/
theorem llCamCalcRgbDma_fits (hwidth : 0 < width)
    (hbytes : 0 < inBytesPerPixel) (hmax : 8192 ≤ bufferSizeMax) :
    (llCamCalcRgbDma bufferSizeMax width height inBytesPerPixel = none
        ↔ bufferSizeMax / 2 < width * inBytesPerPixel)
      ∧ ∀ d, llCamCalcRgbDma bufferSizeMax width height inBytesPerPixel = some d →
        d.Fits bufferSizeMax width height inBytesPerPixel := by
  have hline : 0 < width * inBytesPerPixel := Nat.mul_pos hwidth hbytes
  obtain ⟨lines, hlines, hlh, hmin, hpos, hle, hbound⟩ :=
    nodeSizes_spec height hline
  rw [llCamCalcRgbDma]
  cases hnode : nodeSizes height (width * inBytesPerPixel) with
  | mk nodeSize nodesPerLine =>
  rw [hnode] at hmin hpos hle
  dsimp only at hmin hpos hle ⊢
  by_cases hlong : bufferSizeMax / 2 < width * inBytesPerPixel
  · rw [if_pos hlong]
    exact ⟨⟨fun _ => hlong, fun _ => rfl⟩, fun d hd => by cases hd⟩
  rw [if_neg hlong]
  refine ⟨⟨fun h => (by cases h), fun h => absurd h hlong⟩, ?_⟩
  intro d hd
  obtain rfl := Option.some.inj hd
  -- The smallest half-buffer fits into half of the buffer.
  have hminle : lines * (width * inBytesPerPixel) ≤ bufferSizeMax / 2 := by
    refine Nat.le_trans hbound (Nat.max_le.mpr ⟨?_, Nat.le_of_not_lt hlong⟩)
    rw [nodeMax]
    omega
  have hminpos : 0 < lines * (width * inBytesPerPixel) :=
    Nat.mul_pos hlines hline
  obtain ⟨j, hj, hjle, hjh, hhalf⟩ := shrinkHalf_spec
    (m := bufferSizeMax / 2 / (lines * (width * inBytesPerPixel)))
    hline hlh (Nat.div_pos hminle hminpos)
  rw [hmin, hhalf]
  have hhalfpos : 0 < j * (lines * (width * inBytesPerPixel)) :=
    Nat.mul_pos hj hminpos
  have hhalfle : j * (lines * (width * inBytesPerPixel)) ≤ bufferSizeMax / 2 :=
    Nat.le_trans (Nat.mul_le_mul_right _ hjle) (Nat.div_mul_le_self _ _)
  exact {
    half_pos := hhalfpos
    lines := ⟨j * lines, hjh, (Nat.mul_assoc _ _ _).symm⟩
    node_pos := hpos
    node_le := hle
    node_dvd := by
      rw [← hmin]
      exact Dvd.dvd.mul_left (Nat.dvd_mul_right _ _) j
    cnt_ge := by
      dsimp only
      rw [Nat.mul_div_cancel _ hhalfpos, Nat.le_div_iff_mul_le hhalfpos]
      omega
    buffer_eq := by
      dsimp only
      rw [Nat.mul_div_cancel _ hhalfpos]
    buffer_le := by
      refine Nat.le_trans (Nat.div_mul_le_self _ _) ?_
      omega }

theorem llCamCalcRgbDma_fits_hvga :
    (llCamCalcRgbDma 32768 480 320 2 = none ↔ 32768 / 2 < 480 * 2)
      ∧ ∀ d, llCamCalcRgbDma 32768 480 320 2 = some d → d.Fits 32768 480 320 2 :=
  llCamCalcRgbDma_fits (by decide) (by decide) (by decide)

/-- The sizes in either mode: half-buffers are not empty, there are two at
least, and those of a raw frame fill it exactly. -/
theorem llCamDmaSizes_spec {cfg : CameraConfig} {d : DmaSizes}
    (h : llCamDmaSizes cfg = some d) :
    0 < d.dmaHalfBufferSize ∧ 2 ≤ d.dmaHalfBufferCnt
      ∧ (cfg.jpegMode = false →
        d.dmaHalfBufferSize ∣ cfg.width * cfg.height * cfg.bytesPerPixel) := by
  rw [llCamDmaSizes] at h
  split at h
  next hjpeg =>
    obtain rfl := Option.some.inj h
    refine ⟨Nat.succ_pos _, Nat.succ_le_succ (Nat.succ_pos _), fun hraw => ?_⟩
    rw [hraw] at hjpeg
    cases hjpeg
  next hraw =>
    have hfits := (llCamCalcRgbDma_fits cfg.width_pos cfg.bytesPerPixel_pos
      cfg.bufferSizeMax_ge).2 d h
    refine ⟨hfits.half_pos, hfits.cnt_ge, fun _ => ?_⟩
    obtain ⟨lines, ⟨n, hn⟩, hlines⟩ := hfits.lines
    rw [hlines, hn]
    exact ⟨n, by ring⟩

/-- The settings of `cam_config`, with those of the DMA. -/
structure CaptureConfig extends Config where
  dmaHalfBufferCnt : Nat
  half_pos : 0 < dmaHalfBufferSize
  cnt_ge : 2 ≤ dmaHalfBufferCnt
  whole : jpegMode = false → dmaHalfBufferSize ∣ fbSize

/-- `cam_config` -/
def camConfig (cfg : CameraConfig) : Option CaptureConfig :=
  match h : llCamDmaSizes cfg with
  | none => none
  | some d => some {
      frameCnt := cfg.fbCount
      queueLen := if cfg.grabLatest = true ∧ 1 < cfg.fbCount
        then cfg.fbCount - 1 else cfg.fbCount
      jpegMode := cfg.jpegMode
      fbSize := if cfg.jpegMode = true then cfg.width * cfg.height / 5
        else cfg.width * cfg.height * cfg.bytesPerPixel
      dmaHalfBufferSize := d.dmaHalfBufferSize
      dmaHalfBufferCnt := d.dmaHalfBufferCnt
      frameCnt_pos := cfg.fbCount_pos
      half_pos := (llCamDmaSizes_spec h).1
      cnt_ge := (llCamDmaSizes_spec h).2.1
      whole hraw := by
        rw [if_neg (by rw [hraw]; exact Bool.false_ne_true)]
        exact (llCamDmaSizes_spec h).2.2 hraw }

end SitNChow.Camera
