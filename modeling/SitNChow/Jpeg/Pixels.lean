/-
From the camera's pixels to the lines the JPEG encoder works on:
`convert_line_format` makes RGB of a line of a frame, and the encoder
makes luminance and chrominance of it.
-/
import SitNChow.Jpeg.Transform

namespace SitNChow.Jpeg

/-- `pixformat_t` -/
inductive PixFormat where
  | rgb565 | yuv422 | yuv420 | grayscale | jpeg | rgb888 | raw | rgb444
  | rgb555 | raw8
  deriving DecidableEq

-- ================================================================ YUV

/-- `yuv_table[_].vY` -/
def YuvTable.vY : List Int := [
  -18, -17, -16, -15, -13, -12, -11, -10, -9, -8, -6, -5, -4, -3, -2, -1, 0, 1,
  2, 3, 4, 5, 6, 8, 9, 10, 11, 12, 13, 15, 16, 17, 18, 19, 20, 22, 23, 24, 25,
  26, 27, 29, 30, 31, 32, 33, 34, 36, 37, 38, 39, 40, 41, 43, 44, 45, 46, 47,
  48, 50, 51, 52, 53, 54, 55, 57, 58, 59, 60, 61, 62, 64, 65, 66, 67, 68, 69,
  71, 72, 73, 74, 75, 76, 77, 79, 80, 81, 82, 83, 84, 86, 87, 88, 89, 90, 91,
  93, 94, 95, 96, 97, 98, 100, 101, 102, 103, 104, 105, 107, 108, 109, 110,
  111, 112, 114, 115, 116, 117, 118, 119, 121, 122, 123, 124, 125, 126, 128,
  129, 130, 131, 132, 133, 135, 136, 137, 138, 139, 140, 142, 143, 144, 145,
  146, 147, 148, 150, 151, 152, 153, 154, 155, 157, 158, 159, 160, 161, 162,
  164, 165, 166, 167, 168, 169, 171, 172, 173, 174, 175, 176, 178, 179, 180,
  181, 182, 183, 185, 186, 187, 188, 189, 190, 192, 193, 194, 195, 196, 197,
  199, 200, 201, 202, 203, 204, 206, 207, 208, 209, 210, 211, 213, 214, 215,
  216, 217, 218, 219, 221, 222, 223, 224, 225, 226, 228, 229, 230, 231, 232,
  233, 235, 236, 237, 238, 239, 240, 242, 243, 244, 245, 246, 247, 249, 250,
  251, 252, 253, 254, 256, 257, 258, 259, 260, 261, 263, 264, 265, 266, 267,
  268, 270, 271, 272, 273, 274, 275, 277, 278]

/-- `yuv_table[_].vVr` -/
def YuvTable.vVr : List Int := [
  -204, -202, -201, -199, -197, -196, -194, -193, -191, -189, -188, -186, -185,
  -183, -181, -180, -178, -177, -175, -173, -172, -170, -169, -167, -165, -164,
  -162, -161, -159, -158, -156, -154, -153, -151, -150, -148, -146, -145, -143,
  -142, -140, -138, -137, -135, -134, -132, -130, -129, -127, -126, -124, -122,
  -121, -119, -118, -116, -114, -113, -111, -110, -108, -106, -105, -103, -102,
  -100, -98, -97, -95, -94, -92, -90, -89, -87, -86, -84, -82, -81, -79, -78,
  -76, -75, -73, -71, -70, -68, -67, -65, -63, -62, -60, -59, -57, -55, -54,
  -52, -51, -49, -47, -46, -44, -43, -41, -39, -38, -36, -35, -33, -31, -30,
  -28, -27, -25, -23, -22, -20, -19, -17, -15, -14, -12, -11, -9, -7, -6, -4,
  -3, -1, 0, 1, 3, 4, 6, 7, 9, 11, 12, 14, 15, 17, 19, 20, 22, 23, 25, 27, 28,
  30, 31, 33, 35, 36, 38, 39, 41, 43, 44, 46, 47, 49, 51, 52, 54, 55, 57, 59,
  60, 62, 63, 65, 67, 68, 70, 71, 73, 75, 76, 78, 79, 81, 82, 84, 86, 87, 89,
  90, 92, 94, 95, 97, 98, 100, 102, 103, 105, 106, 108, 110, 111, 113, 114,
  116, 118, 119, 121, 122, 124, 126, 127, 129, 130, 132, 134, 135, 137, 138,
  140, 142, 143, 145, 146, 148, 150, 151, 153, 154, 156, 158, 159, 161, 162,
  164, 165, 167, 169, 170, 172, 173, 175, 177, 178, 180, 181, 183, 185, 186,
  188, 189, 191, 193, 194, 196, 197, 199, 201, 202]

/-- `yuv_table[_].vVg` -/
def YuvTable.vVg : List Int := [
  50, 49, 49, 48, 48, 48, 47, 47, 46, 46, 46, 45, 45, 44, 44, 44, 43, 43, 43,
  42, 42, 41, 41, 41, 40, 40, 39, 39, 39, 38, 38, 37, 37, 37, 36, 36, 35, 35,
  35, 34, 34, 34, 33, 33, 32, 32, 32, 31, 31, 30, 30, 30, 29, 29, 28, 28, 28,
  27, 27, 26, 26, 26, 25, 25, 25, 24, 24, 23, 23, 23, 22, 22, 21, 21, 21, 20,
  20, 19, 19, 19, 18, 18, 17, 17, 17, 16, 16, 16, 15, 15, 14, 14, 14, 13, 13,
  12, 12, 12, 11, 11, 10, 10, 10, 9, 9, 8, 8, 8, 7, 7, 7, 6, 6, 5, 5, 5, 4, 4,
  3, 3, 3, 2, 2, 1, 1, 1, 0, 0, 0, 0, 0, -1, -1, -1, -2, -2, -3, -3, -3, -4,
  -4, -5, -5, -5, -6, -6, -7, -7, -7, -8, -8, -8, -9, -9, -10, -10, -10, -11,
  -11, -12, -12, -12, -13, -13, -14, -14, -14, -15, -15, -16, -16, -16, -17,
  -17, -17, -18, -18, -19, -19, -19, -20, -20, -21, -21, -21, -22, -22, -23,
  -23, -23, -24, -24, -25, -25, -25, -26, -26, -26, -27, -27, -28, -28, -28,
  -29, -29, -30, -30, -30, -31, -31, -32, -32, -32, -33, -33, -34, -34, -34,
  -35, -35, -35, -36, -36, -37, -37, -37, -38, -38, -39, -39, -39, -40, -40,
  -41, -41, -41, -42, -42, -43, -43, -43, -44, -44, -44, -45, -45, -46, -46,
  -46, -47, -47, -48, -48, -48, -49, -49]

/-- `yuv_table[_].vUg` -/
def YuvTable.vUg : List Int := [
  104, 103, 102, 101, 100, 99, 99, 98, 97, 96, 95, 95, 94, 93, 92, 91, 91, 90,
  89, 88, 87, 86, 86, 85, 84, 83, 82, 82, 81, 80, 79, 78, 78, 77, 76, 75, 74,
  73, 73, 72, 71, 70, 69, 69, 68, 67, 66, 65, 65, 64, 63, 62, 61, 60, 60, 59,
  58, 57, 56, 56, 55, 54, 53, 52, 52, 51, 50, 49, 48, 47, 47, 46, 45, 44, 43,
  43, 42, 41, 40, 39, 39, 38, 37, 36, 35, 34, 34, 33, 32, 31, 30, 30, 29, 28,
  27, 26, 26, 25, 24, 23, 22, 21, 21, 20, 19, 18, 17, 17, 16, 15, 14, 13, 13,
  12, 11, 10, 9, 8, 8, 7, 6, 5, 4, 4, 3, 2, 1, 0, 0, 0, -1, -2, -3, -4, -4, -5,
  -6, -7, -8, -8, -9, -10, -11, -12, -13, -13, -14, -15, -16, -17, -17, -18,
  -19, -20, -21, -21, -22, -23, -24, -25, -26, -26, -27, -28, -29, -30, -30,
  -31, -32, -33, -34, -34, -35, -36, -37, -38, -39, -39, -40, -41, -42, -43,
  -43, -44, -45, -46, -47, -47, -48, -49, -50, -51, -52, -52, -53, -54, -55,
  -56, -56, -57, -58, -59, -60, -60, -61, -62, -63, -64, -65, -65, -66, -67,
  -68, -69, -69, -70, -71, -72, -73, -73, -74, -75, -76, -77, -78, -78, -79,
  -80, -81, -82, -82, -83, -84, -85, -86, -86, -87, -88, -89, -90, -91, -91,
  -92, -93, -94, -95, -95, -96, -97, -98, -99, -99, -100, -101, -102, -103]

/-- `yuv_table[_].vUb` -/
def YuvTable.vUb : List Int := [
  -258, -256, -254, -252, -250, -248, -246, -244, -242, -240, -238, -236, -234,
  -232, -230, -228, -226, -223, -221, -219, -217, -215, -213, -211, -209, -207,
  -205, -203, -201, -199, -197, -195, -193, -191, -189, -187, -185, -183, -181,
  -179, -177, -175, -173, -171, -169, -167, -165, -163, -161, -159, -157, -155,
  -153, -151, -149, -147, -145, -143, -141, -139, -137, -135, -133, -131, -129,
  -127, -125, -123, -121, -119, -117, -115, -113, -110, -108, -106, -104, -102,
  -100, -98, -96, -94, -92, -90, -88, -86, -84, -82, -80, -78, -76, -74, -72,
  -70, -68, -66, -64, -62, -60, -58, -56, -54, -52, -50, -48, -46, -44, -42,
  -40, -38, -36, -34, -32, -30, -28, -26, -24, -22, -20, -18, -16, -14, -12,
  -10, -8, -6, -4, -2, 0, 2, 4, 6, 8, 10, 12, 14, 16, 18, 20, 22, 24, 26, 28,
  30, 32, 34, 36, 38, 40, 42, 44, 46, 48, 50, 52, 54, 56, 58, 60, 62, 64, 66,
  68, 70, 72, 74, 76, 78, 80, 82, 84, 86, 88, 90, 92, 94, 96, 98, 100, 102,
  104, 106, 108, 110, 113, 115, 117, 119, 121, 123, 125, 127, 129, 131, 133,
  135, 137, 139, 141, 143, 145, 147, 149, 151, 153, 155, 157, 159, 161, 163,
  165, 167, 169, 171, 173, 175, 177, 179, 181, 183, 185, 187, 189, 191, 193,
  195, 197, 199, 201, 203, 205, 207, 209, 211, 213, 215, 217, 219, 221, 223,
  226, 228, 230, 232, 234, 236, 238, 240, 242, 244, 246, 248, 250, 252, 254,
  256]

/-- `YUYV_CONSTRAIN` -/
def yuyvConstrain (v : Int) : UInt8 :=
  if v < 0 then 0 else if v > 255 then 255 else UInt8.ofNat v.toNat

/-- `yuv2rgb` -/
def yuv2rgb (y u v : UInt8) : List UInt8 :=
  let vY := YuvTable.vY.getD y.toNat 0
  let ri := vY + YuvTable.vVr.getD v.toNat 0
  let gi := vY + YuvTable.vUg.getD u.toNat 0 + YuvTable.vVg.getD v.toNat 0
  let bi := vY + YuvTable.vUb.getD u.toNat 0
  [yuyvConstrain ri, yuyvConstrain gi, yuyvConstrain bi]

-- ==================================================== convert_line_format

/-- What `convert_line_format` writes for one line. A frame in any other
format is left as it is. -/
def convertedLine (src : List UInt8) (format : PixFormat) (width line : Nat) :
    List UInt8 :=
  match format with
  | .grayscale => (List.range width).map fun i => src.getD (line * width + i) 0
  | .rgb888 =>
      (List.range width).flatMap fun k =>
        let i := width * 3 * line + 3 * k
        [src.getD (i + 2) 0, src.getD (i + 1) 0, src.getD i 0]
  | .rgb565 =>
      (List.range width).flatMap fun k =>
        let i := width * 2 * line + 2 * k
        let hi := src.getD i 0
        let lo := src.getD (i + 1) 0
        [hi &&& 0xF8, (hi &&& 0x07) <<< 5 ||| (lo &&& 0xE0) >>> 3,
          (lo &&& 0x1F) <<< 3]
  | .yuv422 =>
      (List.range ((width + 1) / 2)).flatMap fun k =>
        let i := width * 2 * line + 4 * k
        let u := src.getD (i + 1) 0
        let v := src.getD (i + 3) 0
        yuv2rgb (src.getD i 0) u v ++ yuv2rgb (src.getD (i + 2) 0) u v
  | _ => []

/-- `convert_line_format`; `dst` is what was in the line before. For YUV422
and an odd width the source writes three bytes behind the end of `dst`,
which have no place here. -/
def convertLineFormat (src : List UInt8) (format : PixFormat)
    (dst : List UInt8) (width line : Nat) : List UInt8 :=
  let out := convertedLine src format width line
  (out ++ dst.drop out.length).take dst.length

-- ============================================ luminance and chrominance

/-- `clamp` -/
def clamp (i : Int) : UInt8 :=
  if i < 0 then 0 else if i > 255 then 255 else UInt8.ofNat i.toNat

/-- The luminance of a pixel. -/
def luminance (r g b : Nat) : UInt8 :=
  UInt8.ofNat ((r * 19595 + g * 38470 + b * 7471 + 32768) >>> 16)

/-- `RGB_to_YCC` -/
def rgbToYcc (src : List UInt8) (numPixels : Nat) : List UInt8 :=
  (List.range numPixels).flatMap fun i =>
    let r := (src.getD (3 * i) 0).toNat
    let g := (src.getD (3 * i + 1) 0).toNat
    let b := (src.getD (3 * i + 2) 0).toNat
    let cb : Int := r * -11059 + g * -21709 + b * 32768 + 32768
    let cr : Int := r * 32768 + g * -27439 + b * -5329 + 32768
    [luminance r g b, clamp (128 + cb >>> (16 : Nat)),
      clamp (128 + cr >>> (16 : Nat))]

/-- `RGB_to_Y` -/
def rgbToY (src : List UInt8) (numPixels : Nat) : List UInt8 :=
  (List.range numPixels).map fun i =>
    luminance (src.getD (3 * i) 0).toNat (src.getD (3 * i + 1) 0).toNat
      (src.getD (3 * i + 2) 0).toNat

/-- `Y_to_YCC` -/
def yToYcc (src : List UInt8) (numPixels : Nat) : List UInt8 :=
  (List.range numPixels).flatMap fun i => [src.getD i 0, 128, 128]

end SitNChow.Jpeg
