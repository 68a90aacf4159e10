import Ps2Recomp.Lib.Lanes

/-!
# GS memory

The pixel storage modes of the 4 MB of GS memory (`ps2_gs_memory.h`) with their block and column
tables, the pixel addresses and the accesses to a pixel (`ps2_gs_memory.cpp`), and the functions
`GS::GS` enters for each mode (`ps2_gs_gpu.cpp`).

Memory is a function of the byte address; every access is masked to the 4 MB. The operands of
type `u32` are natural numbers, and a result of that type is reduced where it is stored.
-/

namespace Ps2Recomp.GSMem

open Bytes

/-- `MEMORY_SIZE`, 4 MB. -/
def memorySize : ℕ := 4 * 1024 * 1024

/-- The official modes. -/
inductive PixelStorageMode
  | c32
  | c24
  | c16
  | c16s
  | p8
  | p4
  | p8h
  | p4hl
  | p4hh
  | z32
  | z24
  | z16
  | z16s
  deriving DecidableEq, Repr

structure Extent2D where
  x : ℕ
  y : ℕ
  deriving DecidableEq, Repr

/-- The rows of the table. -/
abbrev LookupTable := List (List ℕ)

/-- The entry `table[y][x]`. -/
def LookupTable.entry (table : LookupTable) (x y : ℕ) : ℕ := (table.getD y []).getD x 0

namespace PixelStorageMode

/-- Bits of a pixel in GS memory. -/
def unpackedBitWidth : PixelStorageMode → ℕ
  | c32 | z32 | c24 | z24 | p8h | p4hh | p4hl => 32
  | c16 | c16s | z16 | z16s => 16
  | p8 => 8
  | p4 => 4

def bitsPerPixel : PixelStorageMode → ℕ
  | c32 | z32 => 32
  | c24 | z24 => 24
  | c16 | c16s | z16 | z16s => 16
  | p8 | p8h => 8
  | p4 | p4hh | p4hl => 4

/-- The size in bytes of `PackedT`, the `BitStorageHelper` type of `bitsPerPixel`. -/
def packedSize : PixelStorageMode → ℕ
  | c32 | z32 | c24 | z24 => 4
  | c16 | c16s | z16 | z16s => 2
  | p8 | p8h | p4 | p4hh | p4hl => 1

/-- The extent of a page in pixels. -/
def pageExtent : PixelStorageMode → Extent2D
  | c32 | z32 | c24 | z24 | p8h | p4hl | p4hh => ⟨64, 32⟩
  | c16 | c16s | z16 | z16s => ⟨64, 64⟩
  | p8 => ⟨128, 64⟩
  | p4 => ⟨128, 128⟩

/-- The extent of a page in blocks. -/
def blockExtent : PixelStorageMode → Extent2D
  | c32 | c24 | p8h | p4hl | p4hh | z32 | z24 | p8 => ⟨8, 4⟩
  | c16 | c16s | z16 | z16s | p4 => ⟨4, 8⟩

/-- The extent of a block in pixels. There is no case for `Z24`, whose addresses are those of
`Z32`. -/
def columnExtent : PixelStorageMode → Extent2D
  | c32 | z32 | c24 | p8h | p4hl | p4hh => ⟨8, 8⟩
  | c16 | c16s | z16 | z16s => ⟨16, 8⟩
  | p8 => ⟨16, 16⟩
  | p4 => ⟨32, 16⟩
  | z24 => ⟨0, 0⟩

def blocksPerPage (psm : PixelStorageMode) : ℕ := psm.blockExtent.x * psm.blockExtent.y

def pixelsPerBlock (psm : PixelStorageMode) : ℕ := psm.columnExtent.x * psm.columnExtent.y

def pixelsPerPage (psm : PixelStorageMode) : ℕ := psm.pageExtent.x * psm.pageExtent.y

/-- The place of a pixel in its block. -/
def columnId (psm : PixelStorageMode) (table : LookupTable) (x y : ℕ) : ℕ :=
  table.entry (x % psm.columnExtent.x) (y % psm.columnExtent.y)

/-- The place of a block in its page. -/
def blockId (psm : PixelStorageMode) (table : LookupTable) (x y : ℕ) : ℕ :=
  table.entry (x / psm.columnExtent.x % psm.blockExtent.x) (y / psm.columnExtent.y % psm.blockExtent.y)

/-- The page of a pixel, in a buffer of `bw` times 64 pixels a row from the block `base` on. -/
def pageId (psm : PixelStorageMode) (base bw x y : ℕ) : ℕ :=
  let basePage := base / psm.blocksPerPage
  let row := (y / psm.pageExtent.y) * (bw * 64 % 2 ^ 32 / psm.pageExtent.x) % 2 ^ 32
  let col := x / psm.pageExtent.x
  basePage + row + col

/-- The entry `[block][y][x]` of the table that `InitPageLookupTable` fills, of type `u16`. -/
def initPageLookupTable (psm : PixelStorageMode) (blockTable columnTable : LookupTable) (block y x : ℕ) : ℕ :=
  ((block + psm.blockId blockTable x y) * psm.pixelsPerBlock + psm.columnId columnTable x y) % 2 ^ 16

/-- The address of a pixel, in pixels. -/
def address (psm : PixelStorageMode) (table : ℕ → ℕ → ℕ → ℕ) (block bw x y : ℕ) : ℕ :=
  let page := psm.pageId block bw x y % 2 ^ 32
  (page * psm.pixelsPerPage + table (block % psm.blocksPerPage) (y % psm.pageExtent.y) (x % psm.pageExtent.x)) % 2 ^ 32

/-- The place of the pixel in its 32 bit word. -/
def bitOffset : PixelStorageMode → ℕ
  | p8h | p4hl => 24
  | p4hh => 28
  | _ => 0

/-- The place of a pixel in memory, in bits. -/
def bits (psm : PixelStorageMode) (address : ℕ) : ℕ :=
  (address * psm.unpackedBitWidth + psm.bitOffset) % 2 ^ 32

/-- The byte at which the pixel is accessed. -/
def byteAddr (psm : PixelStorageMode) (address : ℕ) : ℕ :=
  (psm.bits address / 8) &&& (memorySize - psm.packedSize)

/-- `Write`. The value is a `PackedT`; so is the nibble put into its byte, whose complement is
taken in its 8 bits. -/
def write (psm : PixelStorageMode) (data : Memory) (address value : ℕ) : Memory :=
  let byteAddr := psm.byteAddr address
  let shift := psm.bits address % 8
  let old := load data byteAddr psm.packedSize
  match psm with
  | c32 | z32 | c16 | c16s | z16 | z16s | p8 | p8h => store data byteAddr value psm.packedSize
  | c24 | z24 =>
    store data byteAddr ((old &&& 0xFF000000) ||| (value &&& 0x00FFFFFF)) psm.packedSize
  | p4 | p4hl | p4hh =>
    store data byteAddr ((old &&& (0xFF ^^^ (0x0F <<< shift))) ||| ((value &&& 0x0F) <<< shift)) psm.packedSize

/-- `Read`. -/
def read (psm : PixelStorageMode) (data : Memory) (address : ℕ) : ℕ :=
  let shift := psm.bits address % 8
  let v := load data (psm.byteAddr address) psm.packedSize
  match psm with
  | c32 | z32 | c16 | c16s | z16 | z16s | p8 | p8h => v
  | c24 | z24 => v &&& 0x00FFFFFF
  | p4 | p4hl | p4hh => (v >>> shift) &&& 0x0F

end PixelStorageMode

open PixelStorageMode

/-! ### The tables -/

def blockTableC32 : LookupTable := [
  [ 0,  1,  4,  5, 16, 17, 20, 21],
  [ 2,  3,  6,  7, 18, 19, 22, 23],
  [ 8,  9, 12, 13, 24, 25, 28, 29],
  [10, 11, 14, 15, 26, 27, 30, 31]]

def blockTableZ32 : LookupTable := [
  [24, 25, 28, 29,  8,  9, 12, 13],
  [26, 27, 30, 31, 10, 11, 14, 15],
  [16, 17, 20, 21,  0,  1,  4,  5],
  [18, 19, 22, 23,  2,  3,  6,  7]]

def blockTableC16 : LookupTable := [
  [ 0,  2,  8, 10],
  [ 1,  3,  9, 11],
  [ 4,  6, 12, 14],
  [ 5,  7, 13, 15],
  [16, 18, 24, 26],
  [17, 19, 25, 27],
  [20, 22, 28, 30],
  [21, 23, 29, 31]]

def blockTableC16S : LookupTable := [
  [ 0,  2, 16, 18],
  [ 1,  3, 17, 19],
  [ 8, 10, 24, 26],
  [ 9, 11, 25, 27],
  [ 4,  6, 20, 22],
  [ 5,  7, 21, 23],
  [12, 14, 28, 30],
  [13, 15, 29, 31]]

def blockTableZ16 : LookupTable := [
  [24, 26, 16, 18],
  [25, 27, 17, 19],
  [28, 30, 20, 22],
  [29, 31, 21, 23],
  [ 8, 10,  0,  2],
  [ 9, 11,  1,  3],
  [12, 14,  4,  6],
  [13, 15,  5,  7]]

def blockTableZ16S : LookupTable := [
  [24, 26,  8, 10],
  [25, 27,  9, 11],
  [16, 18,  0,  2],
  [17, 19,  1,  3],
  [28, 30, 12, 14],
  [29, 31, 13, 15],
  [20, 22,  4,  6],
  [21, 23,  5,  7]]

def blockTableP8 : LookupTable := [
  [ 0,  1,  4,  5, 16, 17, 20, 21],
  [ 2,  3,  6,  7, 18, 19, 22, 23],
  [ 8,  9, 12, 13, 24, 25, 28, 29],
  [10, 11, 14, 15, 26, 27, 30, 31]]

def blockTableP4 : LookupTable := [
  [ 0,  2,  8, 10],
  [ 1,  3,  9, 11],
  [ 4,  6, 12, 14],
  [ 5,  7, 13, 15],
  [16, 18, 24, 26],
  [17, 19, 25, 27],
  [20, 22, 28, 30],
  [21, 23, 29, 31]]

def columnTable32 : LookupTable := [
  [ 0,  1,  4,  5,  8,  9, 12, 13],
  [ 2,  3,  6,  7, 10, 11, 14, 15],
  [16, 17, 20, 21, 24, 25, 28, 29],
  [18, 19, 22, 23, 26, 27, 30, 31],
  [32, 33, 36, 37, 40, 41, 44, 45],
  [34, 35, 38, 39, 42, 43, 46, 47],
  [48, 49, 52, 53, 56, 57, 60, 61],
  [50, 51, 54, 55, 58, 59, 62, 63]]

def columnTable16 : LookupTable := [
  [  0,   2,   8,  10,  16,  18,  24,  26,   1,   3,   9,  11,  17,  19,  25,  27],
  [  4,   6,  12,  14,  20,  22,  28,  30,   5,   7,  13,  15,  21,  23,  29,  31],
  [ 32,  34,  40,  42,  48,  50,  56,  58,  33,  35,  41,  43,  49,  51,  57,  59],
  [ 36,  38,  44,  46,  52,  54,  60,  62,  37,  39,  45,  47,  53,  55,  61,  63],
  [ 64,  66,  72,  74,  80,  82,  88,  90,  65,  67,  73,  75,  81,  83,  89,  91],
  [ 68,  70,  76,  78,  84,  86,  92,  94,  69,  71,  77,  79,  85,  87,  93,  95],
  [ 96,  98, 104, 106, 112, 114, 120, 122,  97,  99, 105, 107, 113, 115, 121, 123],
  [100, 102, 108, 110, 116, 118, 124, 126, 101, 103, 109, 111, 117, 119, 125, 127]]

def columnTable8 : LookupTable := [
  [  0,   4,  16,  20,  32,  36,  48,  52,   2,   6,  18,  22,  34,  38,  50,  54],
  [  8,  12,  24,  28,  40,  44,  56,  60,  10,  14,  26,  30,  42,  46,  58,  62],
  [ 33,  37,  49,  53,   1,   5,  17,  21,  35,  39,  51,  55,   3,   7,  19,  23],
  [ 41,  45,  57,  61,   9,  13,  25,  29,  43,  47,  59,  63,  11,  15,  27,  31],
  [ 96, 100, 112, 116,  64,  68,  80,  84,  98, 102, 114, 118,  66,  70,  82,  86],
  [104, 108, 120, 124,  72,  76,  88,  92, 106, 110, 122, 126,  74,  78,  90,  94],
  [ 65,  69,  81,  85,  97, 101, 113, 117,  67,  71,  83,  87,  99, 103, 115, 119],
  [ 73,  77,  89,  93, 105, 109, 121, 125,  75,  79,  91,  95, 107, 111, 123, 127],
  [128, 132, 144, 148, 160, 164, 176, 180, 130, 134, 146, 150, 162, 166, 178, 182],
  [136, 140, 152, 156, 168, 172, 184, 188, 138, 142, 154, 158, 170, 174, 186, 190],
  [161, 165, 177, 181, 129, 133, 145, 149, 163, 167, 179, 183, 131, 135, 147, 151],
  [169, 173, 185, 189, 137, 141, 153, 157, 171, 175, 187, 191, 139, 143, 155, 159],
  [224, 228, 240, 244, 192, 196, 208, 212, 226, 230, 242, 246, 194, 198, 210, 214],
  [232, 236, 248, 252, 200, 204, 216, 220, 234, 238, 250, 254, 202, 206, 218, 222],
  [193, 197, 209, 213, 225, 229, 241, 245, 195, 199, 211, 215, 227, 231, 243, 247],
  [201, 205, 217, 221, 233, 237, 249, 253, 203, 207, 219, 223, 235, 239, 251, 255]]

def columnTable4 : LookupTable := [
  [  0,   8,  32,  40,  64,  72,  96, 104,   2,  10,  34,  42,  66,  74,  98, 106,
      4,  12,  36,  44,  68,  76, 100, 108,   6,  14,  38,  46,  70,  78, 102, 110],
  [ 16,  24,  48,  56,  80,  88, 112, 120,  18,  26,  50,  58,  82,  90, 114, 122,
     20,  28,  52,  60,  84,  92, 116, 124,  22,  30,  54,  62,  86,  94, 118, 126],
  [ 65,  73,  97, 105,   1,   9,  33,  41,  67,  75,  99, 107,   3,  11,  35,  43,
     69,  77, 101, 109,   5,  13,  37,  45,  71,  79, 103, 111,   7,  15,  39,  47],
  [ 81,  89, 113, 121,  17,  25,  49,  57,  83,  91, 115, 123,  19,  27,  51,  59,
     85,  93, 117, 125,  21,  29,  53,  61,  87,  95, 119, 127,  23,  31,  55,  63],
  [192, 200, 224, 232, 128, 136, 160, 168, 194, 202, 226, 234, 130, 138, 162, 170,
    196, 204, 228, 236, 132, 140, 164, 172, 198, 206, 230, 238, 134, 142, 166, 174],
  [208, 216, 240, 248, 144, 152, 176, 184, 210, 218, 242, 250, 146, 154, 178, 186,
    212, 220, 244, 252, 148, 156, 180, 188, 214, 222, 246, 254, 150, 158, 182, 190],
  [129, 137, 161, 169, 193, 201, 225, 233, 131, 139, 163, 171, 195, 203, 227, 235,
    133, 141, 165, 173, 197, 205, 229, 237, 135, 143, 167, 175, 199, 207, 231, 239],
  [145, 153, 177, 185, 209, 217, 241, 249, 147, 155, 179, 187, 211, 219, 243, 251,
    149, 157, 181, 189, 213, 221, 245, 253, 151, 159, 183, 191, 215, 223, 247, 255],
  [256, 264, 288, 296, 320, 328, 352, 360, 258, 266, 290, 298, 322, 330, 354, 362,
    260, 268, 292, 300, 324, 332, 356, 364, 262, 270, 294, 302, 326, 334, 358, 366],
  [272, 280, 304, 312, 336, 344, 368, 376, 274, 282, 306, 314, 338, 346, 370, 378,
    276, 284, 308, 316, 340, 348, 372, 380, 278, 286, 310, 318, 342, 350, 374, 382],
  [321, 329, 353, 361, 257, 265, 289, 297, 323, 331, 355, 363, 259, 267, 291, 299,
    325, 333, 357, 365, 261, 269, 293, 301, 327, 335, 359, 367, 263, 271, 295, 303],
  [337, 345, 369, 377, 273, 281, 305, 313, 339, 347, 371, 379, 275, 283, 307, 315,
    341, 349, 373, 381, 277, 285, 309, 317, 343, 351, 375, 383, 279, 287, 311, 319],
  [448, 456, 480, 488, 384, 392, 416, 424, 450, 458, 482, 490, 386, 394, 418, 426,
    452, 460, 484, 492, 388, 396, 420, 428, 454, 462, 486, 494, 390, 398, 422, 430],
  [464, 472, 496, 504, 400, 408, 432, 440, 466, 474, 498, 506, 402, 410, 434, 442,
    468, 476, 500, 508, 404, 412, 436, 444, 470, 478, 502, 510, 406, 414, 438, 446],
  [385, 393, 417, 425, 449, 457, 481, 489, 387, 395, 419, 427, 451, 459, 483, 491,
    389, 397, 421, 429, 453, 461, 485, 493, 391, 399, 423, 431, 455, 463, 487, 495],
  [401, 409, 433, 441, 465, 473, 497, 505, 403, 411, 435, 443, 467, 475, 499, 507,
    405, 413, 437, 445, 469, 477, 501, 509, 407, 415, 439, 447, 471, 479, 503, 511]]

/-! ### Pixel addresses -/

def lookupPixelAddressCT32 : ℕ → ℕ → ℕ → ℕ → ℕ :=
  c32.address (c32.initPageLookupTable blockTableC32 columnTable32)

def lookupPixelAddressCT16 : ℕ → ℕ → ℕ → ℕ → ℕ :=
  c16.address (c16.initPageLookupTable blockTableC16 columnTable16)

def lookupPixelAddressCT16S : ℕ → ℕ → ℕ → ℕ → ℕ :=
  c16s.address (c16s.initPageLookupTable blockTableC16S columnTable16)

def lookupPixelAddressZ32 : ℕ → ℕ → ℕ → ℕ → ℕ :=
  z32.address (z32.initPageLookupTable blockTableZ32 columnTable32)

def lookupPixelAddressZ16 : ℕ → ℕ → ℕ → ℕ → ℕ :=
  z16.address (z16.initPageLookupTable blockTableZ16 columnTable16)

def lookupPixelAddressZ16S : ℕ → ℕ → ℕ → ℕ → ℕ :=
  z16s.address (z16s.initPageLookupTable blockTableZ16S columnTable16)

def lookupPixelAddressP8 : ℕ → ℕ → ℕ → ℕ → ℕ :=
  p8.address (p8.initPageLookupTable blockTableP8 columnTable8)

def lookupPixelAddressP4 : ℕ → ℕ → ℕ → ℕ → ℕ :=
  p4.address (p4.initPageLookupTable blockTableP4 columnTable4)

/-! ### Accesses to a pixel -/

/-- `WritePixelAddress` of a mode, which casts the value to the `PackedT` of the mode. -/
def writePixelAddress (psm : PixelStorageMode) (data : Memory) (address value : ℕ) : Memory :=
  psm.write data address (value % 2 ^ (8 * psm.packedSize))

def readPixelCT32 (data : Memory) (bp bw x y : ℕ) : ℕ :=
  c32.read data (lookupPixelAddressCT32 bp bw x y)

def readPixelCT24 (data : Memory) (bp bw x y : ℕ) : ℕ :=
  c24.read data (lookupPixelAddressCT32 bp bw x y)

def readPixelCT16 (data : Memory) (bp bw x y : ℕ) : ℕ :=
  c16.read data (lookupPixelAddressCT16 bp bw x y)

def readPixelCT16S (data : Memory) (bp bw x y : ℕ) : ℕ :=
  c16s.read data (lookupPixelAddressCT16S bp bw x y)

def readPixelZ32 (data : Memory) (bp bw x y : ℕ) : ℕ :=
  z32.read data (lookupPixelAddressZ32 bp bw x y)

def readPixelZ24 (data : Memory) (bp bw x y : ℕ) : ℕ :=
  z24.read data (lookupPixelAddressZ32 bp bw x y)

def readPixelZ16 (data : Memory) (bp bw x y : ℕ) : ℕ :=
  z16.read data (lookupPixelAddressZ16 bp bw x y)

def readPixelZ16S (data : Memory) (bp bw x y : ℕ) : ℕ :=
  z16s.read data (lookupPixelAddressZ16S bp bw x y)

def readPixelP8 (data : Memory) (bp bw x y : ℕ) : ℕ :=
  p8.read data (lookupPixelAddressP8 bp bw x y)

def readPixelP8H (data : Memory) (bp bw x y : ℕ) : ℕ :=
  p8h.read data (lookupPixelAddressCT32 bp bw x y)

def readPixelP4 (data : Memory) (bp bw x y : ℕ) : ℕ :=
  p4.read data (lookupPixelAddressP4 bp bw x y)

def readPixelP4HL (data : Memory) (bp bw x y : ℕ) : ℕ :=
  p4hl.read data (lookupPixelAddressCT32 bp bw x y)

def readPixelP4HH (data : Memory) (bp bw x y : ℕ) : ℕ :=
  p4hh.read data (lookupPixelAddressCT32 bp bw x y)

def writePixelCT32 (data : Memory) (bp bw x y value : ℕ) : Memory :=
  writePixelAddress c32 data (lookupPixelAddressCT32 bp bw x y) value

def writePixelCT24 (data : Memory) (bp bw x y value : ℕ) : Memory :=
  writePixelAddress c24 data (lookupPixelAddressCT32 bp bw x y) value

def writePixelCT16 (data : Memory) (bp bw x y value : ℕ) : Memory :=
  writePixelAddress c16 data (lookupPixelAddressCT16 bp bw x y) value

def writePixelCT16S (data : Memory) (bp bw x y value : ℕ) : Memory :=
  writePixelAddress c16s data (lookupPixelAddressCT16S bp bw x y) value

def writePixelZ32 (data : Memory) (bp bw x y value : ℕ) : Memory :=
  writePixelAddress z32 data (lookupPixelAddressZ32 bp bw x y) value

def writePixelZ24 (data : Memory) (bp bw x y value : ℕ) : Memory :=
  writePixelAddress z24 data (lookupPixelAddressZ32 bp bw x y) value

def writePixelZ16 (data : Memory) (bp bw x y value : ℕ) : Memory :=
  writePixelAddress z16 data (lookupPixelAddressZ16 bp bw x y) value

def writePixelZ16S (data : Memory) (bp bw x y value : ℕ) : Memory :=
  writePixelAddress z16s data (lookupPixelAddressZ16S bp bw x y) value

def writePixelP8 (data : Memory) (bp bw x y value : ℕ) : Memory :=
  writePixelAddress p8 data (lookupPixelAddressP8 bp bw x y) value

def writePixelP8H (data : Memory) (bp bw x y value : ℕ) : Memory :=
  writePixelAddress p8h data (lookupPixelAddressCT32 bp bw x y) value

def writePixelP4 (data : Memory) (bp bw x y value : ℕ) : Memory :=
  writePixelAddress p4 data (lookupPixelAddressP4 bp bw x y) value

def writePixelP4HL (data : Memory) (bp bw x y value : ℕ) : Memory :=
  writePixelAddress p4hl data (lookupPixelAddressCT32 bp bw x y) value

def writePixelP4HH (data : Memory) (bp bw x y value : ℕ) : Memory :=
  writePixelAddress p4hh data (lookupPixelAddressCT32 bp bw x y) value

/-- `m_pixel_address_funcs`. -/
def pixelAddressFuncs : PixelStorageMode → ℕ → ℕ → ℕ → ℕ → ℕ
  | c32 => lookupPixelAddressCT32
  | c24 => lookupPixelAddressCT32
  | c16 => lookupPixelAddressCT16
  | c16s => lookupPixelAddressCT16S
  | p8 => lookupPixelAddressP8
  | p8h => lookupPixelAddressCT32
  | p4 => lookupPixelAddressP4
  | p4hh => lookupPixelAddressCT32
  | p4hl => lookupPixelAddressCT32
  | z32 => lookupPixelAddressZ32
  | z24 => lookupPixelAddressZ32
  | z16 => lookupPixelAddressZ16
  | z16s => lookupPixelAddressZ16S

/-- `m_read_pixel_funcs`. -/
def readPixelFuncs : PixelStorageMode → Memory → ℕ → ℕ → ℕ → ℕ → ℕ
  | c32 => readPixelCT32
  | c24 => readPixelCT24
  | c16 => readPixelCT16
  | c16s => readPixelCT16S
  | p8 => readPixelP8
  | p8h => readPixelP8H
  | p4 => readPixelP4
  | p4hh => readPixelP4HH
  | p4hl => readPixelP4HL
  | z32 => readPixelZ32
  | z24 => readPixelZ24
  | z16 => readPixelZ16
  | z16s => readPixelZ16S

/-- `m_write_pixel_funcs`. -/
def writePixelFuncs : PixelStorageMode → Memory → ℕ → ℕ → ℕ → ℕ → ℕ → Memory
  | c32 => writePixelCT32
  | c24 => writePixelCT24
  | c16 => writePixelCT16
  | c16s => writePixelCT16S
  | p8 => writePixelP8
  | p8h => writePixelP8H
  | p4 => writePixelP4
  | p4hh => writePixelP4HH
  | p4hl => writePixelP4HL
  | z32 => writePixelZ32
  | z24 => writePixelZ24
  | z16 => writePixelZ16
  | z16s => writePixelZ16S

end Ps2Recomp.GSMem

/-!
# Reading out pages

The readouts of a page of GS memory to a linear buffer (`ps2_gs_memory.cpp`). A block is read in
its four columns of 64 bytes; each column is loaded to four registers, whose lanes are moved to
the rows of pixels they hold.

The four block readouts are `readBlock` with the code between the loads and the stores of a
column (`column32` and the rest) and the offsets of the stores. A pointer into the output is the
sum of the offsets of type `u32` it is made of.
-/

namespace Ps2Recomp.GSMem

open Bytes Lanes PixelStorageMode

variable {α β : Type*}

/-! ### The columns of a block

The rows of pixels of a column, each in registers from left to right. -/

/-- The column of `ReadBlockToLinearBuffer32`. -/
def column32 (w0123 w4567 w89AB wCDEF : Reg α) : List (List (Reg α)) :=
  let row0l := unpackloEpi64 w0123 w4567
  let row0r := unpackloEpi64 w89AB wCDEF
  let row1l := unpackhiEpi64 w0123 w4567
  let row1r := unpackhiEpi64 w89AB wCDEF
  [[row0l, row0r], [row1l, row1r]]

/-- The column of `ReadBlockToLinearBuffer16`. -/
def column16 (w0123 w4567 w89AB wCDEF : Reg α) : List (List (Reg α)) :=
  let mask : Reg (Fin 16) := ![0, 1, 4, 5, 8, 9, 12, 13, 2, 3, 6, 7, 10, 11, 14, 15]
  let w0145 := unpackloEpi64 w0123 w4567
  let w89CD := unpackloEpi64 w89AB wCDEF
  let w2367 := unpackhiEpi64 w0123 w4567
  let wABEF := unpackhiEpi64 w89AB wCDEF
  let h0145 := shuffleEpi8 w0145 mask
  let h89CD := shuffleEpi8 w89CD mask
  let h2367 := shuffleEpi8 w2367 mask
  let hABEF := shuffleEpi8 wABEF mask
  let h014589CDL := unpackloEpi64 h0145 h89CD
  let h014589CDH := unpackhiEpi64 h0145 h89CD
  let h2367ABEFL := unpackloEpi64 h2367 hABEF
  let h2367ABEFH := unpackhiEpi64 h2367 hABEF
  [[h014589CDL, h014589CDH], [h2367ABEFL, h2367ABEFH]]

/-- The column of `ReadBlockToLinearBuffer8`. -/
def column8 (even : Bool) (w0123 w4567 w89AB wCDEF : Reg α) : List (List (Reg α)) :=
  let mask : Reg (Fin 16) := ![0, 4, 8, 12, 2, 6, 10, 14, 1, 5, 9, 13, 3, 7, 11, 15]
  let w0145 := unpackloEpi64 w0123 w4567
  let w89CD := unpackloEpi64 w89AB wCDEF
  let w2367 := unpackhiEpi64 w0123 w4567
  let wABEF := unpackhiEpi64 w89AB wCDEF
  let b0145ACBD := shuffleEpi8 w0145 mask
  let b89CDACBD := shuffleEpi8 w89CD mask
  let b2367ACBD := shuffleEpi8 w2367 mask
  let bABEFACBD := shuffleEpi8 wABEF mask
  if even then
    let row0 := unpackloEpi32 b0145ACBD b89CDACBD
    let row1 := unpackloEpi32 b2367ACBD bABEFACBD
    let row2 := unpackhiEpi32 b89CDACBD b0145ACBD
    let row3 := unpackhiEpi32 bABEFACBD b2367ACBD
    [[row0], [row1], [row2], [row3]]
  else
    let row0 := unpackloEpi32 b89CDACBD b0145ACBD
    let row1 := unpackloEpi32 bABEFACBD b2367ACBD
    let row2 := unpackhiEpi32 b0145ACBD b89CDACBD
    let row3 := unpackhiEpi32 b2367ACBD bABEFACBD
    [[row0], [row1], [row2], [row3]]

/-- The column of `ReadBlockToLinearBuffer4`, with the operations that take the low and the high
nibbles of a register. -/
def column4 (low high : Reg α → Reg β) (even : Bool) (w0123 w4567 w89AB wCDEF : Reg α) : List (List (Reg β)) :=
  let mask : Reg (Fin 16) := ![0, 4, 8, 12, 1, 5, 9, 13, 2, 6, 10, 14, 3, 7, 11, 15]
  let w0145 := unpackloEpi64 w0123 w4567
  let w89CD := unpackloEpi64 w89AB wCDEF
  let w2367 := unpackhiEpi64 w0123 w4567
  let wABEF := unpackhiEpi64 w89AB wCDEF
  let b0145ABCD := shuffleEpi8 w0145 mask
  let b89CDABCD := shuffleEpi8 w89CD mask
  let b2367ABCD := shuffleEpi8 w2367 mask
  let bABEFABCD := shuffleEpi8 wABEF mask
  let b014589CDAB := unpackloEpi32 b0145ABCD b89CDABCD
  let b014589CDCD := unpackhiEpi32 b0145ABCD b89CDABCD
  let b2367ABEFAB := unpackloEpi32 b2367ABCD bABEFABCD
  let b2367ABEFCD := unpackhiEpi32 b2367ABCD bABEFABCD
  let b89CD0145AB := unpackloEpi32 b89CDABCD b0145ABCD
  let b89CD0145CD := unpackhiEpi32 b89CDABCD b0145ABCD
  let bABEF2367AB := unpackloEpi32 bABEFABCD b2367ABCD
  let bABEF2367CD := unpackhiEpi32 bABEFABCD b2367ABCD
  if even then
    [[low b014589CDAB, low b014589CDCD], [low b2367ABEFAB, low b2367ABEFCD],
      [high b89CD0145AB, high b89CD0145CD], [high bABEF2367AB, high bABEF2367CD]]
  else
    [[low b89CD0145AB, low b89CD0145CD], [low bABEF2367AB, low bABEF2367CD],
      [high b014589CDAB, high b014589CDCD], [high b2367ABEFAB, high b2367ABEFCD]]

/-- `_mm_and_si128(r, nibble_mask)`. -/
def lowNibbles (r : Reg (BitVec 8)) : Reg (BitVec 8) := andSi128 r (set1Epi8 0xF)

/-- `_mm_and_si128(_mm_srli_epi16(r, 4), nibble_mask)`. -/
def highNibbles (r : Reg (BitVec 8)) : Reg (BitVec 8) := andSi128 (srliEpi16 r 4) (set1Epi8 0xF)

/-! ### Blocks -/

/-- The stores of the rows of a column, at the offsets of the rows and of their registers. -/
def storeRows (dst : ℕ) (offset : ℕ → ℕ → ℕ) (rows : List (List (Reg (BitVec 8)))) (output : Memory) :
    Memory :=
  rows.zipIdx.foldl (fun output row => row.1.zipIdx.foldl (fun output part =>
    storeuSi128 output (dst + offset row.2 part.2) part.1) output) output

/-- A block readout. `data` is read in words, of which a block has 64 and a column 16. -/
def readBlock (columnRows : ℕ → Reg (BitVec 8) → Reg (BitVec 8) → Reg (BitVec 8) → Reg (BitVec 8) →
      List (List (Reg (BitVec 8))))
    (offset : ℕ → ℕ → ℕ → ℕ) (output : Memory) (dst : ℕ) (data : Memory) (blockAddr : ℕ) : Memory :=
  let srcBlockWordAddress := (blockAddr &&& 0x3FFF) * 64
  (List.range 4).foldl (fun output column =>
    let srcCol := 4 * (srcBlockWordAddress + 16 * column)
    let w0123 := loaduSi128 data (srcCol + 0)
    let w4567 := loaduSi128 data (srcCol + 16)
    let w89AB := loaduSi128 data (srcCol + 32)
    let wCDEF := loaduSi128 data (srcCol + 48)
    storeRows dst (offset column) (columnRows column w0123 w4567 w89AB wCDEF) output) output

/-- `&output[(2 * column + row) * pitch + 16 * part]`. -/
def offset2 (pitch column row part : ℕ) : ℕ :=
  ((2 * column + row) * pitch % 2 ^ 32 + 16 * part) % 2 ^ 32

/-- `&output[(4 * column) * pitch]`, and from there `&row[row * pitch + 16 * part]`. -/
def offset4 (pitch column row part : ℕ) : ℕ :=
  (4 * column) * pitch % 2 ^ 32 + (row * pitch % 2 ^ 32 + 16 * part) % 2 ^ 32

def readBlockToLinearBuffer32 (output : Memory) (dst pitch : ℕ) (data : Memory) (blockAddr : ℕ) :
    Memory :=
  readBlock (fun _ => column32) (offset2 pitch) output dst data blockAddr

def readBlockToLinearBuffer16 (output : Memory) (dst pitch : ℕ) (data : Memory) (blockAddr : ℕ) :
    Memory :=
  readBlock (fun _ => column16) (offset2 pitch) output dst data blockAddr

def readBlockToLinearBuffer8 (output : Memory) (dst pitch : ℕ) (data : Memory) (blockAddr : ℕ) :
    Memory :=
  readBlock (fun column => column8 (column % 2 = 0)) (offset4 pitch) output dst data blockAddr

def readBlockToLinearBuffer4 (output : Memory) (dst pitch : ℕ) (data : Memory) (blockAddr : ℕ) :
    Memory :=
  readBlock (fun column => column4 lowNibbles highNibbles (column % 2 = 0)) (offset4 pitch) output dst data blockAddr

/-! ### Pages -/

/-- A page readout, with pixels of `bytes` bytes in the output. -/
def readPage (psm : PixelStorageMode) (blockTable : LookupTable)
    (readBlock : Memory → ℕ → ℕ → Memory → ℕ → Memory) (bytes : ℕ)
    (output : Memory) (pitch : ℕ) (data : Memory) (bp : ℕ) : Memory :=
  (List.range psm.blockExtent.y).foldl (fun output blockRow =>
    (List.range psm.blockExtent.x).foldl (fun output blockCol =>
      let blockId := blockTable.entry blockCol blockRow
      let dstBlockByteAddress :=
        ((blockRow * psm.columnExtent.y) * pitch + (blockCol * psm.columnExtent.x) * bytes) % 2 ^ 32
      readBlock output dstBlockByteAddress pitch data ((bp + blockId) % 2 ^ 32)) output) output

def readPageToLinearBufferCT32 : Memory → ℕ → Memory → ℕ → Memory :=
  readPage c32 blockTableC32 readBlockToLinearBuffer32 4

def readPageToLinearBufferCT16 : Memory → ℕ → Memory → ℕ → Memory :=
  readPage c16 blockTableC16 readBlockToLinearBuffer16 2

def readPageToLinearBufferCT16S : Memory → ℕ → Memory → ℕ → Memory :=
  readPage c16s blockTableC16S readBlockToLinearBuffer16 2

def readPageToLinearBufferZ32 : Memory → ℕ → Memory → ℕ → Memory :=
  readPage z32 blockTableZ32 readBlockToLinearBuffer32 4

def readPageToLinearBufferZ16 : Memory → ℕ → Memory → ℕ → Memory :=
  readPage z16 blockTableZ16 readBlockToLinearBuffer16 2

def readPageToLinearBufferZ16S : Memory → ℕ → Memory → ℕ → Memory :=
  readPage z16s blockTableZ16S readBlockToLinearBuffer16 2

def readPageToLinearBufferP8 : Memory → ℕ → Memory → ℕ → Memory :=
  readPage p8 blockTableP8 readBlockToLinearBuffer8 1

def readPageToLinearBufferP4 : Memory → ℕ → Memory → ℕ → Memory :=
  readPage p4 blockTableP4 readBlockToLinearBuffer4 1

/-- The readout `ReloadTexturePageCache` takes for a mode (`ps2_gs_gpu.cpp`). -/
def readPageFuncs : PixelStorageMode → Memory → ℕ → Memory → ℕ → Memory
  | c32 | c24 | p8h | p4hh | p4hl => readPageToLinearBufferCT32
  | z32 | z24 => readPageToLinearBufferZ32
  | c16 => readPageToLinearBufferCT16
  | c16s => readPageToLinearBufferCT16S
  | z16 => readPageToLinearBufferZ16
  | z16s => readPageToLinearBufferZ16S
  | p8 => readPageToLinearBufferP8
  | p4 => readPageToLinearBufferP4

end Ps2Recomp.GSMem
