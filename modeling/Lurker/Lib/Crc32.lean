import Mathlib.Data.List.Basic
import Mathlib.Logic.Function.Iterate

/-!
# CRC-32

The reflected CRC-32 of IEEE 802.3 over bytes, with a seed, so that it is carried on from what
came before.
-/

namespace Crc32

def polynomial : UInt32 := 0xEDB88320

def shift (c : UInt32) : UInt32 :=
  if c &&& 1 = 1 then (c >>> 1) ^^^ polynomial else c >>> 1

def addByte (c : UInt32) (b : UInt8) : UInt32 := shift^[8] (c ^^^ b.toUInt32)

/-- The checksum of what came before carried on over `bs`. -/
def update (crc : UInt32) (bs : List UInt8) : UInt32 := ~~~(bs.foldl addByte (~~~crc))

def crc32 (bs : List UInt8) : UInt32 := update 0 bs

example : crc32 [49, 50, 51, 52, 53, 54, 55, 56, 57] = 0xCBF43926 := by decide +kernel

@[simp] theorem update_nil (crc : UInt32) : update crc [] = crc := by
  simp [update]

theorem update_append (crc : UInt32) (as bs : List UInt8) :
    update crc (as ++ bs) = update (update crc as) bs := by
  simp [update]

theorem crc32_append (as bs : List UInt8) : crc32 (as ++ bs) = update (crc32 as) bs :=
  update_append 0 as bs

end Crc32
