import DeviceLayer.Bitmap.Basic

/-!
# Text of a bitmap

A bitmap is written for a log as its capacity and its words in decimal.
-/

namespace DeviceLayer
namespace Bitmap

variable {W : Nat}

/-- The words in decimal, separated by commas. -/
def wordsText (b : Bitmap W) : String :=
  ", ".intercalate (b.words.toList.map fun word => word.toNat.repr)

/-- The text of a bitmap: its capacity, then its words in square brackets. -/
def text (b : Bitmap W) : String :=
  "BitSet \x7b nbits: " ++ b.capacity.repr ++ ", words: [" ++ b.wordsText ++ "] \x7d"

end Bitmap
end DeviceLayer
