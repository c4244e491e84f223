/-!
# Letters and digits

Which characters count as letters or digits. Beyond ASCII these are all characters outside the blocks of
punctuation, of signs and of pictures, and outside the planes that are not in use.
-/

namespace RuleFlow.Text

/-- The blocks without letters and digits beyond ASCII, as closed ranges. -/
def signRanges : List (Nat × Nat) :=
  [(0x80, 0xA9), (0xAB, 0xB1), (0xB4, 0xB4), (0xB6, 0xB8), (0xBB, 0xBB), (0xBF, 0xBF), (0xD7, 0xD7),
    (0xF7, 0xF7), (0x2C2, 0x2C5), (0x2D2, 0x2DF), (0x1FFD, 0x206F), (0x20A0, 0x2101), (0x218C, 0x245F),
    (0x249C, 0x24B5), (0x2500, 0x2775), (0x2794, 0x2BFF), (0x2E00, 0x2E2E), (0x2E30, 0x3004),
    (0x3008, 0x3020), (0x3030, 0x3030), (0x303D, 0x3040), (0x309B, 0x309C), (0x30A0, 0x30A0),
    (0x30FB, 0x30FB), (0x3200, 0x321F), (0x32C0, 0x33FF), (0x4DC0, 0x4DFF), (0xD800, 0xF8FF),
    (0xFD3E, 0xFD4F), (0xFE10, 0xFE6F), (0xFEFD, 0xFF0F), (0xFF1A, 0xFF20), (0xFF3B, 0xFF40),
    (0xFF5B, 0xFF65), (0xFFDD, 0xFFFF), (0x1F000, 0x1F0FF), (0x1F10D, 0x1F12F), (0x1F18A, 0x1FBEF),
    (0x1FBFA, 0x1FFFF), (0xE0000, 0x10FFFF)]

/-- Whether a character counts as a letter or a digit. -/
def isLetterOrDigit (c : Char) : Bool :=
  c.isAlphanum ||
    (0x80 ≤ c.toNat && !signRanges.any fun (low, high) => low ≤ c.toNat && c.toNat ≤ high)

end RuleFlow.Text
