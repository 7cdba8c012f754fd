/-!
# Blank — the characters that separate words

The white space of a spelling is the Unicode property `White_Space`: twenty-five characters.  Zero-width space, the byte
order mark and the ASCII separators `U+001C` to `U+001F` are not among them.
-/
namespace CAbi
namespace Spelling

/-- **Unicode `White_Space`**, as closed ranges of code points. -/
def blankRanges : List (Nat × Nat) :=
  [(0x09, 0x0d), (0x20, 0x20), (0x85, 0x85), (0xa0, 0xa0), (0x1680, 0x1680), (0x2000, 0x200a), (0x2028, 0x2029),
   (0x202f, 0x202f), (0x205f, 0x205f), (0x3000, 0x3000)]

def isBlank (c : Char) : Bool :=
  blankRanges.any fun r => r.1 ≤ c.toNat && c.toNat ≤ r.2

end Spelling
end CAbi
