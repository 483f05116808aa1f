/-
# Sets of code points as sorted ranges

A Unicode property is a list of inclusive ranges of code points in increasing order.  The search
stops at the first range that begins above the code point asked for, so an ASCII character is
settled by the first few ranges of any of the tables.
-/

namespace QubitSphere
namespace Text

/-- Whether `n` lies in one of `ranges`, which must increase: the first range that begins above
`n` settles the question. -/
def inRanges : List (Nat × Nat) → Nat → Bool
  | [], _ => false
  | (lo, hi) :: rest, n => if n < lo then false else n ≤ hi || inRanges rest n

end Text
end QubitSphere
