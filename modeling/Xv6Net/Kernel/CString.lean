import Xv6Net.Kernel.Kalloc

namespace Xv6Net.Kernel

/-- A NUL-terminated string: the characters before the NUL. They are in memory, each in a place of its own, so that an
`int` can count them. -/
structure CString where
  chars : List UInt8
  noNul : 0 ∉ chars
  inRam : chars.length < PHYSTOP - KERNBASE

theorem CString.length_lt (s : CString) : s.chars.length < 2 ^ 31 := Nat.lt_of_lt_of_le s.inRam (by decide)

end Xv6Net.Kernel
