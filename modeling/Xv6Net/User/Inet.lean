import Xv6Net.Net.Names

/-!
# Addresses in user programs (`inet_addr` of `user/ulib.c`)
-/

namespace Xv6Net.User

open Kernel Lib

/-- The loop of `inet_addr` from `s` on, and what follows it. -/
def inetLoop (result : UInt32) (octet digits dots : Int32) : List UInt8 → UInt32
  | [] => if digits = 0 ∨ dots ≠ 3 then 0 else result <<< 8 ||| octet.toUInt32
  | c :: s =>
      if IsDigit c then
        let octet := octet * 10 + .ofNat (c.toNat - 48)
        let digits := digits + 1
        if 255 < octet then 0 else inetLoop result octet digits dots s
      else if c = DOT then
        if digits = 0 ∨ dots = 3 then 0
        else inetLoop (result <<< 8 ||| octet.toUInt32) 0 0 (dots + 1) s
      else 0

def inetAddr (s : CString) : UInt32 := inetLoop 0 0 0 0 s.chars

/-- `inet_addr` and `ip_to_u32` agree on a string. For an address they return the same word, unless this is one that stands
for a failure, and where `inet_addr` fails `ip_to_u32` fails as well. -/
def ParsersAgree (s : CString) : Prop :=
  (∀ v, DottedQuad s.chars v → v ≠ 0 → v ≠ 0xFFFFFFFF → (Net.ipToU32 s).toUInt32 = inetAddr s) ∧
    (inetAddr s = 0 → ¬ DottedQuad s.chars 0 → (Net.ipToU32 s).toUInt32 = 0xFFFFFFFF)

end Xv6Net.User
