import Mathlib.Logic.Function.Basic
import Xv6Net.Kernel.CString
import Xv6Net.Lib.Dotted

/-!
# Addresses and names as text (`kernel/sys/net.c`)
-/

namespace Xv6Net.Net

open Kernel Lib

/-! ## Addresses -/

/-- The inner loop of `ip_to_u32`: the number and what is behind its digits. An overflow of the `int` wraps around. -/
def scanNum (num : Int32) : List UInt8 → Int32 × List UInt8
  | [] => (num, [])
  | c :: ip => if IsDigit c then scanNum (num * 10 + .ofNat (c.toNat - 48)) ip else (num, c :: ip)

/-- The outer loop of `ip_to_u32` with the parts so far and the number of those to come; `none` if the text is refused. -/
def scanParts (parts : List Int32) : Nat → List UInt8 → Option (List Int32)
  | 0, _ => some parts
  | _ + 1, [] => some parts
  | n + 1, c :: s =>
      let (num, ip) := scanNum 0 (c :: s)
      if num < 0 ∨ 255 < num then none
      else
        let parts := parts ++ [num]
        match ip with
        | [] => scanParts parts n []
        | c :: ip =>
            if c = DOT then scanParts parts n ip
            else if 0 < n then none
            else scanParts parts n (c :: ip)

def ipToU32 (ip : CString) : Int32 :=
  match scanParts [] 4 ip.chars with
  | some [a, b, c, d] => a <<< 24 ||| b <<< 16 ||| c <<< 8 ||| d
  | _ => -1

/-- A number that `ip_to_u32` takes for a part of an address: it may be empty, and it counts modulo 2 ^ 32. -/
def IsPart (ds : List UInt8) : Prop := (∀ c ∈ ds, IsDigit c) ∧ decimal ds % 2 ^ 32 ≤ 255

/-- What `ip_to_u32` takes for the address `v`: four parts with a dot behind each of the first three, and behind the last
one, which is not empty at the end of the text, anything else. -/
def LooseQuad (s : List UInt8) (v : Nat) : Prop :=
  ∃ a b c d rest, s = a ++ DOT :: (b ++ DOT :: (c ++ DOT :: (d ++ rest))) ∧ IsPart a ∧ IsPart b ∧ IsPart c ∧ IsPart d ∧
    (∀ x ∈ rest.head?, ¬ IsDigit x) ∧ d ++ rest ≠ [] ∧
    v = quad (decimal a % 2 ^ 32) (decimal b % 2 ^ 32) (decimal c % 2 ^ 32) (decimal d % 2 ^ 32)

/-! ## Names -/

def LONG_DOMAIN : Nat := 1
def LONG_DOMAIN_SECTION : Nat := 2

/-- The loop of `my_strlen` from `string[i]` on. -/
def strlenFrom (i : Nat) : List UInt8 → Nat
  | [] => i
  | _ :: s => strlenFrom (i + 1) s

def myStrlen (string : CString) : Nat := strlenFrom 0 string.chars

/-- The loop of `node_to_dns` from `name[i]` on; the last turn is that for the NUL. What was stored in `res` is known by
index, and the result is whether the loop came to its end. At the test `lenIndex` is the start of the section in `name`, so
that `i - lenIndex` is not negative. -/
def nodeLoop (i resIndex lenIndex : Nat) (res : Nat → Option UInt8) : List UInt8 → Bool × (Nat → Option UInt8)
  | [] =>
      if i - lenIndex = 64 then (false, res)
      else (true, Function.update res lenIndex (some (.ofNat (i - lenIndex))))
  | c :: name =>
      if i - lenIndex = 64 then (false, res)
      else if c = DOT then
        nodeLoop (i + 1) (resIndex + 1) resIndex (Function.update res lenIndex (some (.ofNat (i - lenIndex)))) name
      else nodeLoop (i + 1) (resIndex + 1) lenIndex (Function.update res resIndex (some c)) name

/-- `node_to_dns` with what it stores in `res`, by index. -/
def nodeToDns (name : CString) : Nat × (Nat → Option UInt8) :=
  let nameLen := myStrlen name
  if 253 < nameLen then (LONG_DOMAIN, fun _ => none)
  else
    match nodeLoop 0 1 0 (fun _ => none) name.chars with
    | (false, res) => (LONG_DOMAIN_SECTION, res)
    | (true, res) => (0, Function.update res (nameLen + 1) (some 0))

end Xv6Net.Net
