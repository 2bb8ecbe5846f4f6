import Brynet.Lib.Endian

/-!
# `socketendian`

Conversions between the byte order of the host, which is little-endian, and network
order.  There are two implementations: a Windows build uses those of the socket library,
with `hl64ton` and `ntohl64` put together from two of 32 bits, other builds those of
`endian.h`.
-/

namespace Brynet

open Endian

/-- Which of the two halves of `socketendian` is compiled. -/
inductive Platform
  | windows
  | posix
deriving Repr, DecidableEq

namespace Socketendian

def htons (host : UInt16) : UInt16 := .ofNat (swap 2 host.toNat)

def ntohs (net : UInt16) : UInt16 := .ofNat (swap 2 net.toNat)

def htonl (host : UInt32) : UInt32 := .ofNat (swap 4 host.toNat)

def ntohl (net : UInt32) : UInt32 := .ofNat (swap 4 net.toNat)

def htobe16 (host : UInt16) : UInt16 := .ofNat (swap 2 host.toNat)

def be16toh (net : UInt16) : UInt16 := .ofNat (swap 2 net.toNat)

def htobe32 (host : UInt32) : UInt32 := .ofNat (swap 4 host.toNat)

def be32toh (net : UInt32) : UInt32 := .ofNat (swap 4 net.toNat)

def htobe64 (host : UInt64) : UInt64 := .ofNat (swap 8 host.toNat)

def be64toh (net : UInt64) : UInt64 := .ofNat (swap 8 net.toNat)

/-- Both words converted by `convert`, and their places exchanged. -/
def exchange (convert : UInt32 → UInt32) (host : UInt64) : UInt64 :=
  let low := (host &&& 0xFFFFFFFF).toUInt32
  let high := ((host >>> 32) &&& 0xFFFFFFFF).toUInt32
  ((convert low).toUInt64 <<< 32) ||| (convert high).toUInt64

def hl64ton (host : UInt64) : UInt64 := exchange htonl host

def ntohl64 (host : UInt64) : UInt64 := exchange ntohl host

def hostToNetwork16 (p : Platform) (host16 : UInt16) (convert : Bool) : UInt16 :=
  if convert then match p with
    | .windows => htons host16
    | .posix => htobe16 host16
  else host16

def hostToNetwork32 (p : Platform) (host32 : UInt32) (convert : Bool) : UInt32 :=
  if convert then match p with
    | .windows => htonl host32
    | .posix => htobe32 host32
  else host32

def hostToNetwork64 (p : Platform) (host64 : UInt64) (convert : Bool) : UInt64 :=
  if convert then match p with
    | .windows => hl64ton host64
    | .posix => htobe64 host64
  else host64

def networkToHost16 (p : Platform) (net16 : UInt16) (convert : Bool) : UInt16 :=
  if convert then match p with
    | .windows => ntohs net16
    | .posix => be16toh net16
  else net16

def networkToHost32 (p : Platform) (net32 : UInt32) (convert : Bool) : UInt32 :=
  if convert then match p with
    | .windows => ntohl net32
    | .posix => be32toh net32
  else net32

def networkToHost64 (p : Platform) (net64 : UInt64) (convert : Bool) : UInt64 :=
  if convert then match p with
    | .windows => ntohl64 net64
    | .posix => be64toh net64
  else net64

/-! ### What the conversions do to the bytes -/

theorem toNat_ofNat_swap16 (v : ℕ) : (UInt16.ofNat (swap 2 v)).toNat = swap 2 v := by
  have h := swap_lt 2 v
  rw [UInt16.toNat_ofNat', Nat.mod_eq_of_lt]
  omega

theorem toNat_ofNat_swap32 (v : ℕ) : (UInt32.ofNat (swap 4 v)).toNat = swap 4 v := by
  have h := swap_lt 4 v
  rw [UInt32.toNat_ofNat', Nat.mod_eq_of_lt]
  omega

theorem toNat_ofNat_swap64 (v : ℕ) : (UInt64.ofNat (swap 8 v)).toNat = swap 8 v := by
  have h := swap_lt 8 v
  rw [UInt64.toNat_ofNat', Nat.mod_eq_of_lt]
  omega

theorem toNat_low (host : UInt64) :
    (host &&& 0xFFFFFFFF).toUInt32.toNat = host.toNat % 2 ^ 32 := by
  have hmask : host.toNat &&& (2 ^ 32 - 1) = host.toNat % 2 ^ 32 :=
    Nat.and_two_pow_sub_one_eq_mod _ _
  rw [UInt64.toNat_toUInt32, UInt64.toNat_and]
  change (host.toNat &&& (2 ^ 32 - 1)) % 2 ^ 32 = _
  rw [hmask, Nat.mod_mod]

theorem toNat_high (host : UInt64) :
    ((host >>> 32) &&& 0xFFFFFFFF).toUInt32.toNat = host.toNat / 2 ^ 32 := by
  have hshift : (host >>> 32).toNat = host.toNat / 2 ^ 32 := by
    rw [UInt64.toNat_shiftRight, Nat.shiftRight_eq_div_pow]
    rfl
  have hlt := host.toNat_lt
  rw [toNat_low, hshift, Nat.mod_eq_of_lt]
  omega

theorem toNat_words (high low : UInt32) :
    ((high.toUInt64 <<< 32) ||| low.toUInt64).toNat = high.toNat * 2 ^ 32 + low.toNat := by
  have hlow : low.toNat < 2 ^ 32 := low.toNat_lt
  have hhigh : high.toNat < 2 ^ 32 := high.toNat_lt
  have hshift : (high.toUInt64 <<< 32).toNat = high.toNat <<< 32 := by
    rw [UInt64.toNat_shiftLeft, UInt32.toNat_toUInt64]
    change high.toNat <<< 32 % 2 ^ 64 = _
    rw [Nat.shiftLeft_eq, Nat.mod_eq_of_lt]
    omega
  rw [UInt64.toNat_or, hshift, UInt32.toNat_toUInt64, ← Nat.shiftLeft_add_eq_or_of_lt hlow,
    Nat.shiftLeft_eq]

/-- Exchanging the words of a number and swapping the bytes of each swaps all its bytes. -/
theorem toNat_exchange {convert : UInt32 → UInt32}
    (hconvert : ∀ w, (convert w).toNat = swap 4 w.toNat) (host : UInt64) :
    (exchange convert host).toNat = swap 8 host.toNat := by
  rw [exchange, toNat_words, hconvert, hconvert, toNat_low, toNat_high]
  exact (swap_add 4 4 host.toNat).symm

theorem toNat_hostToNetwork16 (p : Platform) (v : UInt16) (convert : Bool) :
    (hostToNetwork16 p v convert).toNat = if convert then swap 2 v.toNat else v.toNat := by
  cases convert with
  | false => rfl
  | true => cases p <;> exact toNat_ofNat_swap16 _

theorem toNat_hostToNetwork32 (p : Platform) (v : UInt32) (convert : Bool) :
    (hostToNetwork32 p v convert).toNat = if convert then swap 4 v.toNat else v.toNat := by
  cases convert with
  | false => rfl
  | true => cases p <;> exact toNat_ofNat_swap32 _

theorem toNat_hostToNetwork64 (p : Platform) (v : UInt64) (convert : Bool) :
    (hostToNetwork64 p v convert).toNat = if convert then swap 8 v.toNat else v.toNat := by
  cases convert with
  | false => rfl
  | true =>
      cases p with
      | windows => exact toNat_exchange (fun w => toNat_ofNat_swap32 w.toNat) v
      | posix => exact toNat_ofNat_swap64 _

/-! ### Back and forth -/

theorem ofNat_ordered16 (p : Platform) (v : UInt16) (convert : Bool) :
    UInt16.ofNat (ofLE (ordered convert 2 v.toNat)) = hostToNetwork16 p v convert := by
  have hlt : v.toNat < 256 ^ 2 := v.toNat_lt
  rw [ofLE_ordered convert hlt, ← toNat_hostToNetwork16 p, UInt16.ofNat_toNat]

theorem ofNat_ordered32 (p : Platform) (v : UInt32) (convert : Bool) :
    UInt32.ofNat (ofLE (ordered convert 4 v.toNat)) = hostToNetwork32 p v convert := by
  have hlt : v.toNat < 256 ^ 4 := v.toNat_lt
  rw [ofLE_ordered convert hlt, ← toNat_hostToNetwork32 p, UInt32.ofNat_toNat]

theorem ofNat_ordered64 (p : Platform) (v : UInt64) (convert : Bool) :
    UInt64.ofNat (ofLE (ordered convert 8 v.toNat)) = hostToNetwork64 p v convert := by
  have hlt : v.toNat < 256 ^ 8 := v.toNat_lt
  rw [ofLE_ordered convert hlt, ← toNat_hostToNetwork64 p, UInt64.ofNat_toNat]

/-- The conversions back are the same as those there, and undo them whichever of the two
implementations either is from. -/
theorem networkToHost16_hostToNetwork16 (p q : Platform) (v : UInt16) (convert : Bool) :
    networkToHost16 q (hostToNetwork16 p v convert) convert = v := by
  have hback : networkToHost16 q = hostToNetwork16 q := rfl
  apply UInt16.toNat_inj.mp
  rw [hback, toNat_hostToNetwork16, toNat_hostToNetwork16]
  cases convert with
  | false => rfl
  | true => exact swap_swap v.toNat_lt

theorem networkToHost32_hostToNetwork32 (p q : Platform) (v : UInt32) (convert : Bool) :
    networkToHost32 q (hostToNetwork32 p v convert) convert = v := by
  have hback : networkToHost32 q = hostToNetwork32 q := rfl
  apply UInt32.toNat_inj.mp
  rw [hback, toNat_hostToNetwork32, toNat_hostToNetwork32]
  cases convert with
  | false => rfl
  | true => exact swap_swap v.toNat_lt

theorem networkToHost64_hostToNetwork64 (p q : Platform) (v : UInt64) (convert : Bool) :
    networkToHost64 q (hostToNetwork64 p v convert) convert = v := by
  have hback : networkToHost64 q = hostToNetwork64 q := rfl
  apply UInt64.toNat_inj.mp
  rw [hback, toNat_hostToNetwork64, toNat_hostToNetwork64]
  cases convert with
  | false => rfl
  | true => exact swap_swap v.toNat_lt

end Socketendian

end Brynet
