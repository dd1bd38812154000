import Mathlib.Data.List.Basic

/-! # Addresses

`std::net::IpAddr`: the addresses, the classes of addresses that the network policy asks for, and the
parser of `str::parse::<IpAddr>`, which follows the parser of the standard library. -/

namespace Ironclaw.Network

/-- The four bytes of an address. -/
structure Ipv4Addr where
  a : BitVec 8
  b : BitVec 8
  c : BitVec 8
  d : BitVec 8

/-- The eight groups of an address. -/
structure Ipv6Addr where
  segments : Vector (BitVec 16) 8

/-- An address of either version. -/
inductive IpAddr where
  | v4 (ip : Ipv4Addr)
  | v6 (ip : Ipv6Addr)

/-! ### Classes of addresses -/

namespace Ipv4Addr

variable (ip : Ipv4Addr)

def isPrivate : Bool :=
  ip.a = 10 || (ip.a = 172 && 16 ≤ ip.b && ip.b ≤ 31) || (ip.a = 192 && ip.b = 168)

def isLoopback : Bool := ip.a = 127

def isLinkLocal : Bool := ip.a = 169 && ip.b = 254

def isBroadcast : Bool := ip.a = 255 && ip.b = 255 && ip.c = 255 && ip.d = 255

def isDocumentation : Bool :=
  (ip.a = 192 && ip.b = 0 && ip.c = 2) || (ip.a = 198 && ip.b = 51 && ip.c = 100) ||
    (ip.a = 203 && ip.b = 0 && ip.c = 113)

def isMulticast : Bool := 224 ≤ ip.a && ip.a ≤ 239

end Ipv4Addr

namespace Ipv6Addr

variable (ip : Ipv6Addr)

def isUnspecified : Bool := ip.segments.toList = [0, 0, 0, 0, 0, 0, 0, 0]

def isLoopback : Bool := ip.segments.toList = [0, 0, 0, 0, 0, 0, 0, 1]

def isUniqueLocal : Bool := ip.segments[0] &&& 0xfe00 = 0xfc00

def isUnicastLinkLocal : Bool := ip.segments[0] &&& 0xffc0 = 0xfe80

def isMulticast : Bool := ip.segments[0] &&& 0xff00 = 0xff00

/-- `to_ipv4_mapped`: the address behind `::ffff:a.b.c.d`. -/
def toIpv4Mapped : Option Ipv4Addr :=
  if ip.segments.toList.take 6 = [0, 0, 0, 0, 0, 0xffff] then
    some ⟨ip.segments[6].extractLsb' 8 8, ip.segments[6].extractLsb' 0 8,
      ip.segments[7].extractLsb' 8 8, ip.segments[7].extractLsb' 0 8⟩
  else none

end Ipv6Addr

/-- The range `2001:db8::/32`. -/
def isDocumentationV6 (ip : Ipv6Addr) : Bool :=
  ip.segments[0] = 0x2001 && ip.segments[1] = 0x0db8

/-! ### The parser

Each reader takes what it can from the front of a text and returns the rest. -/

def toDigit (radix : ℕ) (c : Char) : Option ℕ :=
  let digit :=
    if '0' ≤ c ∧ c ≤ '9' then some (c.toNat - '0'.toNat)
    else if 'a' ≤ c ∧ c ≤ 'z' then some (c.toNat - 'a'.toNat + 10)
    else if 'A' ≤ c ∧ c ≤ 'Z' then some (c.toNat - 'A'.toNat + 10)
    else none
  digit.filter fun value => value < radix

/-- `read_number`: all the digits at the front, if they are neither too many nor too large. -/
def readNumber (radix maxDigits : ℕ) (allowZeroPrefix : Bool) (bound : ℕ) (text : List Char) :
    Option (ℕ × List Char) :=
  let digits := (text.map (toDigit radix)).takeWhile Option.isSome |>.filterMap id
  let value := digits.foldl (fun n digit => radix * n + digit) 0
  if digits.length = 0 ∨ maxDigits < digits.length then none
  else if allowZeroPrefix = false ∧ digits.head? = some 0 ∧ 1 < digits.length then none
  else if value < bound then some (value, text.drop digits.length)
  else none

def readGivenChar (c : Char) : List Char → Option (List Char)
  | front :: rest => if front = c then some rest else none
  | [] => none

/-- `read_separator`: the separator stands before every part but the first. -/
def readSeparator {α : Type} (c : Char) (first : Bool) (inner : List Char → Option (α × List Char))
    (text : List Char) : Option (α × List Char) :=
  if first = true then inner text else (readGivenChar c text).bind inner

/-- `Parser::read_ipv4_addr` of the standard library. -/
def readIpv4Addr (text : List Char) : Option (Ipv4Addr × List Char) := do
  let octet := fun first => readSeparator '.' first (readNumber 10 3 false 256)
  let (a, text) ← octet true text
  let (b, text) ← octet false text
  let (c, text) ← octet false text
  let (d, text) ← octet false text
  return (⟨a, b, c, d⟩, text)

/-- `read_groups`: as many groups as there are slots; the last two slots may be given as an IPv4
address. -/
def readGroups : ℕ → Bool → List Char → List (BitVec 16) × Bool × List Char
  | 0, _, text => ([], false, text)
  | slots + 1, first, text =>
    let embedded := if slots = 0 then none else readSeparator ':' first readIpv4Addr text
    match embedded with
    | some (ip, rest) => ([ip.a ++ ip.b, ip.c ++ ip.d], true, rest)
    | none =>
      match readSeparator ':' first (readNumber 16 4 true (2 ^ 16)) text with
      | some (group, rest) =>
        let (groups, ipv4, rest) := readGroups slots false rest
        (group :: groups, ipv4, rest)
      | none => ([], false, text)

/-- `Parser::read_ipv6_addr` of the standard library. -/
def readIpv6Addr (text : List Char) : Option (Ipv6Addr × List Char) :=
  let (head, headIpv4, rest) := readGroups 8 true text
  if head.length = 8 then some (⟨.ofFn fun i => head.getD i 0⟩, rest)
  else if headIpv4 = true then none
  else do
    let rest ← (readGivenChar ':' rest).bind (readGivenChar ':')
    let (tail, _, rest) := readGroups (8 - (head.length + 1)) true rest
    let groups := head ++ List.replicate (8 - head.length - tail.length) 0 ++ tail
    return (⟨.ofFn fun i => groups.getD i 0⟩, rest)

def readIpAddr (text : List Char) : Option (IpAddr × List Char) :=
  ((readIpv4Addr text).map fun (ip, rest) => (.v4 ip, rest)).or
    ((readIpv6Addr text).map fun (ip, rest) => (.v6 ip, rest))

/-- `str::parse::<IpAddr>`. -/
def IpAddr.parse (text : String) : Option IpAddr :=
  match readIpAddr text.toList with
  | some (ip, []) => some ip
  | _ => none

end Ironclaw.Network
