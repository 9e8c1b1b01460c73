import Mathlib.Algebra.GroupWithZero.Nat
import Mathlib.Data.Vector.Defs
import SynitWaf.Go.Strings

/-!
# Package net/netip

Addresses and prefixes as Go parses, prints and compares them. An IPv4 address is its four octets,
an IPv6 address its eight groups and its zone.

* `Addr`, `Addr.unmap`, `Addr.isLoopback`, `Addr.string`, `parseAddr`, `parseAddrPort`;
* `Prefix`, `Prefix.contains`, `parsePrefix`.
-/

namespace Go

/-- `netip.Addr`; the empty zone stands for no zone. -/
inductive Addr where
  | invalid
  | v4 (octets : List.Vector UInt8 4)
  | v6 (groups : List.Vector UInt16 8) (zone : GoString)
  deriving DecidableEq

/-! ## Text -/

/-- `appendHex`: a group without leading zeros. -/
def appendHex (x : ℕ) : GoString :=
  (if 0x1000 ≤ x then [hexDigit (x / 0x1000)] else []) ++
    (if 0x100 ≤ x then [hexDigit (x / 0x100 % 16)] else []) ++
      (if 0x10 ≤ x then [hexDigit (x / 0x10 % 16)] else []) ++ [hexDigit (x % 16)]

/-- `appendDecimal`: an octet without leading zeros. -/
def appendDecimal (x : ℕ) : GoString :=
  (if 100 ≤ x then [hexDigit (x / 100)] else []) ++
    (if 10 ≤ x then [hexDigit (x / 10 % 10)] else []) ++ [hexDigit (x % 10)]

/-- Octets separated by dots. -/
def string4 (octets : List UInt8) : GoString :=
  join (octets.map fun o => appendDecimal o.toNat) (byte '.')

/-- Groups separated by colons. -/
def stringGroups (groups : List UInt16) : GoString :=
  join (groups.map fun g => appendHex g.toNat) (byte ':')

/-- Start and length of the first longest run of at least two zero groups; length zero if there is
none. -/
def zeroRun (groups : List UInt16) : ℕ × ℕ :=
  (List.range 8).foldl (fun best i =>
    let l := ((groups.drop i).takeWhile (· = 0)).length
    if 2 ≤ l ∧ best.2 < l then (i, l) else best) (0, 0)

/-- `appendTo6` without the zone: the run of zeros is left out. -/
def string6 (groups : List UInt16) : GoString :=
  let (start, len) := zeroRun groups
  if len = 0 then stringGroups groups
  else stringGroups (groups.take start) ++ [byte ':', byte ':'] ++
    stringGroups (groups.drop (start + len))

/-- The groups of an IPv4-mapped address start with `::ffff`. -/
def mappedPart : List UInt16 := [0, 0, 0, 0, 0, 0xffff]

/-- `Addr.Is4In6`. -/
def Addr.is4In6 : Addr → Bool
  | .v6 groups _ => groups.toList.take 6 == mappedPart
  | _ => false

/-- The octets of a list of groups. -/
def octetsOf (groups : List UInt16) : List UInt8 :=
  groups.flatMap fun g => [UInt8.ofNat (g.toNat / 256), UInt8.ofNat (g.toNat % 256)]

/-- A list of known length as a vector. -/
def vector? {α : Type} (n : ℕ) (l : List α) : Option (List.Vector α n) :=
  if h : l.length = n then some ⟨l, h⟩ else none

@[simp] theorem vector?_toList {α : Type} {n : ℕ} (v : List.Vector α n) :
    vector? n v.toList = some v := dif_pos v.2

/-- `Addr.Unmap`: the IPv4 address of a mapped address, whose zone is dropped. -/
def Addr.unmap (a : Addr) : Addr :=
  match a with
  | .v6 groups _ =>
    if a.is4In6 then
      match vector? 4 (octetsOf (groups.toList.drop 6)) with
      | some o => .v4 o
      | none => a
    else a
  | _ => a

/-- `Addr.IsLoopback`. -/
def Addr.isLoopback (a : Addr) : Bool :=
  match a.unmap with
  | .invalid => false
  | .v4 octets => octets.toList.head? = some 127
  | .v6 groups _ => groups.toList = [0, 0, 0, 0, 0, 0, 0, 1]

/-- The zone of an address, after a percent sign. -/
def zoneSuffix (zone : GoString) : GoString := if zone = [] then [] else byte '%' :: zone

/-- `Addr.String`. -/
def Addr.string : Addr → GoString
  | .invalid => str "invalid IP"
  | .v4 octets => string4 octets.toList
  | a@(.v6 groups zone) =>
    if a.is4In6 then
      str "::ffff:" ++ string4 (octetsOf (groups.toList.drop 6)) ++ zoneSuffix zone
    else string6 groups.toList ++ zoneSuffix zone

/-! ## Parsing -/

/-- The value of a decimal digit. -/
def decVal (c : UInt8) : Option ℕ := if 48 ≤ c ∧ c ≤ 57 then some (c.toNat - 48) else none

/-- The value of a hexadecimal digit of either case. -/
def hexVal (c : UInt8) : Option ℕ :=
  if 48 ≤ c ∧ c ≤ 57 then some (c.toNat - 48)
  else if 97 ≤ c ∧ c ≤ 102 then some (c.toNat - 87)
  else if 65 ≤ c ∧ c ≤ 70 then some (c.toNat - 55)
  else none

/-- The loop of `parseIPv4Fields`: the value and the number of digits of the current octet, and the
octets before it. -/
def parseIPv4Loop : GoString → ℕ → ℕ → List UInt8 → Option (List UInt8)
  | [], val, _, fields => if fields.length < 3 then none else some (fields ++ [UInt8.ofNat val])
  | c :: s, val, digLen, fields =>
    match decVal c with
    | some d =>
      -- no leading zero, no value above 255
      if digLen = 1 ∧ val = 0 then none
      else if 255 < val * 10 + d then none
      else parseIPv4Loop s (val * 10 + d) (digLen + 1) fields
    | none =>
      if c ≠ byte '.' then none
      else if digLen = 0 ∨ s = [] then none
      else if fields.length = 3 then none
      else parseIPv4Loop s 0 0 (fields ++ [UInt8.ofNat val])

/-- `parseIPv4Fields`. -/
def parseIPv4Fields (s : GoString) : Option (List UInt8) := parseIPv4Loop s 0 0 []

/-- `parseIPv4`. -/
def parseIPv4 (s : GoString) : Option Addr := do
  let fields ← parseIPv4Fields s
  let octets ← vector? 4 fields
  return .v4 octets

/-- The hexadecimal number at the start of `s`: its digits, its value and what follows. -/
def scanHex : GoString → ℕ → ℕ → Option (ℕ × ℕ × GoString)
  | [], off, acc => some (off, acc, [])
  | c :: s, off, acc =>
    match hexVal c with
    | none => some (off, acc, c :: s)
    | some d =>
      if 3 < off then none
      else if 0xffff < acc * 16 + d then none
      else scanHex s (off + 1) (acc * 16 + d)

/-- The groups of four octets. -/
def groupsOf : List UInt8 → List UInt16
  | [a, b, c, d] => [UInt16.ofNat (a.toNat * 256 + b.toNat), UInt16.ofNat (c.toNat * 256 + d.toNat)]
  | _ => []

/-- The loop of `parseIPv6` with room for `n` further groups: the groups so far and the position of
the ellipsis. Returns them with the text left over. -/
def parseIPv6Loop : ℕ → List UInt16 → Option ℕ → GoString →
    Option (List UInt16 × Option ℕ × GoString)
  | 0, groups, ellipsis, s => some (groups, ellipsis, s)
  | n + 1, groups, ellipsis, s =>
    match scanHex s 0 0 with
    | none => none
    | some (0, _, _) => none
    | some (_, acc, []) => some (groups ++ [UInt16.ofNat acc], ellipsis, [])
    | some (_, acc, c :: t) =>
      if c = byte '.' then
        -- a trailing IPv4 address
        if ellipsis = none ∧ groups.length ≠ 6 then none
        else if 8 < groups.length + 2 then none
        else (parseIPv4Fields s).map fun f => (groups ++ groupsOf f, ellipsis, [])
      else if c ≠ byte ':' then none
      else if t = [] then none
      else if t.head? = some (byte ':') then
        if ellipsis ≠ none then none
        else if t.tail = [] then some (groups ++ [UInt16.ofNat acc], some (groups.length + 1), [])
        else parseIPv6Loop n (groups ++ [UInt16.ofNat acc]) (some (groups.length + 1)) t.tail
      else parseIPv6Loop n (groups ++ [UInt16.ofNat acc]) ellipsis t

/-- The groups once the text is used up: the ellipsis stands for at least one zero group. -/
def expandEllipsis (groups : List UInt16) : Option ℕ → Option (List UInt16)
  | none => if groups.length < 8 then none else some groups
  | some e =>
    if groups.length < 8 then
      some (groups.take e ++ List.replicate (8 - groups.length) 0 ++ groups.drop e)
    else none

/-- `parseIPv6` on the text before the zone. -/
def parseGroups (s : GoString) : Option (List UInt16) :=
  let leading := hasPrefix s [byte ':', byte ':']
  if leading ∧ s.length = 2 then some (List.replicate 8 0)
  else
    match parseIPv6Loop 8 [] (if leading then some 0 else none) (if leading then s.drop 2 else s) with
    | some (groups, ellipsis, []) => expandEllipsis groups ellipsis
    | _ => none

/-- The text before and after the first `sep`, as `strings.Cut`. -/
def cut (sep : UInt8) : GoString → Option (GoString × GoString)
  | [] => none
  | c :: s => if c = sep then some ([], s) else (cut sep s).map fun p => (c :: p.1, p.2)

/-- `parseIPv6`. -/
def parseIPv6 (s : GoString) : Option Addr :=
  match cut (byte '%') s with
  | some (_, []) => none
  | some (t, zone) => do return .v6 (← vector? 8 (← parseGroups t)) zone
  | none => do return .v6 (← vector? 8 (← parseGroups s)) []

/-- `netip.ParseAddr`: the first separator tells the family. -/
def parseAddr (s : GoString) : Option Addr :=
  match s.find? fun c => c = byte '.' ∨ c = byte ':' ∨ c = byte '%' with
  | none => none
  | some c =>
    if c = byte '.' then parseIPv4 s
    else if c = byte ':' then parseIPv6 s
    else none

/-- `Addr.Is4`. -/
def Addr.is4 : Addr → Bool
  | .v4 _ => true
  | _ => false

/-- A port: decimal digits of a number of 16 bits. -/
def parsePort (s : GoString) : Option ℕ := do
  guard (s ≠ [])
  let digits ← s.mapM decVal
  let port := digits.foldl (fun v d => v * 10 + d) 0
  if port < 2 ^ 16 then some port else none

/-- `netip.ParseAddrPort`: an IPv6 address stands in brackets. -/
def parseAddrPort (s : GoString) : Option (Addr × ℕ) := do
  let i ← lastIndexByte s (byte ':')
  let ip := s.take i
  let v6 := ip.head? = some (byte '[')
  guard (ip ≠ [])
  if v6 then guard (2 ≤ ip.length ∧ ip.getLast? = some (byte ']'))
  let port ← parsePort (s.drop (i + 1))
  let addr ← parseAddr (if v6 then (ip.drop 1).dropLast else ip)
  guard (v6 ↔ addr.is4 = false)
  return (addr, port)

example : parseAddr (str "2001:db8::1:0%eth0") =
    some (.v6 ⟨[0x2001, 0xdb8, 0, 0, 0, 0, 1, 0], rfl⟩ (str "eth0")) := by decide

example : parseAddrPort (str "10.0.0.1:4711") = some (.v4 ⟨[10, 0, 0, 1], rfl⟩, 4711) := by decide

example : parseAddrPort (str "[10.0.0.1]:4711") = none := by decide

/-! ## Prefixes -/

/-- `netip.Prefix`: an address without zone and a number of bits. -/
inductive Prefix where
  | v4 (octets : List.Vector UInt8 4) (bits : Fin 33)
  | v6 (groups : List.Vector UInt16 8) (bits : Fin 129)
  deriving DecidableEq

/-- The number with the given digits. -/
def valueOf (base : ℕ) (digits : List ℕ) : ℕ := digits.foldl (fun v d => v * base + d) 0

/-- `Prefix.Contains`: same family, no zone, and the same leading bits. -/
def Prefix.contains : Prefix → Addr → Bool
  | .v4 p bits, .v4 a =>
    valueOf 256 (p.toList.map UInt8.toNat) / 2 ^ (32 - bits.val) =
      valueOf 256 (a.toList.map UInt8.toNat) / 2 ^ (32 - bits.val)
  | .v6 p bits, .v6 a [] =>
    valueOf 65536 (p.toList.map UInt16.toNat) / 2 ^ (128 - bits.val) =
      valueOf 65536 (a.toList.map UInt16.toNat) / 2 ^ (128 - bits.val)
  | _, _ => false

instance lengths : NeZero 33 := ⟨by decide⟩

/-- `netip.PrefixFrom` at the full length: the zone is dropped. -/
def prefixOfAddr : Addr → Option Prefix
  | .invalid => none
  | .v4 octets => some (.v4 octets 32)
  | .v6 groups _ => some (.v6 groups 128)

/-- A number of bits: decimal digits without sign or leading zero. -/
def parseBits (s : GoString) : Option ℕ := do
  guard (s ≠ [])
  guard (s.length = 1 ∨ s.head? ≠ some 48)
  return valueOf 10 (← s.mapM decVal)

/-- `netip.ParsePrefix`. -/
def parsePrefix (s : GoString) : Option Prefix := do
  let i ← lastIndexByte s (byte '/')
  let a ← parseAddr (s.take i)
  let bits ← parseBits (s.drop (i + 1))
  match a with
  | .v4 octets => if h : bits < 33 then some (.v4 octets ⟨bits, h⟩) else none
  | .v6 groups [] => if h : bits < 129 then some (.v6 groups ⟨bits, h⟩) else none
  | _ => none

example : (parsePrefix (str "10.0.0.0/8")).map (·.contains (.v4 ⟨[10, 1, 2, 3], rfl⟩)) = some true := by
  decide

end Go
