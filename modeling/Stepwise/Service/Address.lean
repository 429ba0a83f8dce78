/-!
# Socket addresses

The address that a server listens on: four decimal octets and a port, or eight
groups of hexadecimal digits in brackets, with an optional scope, and a port.

A run of zero groups may be written `::`, and the last two groups as four octets.
Written out, the longest run of two or more zero groups is left out, the first of
several, and letters are small.
-/

namespace Stepwise.Service

/-- An address of four octets. -/
structure Ipv4 where
  a : UInt8
  b : UInt8
  c : UInt8
  d : UInt8
deriving DecidableEq

/-- The address of a socket. -/
inductive SocketAddress
  | v4 (ip : Ipv4) (port : UInt16)
  /-- Eight groups of sixteen bits. -/
  | v6 (groups : Vector UInt16 8) (scope : UInt32) (port : UInt16)
deriving DecidableEq

namespace SocketAddress

/-! ## Reading -/

/-- The value of a digit in a base up to sixteen. -/
def digitValue? (base : Nat) (c : Char) : Option Nat :=
  let value :=
    if '0' ≤ c ∧ c ≤ '9' then c.toNat - '0'.toNat
    else if 'a' ≤ c ∧ c ≤ 'f' then c.toNat - 'a'.toNat + 10
    else if 'A' ≤ c ∧ c ≤ 'F' then c.toNat - 'A'.toNat + 10
    else base
  if value < base then some value else none

/-- The number in front of a text: all digits there, at least one of them and no more
than `maxDigits`, with a value below `bound`. -/
def number? (base bound : Nat) (maxDigits : Option Nat) (leadingZeros : Bool) (cs : List Char) :
    Option (Nat × List Char) :=
  let isDigit := fun c => (digitValue? base c).isSome
  let ds := cs.takeWhile isDigit
  let value := ds.foldl (fun n c => n * base + (digitValue? base c).getD 0) 0
  if ds.isEmpty ∨ maxDigits.any (· < ds.length) ∨ bound ≤ value ∨
      (!leadingZeros ∧ ds.head? = some '0' ∧ ds.length ≠ 1) then none
  else some (value, cs.dropWhile isDigit)

/-- The text behind a character that must come first. -/
def expect? (c : Char) (cs : List Char) : Option (List Char) :=
  match cs with
  | x :: rest => if x = c then some rest else none
  | [] => none

/-- An octet. -/
def octet? (cs : List Char) : Option (UInt8 × List Char) :=
  (number? 10 256 (some 3) false cs).map fun (n, rest) => (.ofNat n, rest)

/-- Four octets between points. -/
def ipv4? (cs : List Char) : Option (Ipv4 × List Char) := do
  let (a, cs) ← octet? cs
  let (b, cs) ← octet? (← expect? '.' cs)
  let (c, cs) ← octet? (← expect? '.' cs)
  let (d, cs) ← octet? (← expect? '.' cs)
  return (⟨a, b, c, d⟩, cs)

/-- The two groups that four octets stand for. -/
def groupsOf (ip : Ipv4) : List UInt16 :=
  [ip.a.toUInt16 * 256 + ip.b.toUInt16, ip.c.toUInt16 * 256 + ip.d.toUInt16]

/-- Groups between colons, up to `limit` of them, the last two perhaps as four
octets; and whether they ended so. The text behind the last group that could be
read is given back. -/
def groups (first : Bool) : (limit : Nat) → List Char → List UInt16 × Bool × List Char
  | 0, cs => ([], false, cs)
  | limit + 1, cs =>
    match (if first then some cs else expect? ':' cs) with
    | none => ([], false, cs)
    | some start =>
      -- Four octets take the room of two groups.
      match (if limit = 0 then none else ipv4? start) with
      | some (ip, rest) => (groupsOf ip, true, rest)
      | none =>
        match number? 16 65536 (some 4) true start with
        | none => ([], false, cs)
        | some (g, rest) =>
          let (gs, dotted, rest) := groups false limit rest
          (.ofNat g :: gs, dotted, rest)

/-- Eight groups, some of them perhaps left out at a double colon; four octets may
not stand before it. -/
def ipv6? (cs : List Char) : Option (Vector UInt16 8 × List Char) := do
  let (head, dotted, cs) := groups true 8 cs
  if h : head.length = 8 then
    return (⟨head.toArray, by simpa using h⟩, cs)
  else
    if dotted then none
    let cs ← expect? ':' (← expect? ':' cs)
    -- The double colon stands for one group at least.
    let (tail, _, cs) := groups true (7 - head.length) cs
    let all := head ++ List.replicate (8 - head.length - tail.length) 0 ++ tail
    if h : all.length = 8 then return (⟨all.toArray, by simpa using h⟩, cs) else none

/-- A colon and a port. -/
def port? (cs : List Char) : Option (UInt16 × List Char) := do
  let (n, rest) ← number? 10 65536 none true (← expect? ':' cs)
  return (.ofNat n, rest)

/-- A percent sign and a scope. -/
def scope? (cs : List Char) : Option (UInt32 × List Char) := do
  let (n, rest) ← number? 10 4294967296 none true (← expect? '%' cs)
  return (.ofNat n, rest)

/-- Octets and a port. -/
def readV4? (cs : List Char) : Option (SocketAddress × List Char) := do
  let (ip, cs) ← ipv4? cs
  let (port, cs) ← port? cs
  return (.v4 ip port, cs)

/-- Groups in brackets and a port. -/
def readV6? (cs : List Char) : Option (SocketAddress × List Char) := do
  let (groups, cs) ← ipv6? (← expect? '[' cs)
  let (scope, cs) := (scope? cs).getD (0, cs)
  let (port, cs) ← port? (← expect? ']' cs)
  return (.v6 groups scope port, cs)

/-- Read an address. -/
def ofText? (cs : List Char) : Option SocketAddress :=
  match (readV4? cs).or (readV6? cs) with
  | some (address, []) => some address
  | _ => none

/-! ## Writing -/

/-- The text of octets. -/
def ipv4Text (ip : Ipv4) : String :=
  ip.a.toNat.repr ++ "." ++ ip.b.toNat.repr ++ "." ++ ip.c.toNat.repr ++ "." ++ ip.d.toNat.repr

/-- The hexadecimal text of a group. -/
def groupText (g : UInt16) : String := String.ofList (Nat.toDigits 16 g.toNat)

/-- The texts of groups between colons. -/
def groupsText (gs : List UInt16) : String := ":".intercalate (gs.map groupText)

/-- How many zero groups stand at the front. -/
def zeros (gs : List UInt16) : Nat := (gs.takeWhile (· == 0)).length

/-- The start and length of the longest run of zero groups, the first of several. -/
def longestRun (gs : List UInt16) : Nat × Nat :=
  (List.range gs.length).foldl (fun best start =>
    if best.2 < zeros (gs.drop start) then (start, zeros (gs.drop start)) else best) (0, 0)

/-- The text of eight groups. Octets carried in the last two groups are written as
such. -/
def ipv6Text (groups : Vector UInt16 8) : String :=
  let gs := groups.toList
  if gs.take 6 = [0, 0, 0, 0, 0, 0xFFFF] then
    "::ffff:" ++ ipv4Text ⟨(groups[6] / 256).toUInt8, groups[6].toUInt8,
      (groups[7] / 256).toUInt8, groups[7].toUInt8⟩
  else
    let (start, length) := longestRun gs
    if 1 < length then
      groupsText (gs.take start) ++ "::" ++ groupsText (gs.drop (start + length))
    else groupsText gs

/-- The text of an address. The scope zero is not written. -/
def text : SocketAddress → String
  | .v4 ip port => ipv4Text ip ++ ":" ++ port.toNat.repr
  | .v6 groups scope port =>
    "[" ++ ipv6Text groups ++ (if scope = 0 then "" else "%" ++ scope.toNat.repr) ++ "]:" ++
      port.toNat.repr

end SocketAddress

end Stepwise.Service
