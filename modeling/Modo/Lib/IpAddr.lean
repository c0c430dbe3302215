import Modo.Lib.Radix

/-!
# IP addresses

`IpAddr::from_str`.  The parser reads from the front and gives back what is left; what fails
reads nothing.
-/

/-- `IpAddr`. -/
inductive IpAddr where
  | v4 (octets : Vector UInt8 4)
  | v6 (groups : Vector UInt16 8)
  deriving DecidableEq

namespace IpAddr

/-- `Ipv4Addr::LOCALHOST`. -/
def localhost : IpAddr := .v4 #v[127, 0, 0, 1]

/-- `read_number`, of at most `maxDigits` digits and below `bound`. -/
def readNumber (radix maxDigits bound : ℕ) (allowZeroPrefix : Bool) (text : List Char) :
    Option (ℕ × List Char) :=
  let values := (text.takeWhile fun c => (Radix.toDigit radix c).isSome).filterMap
    (Radix.toDigit radix)
  if maxDigits < values.length then none
  else if values = [] then none
  else if allowZeroPrefix = false ∧ text.head? = some '0' ∧ 1 < values.length then none
  else if Radix.number radix values < bound then
    some (Radix.number radix values, text.drop values.length)
  else none

/-- `read_given_char`. -/
def readGivenChar (given : Char) : List Char → Option (List Char)
  | [] => none
  | c :: rest => if c = given then some rest else none

/-- `read_separator`: the separator stands in front of all but the first part. -/
def readSeparator {α : Type} (separator : Char) (index : ℕ)
    (inner : List Char → Option (α × List Char)) (text : List Char) : Option (α × List Char) :=
  if 0 < index then (readGivenChar separator text).bind inner else inner text

/-- The parts of an IPv4 address from one on, of which `count` are left. -/
def readOctets : ℕ → ℕ → List Char → Option (List ℕ × List Char)
  | 0, _, text => some ([], text)
  | count + 1, index, text =>
      match readSeparator '.' index (readNumber 10 3 256 false) text with
      | none => none
      | some (octet, rest) =>
          (readOctets count (index + 1) rest).map fun (octets, rest) => (octet :: octets, rest)

/-- `read_ipv4_addr`. -/
def readIpv4Addr (text : List Char) : Option (List ℕ × List Char) := readOctets 4 0 text

/-- `read_groups`, from one group on, of which `count` are left: the groups, whether an IPv4
address stands at their end, and the rest. -/
def readGroups : ℕ → ℕ → List Char → List ℕ × Bool × List Char
  | 0, _, text => ([], false, text)
  | count + 1, index, text =>
      -- an IPv4 address takes two groups
      match if 0 < count then readSeparator ':' index readIpv4Addr text else none with
      | some (octets, rest) =>
          ([octets.getD 0 0 * 256 + octets.getD 1 0, octets.getD 2 0 * 256 + octets.getD 3 0],
            true, rest)
      | none =>
          match readSeparator ':' index (readNumber 16 4 65536 true) text with
          | none => ([], false, text)
          | some (group, rest) =>
              let (groups, embedded, rest) := readGroups count (index + 1) rest
              (group :: groups, embedded, rest)

/-- `read_ipv6_addr`. -/
def readIpv6Addr (text : List Char) : Option (List ℕ × List Char) :=
  let (head, headIpv4, rest) := readGroups 8 0 text
  if head.length = 8 then some (head, rest)
  else if headIpv4 then none
  else
    match (readGivenChar ':' rest).bind (readGivenChar ':') with
    | none => none
    | some rest =>
        let (tail, _, rest) := readGroups (8 - (head.length + 1)) 0 rest
        some (head ++ List.replicate (8 - head.length - tail.length) 0 ++ tail, rest)

/-- `read_ip_addr`. -/
def readIpAddr (text : List Char) : Option (IpAddr × List Char) :=
  match readIpv4Addr text with
  | some (octets, rest) =>
      some (.v4 (Vector.ofFn fun i => UInt8.ofNat (octets.getD i 0)), rest)
  | none =>
      (readIpv6Addr text).map fun (groups, rest) =>
        (.v6 (Vector.ofFn fun i => UInt16.ofNat (groups.getD i 0)), rest)

/-- `IpAddr::from_str`. -/
def fromStr (text : List Char) : Option IpAddr :=
  match readIpAddr text with
  | some (ip, []) => some ip
  | _ => none

end IpAddr
