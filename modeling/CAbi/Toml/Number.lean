import CAbi.Toml.Text
/-!
# Toml.Number — integers and floats

Integers are 64-bit and signed; they are written in decimal, or without a sign in base sixteen, eight or two.  An
underscore may stand between two digits and nowhere else, and a decimal number has no leading zero.

No table of this library holds a float, so a float is read only to know that it is one and where it ends; but a text
is not a document if one of its floats is too large to be a double.
-/
namespace CAbi
namespace Toml

def isOctal (c : Char) : Bool := '0' ≤ c && c ≤ '7'

def isBinary (c : Char) : Bool := c == '0' || c == '1'

def isHex (c : Char) : Bool := (hexDigit? c).isSome

/-- **The digits after a first one**: digits, each with at most one underscore before it. -/
def moreDigits (isDigit : Char → Bool) : List Char → Option (List Char × List Char)
  | [] => some ([], [])
  | '_' :: c :: cs => if isDigit c then (moreDigits isDigit cs).map fun (ds, r) => (c :: ds, r) else none
  | c :: cs =>
    if isDigit c then (moreDigits isDigit cs).map fun (ds, r) => (c :: ds, r)
    else if c == '_' then none
    else some ([], c :: cs)

def digits? (isDigit : Char → Bool) : List Char → Option (List Char × List Char)
  | c :: cs => if isDigit c then (moreDigits isDigit cs).map fun (ds, r) => (c :: ds, r) else none
  | [] => none

def wholePart? : List Char → Option (List Char × List Char)
  | '0' :: cs => some (['0'], cs)
  | cs => digits? Char.isDigit cs

def valueOfDigits (base : Nat) (ds : List Char) : Nat :=
  ds.foldl (fun acc c => acc * base + (hexDigit? c).getD 0) 0

/-- The number as a 64-bit integer, if it is one. -/
def int64? (n : Int) : Option Int :=
  if Int64.minValue.toInt ≤ n && n ≤ Int64.maxValue.toInt then some n else none

def takeSign : List Char → Bool × List Char
  | '+' :: cs => (false, cs)
  | '-' :: cs => (true, cs)
  | cs => (false, cs)

/-- **The least number that no longer rounds to a finite double**: half a unit past the largest one. -/
def doubleLimit : Nat := Nat.pow 2 1024 - Nat.pow 2 970

/-- **`digits · 10 ^ scale` rounds to infinity.**  Only in the neighbourhood of the limit is there anything to
compute. -/
def overflowsDouble (digits : List Char) (scale : Int) : Bool :=
  let significant := digits.dropWhile (· == '0')
  let magnitude : Int := significant.length + scale
  let n := valueOfDigits 10 significant
  if significant.isEmpty then false
  else if 310 < magnitude then true
  else if magnitude < 300 then false
  else if 0 ≤ scale then doubleLimit ≤ n * Nat.pow 10 scale.toNat
  else doubleLimit * Nat.pow 10 (-scale).toNat ≤ n

inductive Numeral where
  | integer (n : Int)
  | float

def exponent? (cs : List Char) : Option (Int × List Char) :=
  let (negative, cs) := takeSign cs
  (digits? Char.isDigit cs).map fun (ds, r) =>
    let n : Int := valueOfDigits 10 ds
    (if negative then -n else n, r)

/-- A float whose digits are read up to its exponent; a negative one may overflow, as it is never used. -/
def finishFloat (negative : Bool) (digits : List Char) (scale : Int) (rest : List Char) :
    Option (Numeral × List Char) :=
  if !negative && overflowsDouble digits scale then none else some (.float, rest)

def decimal? (negative : Bool) (cs : List Char) : Option (Numeral × List Char) := do
  let (whole, rest) ← wholePart? cs
  match rest with
  | '.' :: rest =>
    let (fraction, rest) ← digits? Char.isDigit rest
    match rest with
    | c :: rest' =>
      if c == 'e' || c == 'E' then
        let (e, rest'') ← exponent? rest'
        finishFloat negative (whole ++ fraction) (e - fraction.length) rest''
      else finishFloat negative (whole ++ fraction) (-fraction.length) rest
    | [] => finishFloat negative (whole ++ fraction) (-fraction.length) rest
  | c :: rest' =>
    if c == 'e' || c == 'E' then
      let (e, rest'') ← exponent? rest'
      finishFloat negative whole e rest''
    else
      let n : Int := valueOfDigits 10 whole
      (int64? (if negative then -n else n)).map fun n => (.integer n, rest)
  | [] =>
    let n : Int := valueOfDigits 10 whole
    (int64? (if negative then -n else n)).map fun n => (.integer n, rest)

def radix? (base : Nat) (isDigit : Char → Bool) (cs : List Char) : Option (Numeral × List Char) := do
  let (ds, rest) ← digits? isDigit cs
  (int64? (valueOfDigits base ds)).map fun n => (.integer n, rest)

def number? : List Char → Option (Numeral × List Char)
  | '0' :: 'x' :: cs => radix? 16 isHex cs
  | '0' :: 'o' :: cs => radix? 8 isOctal cs
  | '0' :: 'b' :: cs => radix? 2 isBinary cs
  | cs =>
    match takeSign cs with
    | (_, 'i' :: 'n' :: 'f' :: rest) => some (.float, rest)
    | (_, 'n' :: 'a' :: 'n' :: rest) => some (.float, rest)
    | (negative, rest) => decimal? negative rest

end Toml
end CAbi
