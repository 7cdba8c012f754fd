/-!
# Toml.DateTime — dates and times of day

No table of this library holds a date, so one is read only to know that it is one and where it ends.  It still has to
be a date: the month has that day, the day has that hour.  Seconds may be sixty.
-/
namespace CAbi
namespace Toml

/-- Two digits that write a number between two bounds. -/
def twoDigits? (low high : Nat) : List Char → Option (Nat × List Char)
  | a :: b :: cs =>
    if a.isDigit && b.isDigit then
      let n := (a.toNat - '0'.toNat) * 10 + (b.toNat - '0'.toNat)
      if low ≤ n && n ≤ high then some (n, cs) else none
    else none
  | _ => none

def expect? (c : Char) : List Char → Option (List Char)
  | d :: cs => if c == d then some cs else none
  | [] => none

def isLeapYear (year : Nat) : Bool := year % 4 == 0 && (year % 100 != 0 || year % 400 == 0)

def daysInMonth (year month : Nat) : Nat :=
  if month == 2 then (if isLeapYear year then 29 else 28)
  else if month == 4 || month == 6 || month == 9 || month == 11 then 30
  else 31

/-- **A date**, `year-month-day`. -/
def date? (cs : List Char) : Option (List Char) := do
  let (century, cs) ← twoDigits? 0 99 cs
  let (rest, cs) ← twoDigits? 0 99 cs
  let cs ← expect? '-' cs
  let (month, cs) ← twoDigits? 1 12 cs
  let cs ← expect? '-' cs
  let (_, cs) ← twoDigits? 1 (daysInMonth (century * 100 + rest) month) cs
  some cs

/-- **A time of day**, `hour:minute:second` with an optional fraction. -/
def time? (cs : List Char) : Option (List Char) := do
  let (_, cs) ← twoDigits? 0 23 cs
  let cs ← expect? ':' cs
  let (_, cs) ← twoDigits? 0 59 cs
  let cs ← expect? ':' cs
  let (_, cs) ← twoDigits? 0 60 cs
  match cs with
  | '.' :: d :: rest => if d.isDigit then some (rest.dropWhile Char.isDigit) else some cs
  | _ => some cs

/-- The offset of a time from the standard one, if it is given. -/
def offset? : List Char → Option (List Char)
  | 'Z' :: cs => some cs
  | 'z' :: cs => some cs
  | c :: cs =>
    if c == '+' || c == '-' then do
      let (_, cs) ← twoDigits? 0 23 cs
      let cs ← expect? ':' cs
      let (_, cs) ← twoDigits? 0 59 cs
      some cs
    else some (c :: cs)
  | [] => some []

/-- The text begins as a date does: four digits and a hyphen. -/
def startsDate : List Char → Bool
  | a :: b :: c :: d :: '-' :: _ => a.isDigit && b.isDigit && c.isDigit && d.isDigit
  | _ => false

/-- The text begins as a time does: two digits and a colon. -/
def startsTime : List Char → Bool
  | a :: b :: ':' :: _ => a.isDigit && b.isDigit
  | _ => false

def isDateDelimiter (c : Char) : Bool := c == 'T' || c == 't' || c == ' '

/-- **A date, a time, or both**; only a time with a date has an offset. -/
def dateTime? (cs : List Char) : Option (List Char) :=
  if startsDate cs then do
    let rest ← date? cs
    match rest with
    | c :: rest' =>
      if isDateDelimiter c && startsTime rest' then do
        offset? (← time? rest')
      else some rest
    | [] => some []
  else time? cs

end Toml
end CAbi
