import YangToProto.Text.Digits

/-!
# Dates and times

A moment is a date, a time of day, or a date with a time and perhaps an offset from universal
time. Moments are written in one form, whatever form they were read from.
-/

namespace YangToProto

structure Date where
  year : Nat
  month : Nat
  day : Nat
deriving DecidableEq, Repr

/-- A time of day; the sixtieth second is a leap second. -/
structure TimeOfDay where
  hour : Nat
  minute : Nat
  second : Nat
  nanosecond : Nat
deriving DecidableEq, Repr

inductive Offset where
  | universal
  | minutes (count : Int)
deriving DecidableEq, Repr

inductive Moment where
  | date (day : Date)
  | time (clock : TimeOfDay)
  | dateTime (day : Date) (clock : TimeOfDay)
  | instant (day : Date) (clock : TimeOfDay) (offset : Offset)
deriving DecidableEq, Repr

/-! ## Writing -/

def padded (width n : Nat) : String :=
  let digits := toString n
  String.ofList (List.replicate (width - digits.length) '0') ++ digits

def Date.text (date : Date) : String :=
  padded 4 date.year ++ "-" ++ padded 2 date.month ++ "-" ++ padded 2 date.day

/-- The text of a time; a fraction has no zeros at its end. -/
def TimeOfDay.text (time : TimeOfDay) : String :=
  let digits := (padded 9 time.nanosecond).toList.reverse.dropWhile (· == '0')
  padded 2 time.hour ++ ":" ++ padded 2 time.minute ++ ":" ++ padded 2 time.second ++
    if digits.isEmpty then "" else "." ++ String.ofList digits.reverse

def Offset.text : Offset → String
  | universal => "Z"
  | minutes count =>
    (if count < 0 then "-" else "+") ++ padded 2 (count.natAbs / 60) ++ ":" ++
      padded 2 (count.natAbs % 60)

def Moment.text : Moment → String
  | date day => day.text
  | time clock => clock.text
  | dateTime day clock => day.text ++ "T" ++ clock.text
  | instant day clock offset => day.text ++ "T" ++ clock.text ++ offset.text

/-! ## Reading -/

namespace Moment

/-- Takes a number of exactly so many digits within bounds from the front of a text. -/
def digits? (width least greatest : Nat) (text : List Char) : Option (Nat × List Char) := do
  if text.length < width then none
  else
    let n ← Digits.number? 10 (text.take width)
    if least ≤ n ∧ n ≤ greatest then some (n, text.drop width) else none

def mark? (mark : Char) : List Char → Option (List Char)
  | [] => none
  | c :: rest => if c = mark then some rest else none

def isLeapYear (year : Nat) : Bool :=
  year % 4 == 0 && (year % 100 != 0 || year % 400 == 0)

def daysOfMonth (year month : Nat) : Nat :=
  if month = 2 then (if isLeapYear year then 29 else 28)
  else if month = 4 ∨ month = 6 ∨ month = 9 ∨ month = 11 then 30
  else 31

def date? (text : List Char) : Option (Date × List Char) := do
  let (year, text) ← digits? 4 0 9999 text
  let (month, text) ← digits? 2 1 12 (← mark? '-' text)
  let (day, text) ← digits? 2 1 (daysOfMonth year month) (← mark? '-' text)
  return (⟨year, month, day⟩, text)

/-- Takes the fraction of a second in nanoseconds, if there is one; further digits do not
count. -/
def fraction (text : List Char) : Nat × List Char :=
  match text with
  | '.' :: rest =>
    let digits := rest.takeWhile Char.isDigit
    match Digits.number? 10 ((digits ++ List.replicate 9 '0').take 9) with
    | some n => if digits.isEmpty then (0, text) else (n, rest.dropWhile Char.isDigit)
    | none => (0, text)
  | _ => (0, text)

def time? (latest : Nat) (text : List Char) : Option (TimeOfDay × List Char) := do
  let (hour, text) ← digits? 2 0 latest text
  let (minute, text) ← digits? 2 0 59 (← mark? ':' text)
  let (second, text) ← digits? 2 0 60 (← mark? ':' text)
  let (nanosecond, text) := fraction text
  return (⟨hour, minute, second, nanosecond⟩, text)

def signedOffset? (sign : Int) (text : List Char) : Option (Offset × List Char) := do
  let (hours, text) ← digits? 2 0 23 text
  let (minutes, text) ← digits? 2 0 59 (← mark? ':' text)
  return (.minutes (sign * (hours * 60 + minutes)), text)

def offset? (text : List Char) : Option (Offset × List Char) :=
  match text with
  | 'Z' :: rest => some (.universal, rest)
  | 'z' :: rest => some (.universal, rest)
  | '+' :: rest => signedOffset? 1 rest
  | '-' :: rest => signedOffset? (-1) rest
  | _ => none

/-- Takes what may stand behind a date: a letter or a blank, a time and perhaps an offset. -/
def afterDate (day : Date) (text : List Char) : Moment × List Char :=
  match text with
  | mark :: rest =>
    if mark = 'T' ∨ mark = 't' ∨ mark = ' ' then
      match time? 23 rest with
      | none => (.date day, text)
      | some (clock, rest) =>
        match offset? rest with
        | none => (.dateTime day clock, rest)
        | some (offset, rest) => (.instant day clock offset, rest)
    else (.date day, text)
  | [] => (.date day, text)

def read? (text : List Char) : Option (Moment × List Char) :=
  match date? text with
  | some (day, rest) => some (afterDate day rest)
  | none => (time? 23 text).map fun (clock, rest) => (.time clock, rest)

end Moment

end YangToProto
