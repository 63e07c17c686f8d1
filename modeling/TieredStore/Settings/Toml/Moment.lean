import TieredStore.Decimal

/-!
# Dates and times

A date, a time of day, or both, with an offset from universal time or without. They are read off the
front of a text as they stand in a settings file (`Moment.split?`), or from a text that holds
nothing else (`Moment.ofText?`), where less is asked of hours and offsets. There is one way of
writing each (`Moment.text`).
-/

namespace TieredStore

namespace Toml

/-- A day of the calendar. -/
structure Date where
  /-- The year. -/
  year : Nat
  /-- The month, from one on. -/
  month : Nat
  /-- The day of the month, from one on. -/
  day : Nat

/-- A time of day. -/
structure Time where
  /-- The hour. -/
  hour : Nat
  /-- The minute. -/
  minute : Nat
  /-- The second, which is 60 for a leap second. -/
  second : Nat
  /-- The billionths of a second. -/
  fraction : Nat

/-- How far a time is ahead of universal time. -/
inductive Offset where
  /-- It is universal time. -/
  | zulu
  /-- By a number of minutes. -/
  | minutes (n : Int)

/-- A date, a time, or both. -/
structure Moment where
  /-- The date, if there is one. -/
  date : Option Date
  /-- The time of day, if there is one. -/
  time : Option Time
  /-- The offset, if there is one. -/
  offset : Option Offset

/-- Whether a year has a 29th of February. -/
def isLeapYear (year : Nat) : Bool := year % 4 = 0 && (year % 100 != 0 || year % 400 = 0)

/-- The number of days in a month. -/
def daysInMonth (year month : Nat) : Nat :=
  if month = 2 then (if isLeapYear year then 29 else 28)
  else if month = 4 ∨ month = 6 ∨ month = 9 ∨ month = 11 then 30
  else 31

/-- A number of `width` digits at the front of a text, and what follows them. -/
def splitFixed? (width : Nat) (cs : List Char) : Option (Nat × List Char) :=
  let digits := cs.take width
  if digits.length = width && digits.all Char.isDigit then
    some (Decimal.ofDigits digits, cs.drop width)
  else none

/-- What follows a given character at the front of a text. -/
def skipChar? (c : Char) : List Char → Option (List Char)
  | [] => none
  | a :: cs => if a = c then some cs else none

/-- A date of the calendar at the front of a text, and what follows it. -/
def splitDate? (cs : List Char) : Option (Date × List Char) := do
  let (year, cs) ← splitFixed? 4 cs
  let cs ← skipChar? '-' cs
  let (month, cs) ← splitFixed? 2 cs
  let cs ← skipChar? '-' cs
  let (day, cs) ← splitFixed? 2 cs
  if 1 ≤ month ∧ month ≤ 12 ∧ 1 ≤ day ∧ day ≤ daysInMonth year month then
    some (⟨year, month, day⟩, cs)
  else none

/-- Two digits, a colon and two digits at the front of a text, and what follows them. -/
def splitPair? (cs : List Char) : Option (Nat × Nat × List Char) := do
  let (hour, cs) ← splitFixed? 2 cs
  let cs ← skipChar? ':' cs
  let (minute, cs) ← splitFixed? 2 cs
  some (hour, minute, cs)

/-- A time of day at the front of a text, and what follows it. The hour is at most `lastHour`, and
of the digits of a fraction the first nine count. -/
def splitTime? (lastHour : Nat) (cs : List Char) : Option (Time × List Char) := do
  let (hour, minute, cs) ← splitPair? cs
  let cs ← skipChar? ':' cs
  let (second, cs) ← splitFixed? 2 cs
  let (digits, cs) ← Decimal.splitFraction? cs
  let fraction := Decimal.ofDigits ((digits ++ List.replicate 9 '0').take 9)
  if hour ≤ lastHour ∧ minute ≤ 59 ∧ second ≤ 60 then
    some (⟨hour, minute, second, fraction⟩, cs)
  else none

/-- An offset at the front of a text, and what follows it. Its hours and minutes must be such as
`isAllowed` says. -/
def splitOffset? (isAllowed : Nat → Nat → Bool) (cs : List Char) : Option (Offset × List Char) :=
  let signed (sign : Int) (cs : List Char) : Option (Offset × List Char) :=
    match splitPair? cs with
    | none => none
    | some (hours, minutes, rest) =>
      if isAllowed hours minutes then some (.minutes (sign * (60 * hours + minutes : Nat)), rest)
      else none
  match cs with
  | 'Z' :: rest | 'z' :: rest => some (.zulu, rest)
  | '+' :: cs => signed 1 cs
  | '-' :: cs => signed (-1) cs
  | _ => none

/-- What follows the mark between a date and a time, a letter `t` of either case or a blank. -/
def skipTimeMark? : List Char → Option (List Char)
  | [] => none
  | c :: cs => if c = 'T' ∨ c = 't' ∨ c = ' ' then some cs else none

namespace Moment

/-- Whether a value that starts like this is a date or a time, and no number. -/
def isFront : List Char → Bool
  | a :: b :: ':' :: _ => a.isDigit && b.isDigit
  | a :: b :: c :: d :: '-' :: _ => a.isDigit && b.isDigit && c.isDigit && d.isDigit
  | _ => false

/-- The moment at the front of a text, and what follows it. Only a time with a date has an
offset. -/
def split? (cs : List Char) : Option (Moment × List Char) :=
  match splitDate? cs with
  | none => (splitTime? 23 cs).map (fun (time, rest) => (⟨none, some time, none⟩, rest))
  | some (date, rest) =>
    match (skipTimeMark? rest).bind (splitTime? 23) with
    | none => some (⟨some date, none, none⟩, rest)
    | some (time, rest) =>
      match splitOffset? (fun hours minutes => hours ≤ 23 && minutes ≤ 59) rest with
      | none => some (⟨some date, some time, none⟩, rest)
      | some (offset, rest) => some (⟨some date, some time, some offset⟩, rest)

/-- The moment that a whole text stands for. A day may end at the hour 24, and an offset is at most
a day; it may also follow a date without a time. -/
def ofText? (s : String) : Option Moment :=
  let cs := s.toList
  if cs[2]? = some ':' then
    match splitTime? 24 cs with
    | some (time, []) => some ⟨none, some time, none⟩
    | _ => none
  else
    match splitDate? cs with
    | none => none
    | some (date, rest) =>
      let timed : Option (Option Time × List Char) :=
        match skipTimeMark? rest with
        | none => some (none, rest)
        | some rest => (splitTime? 24 rest).map (fun (time, rest) => (some time, rest))
      match timed with
      | none => none
      | some (time, []) => some ⟨some date, time, none⟩
      | some (time, rest) =>
        match splitOffset? (fun hours minutes => 60 * hours + minutes ≤ 24 * 60) rest with
        | some (offset, []) => some ⟨some date, time, some offset⟩
        | _ => none

end Moment

/-- A number with zeros in front up to `width` digits. -/
def padded (width n : Nat) : List Char :=
  let digits := Nat.toDigits 10 n
  List.replicate (width - digits.length) '0' ++ digits

/-- A date as a text. -/
def Date.render (d : Date) : List Char :=
  padded 4 d.year ++ '-' :: (padded 2 d.month ++ '-' :: padded 2 d.day)

/-- A time of day as a text, without needless zeros at the end of its fraction. -/
def Time.render (t : Time) : List Char :=
  padded 2 t.hour ++ ':' :: (padded 2 t.minute ++ ':' :: padded 2 t.second)
    ++ (if t.fraction = 0 then []
      else '.' :: ((padded 9 t.fraction).reverse.dropWhile (· = '0')).reverse)

/-- An offset as a text. -/
def Offset.render : Offset → List Char
  | .zulu => ['Z']
  | .minutes n =>
    (if n < 0 then '-' else '+') :: (padded 2 (n.natAbs / 60) ++ ':' :: padded 2 (n.natAbs % 60))

/-- A moment as a text. -/
def Moment.text (m : Moment) : String :=
  String.ofList <|
    (m.date.map Date.render).getD []
      ++ (if m.date.isSome && m.time.isSome then ['T'] else [])
      ++ (m.time.map Time.render).getD []
      ++ (m.offset.map Offset.render).getD []

end Toml

end TieredStore
