import AppletHost.Number.Numeral
import AppletHost.Number.Shortest
import AppletHost.Text.Search

/-!
# Dates and times

A moment is a date, a time of day, or both with perhaps an offset from universal time. `Moment.text`
is its one spelling: a `T` between date and time, seconds always, as many places after the point as
are needed, `Z` or a signed offset at the end. There are two readers: `moment?` takes a moment off
the front of a file, `Moment.ofText?` reads a whole text and is laxer about the clock (`Clock`).
-/

namespace AppletHost.Toml

/-- A day of the calendar. -/
structure Date where
  year : Nat
  month : Nat
  day : Nat
deriving DecidableEq, Repr, Inhabited

/-- A time of day, to the nanosecond. -/
structure TimeOfDay where
  hour : Nat
  minute : Nat
  second : Nat
  nanosecond : Nat
deriving DecidableEq, Repr, Inhabited

/-- How far a clock is from universal time: not at all, or by minutes. -/
inductive Offset where
  | universal
  | minutes (n : Int)
deriving DecidableEq, Repr, Inhabited

/-- A date, a time of day, or both; only both together have an offset. -/
structure Moment where
  date : Option Date
  time : Option TimeOfDay
  offset : Option Offset
deriving DecidableEq, Repr, Inhabited

/-- The number of days of a month. -/
def daysIn (year month : Nat) : Nat :=
  if month = 2 then
    if (year % 4 = 0 ∧ year % 100 ≠ 0) ∨ year % 400 = 0 then 29 else 28
  else if month = 4 ∨ month = 6 ∨ month = 9 ∨ month = 11 then 30
  else 31

/-! ## Spelling -/

/-- The digits of a number with zeros in front, at least `width` in all. -/
def padded (width n : Nat) : List Char :=
  let digits := Number.natDigits n
  Number.zeros (width - digits.length) ++ digits

/-- `year-month-day`. -/
def Date.text (d : Date) : List Char :=
  padded 4 d.year ++ '-' :: (padded 2 d.month ++ '-' :: padded 2 d.day)

/-- The places after the point, without zeros at the end; none for a whole second. -/
def TimeOfDay.fraction (t : TimeOfDay) : List Char :=
  if t.nanosecond = 0 then []
  else '.' :: ((padded 9 t.nanosecond).reverse.dropWhile (· == '0')).reverse

/-- `hour:minute:second`, and the fraction of a second if there is one. -/
def TimeOfDay.text (t : TimeOfDay) : List Char :=
  padded 2 t.hour ++ ':' :: (padded 2 t.minute ++ ':' :: padded 2 t.second) ++ t.fraction

/-- `Z`, or a sign with hours and minutes. -/
def Offset.text : Offset → List Char
  | .universal => ['Z']
  | .minutes n =>
    (if n < 0 then '-' else '+') :: (padded 2 (n.natAbs / 60) ++ ':' :: padded 2 (n.natAbs % 60))

/-- The spelling of a moment. -/
def Moment.text (m : Moment) : String :=
  let date := (m.date.map Date.text).getD []
  let time := (m.time.map TimeOfDay.text).getD []
  let mark := if m.date.isSome ∧ m.time.isSome then ['T'] else []
  String.ofList (date ++ mark ++ time ++ (m.offset.map Offset.text).getD [])

/-! ## Reading -/

/-- The greatest hour of a day, and the greatest hour and minute of an offset. -/
structure Clock where
  hour : Nat
  offsetHour : Nat
  offsetMinute : Nat

/-- The clock of a moment that stands in a file. -/
def Clock.ofFile : Clock := ⟨23, 23, 59⟩

/-- The clock of a moment that is given as a text. -/
def Clock.ofText : Clock := ⟨24, 99, 99⟩

/-- The greatest offset either way, in minutes. -/
def maxOffset : Nat := 24 * 60

/-- Exactly `count` digits that denote a number from `low` to `high`. -/
def digits? (count low high : Nat) (cs : List Char) : Option (Nat × List Char) :=
  let ds := cs.take count
  let n := Number.ofDigits ds
  if ds.length = count ∧ ds.all Char.isDigit ∧ low ≤ n ∧ n ≤ high then some (n, cs.drop count)
  else none

/-- A date at the front of the text. -/
def date? (cs : List Char) : Option (Date × List Char) := do
  let (year, cs) ← digits? 4 0 9999 cs
  let cs ← Text.startsWith? ['-'] cs
  let (month, cs) ← digits? 2 1 12 cs
  let cs ← Text.startsWith? ['-'] cs
  let (day, cs) ← digits? 2 1 (daysIn year month) cs
  some (⟨year, month, day⟩, cs)

/-- The nanoseconds that digits after the point denote; those beyond the ninth are cut off. -/
def nanoseconds (ds : List Char) : Nat :=
  let kept := ds.take 9
  Number.ofDigits kept * Nat.pow 10 (9 - kept.length)

/-- A time of day at the front of the text. -/
def time? (clock : Clock) (cs : List Char) : Option (TimeOfDay × List Char) := do
  let (hour, cs) ← digits? 2 0 clock.hour cs
  let cs ← Text.startsWith? [':'] cs
  let (minute, cs) ← digits? 2 0 59 cs
  let cs ← Text.startsWith? [':'] cs
  let (second, cs) ← digits? 2 0 60 cs
  match cs with
  | '.' :: rest =>
    let ds := rest.takeWhile Char.isDigit
    if ds = [] then none
    else some (⟨hour, minute, second, nanoseconds ds⟩, rest.dropWhile Char.isDigit)
  | cs => some (⟨hour, minute, second, 0⟩, cs)

/-- An offset at the front of the text, if there is one. -/
def offset? (clock : Clock) : List Char → Option (Option Offset × List Char)
  | 'Z' :: cs => some (some .universal, cs)
  | 'z' :: cs => some (some .universal, cs)
  | c :: cs =>
    if c = '+' ∨ c = '-' then do
      let (hours, cs) ← digits? 2 0 clock.offsetHour cs
      let cs ← Text.startsWith? [':'] cs
      let (minutes, cs) ← digits? 2 0 clock.offsetMinute cs
      let total := hours * 60 + minutes
      if maxOffset < total then none
      else some (some (.minutes (if c = '-' then -(total : Int) else total)), cs)
    else some (none, c :: cs)
  | [] => some (none, [])

/-- The time after a date and the mark between them. -/
def afterDate? (clock : Clock) (date : Date) (cs : List Char) : Option (Moment × List Char) := do
  let (time, cs) ← time? clock cs
  let (offset, cs) ← offset? clock cs
  some (⟨some date, some time, offset⟩, cs)

/-- A moment at the front of a file. A blank after a date belongs to it only if a time follows. -/
def moment? (cs : List Char) : Option (Moment × List Char) :=
  match date? cs with
  | none => (time? .ofFile cs).map fun (time, rest) => (⟨none, some time, none⟩, rest)
  | some (date, rest) =>
    match rest with
    | c :: afterMark =>
      if c = 'T' ∨ c = 't' then afterDate? .ofFile date afterMark
      else if c = ' ' ∧ (time? .ofFile afterMark).isSome then afterDate? .ofFile date afterMark
      else some (⟨some date, none, none⟩, rest)
    | [] => some (⟨some date, none, none⟩, [])

/-- What was read, if nothing is left. -/
def whole? {α : Type} : α × List Char → Option α
  | (a, []) => some a
  | _ => none

/-- The moment that a whole text denotes. -/
def Moment.ofText? (text : String) : Option Moment :=
  let cs := text.toList
  if cs[2]? = some ':' then
    ((time? .ofText cs).bind whole?).map fun time => ⟨none, some time, none⟩
  else
    (date? cs).bind fun (date, rest) =>
      match rest with
      | [] => some ⟨some date, none, none⟩
      | c :: afterMark =>
        if c = 'T' ∨ c = 't' ∨ c = ' ' then (afterDate? .ofText date afterMark).bind whole?
        else none

end AppletHost.Toml
