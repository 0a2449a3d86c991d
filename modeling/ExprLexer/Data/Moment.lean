/-!
# Moments

A date with a time of day. A moment with an offset stands for a point in time; without one it is
local to some place, and no point in time is known.
-/

namespace ExprLexer

def isLeapYear (year : Nat) : Bool := year % 4 = 0 && (year % 100 ≠ 0 || year % 400 = 0)

def daysIn (year month : Nat) : Nat :=
  if month = 2 then (if isLeapYear year then 29 else 28)
  else if month = 4 ∨ month = 6 ∨ month = 9 ∨ month = 11 then 30
  else 31

/-- The number of a day, of which the first one of the year one is the first. -/
def dayNumber (year month day : Nat) : Nat :=
  let before := year - 1
  let months := (List.range (month - 1)).foldl (fun n m => n + daysIn year (m + 1)) 0
  before * 365 + before / 4 - before / 100 + before / 400 + months + day

structure Moment where
  year : Nat
  month : Nat
  day : Nat
  hour : Nat
  minute : Nat
  second : Nat
  microsecond : Nat
  /-- How many minutes the clock is ahead of universal time. -/
  offset : Option Int
  deriving DecidableEq, Repr

namespace Moment

/-- The microseconds that the clock has counted. -/
def clock (m : Moment) : Int :=
  let minutes := (dayNumber m.year m.month m.day * 24 + m.hour) * 60 + m.minute
  (minutes * 60 + m.second) * 1000000 + m.microsecond

/-- Points in time are compared in universal time, and local times with one another. -/
def same (m n : Moment) : Bool :=
  match m.offset, n.offset with
  | none, none => m.clock = n.clock
  | some a, some b => m.clock - a * 60000000 = n.clock - b * 60000000
  | _, _ => false

/-- A length of time as days and seconds, of which only the days can be negative. -/
def durationText (minutes : Int) : String :=
  let days := minutes.fdiv 1440
  let seconds := minutes.fmod 1440 * 60
  let parts := (if days = 0 then [] else ["days=" ++ toString days])
    ++ (if seconds = 0 then [] else ["seconds=" ++ toString seconds])
  "datetime.timedelta(" ++ (if parts = [] then "0" else String.intercalate ", " parts) ++ ")"

def zoneText (offset : Int) : String :=
  if offset = 0 then "datetime.timezone.utc"
  else "datetime.timezone(" ++ durationText offset ++ ")"

/-- Seconds are left out if nothing of the minute is over. -/
def text (m : Moment) : String :=
  let small :=
    if m.microsecond ≠ 0 then [m.second, m.microsecond]
    else if m.second ≠ 0 then [m.second]
    else []
  let numbers := ([m.year, m.month, m.day, m.hour, m.minute] ++ small).map toString
  let zone := m.offset.elim [] fun o => ["tzinfo=" ++ zoneText o]
  "datetime.datetime(" ++ String.intercalate ", " (numbers ++ zone) ++ ")"

end Moment

end ExprLexer
