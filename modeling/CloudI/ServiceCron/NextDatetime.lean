import CloudI.Erlang.Calendar
import CloudI.ServiceCron.Expression

/-!
# ServiceCron.NextDatetime

The next event of a cron expression (`cloudi_cron:next_datetime/2`): the fields are advanced one
after another.  `none` is a call that fails, or one whose fuel is used up.
-/

namespace CloudI.ServiceCron

open Calendar

/-- `calendar:datetime()`. -/
abbrev DateTime := Date × Time

/-! ## dates -/

def datetimeAdd (datetime : DateTime) (secondsIncr : Nat) : Option DateTime := do
  let seconds ← datetimeToGregorianSeconds datetime
  some (gregorianSecondsToDatetime (seconds + secondsIncr))

def dateAdd (date : Date) (daysIncr : Int) : Option Date := do
  let days ← dateToGregorianDays date
  if 0 ≤ days + daysIncr then some (gregorianDaysToDate (days + daysIncr).toNat) else none

def dayOfWeek (date : Date) : Option Nat := do
  let dayOfWeek ← dayOfTheWeek date
  some (if dayOfWeek = 7 then 0 else dayOfWeek)

/-- Another date is in the month of a date: the pattern `{DateYY, DateMM, _}`. -/
def sameMonth (date other : Date) : Bool := decide (other.year = date.year ∧ other.month = date.month)

def closestWeekday (date : Date) : Option Nat := do
  let day ← dayOfWeek date
  if day = 0 then -- Sunday
    let date1 ← dateAdd date 1
    if sameMonth date date1 then some date1.day
    else
      let date2 ← dateAdd date (-2)
      if sameMonth date date2 then some date2.day else none
  else if day = 6 then -- Saturday
    let date1 ← dateAdd date (-1)
    if sameMonth date date1 then some date1.day
    else
      let date2 ← dateAdd date 2
      if sameMonth date date2 then some date2.day else none
  else some date.day

def lastDayOfWeekFind (dayOfWeek : Nat) : Nat → Date → Option Date
  | 0, _ => none
  | fuel + 1, date => do
      if (← ServiceCron.dayOfWeek date) = dayOfWeek then some date
      else lastDayOfWeekFind dayOfWeek fuel (← dateAdd date (-1))

/-- `last_day_of_week`: a day of the week is found in seven days. -/
def lastDayOfWeek (date : Date) (dayOfWeek : Nat) : Option Bool := do
  let found ← lastDayOfWeekFind dayOfWeek 7
    ⟨date.year, date.month, lastDayOfTheMonth date.year date.month⟩
  some (decide (date = found))

def everyDayOfWeekFind (multiplier dayOfWeek : Nat) : Nat → Date → Nat → Option Date
  | 0, _, _ => none
  | fuel + 1, date, i => do
      if (← ServiceCron.dayOfWeek date) = dayOfWeek then
        if i = multiplier then some date
        else everyDayOfWeekFind multiplier dayOfWeek fuel (← dateAdd date 7) (i + 1)
      else everyDayOfWeekFind multiplier dayOfWeek fuel (← dateAdd date 1) i

/-- `every_day_of_week`: the first is found in seven days, and every other one is the next. -/
def everyDayOfWeek (date : Date) (multiplier dayOfWeek : Nat) : Option Bool := do
  let found ← everyDayOfWeekFind multiplier dayOfWeek (7 + multiplier) ⟨date.year, date.month, 1⟩ 1
  some (decide (date = found))

/-! ## the values of a field -/

def getNextValueExpand (date : Date) : List Value → Option (List Nat)
  | [] => some []
  | .lastDayOfMonth :: t => do
      let last := lastDayOfTheMonth date.year date.month
      some (last :: (← getNextValueExpand date t))
  | .weekday weekDay :: t => do
      let day := weekDay.getD (lastDayOfTheMonth date.year date.month)
      let closest ← closestWeekday ⟨date.year, date.month, day⟩
      some (closest :: (← getNextValueExpand date t))
  | .lastDayOfWeek dayOfWeek :: t => do
      if ← lastDayOfWeek date dayOfWeek then some (dayOfWeek :: (← getNextValueExpand date t))
      else getNextValueExpand date t
  | .every multiplier dayOfWeek :: t => do
      if ← everyDayOfWeek date multiplier dayOfWeek then
        some (dayOfWeek :: (← getNextValueExpand date t))
      else getNextValueExpand date t
  | .integer h :: t => do some (h :: (← getNextValueExpand date t))

def getNextValueCompareGreater (l : List Nat) (i : Nat) : Option Nat := l.find? (i < ·)

def getNextValueCompareGreaterOrEqual (l : List Nat) (i : Nat) : Option Nat := l.find? (i ≤ ·)

/-- `get_next_value`; the inner `none` is `undefined`. -/
def getNextValue (l : List Value) (i : Nat) (equal : Bool) (date : Date) : Option (Option Nat) := do
  let expanded := Lists.usort (← getNextValueExpand date l)
  some (if equal then getNextValueCompareGreaterOrEqual expanded i
    else getNextValueCompareGreater expanded i)

/-! ## the time -/

/-- The first value of a list of numbers. -/
def firstValue : List Value → Option Nat
  | .integer n :: _ => some n
  | _ => none

variable (expression : Expression)

def nextDatetimeSeconds (equal : Bool) (datetime : DateTime) : Option (Bool × DateTime) :=
  match expression.seconds with
  | none => some (equal, datetime)
  | some fieldSeconds => do
      let (date, time) := datetime
      match ← getNextValue fieldSeconds time.second equal date with
      | none =>
          let secondNew ← firstValue fieldSeconds
          let (dateNew, timeNew) ← datetimeAdd datetime (60 - time.second)
          some (true, (dateNew, ⟨timeNew.hour, timeNew.minute, secondNew⟩))
      | some secondNew => some (true, (date, ⟨time.hour, time.minute, secondNew⟩))

def nextDatetimeMinutes (equal : Bool) (datetime : DateTime) : Option (Bool × DateTime) :=
  match expression.minutes with
  | none => some (equal, datetime)
  | some fieldMinutes => do
      let (date, time) := datetime
      match ← getNextValue fieldMinutes time.minute equal date with
      | none =>
          let minuteNew ← firstValue fieldMinutes
          let (dateNew, timeNew) ← datetimeAdd datetime ((60 - time.minute) * 60)
          some (true, (dateNew, ⟨timeNew.hour, minuteNew, timeNew.second⟩))
      | some minuteNew => some (true, (date, ⟨time.hour, minuteNew, time.second⟩))

def nextDatetimeHours (equal : Bool) (datetime : DateTime) : Option (Bool × DateTime) :=
  match expression.hours with
  | none => some (equal, datetime)
  | some fieldHours => do
      let (date, time) := datetime
      match ← getNextValue fieldHours time.hour equal date with
      | none =>
          let hourNew ← firstValue fieldHours
          let dateNew ← dateAdd date 1
          some (true, (dateNew, ⟨hourNew, time.minute, time.second⟩))
      | some hourNew => some (true, (date, ⟨hourNew, time.minute, time.second⟩))

/-! ## the date -/

/-- A date is advanced to a value of a field: the step of the functions below. -/
def advance (field : List Value) (part : Date → Option Nat) :
    Nat → Bool → DateTime → Option (Bool × DateTime)
  | 0, _, _ => none
  | fuel + 1, equal, (date, time) => do
      let i ← part date
      if (← getNextValue field i equal date) = some i then some (equal, (date, time))
      else advance field part fuel true (← dateAdd date 1, time)

/-- A field that is a wildcard leaves the date as it is. -/
def advanceField (field : Field) (part : Date → Option Nat) (fuel : Nat) (equal : Bool)
    (datetime : DateTime) : Option (Bool × DateTime) :=
  match field with
  | none => some (equal, datetime)
  | some l => advance l part fuel equal datetime

variable (fuel : Nat) (expression : Expression)

def nextDatetimeDayOfMonth : Bool → DateTime → Option (Bool × DateTime) :=
  advanceField expression.dayOfMonth (fun date => some date.day) fuel

def nextDatetimeMonth : Bool → DateTime → Option (Bool × DateTime) :=
  advanceField expression.month (fun date => some date.month) fuel

def nextDatetimeDayOfWeek : Bool → DateTime → Option (Bool × DateTime) :=
  advanceField expression.dayOfWeek dayOfWeek fuel

def nextDatetimeYear (equal : Bool) (datetime : DateTime) :
    Option DateTime := do
  some (← advanceField expression.year (fun date => some date.year) fuel equal datetime).2

/-! ## the next event -/

/-- The pattern `{true, DateTime}`. -/
def expectTrue : Bool × DateTime → Option DateTime
  | (true, datetime) => some datetime
  | (false, _) => none

/-- The first time of a date. -/
def firstTime (date : Date) : Option DateTime := do
  let datetime8 : DateTime := (date, ⟨0, 0, 0⟩)
  let datetime9 ← expectTrue (← nextDatetimeSeconds expression true datetime8)
  let datetime10 ← expectTrue (← nextDatetimeMinutes expression true datetime9)
  expectTrue (← nextDatetimeHours expression true datetime10)

def nextDatetime (datetime0 : DateTime) (expression : Expression) :
    Option DateTime := do
  let (equal1, datetime1) ← nextDatetimeSeconds expression false datetime0
  let (equal2, datetime2) ← nextDatetimeMinutes expression equal1 datetime1
  let (equal3, datetime3) ← nextDatetimeHours expression equal2 datetime2
  let (equal4, datetime4) ← nextDatetimeDayOfMonth fuel expression equal3 datetime3
  let (equal5, datetime5) ← nextDatetimeMonth fuel expression equal4 datetime4
  let (equal6, datetime6) ← nextDatetimeDayOfWeek fuel expression equal5 datetime5
  let datetime7 ← nextDatetimeYear fuel expression equal6 datetime6
  if datetime7.1 = datetime0.1 then some datetime7 else firstTime expression datetime7.1

end CloudI.ServiceCron
