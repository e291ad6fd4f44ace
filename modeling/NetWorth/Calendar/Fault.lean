import NetWorth.Calendar.DateText
import NetWorth.Decimal.Notation

/-! The reasons why a date cannot be formed, and their wording. -/
namespace NetWorth

inductive OffsetUnit
  | year
  | month
  | week
  | day
  deriving DecidableEq

namespace OffsetUnit

def name : OffsetUnit → String
  | year => "year"
  | month => "month"
  | week => "week"
  | day => "day"

def plural (u : OffsetUnit) : String := u.name ++ "s"

end OffsetUnit

inductive DatePart
  | year
  | month
  | day
  deriving DecidableEq

def DatePart.name : DatePart → String
  | year => "year"
  | month => "month"
  | day => "day"

inductive DateFault
  /-- Seven times the weeks of an offset exceed a signed word. -/
  | weeksOverflow
  /-- A part of an offset has no negative in a signed word. -/
  | negationOverflows (unit : OffsetUnit) (count : Int)
  /-- Twelve times the years exceed a signed word. -/
  | yearsOverflow (years : Int)
  /-- The number of months is beyond every calendar. -/
  | monthsOverflow (months : Int)
  | monthsOutOfRange (date : Date) (months : Int)
  | daysOutOfRange (date : Date) (days : Int)
  | noSuchMonth (month : Int)
  | noSuchDate (year : Int) (month day : Nat)
  | unknownMonthName (name : String)
  | partNotWhole (part : DatePart) (value : Float)
  | countNotWhole (unit : OffsetUnit) (value : Float)
  | yearOutOfRange (year : Int)
  | dayOutOfRange (day : Int)
  /-- The payment day of a flow is negative or beyond an unsigned word of 32 bits. -/
  | paymentDayOutOfRange (day : Int)
  | noSuchPaymentDay (day : Nat)
  /-- A reason given in words. -/
  | other (reason : String)
  deriving DecidableEq

def DateFault.message : DateFault → String
  | weeksOverflow => "week offset overflows"
  | negationOverflows unit count => unit.name ++ " offset " ++ Numeral.text count ++ " overflows"
  | yearsOverflow years => Numeral.text years ++ " years overflows"
  | monthsOverflow months => Numeral.text months ++ " months overflows"
  | monthsOutOfRange date months =>
    date.text ++ " shifted by " ++ Numeral.text months ++ " months is out of range"
  | daysOutOfRange date days =>
    date.text ++ " shifted by " ++ Numeral.text days ++ " days is out of range"
  | noSuchMonth month => "month " ++ Numeral.text month ++ " is not in 1..=12"
  | noSuchDate year month day =>
    let two (n : Nat) := String.ofList (Numeral.zeroPadded 2 (Numeral.ofNat n))
    Numeral.text year ++ "-" ++ two month ++ "-" ++ two day ++ " does not exist"
  | unknownMonthName name => "unknown month name '" ++ name ++ "'"
  | partNotWhole part value =>
    part.name ++ " " ++ Decimal.message value ++ " is not a representable integer"
  | countNotWhole unit value =>
    unit.plural ++ " " ++ Decimal.message value ++ " is not a representable integer"
  | yearOutOfRange year => "year " ++ Numeral.text year ++ " is out of range"
  | dayOutOfRange day => "day " ++ Numeral.text day ++ " is out of range"
  | paymentDayOutOfRange day => "day of month " ++ Numeral.text day ++ " is out of range"
  | noSuchPaymentDay day => "day of month " ++ Numeral.text day ++ " is not in 1..=31"
  | other reason => reason

end NetWorth
