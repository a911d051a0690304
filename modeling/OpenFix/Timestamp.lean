import OpenFix.Bytes

/-!
# UTC timestamps

`writeUTCTimestamp` writes `YYYYMMDD-HH:MM:SS.mmm`, `parseUTCTimestamp` reads it
back into milliseconds of the epoch.  The source writes the part in front of the
milliseconds with `gmtime_r` and `strftime`; the calendar of the former is
`civilFromDays`.  The one-second cache of that part is in `Clock`, where the two are
found to write the same.

A division of the source truncates, so it is `Int.tdiv` wherever the dividend
may be negative.
-/

namespace OpenFix

/-- The day number counted from the epoch, as year, month and day. -/
def civilFromDays (days : Int) : Int × Int × Int :=
  let z := days + 719468
  let era := z / 146097
  let doe := z - era * 146097
  let yoe := (doe - doe / 1460 + doe / 36524 - doe / 146096) / 365
  let doy := doe - (365 * yoe + yoe / 4 - yoe / 100)
  let mp := (5 * doy + 2) / 153
  let month := if mp < 10 then mp + 3 else mp - 9
  (yoe + era * 400 + (if month ≤ 2 then 1 else 0), month, doy - (153 * mp + 2) / 5 + 1)

/-- A decimal numeral with zeros in front, up to `width` digits. -/
def padDigits (width : Nat) (n : Int) : Bytes :=
  List.replicate (width - (toChars n).length) 48 ++ toChars n

def writeUTCTimestamp (epochMs : Int) : Bytes :=
  let epochS := epochMs.tdiv 1000
  let ms := (epochMs.tmod 1000).toNat
  let date := civilFromDays (epochS / 86400)
  let sec := epochS % 86400
  padDigits 4 date.1 ++ padDigits 2 date.2.1 ++ padDigits 2 date.2.2 ++ ascii "-" ++
    padDigits 2 (sec / 3600) ++ ascii ":" ++ padDigits 2 (sec / 60 % 60) ++ ascii ":" ++
    padDigits 2 (sec % 60) ++ ascii "." ++
    [digitByte (ms / 100), digitByte (ms / 10 % 10), digitByte (ms % 10)]

/-- The number at a position of a timestamp, `0` when there is none. -/
def parseN (timestamp : Bytes) (pos len : Nat) : Int :=
  (fromCharsInt ((timestamp.drop pos).take len)).getD 0

/-- The day number of a date. -/
def daysFromCivil (year month day : Int) : Int :=
  let y := year - (if month ≤ 2 then 1 else 0)
  let era := (if 0 ≤ y then y else y - 399).tdiv 400
  let yoe := y - era * 400
  let doy := (153 * (month + (if 2 < month then -3 else 9)) + 2).tdiv 5 + day - 1
  let doe := yoe * 365 + yoe.tdiv 4 - yoe.tdiv 100 + doy
  era * 146097 + doe - 719468

/-- The milliseconds that the text behind the dot denotes. -/
def parseFraction (text : Bytes) : Int :=
  let frac := (fromCharsInt text).getD 0
  if text.length ≤ 3 then frac * 10 ^ (3 - text.length)
  else (List.replicate (text.length - 3) 10).foldl Int.tdiv frac

def parseUTCTimestamp (timestamp : Bytes) : Int :=
  if timestamp.length < 17 then 0
  else
    let days := daysFromCivil (parseN timestamp 0 4) (parseN timestamp 4 2) (parseN timestamp 6 2)
    let ms := days * 86400000 + parseN timestamp 9 2 * 3600000 + parseN timestamp 12 2 * 60000 +
      parseN timestamp 15 2 * 1000
    if 18 < timestamp.length ∧ timestamp[17]? = some 46 then
      ms + parseFraction (timestamp.drop 18)
    else ms

example : writeUTCTimestamp 1709210096789 = ascii "20240229-12:34:56.789" := by decide
example : parseUTCTimestamp (ascii "20240229-12:34:56.789") = 1709210096789 := by decide

end OpenFix
