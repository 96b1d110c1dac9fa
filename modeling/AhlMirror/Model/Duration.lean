import AhlMirror.Model.Basic

/-!
# ISO 8601 durations

`duration.rs`: the time-only subset `P[n]DT[n]H[n]M[n]S`, to nanoseconds. A `&str` is its character
list; a character that is an ASCII digit is the one byte Rust tests.
-/

namespace AhlMirror

def NANOS_PER_SECOND : Nat := 1000000000
def SECONDS_PER_MINUTE : Nat := 60
def SECONDS_PER_HOUR : Nat := 3600
def SECONDS_PER_DAY : Nat := 86400

def isAsciiDigit (c : Char) : Bool := decide ('0' ≤ c) && decide (c ≤ '9')

/-- `str::split_once` on a character. -/
def splitOnce (sep : Char) : List Char → Option (List Char × List Char)
  | [] => none
  | c :: cs => if c = sep then some ([], cs) else (splitOnce sep cs).map fun parts => (c :: parts.1, parts.2)

/-- The value of a run of decimal digits. -/
def digitsValue (digits : List Char) : Nat :=
  digits.foldl (fun value c => 10 * value + (c.toNat - '0'.toNat)) 0

/-- `str::parse::<u64>`, which accepts one leading `+`. -/
def parseU64 (text : List Char) : Option Nat :=
  let digits := match text with
    | '+' :: rest => rest
    | _ => text
  if digits = [] ∨ digits.all isAsciiDigit = false then none
  else if digitsValue digits < u64Bound then some (digitsValue digits)
  else none

/-- Consume a leading `"<digits><unit>"` component. -/
def takeComponent (input : List Char) (unit : Char) : MirrorResult (Option (Nat × List Char)) :=
  match splitOnce unit input with
  | none => .ok none
  | some (digits, rest) =>
    if digits = [] ∨ digits.all isAsciiDigit = false then .error (.badDuration (String.ofList input))
    else do
      let n ← okOr (.badDuration (String.ofList input)) (parseU64 digits)
      .ok (some (n, rest))

/-- One turn of the loop over `H` and `M`: the running total and the cursor after it. -/
def takeTimeUnit (value : String) (totalSeconds : Nat) (cursor : List Char) (unit : Char) (secondsPerUnit : Nat) :
    MirrorResult (Nat × List Char) := do
  match ← takeComponent cursor unit with
  | none => .ok (totalSeconds, cursor)
  | some (n, remainder) => do
    let seconds ← okOr (.badDuration value) (checkedMul n secondsPerUnit)
    let total ← okOr (.badDuration value) (checkedAdd totalSeconds seconds)
    .ok (total, remainder)

/-- The whole and fractional seconds in front of the `S`. -/
def parseSeconds (value : String) (secondsStr : List Char) : MirrorResult (Nat × Nat) :=
  if secondsStr = [] then .error (.badDuration value)
  else match splitOnce '.' secondsStr with
    | none => do
      let whole ← okOr (.badDuration value) (parseU64 secondsStr)
      .ok (whole, 0)
    | some (w, f) =>
      if f = [] ∨ f.all isAsciiDigit = false then .error (.badDuration value)
      else if 9 < f.length then .error (.durationFractionTooLong value)
      else do
        let fracNanos ← okOr (.badDuration value) (parseU64 (f ++ List.replicate (9 - f.length) '0'))
        let whole ← okOr (.badDuration value) (parseU64 w)
        .ok (whole, fracNanos)

/-- The part after `T`: total seconds and extra nanoseconds. -/
def parseTimePart (value : String) (totalSeconds : Nat) (timePart : List Char) : MirrorResult (Nat × Nat) :=
  if timePart = [] then .error (.badDuration value)
  else do
    let (hours, cursor) ← takeTimeUnit value totalSeconds timePart 'H' SECONDS_PER_HOUR
    let (minutes, cursor) ← takeTimeUnit value hours cursor 'M' SECONDS_PER_MINUTE
    if cursor.getLast? = some 'S' then do
      let (whole, fracNanos) ← parseSeconds value cursor.dropLast
      let total ← okOr (.badDuration value) (checkedAdd minutes whole)
      .ok (total, fracNanos)
    else if cursor = [] then .ok (minutes, 0)
    else .error (.badDuration value)

/-- The part before `T`: total seconds. -/
def parseDatePart (value : String) (datePart : List Char) : MirrorResult Nat := do
  match ← takeComponent datePart 'D' with
  | none => if datePart = [] then .ok 0 else .error (.badDuration value)
  | some (n, remainder) => do
    let seconds ← okOr (.badDuration value) (checkedMul n SECONDS_PER_DAY)
    if remainder = [] then .ok seconds else .error (.badDuration value)

def parseIso8601DurationNanos (value : String) : MirrorResult Nat :=
  match value.toList with
  | 'P' :: rest =>
    if rest = [] then .error (.badDuration value)
    else if 'Y' ∈ rest then .error (.prohibitedDurationComponent value 'Y')
    else
      let parts : List Char × Option (List Char) := match splitOnce 'T' rest with
        | some (d, t) => (d, some t)
        | none => (rest, none)
      if 'M' ∈ parts.1 then .error (.prohibitedDurationComponent value 'M')
      else do
        let dateSeconds ← parseDatePart value parts.1
        let (totalSeconds, extraNanos) ← match parts.2 with
          | none => .ok (dateSeconds, 0)
          | some timePart => parseTimePart value dateSeconds timePart
        okOr (.badDuration value)
          ((checkedMul totalSeconds NANOS_PER_SECOND).bind fun nanos => checkedAdd nanos extraNanos)
  | _ => .error (.badDuration value)

def parseCheckpointCadenceNanos (value : String) : MirrorResult Nat := do
  let nanos ← parseIso8601DurationNanos value
  if nanos = 0 then .error (.nonPositiveCadence value) else .ok nanos

example : parseIso8601DurationNanos "P1DT2H3M4.5S" = .ok 93784500000000 := by decide
example : parseCheckpointCadenceNanos "PT0S" = .error (.nonPositiveCadence "PT0S") := by decide

end AhlMirror
