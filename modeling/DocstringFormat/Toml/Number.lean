import DocstringFormat.Toml.Quoted

/-!
Numbers and times of a TOML document.

A number or a time is read off the longest run of characters that can belong to one.
-/

set_option autoImplicit false

namespace DocstringFormat.Toml

/-- The digits of a number without the underscores between them.  An underscore has a digit on
either side. -/
def digitRun? (isDigit : Char → Bool) : Text → Option Text
  | [] => none
  | [c] => if isDigit c then some [c] else none
  | c :: '_' :: rest => if isDigit c then (digitRun? isDigit rest).map (c :: ·) else none
  | c :: rest => if isDigit c then (digitRun? isDigit rest).map (c :: ·) else none

def numberOf (base : Nat) (digits : Text) : Nat :=
  digits.foldl (fun n c => base * n + (hexValue? c).getD 0) 0

/-- Whether a whole number fits in 64 bits with a sign. -/
def isWord (n : Int) : Bool :=
  -9223372036854775808 ≤ n && n < 9223372036854775808

def checked? (n : Int) : Option Int :=
  if isWord n then some n else none

/-- The digits of a decimal number: no zero leads, unless it is all there is. -/
def decimalDigits? (s : Text) : Option Text :=
  match digitRun? Char.isDigit s with
  | none => none
  | some ['0'] => some ['0']
  | some ('0' :: _) => none
  | some digits => some digits

def signed : Text → Int × Text
  | '+' :: rest => (1, rest)
  | '-' :: rest => (-1, rest)
  | s => (1, s)

def integer? (s : Text) : Option Int :=
  match s with
  | '0' :: 'x' :: rest =>
    (digitRun? (fun c => (hexValue? c).isSome) rest).bind fun d => checked? (numberOf 16 d)
  | '0' :: 'o' :: rest =>
    (digitRun? (fun c => '0' ≤ c && c ≤ '7') rest).bind fun d => checked? (numberOf 8 d)
  | '0' :: 'b' :: rest =>
    (digitRun? (fun c => c == '0' || c == '1') rest).bind fun d => checked? (numberOf 2 d)
  | _ =>
    let (sign, rest) := signed s
    (decimalDigits? rest).bind fun d => checked? (sign * numberOf 10 d)

def exponent? (s : Text) : Option Int :=
  let (sign, rest) := signed s
  (digitRun? Char.isDigit rest).map fun d => sign * numberOf 10 d

/-- Whether the number `m · 10 ^ e` is too large for a float with 53 bits. -/
def isHuge (digits : Text) (e : Int) : Bool :=
  let m := numberOf 10 digits
  let limit := Nat.pow 2 1024 - Nat.pow 2 970
  if m = 0 then false
  else if e < 0 then
    if e < -(digits.length : Int) then false else limit * Nat.pow 10 e.natAbs ≤ m
  else if 400 < e then true
  else limit ≤ m * Nat.pow 10 e.natAbs

def floatTail? (s : Text) : Option (Text × Int) :=
  match s with
  | '.' :: rest =>
    let fraction := rest.takeWhile (fun c => c.isDigit || c == '_')
    (digitRun? Char.isDigit fraction).bind fun f =>
      match rest.drop fraction.length with
      | [] => some (f, 0)
      | c :: after => if c == 'e' || c == 'E' then (exponent? after).map (f, ·) else none
  | c :: rest => if c == 'e' || c == 'E' then (exponent? rest).map ([], ·) else none
  | [] => none

/-- Whether a text writes a float.  A positive one must not be too large. -/
def isFloat (s : Text) : Bool :=
  let (sign, rest) := signed s
  if rest == ['i', 'n', 'f'] || rest == ['n', 'a', 'n'] then true
  else
    let whole := rest.takeWhile (fun c => c.isDigit || c == '_')
    match decimalDigits? whole, floatTail? (rest.drop whole.length) with
    | some w, some (f, e) => sign < 0 || !isHuge (w ++ f) (e - f.length)
    | _, _ => false

def twoDigits? (a b : Char) : Option Nat :=
  if a.isDigit && b.isDigit then some (numberOf 10 [a, b]) else none

def daysOf (year month : Nat) : Nat :=
  if month = 2 then
    if year % 4 = 0 ∧ (year % 100 ≠ 0 ∨ year % 400 = 0) then 29 else 28
  else if month ∈ [4, 6, 9, 11] then 30
  else 31

def afterDate? : Text → Option Text
  | a :: b :: c :: d :: '-' :: e :: f :: '-' :: g :: h :: rest =>
    if [a, b, c, d, e, f, g, h].all Char.isDigit then
      let month := numberOf 10 [e, f]
      let day := numberOf 10 [g, h]
      if 1 ≤ month ∧ month ≤ 12 ∧ 1 ≤ day ∧ day ≤ daysOf (numberOf 10 [a, b, c, d]) month then
        some rest
      else none
    else none
  | _ => none

def afterFraction? : Text → Option Text
  | '.' :: c :: rest => if c.isDigit then some (rest.dropWhile Char.isDigit) else none
  | '.' :: [] => none
  | s => some s

def afterTime? : Text → Option Text
  | a :: b :: ':' :: c :: d :: ':' :: e :: f :: rest =>
    match twoDigits? a b, twoDigits? c d, twoDigits? e f with
    | some hour, some minute, some second =>
      if hour ≤ 23 ∧ minute ≤ 59 ∧ second ≤ 60 then afterFraction? rest else none
    | _, _, _ => none
  | _ => none

def isOffset : Text → Bool
  | [] => true
  | ['Z'] => true
  | ['z'] => true
  | [sign, a, b, ':', c, d] =>
    match twoDigits? a b, twoDigits? c d with
    | some hour, some minute => (sign == '+' || sign == '-') && hour ≤ 23 && minute ≤ 59
    | _, _ => false
  | _ => false

def isTimeWithOffset (s : Text) : Bool :=
  match afterTime? s with
  | none => false
  | some rest => isOffset rest

def isTime (s : Text) : Bool :=
  match afterDate? s with
  | none => afterTime? s == some []
  | some [] => true
  | some (c :: rest) => (c == 'T' || c == 't') && isTimeWithOffset rest

def isScalarChar (c : Char) : Bool :=
  c.isAlphanum || c ∈ ['+', '-', '.', '_', ':']

def scalar? (s : Text) : Option Value :=
  if s = "true".toList then some (.boolean true)
  else if s = "false".toList then some (.boolean false)
  else if isTime s then some .time
  else
    match integer? s with
    | some n => some (.integer n)
    | none => if isFloat s then some .float else none

/-- A number, a truth value or a time.  A date may have its time after one space. -/
def scalar : Reader Value := fun s =>
  let run := s.takeWhile isScalarChar
  let rest := s.drop run.length
  let spaced : Option Text :=
    match rest with
    | ' ' :: after =>
      let time := after.takeWhile isScalarChar
      if afterDate? run = some [] ∧ isTimeWithOffset time then some (after.drop time.length)
      else none
    | _ => none
  match spaced with
  | some after => some (.time, after)
  | none => (scalar? run).map (·, rest)

end DocstringFormat.Toml
