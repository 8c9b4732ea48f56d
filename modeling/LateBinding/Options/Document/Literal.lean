/-!
# Literals of a document

A literal is read off the front of a text and the rest is given back. Strings come in four forms:
between double quotes with escapes, between single quotes without, and each of these between three
quotes, where line breaks may stand. Whole numbers are decimal with an optional sign, or without
sign in base 16, 8 or 2; an underscore may stand between two digits.
-/

namespace LateBinding.Document

def isBlank (c : Char) : Bool := c = ' ' || c = '\t'

/-- A character that may stand in a comment or a string: a tab or no control. -/
def isPlain (c : Char) : Bool := c = '\t' || (' ' ≤ c && c ≠ '\x7f')

/-- A letter, digit, underscore or hyphen, as a key without quotes is made of. -/
def isBareKeyChar (c : Char) : Bool := c.isAlphanum || c = '_' || c = '-'

def isWordChar (c : Char) : Bool := isBareKeyChar c || c = '+' || c = '.' || c = ':'

def skipBlanks (text : List Char) : List Char := text.dropWhile isBlank

def lineBreak? : List Char → Option (List Char)
  | '\n' :: rest => some rest
  | '\r' :: '\n' :: rest => some rest
  | _ => none

/-! ### Strings -/

/-- The character with the number that some hexadecimal digits give, if there is one. -/
def charOfDigits (digits : List Char) : Option Char :=
  let value := digits.foldl (fun value c =>
    let digit :=
      if c.isDigit then some (c.toNat - '0'.toNat)
      else if 'a' ≤ c ∧ c ≤ 'f' then some (c.toNat - 'a'.toNat + 10)
      else if 'A' ≤ c ∧ c ≤ 'F' then some (c.toNat - 'A'.toNat + 10)
      else none
    value.bind fun value => digit.map (16 * value + ·)) (some 0)
  value.bind fun value => if h : value.isValidChar then some (Char.ofNatAux value h) else none

/-- The character that an escape stands for; the text begins behind the backslash. -/
def escape? : List Char → Option (Char × List Char)
  | 'b' :: rest => some ('\x08', rest)
  | 't' :: rest => some ('\t', rest)
  | 'n' :: rest => some ('\n', rest)
  | 'f' :: rest => some ('\x0c', rest)
  | 'r' :: rest => some ('\r', rest)
  | '"' :: rest => some ('"', rest)
  | '\\' :: rest => some ('\\', rest)
  | 'u' :: a :: b :: c :: d :: rest => (charOfDigits [a, b, c, d]).map (·, rest)
  | 'U' :: a :: b :: c :: d :: e :: f :: g :: h :: rest =>
    (charOfDigits [a, b, c, d, e, f, g, h]).map (·, rest)
  | _ => none

def untilQuote : List Char → List Char → Option (List Char × List Char)
  | sofar, '\'' :: rest => some (sofar.reverse, rest)
  | sofar, c :: rest => if isPlain c then untilQuote (c :: sofar) rest else none
  | _, [] => none

def untilDoubleQuote : Nat → List Char → List Char → Option (List Char × List Char)
  | _ + 1, sofar, '"' :: rest => some (sofar.reverse, rest)
  | left + 1, sofar, '\\' :: rest => do
    let (c, rest) ← escape? rest
    untilDoubleQuote left (c :: sofar) rest
  | left + 1, sofar, c :: rest =>
    if isPlain c then untilDoubleQuote left (c :: sofar) rest else none
  | _, _, _ => none

/-- Three quotes end a string over several lines; one or two more of them still belong to it. -/
def closing? (quote : Char) (sofar : List Char) :
    List Char → Option (List Char × List Char)
  | a :: b :: c :: rest =>
    if a = quote ∧ b = quote ∧ c = quote then
      let extra := (rest.takeWhile (· = quote)).take 2
      some ((extra ++ sofar).reverse, rest.drop extra.length)
    else none
  | _ => none

def skipSpace : Nat → List Char → List Char
  | left + 1, text =>
    match skipBlanks text with
    | '\n' :: rest => skipSpace left rest
    | '\r' :: '\n' :: rest => skipSpace left rest
    | rest => rest
  | 0, text => text

/-- Read on to the three quotes that end a string. A line break is kept as a line feed; if the
string has escapes, a backslash at the end of a line takes away the break and all space after it. -/
def untilThree (quote : Char) (escapes : Bool) :
    Nat → List Char → List Char → Option (List Char × List Char)
  | 0, _, _ => none
  | left + 1, sofar, text =>
    match closing? quote sofar text, lineBreak? text, text with
    | some result, _, _ => some result
    | none, some rest, _ => untilThree quote escapes left ('\n' :: sofar) rest
    | none, none, c :: rest =>
      if c = '\\' ∧ escapes then
        match lineBreak? (skipBlanks rest), escape? rest with
        | some rest, _ => untilThree quote escapes left sofar (skipSpace left rest)
        | none, some (c, rest) => untilThree quote escapes left (c :: sofar) rest
        | none, none => none
      else if isPlain c then untilThree quote escapes left (c :: sofar) rest
      else none
    | none, none, [] => none

/-- A line break right behind three opening quotes does not belong to the string. -/
def skipFirstBreak (text : List Char) : List Char := (lineBreak? text).getD text

def lineString? : List Char → Option (String × List Char)
  | '"' :: rest => (untilDoubleQuote (rest.length + 1) [] rest).map fun (s, rest) =>
    (String.ofList s, rest)
  | '\'' :: rest => (untilQuote [] rest).map fun (s, rest) => (String.ofList s, rest)
  | _ => none

def string? : List Char → Option (String × List Char)
  | '"' :: '"' :: '"' :: rest =>
    (untilThree '"' true (rest.length + 1) [] (skipFirstBreak rest)).map fun (s, rest) =>
      (String.ofList s, rest)
  | '\'' :: '\'' :: '\'' :: rest =>
    (untilThree '\'' false (rest.length + 1) [] (skipFirstBreak rest)).map fun (s, rest) =>
      (String.ofList s, rest)
  | text => lineString? text

/-! ### Whole numbers -/

def digitIn (base : Nat) (c : Char) : Option Nat :=
  let value :=
    if c.isDigit then c.toNat - '0'.toNat
    else if 'a' ≤ c ∧ c ≤ 'f' then c.toNat - 'a'.toNat + 10
    else if 'A' ≤ c ∧ c ≤ 'F' then c.toNat - 'A'.toNat + 10
    else base
  if value < base then some value else none

/-- The number that digits stand for. `afterDigit` says that an underscore may follow. -/
def digits? (base : Nat) : (value : Nat) → (afterDigit : Bool) → List Char → Option Nat
  | value, afterDigit, [] => if afterDigit then some value else none
  | value, true, '_' :: rest => digits? base value false rest
  | value, _, c :: rest => do digits? base (base * value + (← digitIn base c)) true rest

/-- Decimal digits, without a needless zero in front. -/
def decimal? : List Char → Option Nat
  | ['0'] => some 0
  | '0' :: _ => none
  | word => digits? 10 0 false word

/-- The whole number that a word stands for, if it fits in 64 bits with a sign. -/
def wholeNumber? (word : List Char) : Option Int := do
  let value : Int ← match word with
    | '0' :: 'x' :: digits => Int.ofNat <$> digits? 16 0 false digits
    | '0' :: 'o' :: digits => Int.ofNat <$> digits? 8 0 false digits
    | '0' :: 'b' :: digits => Int.ofNat <$> digits? 2 0 false digits
    | '+' :: digits => Int.ofNat <$> decimal? digits
    | '-' :: digits => (fun n : Nat => -(n : Int)) <$> decimal? digits
    | digits => Int.ofNat <$> decimal? digits
  if Int64.minValue.toInt ≤ value ∧ value ≤ Int64.maxValue.toInt then some value else none

end LateBinding.Document
