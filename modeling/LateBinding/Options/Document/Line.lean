import LateBinding.Options.Document.Literal

/-!
# Lines of a document

A document of settings is a sequence of lines: empty ones, settings of a key, and headers of
sections. Of the values that may be written, those matter that an option can have: strings, whole
numbers, truth values, and a choice, which is a table with one key and an empty table or list under
it. Every other value is no value for an option, so a document that holds one is refused whether or
not it is well formed.
-/

namespace LateBinding.Document

inductive Setting where
  | text (value : String)
  | whole (value : Int)
  | truth (value : Bool)
  | empty
  /-- A table with one key, and something empty under it. -/
  | choice (key : String)
  deriving DecidableEq, Repr

inductive Line where
  | setting (path : List String) (value : Setting)
  | header (path : List String)
  deriving DecidableEq, Repr

def simpleKey? (text : List Char) : Option (String × List Char) :=
  match text with
  | '"' :: _ | '\'' :: _ => lineString? text
  | _ =>
    let word := text.takeWhile isBareKeyChar
    if word = [] then none else some (String.ofList word, text.dropWhile isBareKeyChar)

/-- A key with dots: the simple keys it is made of, with blanks around them taken away. -/
def path? : Nat → List Char → Option (List String × List Char)
  | 0, _ => none
  | left + 1, text => do
    let (key, rest) ← simpleKey? (skipBlanks text)
    match skipBlanks rest with
    | '.' :: rest => do
      let (keys, rest) ← path? left rest
      return (key :: keys, rest)
    | rest => return ([key], rest)

def skipComment : List Char → List Char
  | '#' :: rest => rest.dropWhile isPlain
  | text => text

/-- The rest of a list without elements: space and comments, then its end. -/
def emptyList? : Nat → List Char → Option (List Char)
  | 0, _ => none
  | left + 1, text =>
    match skipBlanks text with
    | ']' :: rest => some rest
    | rest =>
      match lineBreak? (skipComment rest) with
      | some rest => emptyList? left rest
      | none => none

def empty? (text : List Char) : Option (List Char) :=
  match text with
  | '[' :: rest => emptyList? (rest.length + 1) rest
  | '\x7b' :: rest =>
    match skipBlanks rest with
    | '\x7d' :: rest => some rest
    | _ => none
  | _ => none

/-- A choice; the text begins behind the opening brace. -/
def choice? (text : List Char) : Option (String × List Char) := do
  let (key, rest) ← simpleKey? (skipBlanks text)
  match skipBlanks rest with
  | '=' :: rest =>
    match skipBlanks (← empty? (skipBlanks rest)) with
    | '\x7d' :: rest => some (key, rest)
    | _ => none
  | _ => none

def word? (word : List Char) : Option Setting :=
  if word = "true".toList then some (.truth true)
  else if word = "false".toList then some (.truth false)
  else (wholeNumber? word).map .whole

def value? (text : List Char) : Option (Setting × List Char) :=
  match text with
  | '"' :: _ | '\'' :: _ => (string? text).map fun (s, rest) => (.text s, rest)
  | '[' :: _ => (empty? text).map (.empty, ·)
  | '\x7b' :: rest =>
    match empty? text with
    | some rest => some (.empty, rest)
    | none => (choice? rest).map fun (key, rest) => (.choice key, rest)
  | _ => (word? (text.takeWhile isWordChar)).map (·, text.dropWhile isWordChar)

/-- The text after the end of a line: blanks, a comment, then a line break or the end of all. -/
def endOfLine? (text : List Char) : Option (List Char) :=
  match skipComment (skipBlanks text) with
  | [] => some []
  | rest => lineBreak? rest

def setting? (text : List Char) : Option (Line × List Char) := do
  let (path, rest) ← path? text.length text
  match rest with
  | '=' :: rest => do
    let (value, rest) ← value? (skipBlanks rest)
    return (.setting path value, rest)
  | _ => none

/-- A header; the text begins behind the opening bracket. -/
def header? (text : List Char) : Option (Line × List Char) := do
  let (path, rest) ← path? text.length text
  match rest with
  | ']' :: rest => return (.header path, rest)
  | _ => none

def lines? : Nat → List Char → Option (List Line)
  | 0, _ => none
  | left + 1, text =>
    match skipBlanks text with
    | [] => some []
    | '[' :: rest => do
      let (line, rest) ← header? rest
      return line :: (← lines? left (← endOfLine? rest))
    | '#' :: rest => do lines? left (← endOfLine? ('#' :: rest))
    | '\n' :: rest => lines? left rest
    | '\r' :: '\n' :: rest => lines? left rest
    | text => do
      let (line, rest) ← setting? text
      return line :: (← lines? left (← endOfLine? rest))

/-- The lines of a document. A byte order mark may stand in front of it. -/
def ofText? (text : String) : Option (List Line) :=
  let chars := match text.toList with
    | '\uFEFF' :: rest => rest
    | chars => chars
  lines? (chars.length + 1) chars

end LateBinding.Document
