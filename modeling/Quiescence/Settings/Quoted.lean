/-
# Quoted texts of settings documents

A text stands between double quotes, where a backslash begins an escape, or
between apostrophes, where every character stands for itself. Between single
marks it ends on its line; between triple marks it may go on over lines. There
a line break right after the opening marks is left out, one or two marks may
stand in the text or before the closing ones, and a backslash at the end of a
line joins it to the next character that is no blank.

`Quoted.read` takes such a text off the front of some characters. A text is
scanned from left to right by `scan`, which keeps a `Mode`: what the characters
before mean for the next one.
-/

namespace Quiescence.Settings.Quoted

def doubleQuote : Char := '\x22'
def apostrophe : Char := '\x27'
def backslash : Char := '\x5c'
def lineFeed : Char := '\x0a'
def carriageReturn : Char := '\x0d'

/-- Blanks within a line. -/
def isBlank (c : Char) : Bool := c == ' ' || c == '\x09'

/-- Characters that may stand on a line: a tab, and whatever is no control character. -/
def isPrintable (c : Char) : Bool := c == '\x09' || (0x20 ≤ c.toNat && c.toNat != 0x7f)

/-- The value of a digit in bases up to sixteen. -/
def digit? (c : Char) : Option Nat :=
  if '0' ≤ c ∧ c ≤ '9' then some (c.toNat - '0'.toNat)
  else if 'a' ≤ c ∧ c ≤ 'f' then some (c.toNat - 'a'.toNat + 10)
  else if 'A' ≤ c ∧ c ≤ 'F' then some (c.toNat - 'A'.toNat + 10)
  else none

/-- How a text is written. -/
structure Style where
  mark : Char
  /-- Does a backslash begin an escape? -/
  escapes : Bool
  /-- May the text go on over lines, between triple marks? -/
  lines : Bool

inductive Mode where
  /-- The next character stands for itself, unless lines are joined and it is a blank. -/
  | plain (joining : Bool)
  /-- A backslash came before. -/
  | escape
  /-- A backslash came before, and blanks after it: the line must end. -/
  | lineEnd
  /-- So many digits are missing in the number of a character. -/
  | code (missing value : Nat)

/-- What to do with a character. -/
inductive Move where
  /-- It stands for a character of the text. -/
  | give (c : Char) (next : Mode)
  /-- It stands for nothing. -/
  | skip (next : Mode)
  /-- The text ends with it and so many characters more. -/
  | close (more : Nat)
  | refuse

/-- Does a line break begin with this character? -/
def beginsBreak (c : Char) (rest : List Char) : Bool :=
  c == lineFeed || (c == carriageReturn && rest.head? == some lineFeed)

/-- The character that a one-letter escape stands for. -/
def escaped? (c : Char) : Option Char :=
  if c = 'b' then some '\x08'
  else if c = 't' then some '\x09'
  else if c = 'n' then some lineFeed
  else if c = 'f' then some '\x0c'
  else if c = 'r' then some carriageReturn
  else if c = 'e' then some '\x1b'
  else if c = doubleQuote ∨ c = backslash then some c
  else none

/-- The number of digits in an escape that gives the number of a character. -/
def digitCount? (c : Char) : Option Nat :=
  if c = 'x' then some 2 else if c = 'u' then some 4 else if c = 'U' then some 8 else none

/-- How many of some characters at the front are the mark. -/
def marks (mark : Char) : List Char → Nat
  | [] => 0
  | c :: cs => if c = mark then marks mark cs + 1 else 0

/-- A mark in the text: the last three of three to five close it, fewer belong to it. -/
def Style.mark? (st : Style) (rest : List Char) : Move :=
  if !st.lines then .close 0
  else match marks st.mark rest with
    | 0 | 1 => .give st.mark (.plain false)
    | 2 => .close 2
    | 3 | 4 => .give st.mark (.plain false)
    | _ => .refuse

def Style.plain (st : Style) (joining : Bool) (c : Char) (rest : List Char) : Move :=
  if c = st.mark then st.mark? rest
  else if st.escapes ∧ c = backslash then .skip .escape
  else if joining ∧ (isBlank c ∨ beginsBreak c rest) then .skip (.plain true)
  else if isPrintable c ∨ (st.lines ∧ beginsBreak c rest) then .give c (.plain false)
  else .refuse

/-- After the backslash of a joined line. -/
def lineEnd (c : Char) (rest : List Char) : Move :=
  if c = lineFeed then .skip (.plain true)
  else if isBlank c ∨ beginsBreak c rest then .skip .lineEnd
  else .refuse

def Style.escape (st : Style) (c : Char) (rest : List Char) : Move :=
  match escaped? c, digitCount? c with
  | some d, _ => .give d (.plain false)
  | none, some n => .skip (.code n 0)
  | none, none => if st.lines then lineEnd c rest else .refuse

def code (missing value : Nat) (c : Char) : Move :=
  match digit? c with
  | none => .refuse
  | some d =>
    let value := value * 16 + d
    if 1 < missing then .skip (.code (missing - 1) value)
    else if value.isValidChar then .give (Char.ofNat value) (.plain false)
    else .refuse

def Style.move (st : Style) (mode : Mode) (c : Char) (rest : List Char) : Move :=
  match mode with
  | .plain joining => st.plain joining c rest
  | .escape => st.escape c rest
  | .lineEnd => lineEnd c rest
  | .code missing value => code missing value c

/-- Scans a text to its end: the text, and what comes after it. -/
def scan (st : Style) : Mode → List Char → Option (List Char × List Char)
  | _, [] => none
  | mode, c :: rest =>
    match st.move mode c rest with
    | .give d next => (scan st next rest).map fun (text, rest) => (d :: text, rest)
    | .skip next => scan st next rest
    | .close more => some ([], rest.drop more)
    | .refuse => none

/-- What follows the opening marks, without a line break right after them. -/
def dropBreak : List Char → List Char
  | c :: d :: rest =>
    if c = lineFeed then d :: rest
    else if c = carriageReturn ∧ d = lineFeed then rest
    else c :: d :: rest
  | [c] => if c = lineFeed then [] else [c]
  | [] => []

/-- Reads a text on one line. -/
def readLine : List Char → Option (String × List Char)
  | c :: rest =>
    if c = doubleQuote ∨ c = apostrophe then
      (scan ⟨c, c = doubleQuote, false⟩ (.plain false) rest).map fun (text, rest) =>
        (String.ofList text, rest)
    else none
  | [] => none

/-- Reads a text, on one line or over lines. -/
def read : List Char → Option (String × List Char)
  | c :: rest =>
    if (c = doubleQuote ∨ c = apostrophe) ∧ 2 ≤ marks c rest then
      (scan ⟨c, c = doubleQuote, true⟩ (.plain false) (dropBreak (rest.drop 2))).map
        fun (text, rest) => (String.ofList text, rest)
    else readLine (c :: rest)
  | [] => none

end Quiescence.Settings.Quoted
