/-
# Settings documents

A settings document is a table of named items, written line by line.

* `key = item` names an item; a key of several parts, `a.b = item`, names it
  within the table `a`.
* `[a.b]` begins a table: the lines after it name the items of that table.
* `#` begins a comment, which goes on to the end of its line.
* In a list or a table within braces, line breaks and comments stand wherever
  blanks do, except in a key, whose parts are on one line.

An item is a whole number, a text, a list of items or a table within braces.
No name is given twice, and a table that is complete is not added to: tables
within braces are complete at once, and a table begun by a line of its own or
by a key of several parts is added to in that way only.

Documents may hold other items elsewhere, such as fractions, truth values,
dates, and tables listed under one name. No setting is such an item, and they
are refused here.
-/
import Quiescence.Settings.Quoted

namespace Quiescence.Settings

open Quoted

/-- How a table of a document came to be. -/
inductive Origin where
  /-- It was begun by a line of its own. -/
  | header
  /-- A table within it was begun by a line of its own. -/
  | implied
  /-- It is part of a key of several parts. -/
  | dotted
  /-- It stands within braces. -/
  | braces
  deriving DecidableEq, Repr

inductive Item where
  | number (n : Int)
  | text (s : String)
  | list (items : List Item)
  | table (origin : Origin) (fields : List (String × Item))

/-- The named items of a table, in the order they were named. -/
abbrev Fields := List (String × Item)

namespace Fields

def get? (fs : Fields) (name : String) : Option Item := (fs.find? fun f => f.1 == name).map (·.2)

/-- Gives an item to a name, in place of the one it had. -/
def set (fs : Fields) (name : String) (item : Item) : Fields :=
  if (fs.get? name).isSome then fs.map fun f => if f.1 == name then (name, item) else f
  else fs ++ [(name, item)]

/-- Names an item by a key of one part or more. -/
def assign (item : Item) : List String → Fields → Option Fields
  | [], _ => none
  | [name], fs => if (fs.get? name).isSome then none else some (fs ++ [(name, item)])
  | name :: key, fs =>
    match fs.get? name with
    | none => (assign item key []).map fun inner => fs.set name (.table .dotted inner)
    | some (.table .dotted inner) =>
      (assign item key inner).map fun inner => fs.set name (.table .dotted inner)
    | some _ => none

/-- Begins a table by a line of its own. -/
def begin : List String → Fields → Option Fields
  | [], _ => none
  | [name], fs =>
    match fs.get? name with
    | none => some (fs.set name (.table .header []))
    | some (.table .implied inner) => some (fs.set name (.table .header inner))
    | some _ => none
  | name :: key, fs =>
    match fs.get? name with
    | none => (begin key []).map fun inner => fs.set name (.table .implied inner)
    | some (.table .braces _) => none
    | some (.table origin inner) =>
      (begin key inner).map fun inner => fs.set name (.table origin inner)
    | some _ => none

/-- Changes the table with a key; the empty key is that of the whole document. -/
def within (change : Fields → Option Fields) : List String → Fields → Option Fields
  | [], fs => change fs
  | name :: key, fs =>
    match fs.get? name with
    | some (.table origin inner) =>
      (within change key inner).map fun inner => fs.set name (.table origin inner)
    | _ => none

end Fields

namespace Document

/-! ### Numbers -/

/-- The value of a digit in a base. -/
def digitIn? (base : Nat) (c : Char) : Option Nat := (digit? c).filter (· < base)

/-- The value of a number that goes on with some digits; an underscore may stand before a digit. -/
def digitsAfter (base value : Nat) : List Char → Option Nat
  | [] => some value
  | '_' :: c :: cs => (digitIn? base c).bind fun d => digitsAfter base (value * base + d) cs
  | c :: cs => (digitIn? base c).bind fun d => digitsAfter base (value * base + d) cs

/-- The value of some digits; single underscores may stand between them. -/
def digits (base : Nat) : List Char → Option Nat
  | [] => none
  | c :: cs => (digitIn? base c).bind fun d => digitsAfter base d cs

/-- A number in base ten, without needless zeros in front. -/
def decimal : List Char → Option Nat
  | ['0'] => some 0
  | '0' :: _ => none
  | cs => digits 10 cs

/-- A whole number: with a sign in base ten, or in base sixteen, eight or two. -/
def number : List Char → Option Int
  | '0' :: 'x' :: cs => (digits 16 cs).map Int.ofNat
  | '0' :: 'o' :: cs => (digits 8 cs).map Int.ofNat
  | '0' :: 'b' :: cs => (digits 2 cs).map Int.ofNat
  | '+' :: cs => (decimal cs).map Int.ofNat
  | '-' :: cs => (decimal cs).map fun n => -Int.ofNat n
  | cs => (decimal cs).map Int.ofNat

/-! ### Reading -/

/-- Takes something off the front of some characters, unless it is not there. -/
abbrev Reader := StateT (List Char) Option

/-- Takes one character, which must be the given one. -/
def expect (c : Char) : Reader Unit := fun cs =>
  match cs with
  | d :: rest => if d = c then some ((), rest) else none
  | [] => none

/-- Takes one character if it is the given one. -/
def accept (c : Char) : Reader Bool := fun cs =>
  match cs with
  | d :: rest => some (if d = c then (true, rest) else (false, cs))
  | [] => some (false, cs)

/-- Takes all the characters in front of which something is true. -/
def takeWhile (p : Char → Bool) : Reader (List Char) := fun cs =>
  some (cs.takeWhile p, cs.dropWhile p)

/-- Passes over the blanks on a line. -/
def blanks : Reader Unit := fun cs => some ((), cs.dropWhile isBlank)

/-- What is left after blanks, line breaks and comments. -/
def afterGap : Bool → List Char → List Char
  | _, [] => []
  | comment, c :: cs =>
    if c = lineFeed then afterGap false cs
    else if beginsBreak c cs then afterGap comment cs
    else if comment ∧ isPrintable c then afterGap true cs
    else if !comment ∧ isBlank c then afterGap false cs
    else if !comment ∧ c = '#' then afterGap true cs
    else c :: cs

/-- Passes over blanks, line breaks and comments. -/
def gap : Reader Unit := fun cs => some ((), afterGap false cs)

/-- Ends a line: blanks and a comment, then a line break or the end of the document. -/
def endLine : Reader Unit := fun cs =>
  let rest := match cs.dropWhile isBlank with
    | '#' :: comment => comment.dropWhile isPrintable
    | rest => rest
  match rest with
  | [] => some ((), [])
  | c :: cs => if beginsBreak c cs then some ((), c :: cs) else none

def isBareKey (c : Char) : Bool := c.isAlphanum || c == '_' || c == '-'

/-- One part of a key: bare, or quoted. -/
def keyPart : Reader String := fun cs =>
  match cs.takeWhile isBareKey with
  | [] => readLine cs
  | name => some (String.ofList name, cs.dropWhile isBareKey)

/-- A key: parts with points between them. There are at most so many as characters. -/
def keyOf : Nat → Reader (List String)
  | 0 => failure
  | n + 1 => do
    let part ← keyPart
    blanks
    if ← accept '.' then
      blanks
      return part :: (← keyOf n)
    else return [part]

def key : Reader (List String) := do keyOf ((← get).length + 1)

/-- The characters of numbers, and of whatever else might stand in place of one. -/
def isWord (c : Char) : Bool := isBareKey c || c == '+' || c == '.' || c == ':'

def word : Reader Item := do
  match number (← takeWhile isWord) with
  | some n => return .number n
  | none => failure

mutual

/-- An item, with items nested at most so deep, and lists at most so long, as a bound says. -/
def item : Nat → Reader Item
  | 0 => failure
  | n + 1 => do
    if ← accept '[' then
      gap
      return .list (← items n)
    else if ← accept '{' then
      gap
      return .table .braces (← fields n [])
    else
      match ← get with
      | c :: cs =>
        if c = doubleQuote ∨ c = apostrophe then
          match read (c :: cs) with
          | some (s, rest) =>
            set rest
            return .text s
          | none => failure
        else word
      | [] => failure

/-- The items of a list, up to its end. A comma may follow the last one. -/
def items : Nat → Reader (List Item)
  | 0 => failure
  | n + 1 => do
    if ← accept ']' then return []
    let first ← item n
    gap
    if ← accept ',' then
      gap
      return first :: (← items n)
    else
      expect ']'
      return [first]

/-- The fields of a table within braces, after those there are already. -/
def fields : Nat → Fields → Reader Fields
  | 0, _ => failure
  | n + 1, fs => do
    if ← accept '}' then return fs
    let name ← key
    gap
    expect '='
    gap
    let value ← item n
    match fs.assign value name with
    | none => failure
    | some fs =>
      gap
      if ← accept ',' then
        gap
        fields n fs
      else
        expect '}'
        return fs

end

/-- Every item takes a character at least, so their number bounds the nesting. -/
def anyItem : Reader Item := do item ((← get).length + 1)

/-- A line that begins a table, after its opening bracket. -/
def headerLine (fs : Fields) : Reader (List String × Fields) := do
  blanks
  let name ← key
  expect ']'
  match fs.begin name with
  | some fs => return (name, fs)
  | none => failure

/-- A line that names an item of a table. -/
def itemLine (table : List String) (fs : Fields) : Reader Fields := do
  let name ← key
  blanks
  expect '='
  blanks
  let value ← anyItem
  match fs.within (Fields.assign value name) table with
  | some fs => return fs
  | none => failure

/-- The lines of a document, at most so many; a table has been begun. -/
def lines : Nat → List String → Fields → Reader Fields
  | 0, _, _ => failure
  | n + 1, table, fs => do
    gap
    if (← get).isEmpty then return fs
    if ← accept '[' then
      let (table, fs) ← headerLine fs
      endLine
      lines n table fs
    else
      let fs ← itemLine table fs
      endLine
      lines n table fs

/-- A mark that may stand before the text of a document. -/
def byteOrderMark : Char := '\ufeff'

/-- The fields of a document, unless it is not one. -/
def parse (s : String) : Option Fields :=
  let cs := match s.toList with
    | c :: cs => if c = byteOrderMark then cs else c :: cs
    | [] => []
  (lines (cs.length + 1) [] [] cs).map (·.1)

end Document

end Quiescence.Settings
