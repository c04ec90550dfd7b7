import Licensing.Decimal.Digits
import Licensing.Decimal.Layout
import Licensing.Listing
import Licensing.Text.Quoted
import Licensing.Toml.Calendar

/-!
Values of a settings or catalog document: text, numbers, truth values, dates and times, arrays, and
tables, which keep the order of the document. `Value.kindName` names the kind of a value and
`Value.display` shows the value itself, both as error messages do.
-/

namespace Licensing.Toml

inductive Value where
  | text (s : String)
  | integer (n : Int)
  | float (x : Decimal.Double)
  | boolean (b : Bool)
  | dateTime (d : DateTime)
  | date (d : Date)
  | time (t : Time)
  | array (items : List Value)
  | table (entries : List (String × Value))

/-- The content of a table, and of a whole document. -/
abbrev Table := Listing Value

namespace Value

def kindName : Value → String
  | text _ => "str"
  | integer _ => "int"
  | float _ => "float"
  | boolean _ => "bool"
  | dateTime _ => "datetime"
  | date _ => "date"
  | time _ => "time"
  | array _ => "list"
  | table _ => "dict"

/-- Numbers are plain from `0.0001` on and below `10 ^ 16`, and exponents have two digits. -/
def floatLayout : Decimal.Layout where
  leastPlain := -4
  plainBelow := 16
  exponentWidth := 2
  infinity := "inf"
  notANumber := "nan"

mutual

/-- A value as it is shown in messages. -/
def display : Value → String
  | text s => Text.quoted s
  | integer n => toString n
  | float x => floatLayout.render x
  | boolean b => if b then "True" else "False"
  | dateTime d => d.display
  | date d => d.display
  | time t => t.display
  | array items => "[" ++ displayItems items ++ "]"
  | table entries => "\x7b" ++ displayEntries entries ++ "\x7d"

/-- The items of an array, separated by commas. -/
def displayItems : List Value → String
  | [] => ""
  | [item] => item.display
  | item :: rest => item.display ++ ", " ++ displayItems rest

/-- The entries of a table, separated by commas. -/
def displayEntries : List (String × Value) → String
  | [] => ""
  | [(name, value)] => Text.quoted name ++ ": " ++ value.display
  | (name, value) :: rest =>
    Text.quoted name ++ ": " ++ value.display ++ ", " ++ displayEntries rest

end

mutual

/-- Whether a value can be shown: no integer in it is too long. -/
def showable : Value → Bool
  | integer n => Decimal.showable n
  | array items => showableItems items
  | table entries => showableEntries entries
  | _ => true

def showableItems : List Value → Bool
  | [] => true
  | item :: rest => item.showable && showableItems rest

def showableEntries : List (String × Value) → Bool
  | [] => true
  | (_, value) :: rest => value.showable && showableEntries rest

end

def table? : Value → Option Table
  | table entries => some entries
  | _ => none

def text? : Value → Option String
  | text s => some s
  | _ => none

def boolean? : Value → Option Bool
  | boolean b => some b
  | _ => none

end Value

end Licensing.Toml
