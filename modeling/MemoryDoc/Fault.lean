/-
# Faults

A fault says what is wrong with the arguments of a macro.  Each constructor is one cause and keeps
what its message quotes; `Fault.message` is the only place where the wording is written.
-/
import MemoryDoc.Text.Numeral

namespace MemoryDoc

/-- What is wrong with the arguments of a macro. -/
inductive Fault where
  /-- A bracketed text is missing. -/
  | noText
  /-- The bracket that opens `text` is never closed. -/
  | unclosedBracket (text : Text)
  /-- `text` does not start with the number of an address. -/
  | badAddress (text : Text)
  /-- A parameter is given by a name that is not declared. -/
  | unknownKeyword (name : Text)
  /-- More parameters are given than are declared. -/
  | tooManyParameters (expected : Nat) (params : Text)
  /-- A parameter that has to be a number is not one. -/
  | badParameter (raw params : Text)
  /-- A required parameter that can be given by name is missing. -/
  | missingParameter (name params : Text)
  /-- A required parameter is missing. -/
  | tooFewParameters (expected : Nat) (params : Text)
  /-- The brace that opens the cropping rectangle `text` is not closed behind it. -/
  | unclosedCrop (text : Text)
  /-- A range of addresses does not have the form of one. -/
  | badRange (range : Text)
  /-- A range holds more addresses than a picture may have tiles. -/
  | rangeTooLong (range : Text)
  /-- There is no mask type of this number. -/
  | badMaskType (number : Nat)
  /-- A picture has no file name. -/
  | noFileName
  /-- A tile array is zero tiles wide. -/
  | badWidth (arguments : Text)
  /-- A tile array has no file name. -/
  | noArrayFileName (arguments : Text)
  /-- A tile array has neither a file name nor a frame name. -/
  | noArrayName (arguments : Text)
  /-- The delay of an animation frame is not a number. -/
  | badDelay (delay : Text)
  /-- A frame of an animation is not named. -/
  | noFrameName (arguments : Text)
  /-- No frame of this name has been kept. -/
  | unknownFrame (name : Text)
  /-- The message to be drawn is empty. -/
  | emptyMessage (arguments : Text)
  /-- A link to a page does not name the page. -/
  | noPage (arguments : Text)
  /-- A link to a page has no link text. -/
  | noLinkText (arguments : Text)
  /-- The word that ends a table or a list is missing. -/
  | noTerminator (kind : Text)
  /-- A cell spans a number of rows or columns that is not a positive number. -/
  | badSpan (kind indicator : Text)
  /-- A number is required. -/
  | noNumber
  /-- A text that has to be a number is not one. -/
  | badNumber (raw : Text)
  /-- A call does not name a function. -/
  | noFunction
  /-- A call has no list of arguments. -/
  | noArguments (function : Text)
  /-- No function of this name can be called. -/
  | unknownFunction (function : Text)
  /-- A register is required. -/
  | noRegister
  /-- There is no register of this name. -/
  | badRegister (name : Text)
deriving DecidableEq, Repr

namespace Fault

/-- The text between single quotes. -/
def quoted (t : Text) : Text :=
  "'" ++ t ++ "'"

/-- The text between double quotes. -/
def doublyQuoted (t : Text) : Text :=
  "\"" ++ t ++ "\""

/-- The wording of a fault. -/
def message : Fault → Text
  | noText => "No text parameter"
  | unclosedBracket text => "No closing bracket: " ++ text
  | badAddress text => "Invalid address: " ++ quoted text
  | unknownKeyword name => "Unknown keyword argument: " ++ quoted name
  | tooManyParameters expected params =>
    "Too many parameters (expected " ++ Numeral.decimal expected ++ "): " ++ quoted params
  | badParameter raw params =>
    "Cannot parse integer " ++ quoted raw ++ " in parameter string: " ++ quoted params
  | missingParameter name params =>
    "Missing required argument " ++ quoted name ++ ": " ++ quoted params
  | tooFewParameters expected params =>
    "Not enough parameters (expected " ++ Numeral.decimal expected ++ "): " ++ quoted params
  | unclosedCrop text => "No closing brace on cropping specification: " ++ text
  | badRange range => "Invalid address range specification: " ++ range
  | rangeTooLong range => "Address range too long: " ++ range
  | badMaskType number => "Invalid mask type: " ++ Numeral.decimal number
  | noFileName => "Missing filename"
  | badWidth arguments => "Invalid width: #UDGARRAY" ++ arguments
  | noArrayFileName arguments => "Missing filename: #UDGARRAY" ++ arguments
  | noArrayName arguments => "Missing filename or frame ID: #UDGARRAY" ++ arguments
  | badDelay delay => "Invalid delay parameter: " ++ doublyQuoted delay
  | noFrameName arguments => "Missing frame ID: #UDGARRAY" ++ arguments
  | unknownFrame name => "No such frame: " ++ doublyQuoted name
  | emptyMessage arguments => "Empty message: " ++ arguments
  | noPage arguments => "No page ID specified: #LINK" ++ arguments
  | noLinkText arguments => "No link text specified: #LINK" ++ arguments
  | noTerminator kind => "Missing " ++ kind ++ " terminator"
  | badSpan kind indicator => "Invalid " ++ kind ++ " indicator: " ++ quoted indicator
  | noNumber => "No parameters (expected 1)"
  | badNumber raw => "Invalid integer: " ++ quoted raw
  | noFunction => "Malformed macro: #CALL"
  | noArguments function => "No argument list specified: #CALL:" ++ function
  | unknownFunction function => "Unknown method name in #CALL macro: " ++ function
  | noRegister => "Missing register argument"
  | badRegister name => "Bad register: " ++ doublyQuoted name

end Fault

end MemoryDoc
