import BytePack.Decimal.Reading
import BytePack.Text.Integer
import BytePack.Text.Quoted

/-!
# Errors

An error ends the call that meets it. It is kept as its cause; `Error.message` words it, and
`Error.kind` tells the broad kinds apart. Whoever builds on this library can raise an error of any
kind in words of its own (`other`).
-/

namespace BytePack

/-- What is wrong with a format. -/
inductive FormatFault where
  | unknownCode
  | repeatTooLarge
  | other (reason : String)
  deriving DecidableEq, Repr

/-- How arguments or input fall short of a format. -/
inductive ArgumentFault where
  /-- No argument is left for a text. -/
  | notEnough (code : Char)
  /-- Fewer arguments are left than a directive takes. -/
  | tooFew (code : Char)
  /-- Fewer bytes are left than a directive reads. -/
  | shortInput (code : Char) (need : Nat) (available : Nat)
  | other (text : String)
  deriving DecidableEq, Repr

/-- What does not fit the range of positions or the memory. -/
inductive OverflowFault where
  | position (code : Char)
  | other (text : String)
  deriving DecidableEq, Repr

/-- Which text is no number. -/
inductive ParseFault where
  | integer (text : String) (fault : IntegerFault)
  | float (text : String) (fault : FloatFault)
  | other (text : String)
  deriving DecidableEq, Repr

/-- Which value has no number in it. -/
inductive TypeFault where
  | integer (text : String)
  | float (text : String)
  | other (text : String)
  deriving DecidableEq, Repr

/-- What is wrong with a configuration. -/
inductive ConfigFault where
  | noExtension
  | unsupportedExtension (extension : String)
  | zeroNameLimit
  /-- A source is malformed, or the value that counts has the wrong type. -/
  | unreadable
  | other (text : String)
  deriving DecidableEq, Repr

/-- Why a call failed. -/
inductive Error where
  | format (code : Char) (position : Nat) (fault : FormatFault)
  | argument (fault : ArgumentFault)
  | overflow (fault : OverflowFault)
  | parse (fault : ParseFault)
  | unsupportedType (fault : TypeFault)
  /-- Unpacking was to start past the end of the input. -/
  | range (offset : Nat) (length : Nat)
  | config (fault : ConfigFault)
  deriving DecidableEq, Repr

/-- The broad kind of an error. -/
inductive ErrorKind where
  | format
  | argument
  | overflow
  | parse
  | unsupportedType
  | range
  | config
  deriving DecidableEq, Repr

/-- The kind of an error. -/
def Error.kind : Error → ErrorKind
  | .format .. => .format
  | .argument _ => .argument
  | .overflow _ => .overflow
  | .parse _ => .parse
  | .unsupportedType _ => .unsupportedType
  | .range .. => .range
  | .config _ => .config

/-- The name under which a kind is recorded. -/
def ErrorKind.name : ErrorKind → String
  | .format => "format"
  | .argument => "argument"
  | .overflow => "overflow"
  | .parse => "parse"
  | .unsupportedType => "unsupported_type"
  | .range => "range"
  | .config => "config"

/-- The wording of a fault. -/
def FormatFault.message : FormatFault → String
  | .unknownCode => "unknown format code"
  | .repeatTooLarge => "repeat count is too large"
  | .other reason => reason

/-- The wording of a fault. -/
def ArgumentFault.message : ArgumentFault → String
  | .notEnough code => s!"type {code}: not enough arguments"
  | .tooFew code => s!"type {code}: too few arguments"
  | .shortInput code need available =>
    s!"type {code}: not enough input, need {need}, have {available}"
  | .other text => text

/-- The wording of a fault. -/
def OverflowFault.message : OverflowFault → String
  | .position code => s!"type {code}: integer overflow in format string"
  | .other text => text

/-- The wording of a fault. -/
def ParseFault.message : ParseFault → String
  | .integer text fault => "cannot convert " ++ Text.quoted text ++ " to integer: " ++ fault.message
  | .float text fault => "cannot convert " ++ Text.quoted text ++ " to float: " ++ fault.message
  | .other text => text

/-- The wording of a fault. -/
def TypeFault.message : TypeFault → String
  | .integer text => "cannot convert object " ++ Text.quoted text ++ " to integer"
  | .float text => "cannot convert object " ++ Text.quoted text ++ " to float"
  | .other text => text

/-- The wording of a fault. -/
def ConfigFault.message : ConfigFault → String
  | .noExtension => "Config file must have an extension"
  | .unsupportedExtension extension => s!"Unsupported config file format: {extension}"
  | .zeroNameLimit => "name_limit must be greater than 0"
  | .unreadable => "the configuration cannot be read"
  | .other text => text

/-- The wording of an error. -/
def Error.message : Error → String
  | .format code position fault =>
    s!"Format error: type {code} at position {position}: " ++ fault.message
  | .argument fault => "Argument error: " ++ fault.message
  | .overflow fault => "Overflow error: " ++ fault.message
  | .parse fault => "Parse error: " ++ fault.message
  | .unsupportedType fault => "Unsupported type: " ++ fault.message
  | .range offset length => s!"Offset {offset} is out of range for input of {length} bytes"
  | .config fault => "Configuration error: " ++ fault.message

end BytePack
