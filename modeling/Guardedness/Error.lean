import Guardedness.Check.Error
import Guardedness.Decoder
import Guardedness.Parser.Error

/-!
# What can go wrong

The settings may be unreadable, the text may hold no term, the check may fail, and so may the
system. A text that holds no term is told apart from one whose term is not guarded: the first is
a failure, the second an answer.
-/

namespace Guardedness

/-- Where a settings text comes from. -/
inductive SettingsSource where
  | text
  | file
deriving DecidableEq, Repr

/-- How a source is named to the user. -/
def SettingsSource.describe : SettingsSource → String
  | text => "config"
  | file => "config file"

/-- A failure of the system. -/
inductive SystemError where
  | notFound
  | invalidText
deriving DecidableEq, Repr

def SystemError.message : SystemError → String
  | notFound => "No such file or directory (os error 2)"
  | invalidText => "stream did not contain valid UTF-8"

/-- What can go wrong. -/
inductive Error where
  | parse (e : ParseError)
  | check (e : CheckError)
  | settings (source : SettingsSource) (detail : Option String)
  | system (e : SystemError)

def Error.message : Error → String
  | parse e => "Parse error: " ++ e.message
  | check e => "Check error: " ++ e.message
  | settings source detail =>
    "Config error: Failed to parse " ++ source.describe ++ (detail.map (": " ++ ·)).getD ""
  | system e => "I/O error: " ++ e.message

/-- The error of a settings text that has a fault. -/
def Error.ofFault (L : Decoder) (source : SettingsSource) (fault : L.Fault) : Error :=
  .settings source (L.detail? fault)

end Guardedness
