import Guardedness.Check
import Guardedness.Error
import Guardedness.Parser
import Guardedness.Settings.Decoding

/-!
# From text to verdict

The term at the start of a text, or the one that is the whole text if the settings ask for
that, is read and checked. The verdict says whether it is guarded.
-/

namespace Guardedness

/-- The tree of a text, read as the settings say. -/
def SyntaxTree.ofTextUnder (settings : ReadSettings) (source : String) :
    Except ParseError SyntaxTree :=
  if settings.toEnd then SyntaxTree.ofText source else SyntaxTree.ofTextStart source

/-- Whether the term that a text holds is guarded. -/
def verdict (settings : Settings) (schedule : Schedule) (source : String) : Except Error Bool :=
  match SyntaxTree.ofTextUnder settings.read source with
  | .error e => .error (.parse e)
  | .ok t => (t.proc.check settings.check schedule).mapError .check

/-- What a name leads to in a file system. -/
inductive Entry where
  | missing
  | unreadable
  | file (text : String)

/-- The settings in a file. -/
def Settings.ofEntry (L : Decoder) : Entry → Except Error Settings
  | .missing => .error (.system .notFound)
  | .unreadable => .error (.settings .file none)
  | .file text => (Settings.ofText L text).mapError (.ofFault L .file)

end Guardedness
