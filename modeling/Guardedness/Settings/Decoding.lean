import Guardedness.Decoder
import Guardedness.Settings

/-!
# Settings texts

Settings are written as a record of two records. A field that is left out keeps its default.
-/

namespace Guardedness

variable (L : Decoder)

/-- A way to check a term is one of three words. -/
def Strategy.reader : L.Reader Strategy := L.word (all.map fun s => (s.word, s))

namespace ReadSettings

/-- The fields of these settings that a text has given so far. -/
structure Given where
  toEnd : Option Bool := none

/-- The settings, with defaults for what is not given. -/
def ofGiven (g : Given) : ReadSettings := ⟨g.toEnd.getD ({} : ReadSettings).toEnd⟩

def fields : List (Field L.Reader Given) :=
  [⟨"require_end_of_input", (·.toEnd.isSome), L.map (fun b g => { g with toEnd := some b }) L.bool⟩]

/-- Read these settings. -/
def reader : L.Reader ReadSettings := L.map ofGiven (L.record "struct ParserConfig" (fields L) {})

end ReadSettings

namespace CheckSettings

structure Given where
  strategy : Option Strategy := none
  hasty : Option Bool := none

def ofGiven (g : Given) : CheckSettings :=
  ⟨g.strategy.getD ({} : CheckSettings).strategy, g.hasty.getD ({} : CheckSettings).hasty⟩

def fields : List (Field L.Reader Given) :=
  [⟨"evaluation", (·.strategy.isSome),
      L.map (fun s g => { g with strategy := some s }) (Strategy.reader L)⟩,
    ⟨"short_circuit", (·.hasty.isSome), L.map (fun b g => { g with hasty := some b }) L.bool⟩]

def reader : L.Reader CheckSettings := L.map ofGiven (L.record "struct CheckerConfig" (fields L) {})

end CheckSettings

namespace Settings

structure Given where
  read : Option ReadSettings := none
  check : Option CheckSettings := none

def ofGiven (g : Given) : Settings := ⟨g.read.getD {}, g.check.getD {}⟩

def fields : List (Field L.Reader Given) :=
  [⟨"parser", (·.read.isSome),
      L.map (fun s g => { g with read := some s }) (ReadSettings.reader L)⟩,
    ⟨"checker", (·.check.isSome),
      L.map (fun s g => { g with check := some s }) (CheckSettings.reader L)⟩]

/-- Read all settings. -/
def reader : L.Reader Settings := L.map ofGiven (L.record "struct GuardConfig" (fields L) {})

/-- The settings that a text holds. -/
def ofText (text : String) : Except L.Fault Settings := L.decode (reader L) text

end Settings

end Guardedness
