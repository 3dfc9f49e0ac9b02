import Profiler.Text.Blank

/-!
# Switches

Timing and sampling are switched on by two settings of the environment. A setting is on if it says
`true`; blanks around the word and the case of its letters do not matter. A setting that is missing
or is not text is off.
-/

namespace Profiler

/-- What is switched on. -/
structure Switches where
  timing : Bool := false
  sampling : Bool := false
deriving DecidableEq

namespace Switches

/-- Whether a text says `true`. -/
def saysTrue (text : List Char) : Bool :=
  (Text.trim text).map Char.toLower = ['t', 'r', 'u', 'e']

/-- Whether a setting, given by its bytes, is on. -/
def isOn : Option (List UInt8) → Bool
  | none => false
  | some bytes =>
    match String.fromUTF8? ⟨bytes.toArray⟩ with
    | none => false
    | some text => saysTrue text.toList

/-- The switches for the settings of an environment. -/
def ofSettings (timing sampling : Option (List UInt8)) : Switches := ⟨isOn timing, isOn sampling⟩

end Switches

end Profiler
