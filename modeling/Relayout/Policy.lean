import Relayout.Text.Blank
import Relayout.Text.Quoted

/-!
# How strict a conversion is

* `ErrorPolicy`: whether trouble ends a conversion or is passed over.
* `ParseMode`: whether the text between tokens is compared with the layout.

Both can be chosen by name. Blank characters around the name do not matter.
-/

namespace Relayout

/-- A name that is none of the choices. -/
structure SettingError where
  /-- what was to be chosen -/
  kind : Text
  /-- the name, without blank characters around it -/
  value : Text
  deriving DecidableEq

def SettingError.message (e : SettingError) : Text :=
  "Unknown ".toList ++ e.kind ++ ": ".toList ++ e.value.quote

inductive ErrorPolicy
  /-- the first error ends the conversion -/
  | throw
  /-- what cannot be read or written is passed over -/
  | silent
  deriving DecidableEq, Inhabited

namespace ErrorPolicy

def name : ErrorPolicy → Text
  | throw => "throw".toList
  | silent => "silent".toList

/-- The policy of exactly this name. -/
def ofName? (name : Text) : Option ErrorPolicy := [throw, silent].find? (·.name = name)

def read (text : Text) : Except SettingError ErrorPolicy :=
  match ofName? text.trim with
  | some policy => .ok policy
  | none => .error ⟨"error policy".toList, text.trim⟩

def describe : ErrorPolicy → Text
  | throw => "Throw".toList
  | silent => "Silent".toList

end ErrorPolicy

inductive ParseMode
  /-- text between tokens is skipped by its width -/
  | positional
  /-- text between tokens must be as in the layout, and nothing may follow -/
  | strict
  deriving DecidableEq, Inhabited

namespace ParseMode

def name : ParseMode → Text
  | positional => "positional".toList
  | strict => "strict".toList

/-- The mode of exactly this name. -/
def ofName? (name : Text) : Option ParseMode := [positional, strict].find? (·.name = name)

def read (text : Text) : Except SettingError ParseMode :=
  match ofName? text.trim with
  | some mode => .ok mode
  | none => .error ⟨"parse mode".toList, text.trim⟩

def describe : ParseMode → Text
  | positional => "Positional".toList
  | strict => "Strict".toList

end ParseMode
end Relayout
