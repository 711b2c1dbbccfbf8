import Relayout.Json.Content
import Relayout.Options

/-!
# Settings

The options that a JSON text can hold: policy, mode, and fixed texts for tokens. The text is an
object with some of the four members, or an array that begins with some of them in order. What is
missing has its default.
-/

namespace Relayout

structure Settings where
  policy : ErrorPolicy := .throw
  mode : ParseMode := .positional
  overrides : NameMap Text := ∅
  defaults : NameMap Text := ∅
  deriving DecidableEq

namespace Settings

open Json (Value)

/-! ## Names of the members -/

def policyName : Text := "errorPolicy".toList

def modeName : Text := "parseMode".toList

def overridesName : Text := "overrideTokens".toList

def defaultsName : Text := "defaultTokens".toList

def memberNames : List Text := [policyName, modeName, overridesName, defaultsName]

/-! ## Reading -/

/-- Settings from the values of the members, where there are any. -/
def ofValues? (policy mode overrides defaults : Option Value) : Option Settings := do
  return {
    policy := ← Json.orElse .throw (fun v => v.choice?.bind ErrorPolicy.ofName?) policy
    mode := ← Json.orElse .positional (fun v => v.choice?.bind ParseMode.ofName?) mode
    overrides := ← Json.orElse ∅ Value.textMap? overrides
    defaults := ← Json.orElse ∅ Value.textMap? defaults }

def ofJson? : Value → Option Settings
  | .object members => do
    let m ← Json.Members.known? memberNames members
    ofValues? (m.get? policyName) (m.get? modeName) (m.get? overridesName) (m.get? defaultsName)
  | .array items =>
    if items.length ≤ memberNames.length then
      ofValues? items[0]? items[1]? items[2]? items[3]?
    else none
  | _ => none

def readJson? (text : Text) : Option Settings := (Value.read? text).bind ofJson?

/-! ## Use -/

/-- Options with these settings, without a year converter and without tokens of the caller's own. -/
def toOptions (s : Settings) : Options where
  policy := s.policy
  mode := s.mode
  overrides := s.overrides.map .literal
  defaults := s.defaults.map .literal

end Settings
end Relayout
