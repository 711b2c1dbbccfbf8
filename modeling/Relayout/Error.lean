import Relayout.Decimal
import Relayout.Text.Quoted

/-!
# Errors of a conversion

A layout can be searched for any set of token names: their number and length have no limit, so no
error tells of names that are too many to search for.
-/

namespace Relayout

/-- Why a date could not be converted. Positions count characters of the input. -/
inductive ConversionError
  | literalMismatch (expected : Text) (position : Nat)
  | tooShort (token : Text)
  | notNumeric (token value : Text)
  | trailingInput (position : Nat) (rest : Text)
  | missingYear
  | missingYearConverter
  | unknownToken (token : Text)
  | cannotProduce (token : Text)
  /-- the year converter refused the year with this text -/
  | yearConverter (message : Text)
  deriving DecidableEq

namespace ConversionError

def message : ConversionError → Text
  | literalMismatch expected position =>
    "Expected literal ".toList ++ expected.quote ++ " at position ".toList ++
      Decimal.digits position
  | tooShort token => "Input too short for token ".toList ++ token.quote
  | notNumeric token value =>
    "Invalid numeric value for token ".toList ++ token.quote ++ ": ".toList ++ value.quote
  | trailingInput position rest =>
    "Extra characters in input after position ".toList ++ Decimal.digits position ++
      ": ".toList ++ rest.quote
  | missingYear => "No \"yyyy\" or \"yy\" token found in the input layout".toList
  | missingYearConverter =>
    "A year converter is required when the input layout uses the two-digit year \"yy\"".toList
  | unknownToken token => "Unknown token ".toList ++ token.quote ++ " in output layout".toList
  | cannotProduce token =>
    "Cannot produce token ".toList ++ token.quote ++
      ": no parsed data, override, default or custom handler".toList
  | yearConverter message => message

/-- The input does not follow its layout. -/
def isParseFailure : ConversionError → Bool
  | literalMismatch .. | tooShort _ | notNumeric .. | trailingInput .. | missingYear => true
  | missingYearConverter | unknownToken _ | cannotProduce _ | yearConverter _ => false

end ConversionError
end Relayout
