import Relayout.Date.Json
import Relayout.Settings
import Relayout.Token.Writer
import Relayout.Proofs.Agreement
import Relayout.Proofs.FieldNumbers
import Relayout.Proofs.Intermediate
import Relayout.Proofs.PositionalReading
import Relayout.Proofs.SameLayout
import Relayout.Proofs.SilentConversion
import Relayout.Proofs.StrictReading
import Relayout.Proofs.Producibility
import Relayout.Proofs.Interpretation
import Relayout.Proofs.NameFallback
import Relayout.Proofs.RoundTrip
import Relayout.Proofs.Layout.Spelling
import Relayout.Proofs.Layout.Alternation
import Relayout.Proofs.Layout.Tiling
import Relayout.Proofs.Layout.Cuts
import Relayout.Proofs.Layout.Letters
import Relayout.Proofs.Escapes
import Relayout.Proofs.Layout.Compact
import Relayout.Proofs.StructuralErrors
import Relayout.Proofs.Numerals
import Relayout.Proofs.FieldValues
import Relayout.Proofs.FieldRanges
import Relayout.Proofs.NumberTokens
import Relayout.Proofs.BuiltinHandlers
import Relayout.Proofs.SettingsJson
import Relayout.Proofs.DatePartsJson
import Relayout.Proofs.Changes
import Relayout.Proofs.Layout.WordRuns
