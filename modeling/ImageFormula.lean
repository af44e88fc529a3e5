import ImageFormula.Main
import ImageFormula.Session
import ImageFormula.Proofs.Parsing
import ImageFormula.Proofs.RoundTrip
import ImageFormula.Proofs.Readability
import ImageFormula.Proofs.Renaming
import ImageFormula.Proofs.HeightLimit
import ImageFormula.Proofs.Listing
import ImageFormula.Proofs.SizeFormulas
import ImageFormula.Proofs.Spacing
import ImageFormula.Proofs.Places
import ImageFormula.Proofs.LetterCase
import ImageFormula.Proofs.NumberFormulas
import ImageFormula.Proofs.Accessors
import ImageFormula.Proofs.CommandLimits
import ImageFormula.Proofs.Quoting
import ImageFormula.Proofs.Documents
import ImageFormula.Proofs.SavedSettings
import ImageFormula.Proofs.NegatedPowers
import ImageFormula.Proofs.LiteralValues
import ImageFormula.Proofs.FirstFaults
import ImageFormula.Proofs.Tiling
import ImageFormula.Proofs.NormalForms
import ImageFormula.Proofs.Integers
import ImageFormula.Proofs.NotNumbers
import ImageFormula.Proofs.ShaderPower
import ImageFormula.Proofs.Stopping
import ImageFormula.Proofs.Identifiers
