import ToyC.Main
import ToyC.Proofs.Carets
import ToyC.Proofs.Checking
import ToyC.Proofs.Counters
import ToyC.Proofs.EarlyReports
import ToyC.Proofs.Files
import ToyC.Proofs.Folding
import ToyC.Proofs.Heights
import ToyC.Proofs.Layout
import ToyC.Proofs.Levels
import ToyC.Proofs.Peeking
import ToyC.Proofs.PrintedAlike
import ToyC.Proofs.PrintedTokens
import ToyC.Proofs.References
import ToyC.Proofs.RoundTrip
import ToyC.Proofs.WrittenTokens
import ToyC.Proofs.DeclarationOrder
import ToyC.Proofs.CutOff
import ToyC.Proofs.TrailingText
import ToyC.Proofs.NestingLimit
