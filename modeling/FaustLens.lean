import FaustLens.Main
import FaustLens.Proofs.Claims
import FaustLens.Proofs.Painting
import FaustLens.Proofs.Partition
import FaustLens.Proofs.Boundaries
import FaustLens.Proofs.Tables
import FaustLens.Proofs.Permanence
import FaustLens.Proofs.LiteralRules
import FaustLens.Proofs.RuleOrder
import FaustLens.Proofs.Pattern.Reach
import FaustLens.Proofs.Pattern.Preference
import FaustLens.Proofs.Pattern.FindAll
import FaustLens.Proofs.Faust.Operators
import FaustLens.Proofs.Terminal.Display
import FaustLens.Proofs.Faust.CommentContents
import FaustLens.Proofs.Faust.Masking
import FaustLens.Proofs.Faust.Words
import FaustLens.Proofs.Faust.CleanBreak
import FaustLens.Proofs.RtfDocument
import FaustLens.Proofs.Faust.StringScan
import FaustLens.Proofs.Faust.CommentScan
import FaustLens.Proofs.Run
import FaustLens.Proofs.Reapplication
import FaustLens.Proofs.CodeUnits
import FaustLens.Proofs.RtfReading
import FaustLens.Proofs.Terminal.Plain
import FaustLens.Proofs.SpanDumpReading
import FaustLens.Proofs.ColorNotation
import FaustLens.Proofs.Toml.Ordered
import FaustLens.Proofs.Config.Value
import FaustLens.Proofs.Config.Validation
import FaustLens.Proofs.Config.Overrides
