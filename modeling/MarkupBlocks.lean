import MarkupBlocks.Text.Blank
import MarkupBlocks.Text.Layout
import MarkupBlocks.Text.Quoted
import MarkupBlocks.Bindings
import MarkupBlocks.Traced
import MarkupBlocks.Fault
import MarkupBlocks.Event
import MarkupBlocks.Markup.Control
import MarkupBlocks.Markup.Tree
import MarkupBlocks.Markup.WellFormed
import MarkupBlocks.Markup.Equality
import MarkupBlocks.Markup.Siblings
import MarkupBlocks.Markup.Children
import MarkupBlocks.Value.Basic
import MarkupBlocks.Value.Print
import MarkupBlocks.Value.Names
import MarkupBlocks.Value.OfMarkup
import MarkupBlocks.Rendering
import MarkupBlocks.Conversion
import MarkupBlocks.Proofs.Routes
import MarkupBlocks.Proofs.Parts
import MarkupBlocks.Proofs.Outline
import MarkupBlocks.Proofs.Blocks
import MarkupBlocks.Proofs.Journal
import MarkupBlocks.Proofs.DepthLimit
import MarkupBlocks.Proofs.Faults
import MarkupBlocks.Proofs.Printing
import MarkupBlocks.Proofs.Strings
import MarkupBlocks.Proofs.Reading
import MarkupBlocks.Proofs.Literals
import MarkupBlocks.Proofs.Decoding
import MarkupBlocks.Proofs.RawLiterals
import MarkupBlocks.Proofs.AuthoredLiterals
import MarkupBlocks.Proofs.Scanning
import MarkupBlocks.Proofs.QuotedLeaves
import MarkupBlocks.Proofs.Counterparts
import MarkupBlocks.Proofs.Comparisons
import MarkupBlocks.Proofs.Rewriting
import MarkupBlocks.Proofs.PlainTags
import MarkupBlocks.Proofs.Contexts
import MarkupBlocks.Proofs.Decisions
import MarkupBlocks.Proofs.Layout
import MarkupBlocks.Proofs.Tidying
import MarkupBlocks.Proofs.SingleLines
import MarkupBlocks.Proofs.Indentation
import MarkupBlocks.Proofs.Lines
import MarkupBlocks.Proofs.SettingProps
import MarkupBlocks.Proofs.SameTrees
import MarkupBlocks.Proofs.Reorderings
import MarkupBlocks.Proofs.Nesting
import MarkupBlocks.Proofs.Composition
import MarkupBlocks.Proofs.Places
import MarkupBlocks.Proofs.IdleControls
import MarkupBlocks.Proofs.OpenOutlines
import MarkupBlocks.Proofs.Substitution
import MarkupBlocks.Proofs.Groups
import MarkupBlocks.Proofs.Conversions
import MarkupBlocks.Proofs.Slots
import MarkupBlocks.Proofs.Transcript
import MarkupBlocks.Proofs.EventLog
import MarkupBlocks.Proofs.Runs
import MarkupBlocks.Proofs.Seams
import MarkupBlocks.Proofs.AssignedNames
import MarkupBlocks.Proofs.Childless
