import Framecode.Text.Lines
import Framecode.Text.Letter
import Framecode.Source.Assemble
import Framecode.Source.Listing
import Framecode.Interchange.Write
import Framecode.Interchange.Read
import Framecode.Engine.Journal
import Framecode.Command.Workspace
import Framecode.Main
import Framecode.Proofs.Engine.Positions
import Framecode.Proofs.Engine.Assembled
import Framecode.Proofs.Engine.Renumbering
import Framecode.Proofs.Engine.Calls
import Framecode.Proofs.Engine.Scopes
import Framecode.Proofs.Engine.Debugging
import Framecode.Proofs.Engine.Forward
import Framecode.Proofs.Engine.Prediction
import Framecode.Proofs.Engine.Refusals
import Framecode.Proofs.Engine.Snapshots
import Framecode.Proofs.Engine.Inputs
import Framecode.Proofs.Engine.Sinks
import Framecode.Proofs.Engine.Respelling
import Framecode.Proofs.Interchange.RoundTrip
import Framecode.Proofs.Xml.Moves
import Framecode.Proofs.Source.Reassembly
import Framecode.Proofs.Command.Printed
import Framecode.Proofs.Command.Checking
import Framecode.Proofs.Interchange.Structure
import Framecode.Proofs.Command.Verdicts
import Framecode.Proofs.Text.Marks
import Framecode.Proofs.Xml.Prolog
import Framecode.Proofs.Xml.Lines
import Framecode.Proofs.Xml.Asides
import Framecode.Proofs.Xml.Places
import Framecode.Proofs.Interchange.Acceptance
import Framecode.Proofs.Interchange.Asides
import Framecode.Proofs.Engine.Lifetimes
import Framecode.Proofs.Command.Stages
import Framecode.Proofs.Command.Statuses
import Framecode.Proofs.Command.Reports
import Framecode.Proofs.Engine.Reading
import Framecode.Proofs.Literal.Integers
import Framecode.Proofs.Source.Tallies
import Framecode.Proofs.Engine.Relations
import Framecode.Proofs.Engine.Storing
import Framecode.Proofs.Engine.Wrapping
import Framecode.Proofs.Engine.Characters
import Framecode.Proofs.Engine.Conservation
import Framecode.Proofs.Literal.Escapes
import Framecode.Proofs.Engine.Expressing
import Framecode.Proofs.Interchange.Numbering
import Framecode.Proofs.Command.Grouping
