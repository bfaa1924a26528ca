import Dataflow.Parser.Statement
import Dataflow.Reading.ByteReader
import Dataflow.Proofs.Outlook
import Dataflow.Proofs.Utf8
import Dataflow.Proofs.Supply
import Dataflow.Proofs.Walk
import Dataflow.Proofs.Backtracking
import Dataflow.Proofs.Windowing
import Dataflow.Proofs.Lexeme
import Dataflow.Proofs.Scanning
import Dataflow.Proofs.Prospect
import Dataflow.Proofs.Standing
import Dataflow.Proofs.Endless
import Dataflow.Proofs.Building
import Dataflow.Proofs.Framing
import Dataflow.Proofs.Precedence
import Dataflow.Proofs.Bordering
import Dataflow.Proofs.Coupling
import Dataflow.Proofs.Pairing
import Dataflow.Proofs.PairedExpressions
import Dataflow.Proofs.PairedStatements
import Dataflow.Proofs.Crossing
import Dataflow.Proofs.Transcript
import Dataflow.Proofs.Tiling
import Dataflow.Proofs.Composition
import Dataflow.Proofs.Retention
import Dataflow.Proofs.Speculation
import Dataflow.Proofs.Holding
import Dataflow.Proofs.LexerMemory
import Dataflow.Proofs.SessionMemory
import Dataflow.Proofs.Twins
import Dataflow.Proofs.Buffering
import Dataflow.Proofs.Cutting
import Dataflow.Proofs.Layout
import Dataflow.Proofs.Respelling
import Dataflow.Proofs.Script
import Dataflow.Proofs.Constancy
import Dataflow.Proofs.Events
import Dataflow.Proofs.Logging
import Dataflow.Proofs.Grammar
import Dataflow.Proofs.Phrases
import Dataflow.Proofs.Sentences
import Dataflow.Proofs.Consumption
import Dataflow.Proofs.Effects
import Dataflow.Proofs.Telling
import Dataflow.Proofs.Recording
import Dataflow.Proofs.Ebbing
import Dataflow.Proofs.Footing
import Dataflow.Proofs.Endurance
import Dataflow.Proofs.Survival
import Dataflow.Proofs.Assertions
import Dataflow.Proofs.Termination
import Dataflow.Proofs.Spelling
import Dataflow.Proofs.Drafts
import Dataflow.Proofs.Dictating
import Dataflow.Proofs.Rendering
import Dataflow.Proofs.Pins
import Dataflow.Proofs.Instances
import Dataflow.Proofs.Integrity
import Dataflow.Proofs.Refusals
import Dataflow.Proofs.Matching
import Dataflow.Proofs.SessionComparing
import Dataflow.Proofs.SessionMatching
import Dataflow.Proofs.Registrations
import Dataflow.Proofs.Naming
import Dataflow.Proofs.Decoding
import Dataflow.Proofs.LexerMatching
import Dataflow.Proofs.Mirroring
import Dataflow.Proofs.Overlong
import Dataflow.Proofs.Origins
import Dataflow.Proofs.Display
import Dataflow.Proofs.Resetting
import Dataflow.Proofs.Mentions
import Dataflow.Proofs.Defining
import Dataflow.Proofs.Unrelated
import Dataflow.Proofs.SymbolRuns
import Dataflow.Proofs.Numbers
import Dataflow.Proofs.Quoting
import Dataflow.Proofs.Splitting
import Dataflow.Proofs.Bounds
import Dataflow.Proofs.Echoing
import Dataflow.Proofs.Abreast
import Dataflow.Proofs.LexerEchoing
import Dataflow.Proofs.LexerEnding
import Dataflow.Proofs.CursorEchoing
import Dataflow.Proofs.SessionEchoing
import Dataflow.Proofs.Foresight
import Dataflow.Proofs.Troubles
import Dataflow.Proofs.Unmarked
import Dataflow.Proofs.Lagging
import Dataflow.Proofs.Undisturbed
import Dataflow.Proofs.Targets
import Dataflow.Proofs.Classes
import Dataflow.Proofs.Occurrences
import Dataflow.Proofs.Whereabouts
import Dataflow.Proofs.Coining
import Dataflow.Proofs.Filing
import Dataflow.Proofs.Sparing
import Dataflow.Proofs.Widening
import Dataflow.Proofs.Fitting
import Dataflow.Proofs.LexerLedger
import Dataflow.Proofs.Portions
import Dataflow.Proofs.Surroundings
