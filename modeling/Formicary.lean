import Formicary.Blob.Basic
import Formicary.Blob.Header
import Formicary.Bytes
import Formicary.Code.Assembler
import Formicary.Code.Assembly
import Formicary.Code.Decoding
import Formicary.Code.Labels
import Formicary.Code.Listing
import Formicary.Code.MachineCode
import Formicary.Code.Source
import Formicary.Code.Storage
import Formicary.Code.Watch
import Formicary.Colony.Basic
import Formicary.Colony.Routine
import Formicary.Colony.Settings
import Formicary.Colony.SettingsFile
import Formicary.Colony.Worker
import Formicary.Command.Arguments
import Formicary.Command.Outcome
import Formicary.Command.Run
import Formicary.Command.Validate
import Formicary.Files.Path
import Formicary.Files.Tree
import Formicary.Instruction.Encoding
import Formicary.Instruction.Op
import Formicary.Instruction.Operand
import Formicary.Json.Basic
import Formicary.Json.Parser
import Formicary.Json.Reader
import Formicary.Main
import Formicary.Number.Binary64
import Formicary.Number.Decimal
import Formicary.Proofs.BlobDamage
import Formicary.Proofs.BlobLayout
import Formicary.Proofs.BlobRoundTrip
import Formicary.Proofs.ColonyHistory
import Formicary.Proofs.DistantTurns
import Formicary.Proofs.Encoding
import Formicary.Proofs.Except
import Formicary.Proofs.Execution
import Formicary.Proofs.FirstFree
import Formicary.Proofs.ForwardJumps
import Formicary.Proofs.Frames
import Formicary.Proofs.Grammar
import Formicary.Proofs.GridAccess
import Formicary.Proofs.Interleaving
import Formicary.Proofs.Interpreter
import Formicary.Proofs.LabelHistory
import Formicary.Proofs.Labels
import Formicary.Proofs.Layout
import Formicary.Proofs.Lexemes
import Formicary.Proofs.Lines
import Formicary.Proofs.Listing
import Formicary.Proofs.LocalPart
import Formicary.Proofs.LocalSteps
import Formicary.Proofs.Occupancy
import Formicary.Proofs.Operands
import Formicary.Proofs.Pauses
import Formicary.Proofs.PlainMerge
import Formicary.Proofs.Relisting
import Formicary.Proofs.Replacement
import Formicary.Proofs.RoundTrip
import Formicary.Proofs.ScentChoice
import Formicary.Proofs.SensedMoves
import Formicary.Proofs.Sessions
import Formicary.Proofs.ShelfHistory
import Formicary.Proofs.Snapshots
import Formicary.Proofs.StoredPrograms
import Formicary.Proofs.Survey
import Formicary.Proofs.TextBytes
import Formicary.Proofs.TickEffects
import Formicary.Proofs.TickOrder
import Formicary.Proofs.TickParts
import Formicary.Proofs.Tiling
import Formicary.Proofs.TurnOutcomes
import Formicary.Proofs.Turns
import Formicary.Proofs.WellFormedWorkers
import Formicary.Proofs.WordCoordinates
import Formicary.Proofs.Words
import Formicary.Review.Check
import Formicary.Review.Lint
import Formicary.Shelf.Basic
import Formicary.Shelf.Snapshot
import Formicary.Text.Blank
import Formicary.Text.Invisible
import Formicary.Text.Lines
import Formicary.Text.Numeral
import Formicary.Text.Quoted
import Formicary.Text.Utf8
import Formicary.Worker.Cpu
import Formicary.Worker.Heading
import Formicary.Worker.Record
import Formicary.Worker.Scent
import Formicary.Worker.Step
import Formicary.World.Grid
import Formicary.World.Stream
import Formicary.World.Terrain
