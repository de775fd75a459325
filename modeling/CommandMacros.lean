import CommandMacros.Expansion.Recursive
import CommandMacros.Main
import CommandMacros.Proofs.Expansion.FrameStack
import CommandMacros.Expansion.Routine
import CommandMacros.Proofs.Expansion.Termination
import CommandMacros.Proofs.Binding.CommandEnd
import CommandMacros.Proofs.Expansion.Continuation
import CommandMacros.Proofs.Expansion.Coupling
import CommandMacros.Proofs.Expansion.Limits
import CommandMacros.Proofs.Expansion.Commands
import CommandMacros.Proofs.Token.Place
import CommandMacros.Proofs.Token.Lossless
import CommandMacros.Proofs.Token.Reread
import CommandMacros.Proofs.Token.Grammar
import CommandMacros.Proofs.Token.RoundTrip
import CommandMacros.Proofs.Reading
import CommandMacros.Proofs.Body.WellFormed
import CommandMacros.Proofs.Body.Compile
import CommandMacros.Proofs.Expansion.Contract
import CommandMacros.Proofs.Binding.Sound
import CommandMacros.Proofs.Definition.Sound
import CommandMacros.Proofs.Expansion.Sound
import CommandMacros.Proofs.Expansion.Compiled
import CommandMacros.Proofs.Session.Reached
import CommandMacros.Proofs.Session.Places
import CommandMacros.Proofs.Definition.Grammar
import CommandMacros.Proofs.Definition.Exact
import CommandMacros.Proofs.Session.Stream
import CommandMacros.Proofs.Body.Parts
import CommandMacros.Proofs.Body.ReadBack
import CommandMacros.Proofs.Expansion.Inert
import CommandMacros.Proofs.Expansion.Complete
import CommandMacros.Proofs.Expansion.Reports
import CommandMacros.Proofs.Expansion.Balance
import CommandMacros.Proofs.Unplaced.Session
import CommandMacros.Proofs.Session.Seam
import CommandMacros.Proofs.Session.SetCommands
import CommandMacros.Proofs.Body.Literals
import CommandMacros.Proofs.Session.Definitions
import CommandMacros.Proofs.Expansion.Invariant
import CommandMacros.Proofs.Expansion.Echo
import CommandMacros.Proofs.CommandLine.Expand
import CommandMacros.Proofs.Session.Lines
import CommandMacros.Proofs.TestCase.Recorded
import CommandMacros.Proofs.Binding.Decoded
import CommandMacros.Proofs.Definition.Spelling
import CommandMacros.Proofs.Definition.Reserved
import CommandMacros.Proofs.Body.Nesting
import CommandMacros.Proofs.Expansion.Loops
import CommandMacros.Proofs.Expansion.Break
import CommandMacros.Proofs.Expansion.Markers
import CommandMacros.Proofs.Body.Written
import CommandMacros.Proofs.Quoted
import CommandMacros.Proofs.Builtin.Counting
import CommandMacros.Proofs.Expansion.Readings
import CommandMacros.Proofs.Expansion.Verbatim
import CommandMacros.Proofs.TestCase.Selected
import CommandMacros.Proofs.TestCase.Frontmatter
import CommandMacros.Proofs.Settings
import CommandMacros.Proofs.Builtin.WordList
