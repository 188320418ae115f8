import GeneratedKeys.Main
import GeneratedKeys.Proofs.Command.TableColumns
import GeneratedKeys.Proofs.Keys.Configured
import GeneratedKeys.Proofs.Keys.Identity
import GeneratedKeys.Proofs.Keys.ModeLists
import GeneratedKeys.Proofs.Keys.Reread
import GeneratedKeys.Proofs.Keys.Versions
import GeneratedKeys.Proofs.Reading.Foresight
import GeneratedKeys.Proofs.Recovery.Repaired
import GeneratedKeys.Proofs.Statement.Abandoned
import GeneratedKeys.Proofs.Statement.Alignment
import GeneratedKeys.Proofs.Statement.Indexes
import GeneratedKeys.Proofs.Statement.LetterCase
import GeneratedKeys.Proofs.Statement.Located
import GeneratedKeys.Proofs.Statement.Nesting
import GeneratedKeys.Proofs.Statement.Problems
import GeneratedKeys.Proofs.Statement.Returning
import GeneratedKeys.Proofs.Statement.Shape
import GeneratedKeys.Proofs.Statement.Single
import GeneratedKeys.Proofs.Statement.Spacing
import GeneratedKeys.Proofs.Statement.Splitting
import GeneratedKeys.Proofs.Statement.Terminates
import GeneratedKeys.Proofs.Text.Look
import GeneratedKeys.Proofs.Token.Driven
import GeneratedKeys.Proofs.Token.Munch
import GeneratedKeys.Proofs.Token.Tiling
import GeneratedKeys.Proofs.Value.Coverage
import GeneratedKeys.Proofs.Value.TypeReads
import GeneratedKeys.Statement.Invariant
