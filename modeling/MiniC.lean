import MiniC.Tree.Agree
import MiniC.Tree.Reading
import MiniC.Tree.Writing
import MiniC.Json.Standard
import MiniC.Toml.Reader
import MiniC.Settings.Loading
import MiniC.Stepper
import MiniC.Proofs.Landing
import MiniC.Proofs.Scoping
import MiniC.Proofs.View
import MiniC.Proofs.Kinds
import MiniC.Proofs.Elements
import MiniC.Proofs.Recovery
import MiniC.Proofs.CallStack
import MiniC.Proofs.Isolation
import MiniC.Proofs.Pieces
import MiniC.Proofs.Comparison
import MiniC.Proofs.Assignment
import MiniC.Proofs.Bounds
import MiniC.Proofs.Jumps
import MiniC.Proofs.RoundTrip
import MiniC.Proofs.Agreement
import MiniC.Proofs.Heeding
import MiniC.Proofs.Raised
import MiniC.Proofs.Aftermath
import MiniC.Proofs.Casting
import MiniC.Proofs.Spelling
import MiniC.Proofs.Precedence
import MiniC.Proofs.Governing
