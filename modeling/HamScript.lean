import HamScript.Main
import HamScript.Token.Lexer
import HamScript.Proofs.Eval.Likeness
import HamScript.Proofs.Eval.Limits
import HamScript.Proofs.Eval.Metered
import HamScript.Proofs.Eval.Overflow
import HamScript.Proofs.Eval.Passage
import HamScript.Proofs.Eval.Safe
import HamScript.Proofs.Eval.Template
import HamScript.Proofs.Heap.Chains
import HamScript.Proofs.Heap.Forest
import HamScript.Proofs.Heap.Likeness
import HamScript.Proofs.Session.Aliases
import HamScript.Proofs.Session.Breaks
import HamScript.Proofs.Session.Depth
import HamScript.Proofs.Session.Ends
import HamScript.Proofs.Session.Inlining
import HamScript.Proofs.Session.Layout
import HamScript.Proofs.Session.Places
import HamScript.Proofs.Session.ReadBack
import HamScript.Proofs.Session.Safety
import HamScript.Proofs.Session.Scopes
import HamScript.Proofs.Source.Cursor
import HamScript.Proofs.Source.Decoding
import HamScript.Proofs.Syntax.Alike
import HamScript.Proofs.Syntax.Blame
import HamScript.Proofs.Syntax.Bounds
import HamScript.Proofs.Syntax.Complete
import HamScript.Proofs.Syntax.FrontEnd
import HamScript.Proofs.Syntax.Integers
import HamScript.Proofs.Syntax.Layout
import HamScript.Proofs.Syntax.Likeness
import HamScript.Proofs.Syntax.Lines
import HamScript.Proofs.Token.Buffered
import HamScript.Proofs.Token.Row
import HamScript.Proofs.Token.Positions
import HamScript.Proofs.Token.Stream
import HamScript.Proofs.Session.Loops
import HamScript.Proofs.Session.Sums
import HamScript.Proofs.Session.Unmentioned
import HamScript.Proofs.Source.Encoding
import HamScript.Proofs.Text.Literals
import HamScript.Proofs.Token.Spelling
import HamScript.Proofs.Syntax.RoundTrip
import HamScript.Proofs.Syntax.Nesting
import HamScript.Proofs.Syntax.Parts
import HamScript.Proofs.Syntax.Quoting
import HamScript.Proofs.Syntax.Shape
import HamScript.Proofs.Syntax.Unambiguous
import HamScript.Proofs.Token.Pushback
import HamScript.Proofs.Yaml.Lines
import HamScript.Proofs.Yaml.Integers
import HamScript.Proofs.Yaml.Mappings
import HamScript.Proofs.Files.Paths
import HamScript.Proofs.Project.Arguments
import HamScript.Proofs.Project.Documents
import HamScript.Proofs.Project.Manifests
import HamScript.Proofs.Project.NewProjects
import HamScript.Proofs.Project.Documents
