import BasicScript.Interpreter
import BasicScript.Library.Standard
import BasicScript.Proofs.Calls.Resolution
import BasicScript.Proofs.Frame.Stacks
import BasicScript.Proofs.Calls.Lexical
import BasicScript.Proofs.Calls.Limit
import BasicScript.Proofs.Calls.Termination
import BasicScript.Proofs.Calls.Uniform
import BasicScript.Proofs.Control.Routing
import BasicScript.Proofs.Defaults.Fresh
import BasicScript.Proofs.Defaults.Scopes
import BasicScript.Proofs.Defaults.Termination
import BasicScript.Proofs.Frame.Visits
import BasicScript.Proofs.Loops.Counting
import BasicScript.Proofs.Loops.Each
import BasicScript.Proofs.Loops.Omitted
import BasicScript.Proofs.Names.Duplicates
import BasicScript.Proofs.Names.Natives
import BasicScript.Proofs.Operators.Equality
import BasicScript.Proofs.Recast.Spans
import BasicScript.Proofs.Reports.Faithful
import BasicScript.Proofs.Stores.Constants
import BasicScript.Proofs.Stores.Indexed
import BasicScript.Proofs.Stores.Members
import BasicScript.Proofs.Stores.Sequence
import BasicScript.Proofs.Stores.Swap
import BasicScript.Proofs.Types.Agreement
import BasicScript.Proofs.Types.Entries
import BasicScript.Proofs.Types.Idempotence
import BasicScript.Proofs.Types.Instances
import BasicScript.Proofs.Types.Length
import BasicScript.Proofs.Types.Result
import BasicScript.Proofs.Types.RoundTrip
import BasicScript.Proofs.Types.Spelling
import BasicScript.Proofs.Calls.Stringify
import BasicScript.Proofs.Names.Destructuring
import BasicScript.Proofs.Types.Ordinals
import BasicScript.Proofs.Core.Sessions
import BasicScript.Proofs.Scopes.Declaring
import BasicScript.Proofs.Names.Inference
