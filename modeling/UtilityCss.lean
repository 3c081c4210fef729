import UtilityCss.Main
import UtilityCss.Proofs.Apply.Declaring
import UtilityCss.Proofs.CommandLine.Holding
import UtilityCss.Proofs.Convert.Boundaries
import UtilityCss.Proofs.Convert.Directives
import UtilityCss.Proofs.Convert.Inclusion
import UtilityCss.Proofs.Convert.Independence
import UtilityCss.Proofs.Convert.Joining
import UtilityCss.Proofs.Convert.Remains
import UtilityCss.Proofs.Event.Body
import UtilityCss.Proofs.Event.Comments
import UtilityCss.Proofs.Event.Ending
import UtilityCss.Proofs.Event.RawValue
import UtilityCss.Proofs.Event.Semicolons
import UtilityCss.Proofs.Event.Stopping
import UtilityCss.Proofs.Minify.Closing
import UtilityCss.Proofs.Piped.Buffering
import UtilityCss.Proofs.Piped.Precedence
import UtilityCss.Proofs.Purge.Accumulating
import UtilityCss.Proofs.Purge.Escaping
import UtilityCss.Proofs.Purge.TextWords
