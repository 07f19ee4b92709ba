import Marc8.CommandLine
import Marc8.Decoder
import Marc8.Main
import Marc8.Proofs.Accounting
import Marc8.Proofs.Answers
import Marc8.Proofs.CommandLine
import Marc8.Proofs.Content
import Marc8.Proofs.Coverage
import Marc8.Proofs.Emission
import Marc8.Proofs.Fragment.Restoring
import Marc8.Proofs.Fragment.Validity
import Marc8.Proofs.Generation
import Marc8.Proofs.Independence
import Marc8.Proofs.Listing.Locating
import Marc8.Proofs.Listing.Rearranging
import Marc8.Proofs.Paging
import Marc8.Proofs.Rebuilding
import Marc8.Proofs.Refusal
import Marc8.Proofs.Repeats
import Marc8.Proofs.Retry
import Marc8.Proofs.Searching
import Marc8.Proofs.Twins
