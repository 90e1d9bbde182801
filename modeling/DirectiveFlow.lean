import DirectiveFlow.ProgressLog
import DirectiveFlow.Main
import DirectiveFlow.Proofs.Calling
import DirectiveFlow.Proofs.Commuting
import DirectiveFlow.Proofs.Debugging
import DirectiveFlow.Proofs.Partials
import DirectiveFlow.Proofs.Reports
import DirectiveFlow.Proofs.WorkerCount
import DirectiveFlow.Proofs.Declaring
import DirectiveFlow.Proofs.Undisturbed
import DirectiveFlow.Proofs.Words
import DirectiveFlow.Proofs.Rejecting
import DirectiveFlow.Proofs.Documents
import DirectiveFlow.Proofs.PrivateKeys
import DirectiveFlow.Proofs.Sequential
import DirectiveFlow.Proofs.Sealing
import DirectiveFlow.Proofs.Summing
import DirectiveFlow.Proofs.Largest
import DirectiveFlow.Proofs.Arguments
import DirectiveFlow.Proofs.Choosing
