import LogForwarding.Main
import LogForwarding.Proofs.Command.Agreement
import LogForwarding.Proofs.Document.BlankLines
import LogForwarding.Proofs.Document.Certificates
import LogForwarding.Proofs.Document.Keys
import LogForwarding.Proofs.Expansion.Calls
import LogForwarding.Proofs.Expansion.Concatenation
import LogForwarding.Proofs.Inventory
import LogForwarding.Proofs.Pruning
import LogForwarding.Proofs.Registration
import LogForwarding.Proofs.Resolution.Rearranged
import LogForwarding.Proofs.SecretNames
import LogForwarding.Proofs.SecretTexts
import LogForwarding.Proofs.Segmentation
import LogForwarding.Proofs.Session
import LogForwarding.Proofs.SourceSection
