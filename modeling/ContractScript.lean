import ContractScript.Rebuilding
import ContractScript.Parameter.Meaning
import ContractScript.Main
import ContractScript.Proofs.Pushes
import ContractScript.Proofs.Items
import ContractScript.Proofs.Parameters
import ContractScript.Proofs.Invocations
import ContractScript.Proofs.Collisions
import ContractScript.Proofs.Alignment
import ContractScript.Proofs.Partition
import ContractScript.Proofs.Cutting
import ContractScript.Proofs.FirstFault
import ContractScript.Proofs.Narrowing
import ContractScript.Proofs.Digits
import ContractScript.Proofs.Listings
import ContractScript.Proofs.Outlines
import ContractScript.Proofs.InvokeCommand
import ContractScript.Proofs.ListedCommands
import ContractScript.Proofs.LogSettings
import ContractScript.Proofs.InPlace
import ContractScript.Proofs.ArgumentLists
import ContractScript.Proofs.Sessions
import ContractScript.Proofs.LogIndependence
import ContractScript.Proofs.CommandFaults
import ContractScript.Proofs.ShortestPushes
import ContractScript.Proofs.Dates
import ContractScript.Proofs.Timestamps
import ContractScript.Proofs.Notations
import ContractScript.Proofs.ParameterTexts
import ContractScript.Proofs.IdentifierTexts
import ContractScript.Proofs.Positions
import ContractScript.Proofs.Chronology
import ContractScript.Proofs.ServiceCalls
import ContractScript.Proofs.IdentifierOrder
import ContractScript.Proofs.FlagPlacement
