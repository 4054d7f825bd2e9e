import ContractClient.CommandLine.Files
import ContractClient.Client.Session
import ContractClient.Main
import ContractClient.Proofs.Scale.Reading
import ContractClient.Proofs.Scale.Tree
import ContractClient.Proofs.Outcome
import ContractClient.Proofs.Scale.Compact
import ContractClient.Proofs.Fuel
import ContractClient.Proofs.Scale.Leaves
import ContractClient.Proofs.Scale.References
import ContractClient.Proofs.Scale.Parts
import ContractClient.Proofs.Scale.RoundTrip
import ContractClient.Proofs.Scale.Canonical
import ContractClient.Proofs.Surface.Distinct
import ContractClient.Proofs.Client.SelectorTable
import ContractClient.Proofs.Client.Spelling
import ContractClient.Proofs.Client.Wiring
import ContractClient.Proofs.Client.Plain
import ContractClient.Proofs.Scale.Form
import ContractClient.Proofs.Client.Mirror
import ContractClient.Proofs.Client.Arms
import ContractClient.Proofs.Client.Leaves
import ContractClient.Proofs.Client.Faithful
import ContractClient.Proofs.Registry.PostOrder
import ContractClient.Proofs.Client.Calls
import ContractClient.Proofs.Client.Namespaces
import ContractClient.Proofs.Client.Unfolding
import ContractClient.Proofs.Client.Representation
import ContractClient.Proofs.Client.Declaring
import ContractClient.Proofs.Client.Scoping
import ContractClient.Proofs.Client.Literals
import ContractClient.Proofs.Client.Generation
import ContractClient.Proofs.Surface.Description
import ContractClient.Proofs.Metadata.RoundTrip
import ContractClient.Proofs.Metadata.Leniency
import ContractClient.Proofs.Client.Exposure
import ContractClient.Proofs.Client.Typing
import ContractClient.Proofs.Scale.Events
import ContractClient.Proofs.Scale.Offset
import ContractClient.Proofs.Scale.Sequence
import ContractClient.Proofs.Scale.Shortest
import ContractClient.Proofs.Client.Events
import ContractClient.Proofs.Client.Upload
import ContractClient.Proofs.Client.Expansion
import ContractClient.Proofs.Client.Mapping
import ContractClient.Proofs.Text.Docstring
import ContractClient.Proofs.Client.Parameters
import ContractClient.Proofs.Client.Attributes
import ContractClient.Proofs.Metadata.Location
import ContractClient.Proofs.Client.Numbering
import ContractClient.Proofs.Client.Identifier
import ContractClient.Proofs.Registry.Visits
