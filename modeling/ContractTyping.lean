import ContractTyping.Config.Reader
import ContractTyping.Descent
import ContractTyping.Json.Printer
import ContractTyping.Json.Reader
import ContractTyping.Node.Printer
import ContractTyping.Rule.Stock
import ContractTyping.Session
import ContractTyping.Wire.Node
import ContractTyping.Proofs.Marks
import ContractTyping.Proofs.Resolution
import ContractTyping.Proofs.Locality
import ContractTyping.Proofs.Closure
import ContractTyping.Proofs.Guards
import ContractTyping.Proofs.Hoisted
import ContractTyping.Proofs.Hoisting
import ContractTyping.Proofs.TypeNames
import ContractTyping.Proofs.WireForm
import ContractTyping.Proofs.Preservation
import ContractTyping.Proofs.Reports
import ContractTyping.Proofs.Exchange
import ContractTyping.Proofs.Relabeling
import ContractTyping.Proofs.Comparison
import ContractTyping.Proofs.Simulation
import ContractTyping.Proofs.Everywhere
import ContractTyping.Proofs.GuardSwitch
import ContractTyping.Proofs.Provenance
import ContractTyping.Proofs.History
import ContractTyping.Proofs.LocalTyping
import ContractTyping.Proofs.Accumulation
import ContractTyping.Proofs.Widths
import ContractTyping.Proofs.Registration
import ContractTyping.Proofs.Numbering
import ContractTyping.Proofs.ImportNames
import ContractTyping.Proofs.Effort
import ContractTyping.Proofs.Declarations
import ContractTyping.Proofs.Failures
import ContractTyping.Proofs.MissingChildren
import ContractTyping.Proofs.SiblingOrder
import ContractTyping.Proofs.Outline
import ContractTyping.Proofs.Literals
