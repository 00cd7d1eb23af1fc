import Reckoner.Main
import Reckoner.Proofs.Machine.Frame
import Reckoner.Proofs.Machine.Simulation
import Reckoner.Proofs.Machine.Script
import Reckoner.Proofs.Machine.Image
import Reckoner.Proofs.Evaluation
import Reckoner.Proofs.Grammar
import Reckoner.Proofs.Substitution
import Reckoner.Proofs.OperatorStack
import Reckoner.Proofs.Translation
import Reckoner.Proofs.Text.Delimiters
import Reckoner.Proofs.Parentheses
import Reckoner.Proofs.Accounting
import Reckoner.Proofs.Table.Definition
import Reckoner.Proofs.Joining
import Reckoner.Proofs.Uniformity
import Reckoner.Proofs.Table.Extension
import Reckoner.Proofs.Calls
import Reckoner.Proofs.Wrapping
import Reckoner.Proofs.Text.Alternation
import Reckoner.Proofs.Reports
import Reckoner.Proofs.Offenders
import Reckoner.Proofs.Table.Contents
import Reckoner.Proofs.Table.Delimiters
import Reckoner.Proofs.CommandLine.Batch
import Reckoner.Proofs.CommandLine.Definitions
import Reckoner.Proofs.CommandLine.Listing
import Reckoner.Proofs.CommandLine.Script
import Reckoner.Proofs.CommandLine.Results
import Reckoner.Proofs.Table.Words
import Reckoner.Proofs.Operands
