import Interchain.Contract.Messenger
import Interchain.Ledger.Chain
import Interchain.Ledger.Inquiry
import Interchain.Node.Peers
import Interchain.Node.Service
import Interchain.Proofs.Abi
import Interchain.Proofs.CallData
import Interchain.Proofs.CanonicalSet
import Interchain.Proofs.Canonicity
import Interchain.Proofs.Delegation
import Interchain.Proofs.DirectVerification
import Interchain.Proofs.Exposure
import Interchain.Proofs.FieldSequences
import Interchain.Proofs.Identifiers
import Interchain.Proofs.Ledger.Admission
import Interchain.Proofs.Ledger.Attesting
import Interchain.Proofs.Ledger.Commitment
import Interchain.Proofs.Ledger.Emission
import Interchain.Proofs.Ledger.GasAccounting
import Interchain.Proofs.Ledger.History
import Interchain.Proofs.Ledger.Inquiry
import Interchain.Proofs.Ledger.Rejection
import Interchain.Proofs.Ledger.Sequencing
import Interchain.Proofs.Ledger.Statelessness
import Interchain.Proofs.Ledger.Turns
import Interchain.Proofs.Messenger
import Interchain.Proofs.Node.Agreement
import Interchain.Proofs.Node.Attestor
import Interchain.Proofs.Packing
import Interchain.Proofs.PayloadKinds
import Interchain.Proofs.PinnedHeight
import Interchain.Proofs.Predicates
import Interchain.Proofs.Quorum
import Interchain.Proofs.Relay.Heights
import Interchain.Proofs.Relay.Integrity
import Interchain.Proofs.Relay.Ownership
import Interchain.Proofs.Relay.Rush
import Interchain.Proofs.Round.Acceptance
import Interchain.Proofs.Round.Determinacy
import Interchain.Proofs.Round.Discipline
import Interchain.Proofs.Round.GivingUp
import Interchain.Proofs.Round.Honesty
import Interchain.Proofs.Round.Overtaking
import Interchain.Proofs.Round.Packaging
import Interchain.Proofs.Round.SignedWeight
import Interchain.Proofs.Round.Termination
import Interchain.Proofs.RoundTrip
import Interchain.Proofs.SelfDelimiting
import Interchain.Proofs.SetForms
import Interchain.Relay.Relayer
import Interchain.Settings.Telemetry
import Interchain.Simulation.Access
import Interchain.Simulation.Calls
import Interchain.Simulation.Script
import Interchain.Simulation.Sequencer
import Interchain.Text.Exchange
