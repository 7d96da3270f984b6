import OpenStandards.Atproto.Proofs.Archive
import OpenStandards.Crdt.Proofs.Clocks
import OpenStandards.Crdt.Proofs.Convergence
import OpenStandards.Crdt.Proofs.Counters
import OpenStandards.Crdt.Proofs.Deltas
import OpenStandards.Crdt.Proofs.Maps
import OpenStandards.Crdt.Proofs.Rollback
import OpenStandards.Crdt.Proofs.Traversal
import OpenStandards.Ilp.Proofs.Connector
import OpenStandards.Ilp.Proofs.Hostile
import OpenStandards.Ilp.Proofs.RoundTrip
import OpenStandards.JouleclawCascade.Proofs.Quality
import OpenStandards.JouleclawDecode.Proofs.Decoder
import OpenStandards.JouleclawHistory.Proofs.Keys
import OpenStandards.JouleclawWire.Proofs.Hostile
import OpenStandards.JouleclawWire.Proofs.Remote
import OpenStandards.Keri.Proofs.Duplicity
import OpenStandards.Keri.Proofs.Finalisation
import OpenStandards.Keri.Proofs.Session
import OpenStandards.Keri.Proofs.Witness
import OpenStandards.Lockstep.Proofs.Frames
import OpenStandards.OpBatch.Proofs.Bacs
import OpenStandards.OpBatch.Proofs.NachaLossless
import OpenStandards.OpBatch.Proofs.NachaStable
import OpenStandards.OpBatch.Proofs.Reconciliation
import OpenStandards.OpBin.RangeTree
import OpenStandards.OpConnect.Proofs.Onboarding
import OpenStandards.OpConnect.Proofs.Transfer
import OpenStandards.OpCore.Proofs.Payment
import OpenStandards.OpEmv.Proofs.Spans
import OpenStandards.OpFx.Convert
import OpenStandards.OpGraph.Proofs.Literals
import OpenStandards.OpGraph.Proofs.Refinement
import OpenStandards.OpGraph.Proofs.Restart
import OpenStandards.OpIso8583.Proofs.ChipData
import OpenStandards.OpIso8583.Proofs.RoundTrip
import OpenStandards.OpLedger.Proofs.Currencies
import OpenStandards.OpLedger.Proofs.TrialBalance
import OpenStandards.OpOrchestrator.Proofs.Broadcast
import OpenStandards.OpOrchestrator.Proofs.CircuitBreaker
import OpenStandards.OpOrchestrator.Proofs.Signature
import OpenStandards.OpReconciliation.Proofs.Outcome
import OpenStandards.OpRefund.Proofs.Lifecycle
import OpenStandards.OpRevrec.Proofs.MonthEnds
import OpenStandards.OpRevrec.Proofs.Progress
import OpenStandards.OpRevrec.Proofs.Revenue
import OpenStandards.OpRouting.Proofs.Retries
import OpenStandards.OpSettlement.Proofs.Cutoff
import OpenStandards.OpSettlement.Proofs.Holdback
import OpenStandards.OpSettlement.Proofs.Nacha
import OpenStandards.OpSettlement.Proofs.Resubmission
import OpenStandards.OpStatements.Proofs.Aggregation
import OpenStandards.OpStatements.Proofs.Camt053
import OpenStandards.OpStatements.Proofs.Reconcile
import OpenStandards.OpStatements.Proofs.Trailers
import OpenStandards.OpSubscriptions.Proofs.Dunning
import OpenStandards.OpSubscriptions.Proofs.Lifecycle
import OpenStandards.OpTax.Proofs.Totals
import OpenStandards.OpVault.Proofs.Tokens
import OpenStandards.OpWebhook.Proofs.Counter
import OpenStandards.OpWebhook.Proofs.Loss
import OpenStandards.OpWebhook.Proofs.Signing
import OpenStandards.SmartByte.Proofs.Ownership
import OpenStandards.Tendermint.Proofs.Forks
import OpenStandards.Tendermint.Proofs.Rounds
import OpenStandards.WaiRs.Container
