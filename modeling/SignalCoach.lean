import SignalCoach.Main
import SignalCoach.Queue.Delivery
import SignalCoach.Rule.Document
import SignalCoach.Store.Row
import SignalCoach.Store.Transaction
import SignalCoach.Demo
import SignalCoach.Worker.Service
import SignalCoach.Proofs.JobCommit
import SignalCoach.Proofs.WorkSteps
import SignalCoach.Proofs.NumberText
import SignalCoach.Proofs.JsonLexing
import SignalCoach.Proofs.JsonReading
import SignalCoach.Proofs.EnvelopeText
import SignalCoach.Proofs.DrawnIds
import SignalCoach.Proofs.QueueEntries
import SignalCoach.Proofs.QueueMoves
import SignalCoach.Proofs.QueueJobs
import SignalCoach.Proofs.QueueHistory
import SignalCoach.Proofs.QueueCustody
import SignalCoach.Proofs.QueueSurvival
import SignalCoach.Proofs.JobMessage
import SignalCoach.Proofs.QueueIdentity
import SignalCoach.Proofs.Turns
import SignalCoach.Proofs.RosterCommit
import SignalCoach.Proofs.WorkerIdentity
import SignalCoach.Proofs.WorkerTurns
import SignalCoach.Proofs.WorkerRun
import SignalCoach.Proofs.QuietWorker
import SignalCoach.Proofs.WorkerRedelivery
import SignalCoach.Proofs.EvaluationPages
import SignalCoach.Proofs.StoreConsistency
import SignalCoach.Proofs.Ledger
import SignalCoach.Proofs.AskedNumbers
import SignalCoach.Proofs.DistinctKeys
import SignalCoach.Proofs.StoredDocument
import SignalCoach.Proofs.StoredRule
import SignalCoach.Proofs.FileDocuments
import SignalCoach.Proofs.DemoAgreement
import SignalCoach.Proofs.Crossings
import SignalCoach.Proofs.CrossingCandles
import SignalCoach.Proofs.Phases
import SignalCoach.Proofs.QueueReady
import SignalCoach.Proofs.Interleaving
import SignalCoach.Proofs.Scenes
import SignalCoach.Proofs.HeartbeatEntries
import SignalCoach.Proofs.Relay
import SignalCoach.Proofs.RelayScenes
import SignalCoach.Proofs.RelaySteps
import SignalCoach.Proofs.RelayTurns
import SignalCoach.Proofs.HeartbeatChains
import SignalCoach.Proofs.HeartbeatCount
import SignalCoach.Proofs.OperandReading
import SignalCoach.Proofs.ShortestDecimals
import SignalCoach.Proofs.WireForms
import SignalCoach.Proofs.PlainDocuments
import SignalCoach.Proofs.EnvelopeRoundTrip
import SignalCoach.Proofs.EnvelopeRetry
import SignalCoach.Proofs.ClearQueue
import SignalCoach.Proofs.Settling
import SignalCoach.Proofs.JobPlaces
import SignalCoach.Proofs.RetryBounds
import SignalCoach.Proofs.JobJournal
import SignalCoach.Proofs.SharedQueue
import SignalCoach.Proofs.QueuePhases
import SignalCoach.Proofs.QueueCommands
import SignalCoach.Proofs.JobStages
import SignalCoach.Proofs.SharedPromotion
import SignalCoach.Proofs.HigherTimeframes
import SignalCoach.Proofs.JobHandover
import SignalCoach.Proofs.LockTable
import SignalCoach.Proofs.SessionLocks
import SignalCoach.Proofs.RuleSetRows
import SignalCoach.Proofs.KeptRecords
import SignalCoach.Proofs.KeySpelling
import SignalCoach.Proofs.CanonicalForms
import SignalCoach.Proofs.ThresholdReading
import SignalCoach.Proofs.RulePlaces
import SignalCoach.Proofs.ConditionKinds
import SignalCoach.Proofs.Scores
import SignalCoach.Proofs.StatusOrder
import SignalCoach.Proofs.SessionRollUp
import SignalCoach.Proofs.RuleSetVersions
import SignalCoach.Proofs.StalledJobs
import SignalCoach.Proofs.FailedJobs
import SignalCoach.Proofs.ConnectionAttempts
import SignalCoach.Proofs.HeartbeatRegister
import SignalCoach.Proofs.LiveSessions
import SignalCoach.Proofs.HeartbeatHistory
