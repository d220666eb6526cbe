import ChatGateway.Chat.OfReply
import ChatGateway.Credential.TokenFile
import ChatGateway.Gateway.Run
import ChatGateway.Main
import ChatGateway.Proofs.Framing
import ChatGateway.Proofs.Delivery
import ChatGateway.Proofs.Events
import ChatGateway.Proofs.Rendering
import ChatGateway.Proofs.Terminal
import ChatGateway.Proofs.Truncation
import ChatGateway.Proofs.Utf8
import ChatGateway.Proofs.JsonText
import ChatGateway.Proofs.Caller
import ChatGateway.Proofs.Chunks
import ChatGateway.Proofs.Reassembly
import ChatGateway.Proofs.Calls
import ChatGateway.Proofs.Replay
import ChatGateway.Proofs.CallArguments
import ChatGateway.Proofs.JsonLine
import ChatGateway.Proofs.WrittenFrames
import ChatGateway.Credential.Traffic
import ChatGateway.Proofs.CallSteps
import ChatGateway.Proofs.Traffic
import ChatGateway.Proofs.CallHistory
import ChatGateway.Proofs.TokenSupply
import ChatGateway.Proofs.RefreshPhases
import ChatGateway.Proofs.SingleFlight
import ChatGateway.Proofs.StoredFile
import ChatGateway.Proofs.LogoutFinal
import ChatGateway.Proofs.SessionFields
import ChatGateway.Proofs.FlowExchange
import ChatGateway.Proofs.TokenRotation
import ChatGateway.Proofs.Visits
import ChatGateway.Proofs.TokenChoice
import ChatGateway.Proofs.TokenFile
import ChatGateway.Proofs.AuthHistory
import ChatGateway.Proofs.PendingFlow
import ChatGateway.Proofs.StoredRecord
import ChatGateway.Proofs.Canonical
import ChatGateway.Proofs.Hoisting
import ChatGateway.Proofs.JsonBounds
import ChatGateway.Proofs.Persistence
import ChatGateway.Proofs.Refusal
import ChatGateway.Proofs.RoundTrip
import ChatGateway.Proofs.AtomicSave
import ChatGateway.Proofs.FailedCalls
import ChatGateway.Proofs.FinishReasons
import ChatGateway.Proofs.Supersession
import ChatGateway.Proofs.AuthSteps
import ChatGateway.Proofs.StoreFailures
import ChatGateway.Proofs.Acceptance
import ChatGateway.Proofs.LineReader
import ChatGateway.Proofs.WrittenBlocks
import ChatGateway.Proofs.KeepAlives
import ChatGateway.Proofs.IdleTime
import ChatGateway.Proofs.Noise
import ChatGateway.Proofs.UsageReports
import ChatGateway.Proofs.Permissions
import ChatGateway.Proofs.Startup
import ChatGateway.Proofs.ReadOrder
import ChatGateway.Proofs.AliasTable
import ChatGateway.Proofs.ErrorStatus
