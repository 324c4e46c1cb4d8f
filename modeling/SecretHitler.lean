import SecretHitler.Json.Printer
import SecretHitler.Json.Reader
import SecretHitler.Legal
import SecretHitler.Main
import SecretHitler.Randomness.Script
import SecretHitler.Store.Bindings
import SecretHitler.Store.Update
import SecretHitler.Table.Lookup
import SecretHitler.Wire.Game
import SecretHitler.Proofs.Outcome
import SecretHitler.Proofs.Seats
import SecretHitler.Proofs.Deck
import SecretHitler.Proofs.Moves
import SecretHitler.Proofs.Permission
import SecretHitler.Proofs.Soundness
import SecretHitler.Proofs.Gathering
import SecretHitler.Proofs.Progress
import SecretHitler.Proofs.Runs
import SecretHitler.Proofs.Legality
import SecretHitler.Proofs.Deadlock
import SecretHitler.Proofs.Schedule
import SecretHitler.Proofs.SelfPlay
import SecretHitler.Proofs.Termination
import SecretHitler.Proofs.Victories
import SecretHitler.Proofs.Matches
import SecretHitler.Proofs.Secrecy
import SecretHitler.Proofs.Answers
import SecretHitler.Proofs.Clients
import SecretHitler.Proofs.Linearizability
import SecretHitler.Proofs.Conservation
import SecretHitler.Proofs.DrawOrder
import SecretHitler.Proofs.Observer
import SecretHitler.Proofs.Refusals
import SecretHitler.Proofs.HiddenCards
import SecretHitler.Proofs.History
import SecretHitler.Proofs.Rotation
import SecretHitler.Proofs.Failures
import SecretHitler.Proofs.Activations
import SecretHitler.Proofs.Survivors
import SecretHitler.Proofs.RoundTrip
import SecretHitler.Proofs.Snapshots
import SecretHitler.Proofs.VoteOrder
import SecretHitler.Proofs.TermLimits
import SecretHitler.Proofs.Erasure
import SecretHitler.Proofs.Opening
import SecretHitler.Proofs.Partisan
import SecretHitler.Proofs.Session
import SecretHitler.Proofs.Channels
import SecretHitler.Proofs.StepLimit
import SecretHitler.Proofs.Totals
import SecretHitler.Proofs.Recall
import SecretHitler.Proofs.Dealing
