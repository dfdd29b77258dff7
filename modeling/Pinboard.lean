import Pinboard.ConfigFile
import Pinboard.Log.Writers
import Pinboard.Workspace.Locks
import Pinboard.Workspace.Opening
import Pinboard.Workspace.Requests
import Pinboard.Proofs.Operation
import Pinboard.Proofs.Effect
import Pinboard.Proofs.Positions
import Pinboard.Proofs.Session
import Pinboard.Proofs.Contiguity
import Pinboard.Proofs.Atomicity
import Pinboard.Proofs.Ledger
import Pinboard.Proofs.Lockstep
import Pinboard.Proofs.Recording
import Pinboard.Proofs.Interchange
import Pinboard.Proofs.Footprint
import Pinboard.Proofs.Volume
import Pinboard.Proofs.LogFiles
import Pinboard.Proofs.Rotation
import Pinboard.Proofs.Segments
import Pinboard.Proofs.Retention
import Pinboard.Proofs.Outcome
import Pinboard.Proofs.Counter
import Pinboard.Proofs.Renaming
import Pinboard.Proofs.Mirror
import Pinboard.Proofs.Reflection
import Pinboard.Proofs.Isolation
import Pinboard.Proofs.SharedFiles
import Pinboard.Proofs.Ranking
import Pinboard.Proofs.WellFormed
import Pinboard.Proofs.Freshness
import Pinboard.Proofs.Steadiness
import Pinboard.Proofs.Legibility
import Pinboard.Proofs.Moves
import Pinboard.Proofs.Layout
import Pinboard.Proofs.Drift
import Pinboard.Proofs.ByteOrder
import Pinboard.Proofs.RankOrder
import Pinboard.Proofs.Conflicts
import Pinboard.Proofs.Lines
import Pinboard.Proofs.Founding
import Pinboard.Proofs.Chronicle
import Pinboard.Proofs.Installation
import Pinboard.Proofs.Seats
import Pinboard.Proofs.Attempts
import Pinboard.Proofs.Restarts
import Pinboard.Proofs.Calendar
import Pinboard.Proofs.Digits
import Pinboard.Proofs.InstantText
import Pinboard.Proofs.RoundTrip
import Pinboard.Proofs.Appending
import Pinboard.Proofs.Removal
import Pinboard.Proofs.Renumbering
import Pinboard.Proofs.Handles
import Pinboard.Proofs.Batches
import Pinboard.Proofs.Moments
import Pinboard.Proofs.Shifting
import Pinboard.Proofs.Lookups
import Pinboard.Proofs.Neighbours
import Pinboard.Proofs.Defaults
