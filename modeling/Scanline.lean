import Scanline.Pipeline.Blueprint
import Scanline.Pipeline.Run
import Scanline.Proofs.Reflection
import Scanline.Proofs.Overwrite
import Scanline.Proofs.Strip
import Scanline.Proofs.Filter
import Scanline.Proofs.Built
import Scanline.Proofs.Refusals
import Scanline.Proofs.Limits
import Scanline.Proofs.Worker
import Scanline.Proofs.Step
import Scanline.Proofs.Moves
import Scanline.Proofs.Windows
import Scanline.Proofs.Planes
import Scanline.Proofs.Targets
import Scanline.Proofs.Renewals
import Scanline.Proofs.Calls
import Scanline.Proofs.Packed
import Scanline.Proofs.Receiving
import Scanline.Proofs.Runs
import Scanline.Proofs.Runners
import Scanline.Proofs.Safety
import Scanline.Proofs.Deliveries
import Scanline.Proofs.Schedules
import Scanline.Proofs.Frames
import Scanline.Proofs.Rounding
import Scanline.Proofs.Codes
import Scanline.Proofs.Pixels
import Scanline.Proofs.Streams
import Scanline.Proofs.Buffers
import Scanline.Proofs.Traces
import Scanline.Proofs.Deeds
import Scanline.Proofs.Pools
import Scanline.Proofs.Aborts
import Scanline.Proofs.Exchanges
import Scanline.Proofs.Sessions
import Scanline.Proofs.Memory
import Scanline.Proofs.Channels
import Scanline.Proofs.Reuse
import Scanline.Proofs.Overlaps
import Scanline.Proofs.Fitting
import Scanline.Proofs.Batches
import Scanline.Proofs.Pieces
import Scanline.Proofs.Scarcity
import Scanline.Proofs.Symmetries
import Scanline.Proofs.Turns
import Scanline.Proofs.Nearest
import Scanline.Proofs.Numbers
import Scanline.Proofs.Halves
import Scanline.Proofs.Precision
import Scanline.Proofs.Coders
import Scanline.Proofs.AlphaDivision
import Scanline.Proofs.Leftovers
import Scanline.Proofs.Bounces
