import P11Rand.Pool.Contract
import P11Rand.Pool.Commitment
import P11Rand.Pool.Recovery
import P11Rand.Pool.Timing
import P11Rand.Pool.Scratch
import P11Rand.Lifecycle
import P11Rand.Handles
import P11Rand.Outage
import P11Rand.ZeroLength
import P11Rand.Challenge
import P11Rand.Listing
import P11Rand.SlotList
import P11Rand.Gate
import P11Rand.Ticks
import P11Rand.Fields
import P11Rand.Tools.Crediting
import P11Rand.Tools.Sleeping
import P11Rand.Tools.Selection
import P11Rand.Tools.Stream
import P11Rand.Tools.Success
import P11Rand.Holdings
import P11Rand.Answers
import P11Rand.Tools.Pipeline
import P11Rand.Tools.Table
import P11Rand.Tools.Waiting
import P11Rand.Tools.Pacing
import P11Rand.Tools.Served
import P11Rand.Tools.Halting
