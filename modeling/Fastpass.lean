import Fastpass.Words
import Fastpass.Bitmap
import Fastpass.Outwnd
import Fastpass.OutwndScan
import Fastpass.OutwndReset
import Fastpass.Session
import Fastpass.Timer
import Fastpass.Ack
import Fastpass.Tasklet
import Fastpass.HandleReset
import Fastpass.Send
import Fastpass.Runs
import Fastpass.Timeouts
import Fastpass.Wire
import Fastpass.Rcv
import Fastpass.Epochs
import Fastpass.InFlight
import Fastpass.InFlightRuns
