import Tasq.Actor
import Tasq.Job
import Tasq.Client.State
import Tasq.Client.Ops
import Tasq.Client.Fifo
import Tasq.Client.Failure
import Tasq.Client.Gather
import Tasq.Client.Correlation
import Tasq.Client.Race
import Tasq.Client.Sequential
import Tasq.Client.Session
import Tasq.Client.Futures
import Tasq.Client.Interleave
import Tasq.Pool
import Tasq.Url
