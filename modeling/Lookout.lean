import Lookout.Settings
import Lookout.Config
import Lookout.Comments
import Lookout.FanOut
import Lookout.FanOut.Collect
import Lookout.FanOut.Shared
import Lookout.FanOut.Exit
import Lookout.Store
import Lookout.Handler
import Lookout.Runs
import Lookout.Runs.Settled
import Lookout.Review
import Lookout.ClientPool
import Lookout.Watcher
import Lookout.Watcher.Cancel
