import Flory.Inverses
import Flory.Deadlines
import Flory.Shadow
import Flory.Timeouts
import Flory.Redispatch
import Flory.Closing
import Flory.Keys
import Flory.Forward
import Flory.Sequences
import Flory.ScopeRules
import Flory.RegistrationOrder
import Flory.Routes
import Flory.Deadlocks
import Flory.RbacRuns
import Flory.Confinement
import Flory.Exchanges
import Flory.Episodes
import Flory.Compilation
import Flory.ForkSlices
import Flory.Projection
import Flory.Templates
import Flory.Console
