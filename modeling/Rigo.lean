import Rigo.Ledger.ReadYourWrites
import Rigo.Types.Crypto.SFilePV
import Rigo.Node.NoReplay
import Rigo.Node.Solvency
import Rigo.Ctrlers.Stake.Figures
import Rigo.Node.Governed
import Rigo.Node.Issuance
import Rigo.Node.Options
import Rigo.Ctrlers.Stake.Marker
import Rigo.Ledger.RoundTrip
import Rigo.Node.Cancellation
import Rigo.Node.Conversion
import Rigo.Node.WriteOrder
import Rigo.Types.Crypto.WalletKey
import Rigo.Node.UpdatableStake
import Rigo.Node.Query
