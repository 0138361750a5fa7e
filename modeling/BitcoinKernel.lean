import BitcoinKernel.Log.LifeCycle
import BitcoinKernel.Log.UserData
import BitcoinKernel.State.BlockTreeLookup
import BitcoinKernel.Ffi.Ledger
import BitcoinKernel.State.RegistryLifetime
import BitcoinKernel.Validation.MerkleBinding
import BitcoinKernel.Core.VerifyExact
import BitcoinKernel.Core.VerifyTransparent
import BitcoinKernel.State.ImportBlocks
import BitcoinKernel.Notifications.Dispatch
import BitcoinKernel.Validation.CheckQueueProgress
import BitcoinKernel.Validation.Supply
import BitcoinKernel.Storage.StoredCoins
import BitcoinKernel.Storage.Pruning
import BitcoinKernel.Validation.CrashRecovery
import BitcoinKernel.Validation.Acceptance
import BitcoinKernel.Validation.HeaderAtomic
import BitcoinKernel.Validation.Difficulty
