import Goshimmer.Library.InsertionTable
import Goshimmer.Library.Override
import Goshimmer.Library.FirstOfKey
import Goshimmer.Library.PositionalNumber
import Goshimmer.Library.SelfDelimiting
import Goshimmer.Library.BlockWriter
import Goshimmer.Library.CoveringPrefix
import Goshimmer.Library.TableSums
import Goshimmer.Library.IndexLoop
import Goshimmer.Library.Run
import Goshimmer.Library.ConsumeOnce
import Goshimmer.Library.ConsumeWhole
import Goshimmer.Core.Types
import Goshimmer.Utils.ByteBuffer
import Goshimmer.Utils.BufferRuns
import Goshimmer.Utils.IotaStr
import Goshimmer.Utils.Base64
import Goshimmer.Utils.Base64Text
import Goshimmer.Utils.Hex
import Goshimmer.Utils.Bitmask
import Goshimmer.Utils.BitmaskSet
import Goshimmer.Core.Address
import Goshimmer.Core.Derivation
import Goshimmer.Core.Balance
import Goshimmer.Core.OutputIds
import Goshimmer.Core.UnspentOutputs
import Goshimmer.Core.TrueBalances
import Goshimmer.Core.Selection
import Goshimmer.Core.ColorTotals
import Goshimmer.Core.Clone
import Goshimmer.Core.TableReplay
import Goshimmer.Core.AppendIds
import Goshimmer.Core.Replacement
import Goshimmer.Core.Transaction
import Goshimmer.Core.Essence
import Goshimmer.Core.TransparentSodium
import Goshimmer.Core.Validation
import Goshimmer.Core.TxSign
import Goshimmer.Core.Wire
import Goshimmer.Core.HostMemory
import Goshimmer.Core.WireFormat
import Goshimmer.Client.Json
import Goshimmer.Client.Service
import Goshimmer.Client.UnspentOutputs
import Goshimmer.Client.SendTransaction
import Goshimmer.Client.SampleLibraries
import Goshimmer.Client.Exchange
import Goshimmer.Client.Listing
import Goshimmer.Client.Faithful
import Goshimmer.Client.ColorNames
import Goshimmer.Client.Totals
import Goshimmer.Client.Leaks
import Goshimmer.Client.Verdict
import Goshimmer.Client.Terminated
import Goshimmer.Client.StrayText
import Goshimmer.Wallet.AddressManager
import Goshimmer.Wallet.Wallet
import Goshimmer.Wallet.SendFunds
import Goshimmer.Wallet.Signing
import Goshimmer.Wallet.Outputs
import Goshimmer.Wallet.RemainderSearch
import Goshimmer.Wallet.SearchExit
import Goshimmer.Wallet.SendCases
import Goshimmer.Wallet.FailedSend
import Goshimmer.Wallet.Request
import Goshimmer.Wallet.Consumption
import Goshimmer.Wallet.RefreshVerdict
import Goshimmer.Wallet.Runs
import Goshimmer.Wallet.Changes
import Goshimmer.Wallet.Cursors
import Goshimmer.Wallet.RefreshOverride
import Goshimmer.Wallet.RemainderChoice
import Goshimmer.Wallet.Affordability
import Goshimmer.Wallet.IndexBinding
import Goshimmer.Wallet.SpentRecords
import Goshimmer.Wallet.RecordRuns
import Goshimmer.Wallet.AddressRuns
import Goshimmer.Wallet.AddressLists
import Goshimmer.Wallet.SpentForEver
import Goshimmer.Wallet.UnspentAddresses
import Goshimmer.Wallet.UnspentRuns
import Goshimmer.Wallet.CursorRuns
import Goshimmer.Wallet.Submissions
import Goshimmer.Wallet.Ledger
import Goshimmer.Wallet.LedgerBalance
import Goshimmer.Wallet.NodeCalls
import Goshimmer.Wallet.StrayMemory
import Goshimmer.Wallet.Worth
import Goshimmer.Wallet.Payments
import Goshimmer.Wallet.Accounts
import Goshimmer.Wallet.SharedLedger
