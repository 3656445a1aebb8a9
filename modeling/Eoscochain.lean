import Eoscochain.Lib.Run
import Eoscochain.Lib.Assert
import Eoscochain.Lib.Table
import Eoscochain.Lib.Codec
import Eoscochain.Lib.Bits
import Eoscochain.Chain.IncrementalMerkle
import Eoscochain.Chain.Types
import Eoscochain.Chain.BlockHeaderState
import Eoscochain.Chain.Transaction
import Eoscochain.Chain.Dedupe
import Eoscochain.Chain.BlockLog
import Eoscochain.Chain.Irreversible
import Eoscochain.Chain.Producer
import Eoscochain.Chain.ForkDatabase
import Eoscochain.Chain.ForkSwitch
import Eoscochain.Chain.Confirmations
import Eoscochain.Icp.Fork
import Eoscochain.Icp.Honest
import Eoscochain.Icp.Types
import Eoscochain.Icp.Contract
import Eoscochain.Icp.Actions
import Eoscochain.Icp.Meter
import Eoscochain.Icp.Channel
import Eoscochain.Token.Asset
import Eoscochain.Token.Contract
import Eoscochain.Token.Supply
import Eoscochain.Token.System
import Eoscochain.Token.Deposit
import Eoscochain.Token.EosioToken
import Eoscochain.Auth.Authority
import Eoscochain.Auth.Checker
import Eoscochain.Auth.Manager
import Eoscochain.Auth.RequiredKeys
import Eoscochain.Auth.Native
import Eoscochain.Auth.Store
import Eoscochain.Resource.Limits
import Eoscochain.Resource.Totals
import Eoscochain.Resource.Billing
import Eoscochain.Resource.Ram
import Eoscochain.Msig.Multisig
import Eoscochain.System.Staking
import Eoscochain.Abi.Serializer
import Eoscochain.Lib.AssocList
import Eoscochain.Wasm.Injection
import Eoscochain.Eosiolib.Varint
import Eoscochain.Resource.Average
import Eoscochain.Lib.Trim
import Eoscochain.Chain.Name
import Eoscochain.System.Names
import Eoscochain.Lib.Decimal
import Eoscochain.Chain.Asset
import Eoscochain.Abi.Validate
import Eoscochain.Lib.OrderedIndex
import Eoscochain.Chain.IteratorCache
import Eoscochain.Chain.Database
import Eoscochain.Chain.DatabaseLaws
import Eoscochain.Chain.Dispatch
import Eoscochain.Lib.SortedMap
import Eoscochain.System.Voting
