import Ddns.Lib.Run
import Ddns.Lib.Checked
import Ddns.Lib.FinMap
import Ddns.Lib.Tx
import Ddns.Lib.Balances
import Ddns.Solana.Keys
import Ddns.Operators.Program
import Ddns.Operators.Lifecycle
import Ddns.Operators.Rewards
import Ddns.Operators.Custody
import Ddns.Lib.Shares
import Ddns.Stake.Program
import Ddns.Stake.Emission
import Ddns.Stake.Claims
import Ddns.Stake.Custody
import Ddns.StakeGov.Program
import Ddns.StakeGov.Effects
import Ddns.StakeGov.Cooldown
import Ddns.StakeGov.Positions
import Ddns.StakeGov.Vault
import Ddns.StakeGov.Sentinels
import Ddns.StakeGov.Locks
import Ddns.StakeGov.Window
import Ddns.Registry.Program
import Ddns.Quorum.Program
import Ddns.Quorum.Agreement
import Ddns.Quorum.Versions
import Ddns.Lib.Bytes
import Ddns.Escrow.Program
import Ddns.Escrow.Redemption
import Ddns.Escrow.Voucher
import Ddns.Names.Program
import Ddns.Names.Effects
import Ddns.Names.Auction
import Ddns.Names.Binding
import Ddns.Names.Outcome
import Ddns.Names.Payment
import Ddns.Names.Allocation
import Ddns.Names.Policy
import Ddns.Names.Subdomains
import Ddns.Names.Primary
import Ddns.Names.NameHash
import Ddns.Names.NameHashLaw
import Ddns.Lib.Js
import Ddns.Attack.Model
import Ddns.Attack.Recovery
import Ddns.Coordinator.Credits
import Ddns.Coordinator.Receipts
import Ddns.Coordinator.ReceiptLaw
import Ddns.Coordinator.Comments
import Ddns.Coordinator.CommentLaw
import Ddns.Rewards.Program
import Ddns.Rewards.Claims
import Ddns.NsIncentives.Program
import Ddns.NsIncentives.Payout
import Ddns.NsIncentives.Finality
import Ddns.WitnessRewards.Program
import Ddns.WitnessRewards.Budget
import Ddns.WitnessRewards.Replay
import Ddns.WitnessRewards.Accrual
import Ddns.Lib.Updates
import Ddns.WatchdogPolicy.Program
import Ddns.WatchdogPolicy.Quorum
import Ddns.WatchdogPolicy.Risk
import Ddns.DomainRewards.Program
import Ddns.DomainRewards.Split
import Ddns.MinerScore.Program
import Ddns.MinerScore.Ledger
import Ddns.MinerScore.Penalties
import Ddns.MinerScore.Scoring
import Ddns.Anchor.Program
import Ddns.Anchor.TokenLock
import Ddns.Coordinator.Effects
import Ddns.Coordinator.Interleaving
import Ddns.Coordinator.Pools
import Ddns.Coordinator.Restart
import Ddns.Coordinator.RestartLaw
import Ddns.NodeAgent.Agreement
import Ddns.Core.Continuity
import Ddns.Core.RootTool
import Ddns.Gateway.Continuity
import Ddns.Gateway.SignedCache
import Ddns.Gateway.NodeQuorum
import Ddns.Gateway.Resolve
import Ddns.Gateway.ResolveSteps
import Ddns.Gateway.ResolveSigning
import Ddns.Gateway.ResolveClamp
import Ddns.Gateway.ResolveLifetime
import Ddns.Lib.Grouping
import Ddns.NodeAgent.Cache
import Ddns.NodeAgent.CacheLaw
import Ddns.Gateway.Freshness
import Ddns.Gateway.Contenthash
import Ddns.Gateway.Mapping
import Ddns.Gateway.Ttl
import Ddns.Gateway.Quorum
import Ddns.Gateway.RenewalLaw
import Ddns.CfDemo.WireLaw
import Ddns.CacheHead.History
import Ddns.TollBooth.Routes
import Ddns.Names.Plan
import Ddns.Gateway.Pkdns
import Ddns.Hosting.Connections
import Ddns.Core.Canonical
import Ddns.Core.Strictness
import Ddns.Core.RoundTrip
import Ddns.Core.Commitment
import Ddns.Core.RegistryOrder
import Ddns.Core.RuleOrder
import Ddns.Attack.Completion
import Ddns.Attack.MultiRpc
import Ddns.Coordinator.Atomicity
import Ddns.Coordinator.Challenges
import Ddns.Coordinator.Treasury
import Ddns.Core.Credits
import Ddns.Core.ResolveHash
import Ddns.Core.WireLaw
import Ddns.Core.SigningLaw
import Ddns.Core.Soundness
import Ddns.RentBond.Program
import Ddns.Core.Rdata
import Ddns.Core.Normalize
import Ddns.CacheRollup.Awards
import Ddns.Rep.Program
import Ddns.Lib.TokenBucket
import Ddns.TrafficOracle.Scoring
import Ddns.TrafficOracle.RateLimit
import Ddns.Lib.Radix
import Ddns.Gateway.PubkeyBytes
import Ddns.Gateway.NoticeToken
import Ddns.Gateway.RrsetHash
import Ddns.Rewards.DomainNames
import Ddns.CacheRollup.Isolation
import Ddns.Passports.Challenges
import Ddns.Passports.Issue
import Ddns.Lib.Reentry
import Ddns.Lib.Evm
import Ddns.TollEscrow.Contract
import Ddns.TollEscrow.Payouts
import Ddns.TollEscrow.Authority
import Ddns.IndexUnits.SpendEscrow
import Ddns.IndexUnits.Memory
import Ddns.IndexUnits.Vouchers
import Ddns.Lib.Replay
import Ddns.Optin.Guards
import Ddns.Optin.Server
import Ddns.Gateway.RegistryPath
import Ddns.NodeAgent.Agent
import Ddns.NodeAgent.ProofFormats
