import HyperPax.Scheduler.Solvency
import HyperPax.Scheduler.Timely
import HyperPax.Scheduler.Indexes
import HyperPax.Streams.Indexes
import HyperPax.Evm.Conservation
import HyperPax.Evm.Nonces
import HyperPax.Evm.Commits
import HyperPax.Cosmos.Mirror
import HyperPax.PaxSpot.Representation
import HyperPax.PaxSpot.Conservation
import HyperPax.PaxSpot.DirtyUsers
import HyperPax.PaxSpot.Prices
import HyperPax.PaxSpot.Lifecycle
import HyperPax.PaxSpot.Allowance
import HyperPax.PaxSpot.Calldata
import HyperPax.Vesting.Consent
import HyperPax.Vesting.Lockup
import HyperPax.Oracle.RoundTrip
import HyperPax.Oracle.Submissions
import HyperPax.PaxSpot.Quality
import HyperPax.Attestor.RoundTrip
import HyperPax.Attestor.Expiry
import HyperPax.SetCode.RoundTrip
import HyperPax.Erc20.Solvency
import HyperPax.Ante.AuthzLimiter
import HyperPax.PaxSpot.Taking
import HyperPax.PaxSpot.Priority
import HyperPax.Streams.Rates
import HyperPax.Scheduler.GasLimit
import HyperPax.PaxSpot.OracleAdapter
import HyperPax.Inflation.Periods
import HyperPax.FeeMarket.Lane
import HyperPax.Ante.ClaimRewards
import HyperPax.Evm.BlockLogs
import HyperPax.Evm.Estimate
import HyperPax.Attestor.Roots
import HyperPax.Rpc.EventBus
import HyperPax.SetCode.Conversion
