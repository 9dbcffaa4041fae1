import Warpline.Conc.System
import Warpline.Core.Proof.LimiterRun
import Warpline.Core.ComponentCache
import Warpline.Core.Proof.CacheRun
import Warpline.Conc.Calls
import Warpline.Conc.Linear
import Warpline.Std.Decimal
import Warpline.Std.I64
import Warpline.Storefront.Checkout
import Warpline.Storefront.Hook
import Warpline.Storefront.Kv
import Warpline.Storefront.Proof.CheckoutPolicy
import Warpline.Storefront.Proof.HookCalls
import Warpline.Storefront.Proof.HookLoyalty
import Warpline.Storefront.Proof.KvLinear
import Warpline.Storefront.Proof.KvTx
import Warpline.Conc.Sum
import Warpline.Conc.Trace
import Warpline.Control.Db
import Warpline.Control.Proof.PublishAgree
import Warpline.Control.Proof.PublishGc
import Warpline.Core.Proof.GcExact
import Warpline.Core.Proof.StageGc
import Warpline.Conc.Machine
import Warpline.Pg.Meter
import Warpline.Pg.Proof.MeterRun
import Warpline.Pg.Proof.UsageRun
import Warpline.Conc.Unwinding
import Warpline.Core.Kv
import Warpline.Core.Proof.KvIsolation
import Warpline.Core.Proof.KvRun
import Warpline.Pg.Auth
import Warpline.Pg.Proof.AuthRevoke
import Warpline.Control.Proof.QuotaRun
import Warpline.Control.Proof.UploadLinear
import Warpline.Control.Proof.CrashRepair
import Warpline.Core.Proof.PointerRegister
import Warpline.Conc.Grants
import Warpline.Core.Host
import Warpline.Core.Invoke
import Warpline.Core.Proof.Admission
import Warpline.Core.Proof.CompilePermits
import Warpline.Core.Proof.InvokeMetering
import Warpline.Core.Proof.TenantSlots
import Warpline.Core.Proof.CacheCoherence
import Warpline.Core.Egress
import Warpline.Core.Proof.BlockedIp
import Warpline.Core.Proof.EgressTargets
import Warpline.Core.Epoch
import Warpline.Core.Proof.CpuBudget
import Warpline.Core.Log
import Warpline.Core.Proof.LogCaps
import Warpline.Core.Proof.CacheCaps
import Warpline.Core.Proof.MemoryLedger
import Warpline.Pg.Admin
import Warpline.Pg.Proof.AdminMerge
import Warpline.Core.Facade
import Warpline.Core.Proof.RegistryPaths
import Warpline.Core.Proof.StageClean
import Warpline.Core.Proof.KvCaps
import Warpline.Core.Ticker
import Warpline.Core.Proof.TickerPace
import Warpline.Core.HostParser
import Warpline.Core.Proof.HostsKept
import Warpline.Pg.Proof.LimitsWriteBack
import Warpline.Core.Bearer
import Warpline.Control.Admin
import Warpline.Control.Proof.AdminKeys
import Warpline.Control.Proof.Gate
import Warpline.Host.Proof.Gate
import Warpline.Std.Percent
import Warpline.Control.Handler
import Warpline.Control.Proof.UploadGate
