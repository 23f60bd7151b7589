import Polint.Baseline.Refresh
import Polint.Cache.PlanReadable
import Polint.Cache.Prune
import Polint.CallCache.RoundTrip
import Polint.Calls.Direct
import Polint.Cfg.ControlDependence
import Polint.Demand.SccExact
import Polint.Domains.Terminates
import Polint.EvalHarness.Matcher
import Polint.Facts.Identity
import Polint.Fs.RuleView
import Polint.GoCalls.Refinements
import Polint.GoRta.Promotion
import Polint.GoSemantic.OutputDigest
import Polint.GoSemantic.Prune
import Polint.GoSemantic.Replay
import Polint.GoSemantic.TypeNames
import Polint.Ifds.Answer
import Polint.Ignores.Comments
import Polint.Incremental.LayerCacheRun
import Polint.Incremental.ManifestReuse
import Polint.Incremental.RunManifest
import Polint.Incremental.UnderInvalidation
import Polint.Kernel.Schedule
import Polint.Kernel.Seal
import Polint.Manifests.YarnLock
import Polint.Mir.Isomorphism
import Polint.RepoFs.ConditionalRun
import Polint.RuleStore.NamesSurface
import Polint.Sidecar.Runs
import Polint.Slicing.FindPaths
import Polint.Slicing.RealizablePaths
import Polint.Slicing.Thin
import Polint.Solver.SummaryCycle
import Polint.Spans.TextIndex
import Polint.StableKeys.Interner
import Polint.Summaries.Convergence
import Polint.Summaries.Schedule
import Polint.Summaries.Tito
import Polint.Symbols.AliasClosure
import Polint.Symbols.References
import Polint.Topology.Merge
import Polint.TsFlow.TokenFlow
import Polint.TsModules.TsconfigChain
import Polint.TsTypes.Attribution
