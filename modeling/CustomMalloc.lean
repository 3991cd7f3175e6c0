import CustomMalloc.Props.Disjoint
import CustomMalloc.Props.Contents
import CustomMalloc.Props.Align
import CustomMalloc.Props.AlignedFree
import CustomMalloc.Props.LargeBacked
import CustomMalloc.Props.LargeBytes
import CustomMalloc.Props.Registry
import CustomMalloc.Props.RegistrySet
import CustomMalloc.Props.Classify
import CustomMalloc.Props.Conservation
import CustomMalloc.Concurrent.Registry
import CustomMalloc.Props.Stranded
import CustomMalloc.Props.Statistics
import CustomMalloc.Props.RemoteFrees
import CustomMalloc.Props.SizeClasses
import CustomMalloc.Concurrent.Peak
import CustomMalloc.Props.Attach
import CustomMalloc.Props.GoodSize
import CustomMalloc.Props.LargeSet
import CustomMalloc.Props.MappedBytes
import CustomMalloc.Props.DoubleFree
import CustomMalloc.Props.Retirement
import CustomMalloc.Props.ZeroedFlag
import CustomMalloc.Props.Trim
import CustomMalloc.Props.Fragmentation
import CustomMalloc.Props.HeapChecker
import CustomMalloc.Props.ArenaLists
import CustomMalloc.Props.Reuse
import CustomMalloc.ReliefRun
import CustomMalloc.Props.Relief
import CustomMalloc.Props.ReliefData
import CustomMalloc.Props.OverlapProgress
import CustomMalloc.Props.Refines
import CustomMalloc.Props.Sequential
import CustomMalloc.Props.LargeOverlap
import CustomMalloc.Props.BumpRace
