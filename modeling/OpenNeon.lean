import OpenNeon.Pageserver.RemoteConsistency
import OpenNeon.Pageserver.GcTenantRuns
import OpenNeon.Pageserver.DiskBtreeRead
import OpenNeon.Pageserver.IdentifyLevels
import OpenNeon.Pageserver.Datadir.BaseVersions
import OpenNeon.Pageserver.Datadir.LogicalSizeRuns
import OpenNeon.PostgresFfi.CheckPoint
import OpenNeon.WalDecoder.Stream
import OpenNeon.Safekeeper.AcceptorInvariant
import OpenNeon.WalProposer.CodecAgreement
import OpenNeon.WalProposer.Election
import OpenNeon.Pagestream.SqlInject
import OpenNeon.Compute.LwLsnRuns
import OpenNeon.Compute.PagePlacement
import OpenNeon.Compute.TraceStatus
import OpenNeon.StorageController.ComputeHookRuns
import OpenNeon.StorageController.ObservedRuns
import OpenNeon.StorageController.ServiceCounts
import OpenNeon.Pageserver.LayerName
import OpenNeon.Proxy.ClientFirstMessage
import OpenNeon.Scrubber.PhysicalGcSafety
import OpenNeon.Pageserver.GcCompactionSplit
