import NvmeVirt.Admin.Completions
import NvmeVirt.Admin.Bars
import NvmeVirt.Admin.QueueLifetimes
import NvmeVirt.Zns.Refusal
import NvmeVirt.Io.Dispatch
import NvmeVirt.Io.Prp
import NvmeVirt.Io.Dma
import NvmeVirt.Io.Mapped
import NvmeVirt.Zns.Medium
import NvmeVirt.Conv.Io
import NvmeVirt.Kv.Delete
import NvmeVirt.Kv.Store
import NvmeVirt.Kv.Batch
import NvmeVirt.Kv.Insert
import NvmeVirt.Kv.WholeKeys
import NvmeVirt.Kv.Iteration
import NvmeVirt.Kv.Extents
import NvmeVirt.Zns.ZrwaBuffer
import NvmeVirt.Zns.Ledger
import NvmeVirt.Zns.Report
import NvmeVirt.Zns.Striping
import NvmeVirt.Zns.Indices
import NvmeVirt.Zns.Addresses
import NvmeVirt.Conv.LongLine
import NvmeVirt.Conv.Wordlines
import NvmeVirt.Conv.Reads
import NvmeVirt.Conv.Admission
import NvmeVirt.Conv.Greedy
import NvmeVirt.Conv.WriteBuffer
import NvmeVirt.Conv.Transparent
import NvmeVirt.Conv.PageNumbers
import NvmeVirt.Io.CqDoorbell
import NvmeVirt.Io.SubmissionSlots
import NvmeVirt.Io.Polling
import NvmeVirt.Io.Integrity
import NvmeVirt.Io.DueOrder
import NvmeVirt.Ssd.IoUnits
import NvmeVirt.Ssd.Bandwidth
import NvmeVirt.Ssd.Timing
import NvmeVirt.Io.Linearizable
import NvmeVirt.Io.EndToEnd
import NvmeVirt.Io.InterruptsRaised
import NvmeVirt.Kv.FiniteMap
import NvmeVirt.Conv.LeastFirst
import NvmeVirt.Io.Namespaces
