import OsLab.Lunix.DebugBuild
import OsLab.Lunix.Delimiters
import OsLab.Lunix.ChrdevRead
import OsLab.Lunix.Freshness
import OsLab.Lunix.StampOrder
import OsLab.Ext2.BlockRuns
import OsLab.Ext2.BallocRuns
import OsLab.Ext2.BallocSearch
import OsLab.Ext2.BitmapCache
import OsLab.Ext2.FreeData
import OsLab.Ext2.IallocRuns
import OsLab.Ext2.ReaddirRuns
import OsLab.Ext2.MountState
import OsLab.Ext2.InodeReload
import OsLab.Ext2.FastSymlink
import OsLab.Ext2.CheckDescriptors
import OsLab.Ext2.CheckPage
import OsLab.Ext2.Rename
import OsLab.Ext2.LinkCounts
import OsLab.Ext2.NamespaceRuns
import OsLab.Ext2.RenameCounts
import OsLab.Foundation.Bounds
import OsLab.Foundation.Decimal
import OsLab.Lunix.MinorNumbers
import OsLab.Lunix.PrintedValue
import OsLab.Foundation.Traced
import OsLab.Lunix.ModuleInit
import OsLab.Lunix.ParserBounds
import OsLab.Ext2.FindGroup
import OsLab.Foundation.Custody
import OsLab.Ext2.NewInode
import OsLab.Ext2.InodeOutcomes
import OsLab.Ext2.BitmapBuffers
import OsLab.Ext2.InodeSlots
import OsLab.Ext2.MountArithmetic
import OsLab.Ext2.HeldPages
import OsLab.Ext2.NameiPages
import OsLab.Exams.MedicalDriver
import OsLab.Exams.MedicalReads
import OsLab.Foundation.CText
import OsLab.Projects.JobInput
import OsLab.Projects.JobParent
import OsLab.Projects.JobDispatch
import OsLab.Foundation.CArray
import OsLab.Projects.ClientText
import OsLab.Projects.ClientReply
import OsLab.Projects.ClientArguments
import OsLab.Projects.ClientArrangements
import OsLab.Projects.ClientVectors
import OsLab.Ext2.FileData
import OsLab.Ext2.FileRuns
import OsLab.Ext2.MountResources
import OsLab.Ext2.MountCustody
import OsLab.Ext2.MountOptions
import OsLab.Ext2.Statfs
import OsLab.Lunix.SerialReads
import OsLab.Projects.JobPipes
import OsLab.Ext2.PathRuns
import OsLab.Ext2.InodeStore
import OsLab.Ext2.PathNames
import OsLab.Foundation.Resets
import OsLab.Lunix.Resync
import OsLab.Lunix.LineDiscipline
import OsLab.Projects.ClientSession
