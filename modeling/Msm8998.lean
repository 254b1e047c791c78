import Msm8998.AppendedDtb
import Msm8998.AttributeRuns
import Msm8998.BootCourse
import Msm8998.BootLayout
import Msm8998.BootOptions
import Msm8998.CarvedTrees
import Msm8998.CircularLog
import Msm8998.CompareClosest
import Msm8998.CompareMain
import Msm8998.CompareRenumber
import Msm8998.ConsoleGlyph
import Msm8998.ConsoleInterrupts
import Msm8998.ConsoleScreen
import Msm8998.Custody
import Msm8998.DescriptorSelection
import Msm8998.FdtAgreement
import Msm8998.FdtRoundTrip
import Msm8998.FreshGrowth
import Msm8998.HobLayout
import Msm8998.InspectLayout
import Msm8998.KeypadBinding
import Msm8998.KeypadCustody
import Msm8998.KeypadLifecycle
import Msm8998.KeypadNotify
import Msm8998.KeypadToggles
import Msm8998.Mailbox
import Msm8998.MemoryLog
import Msm8998.OsVersionWord
import Msm8998.PlatformMmu
import Msm8998.ProbeBounds
import Msm8998.ProtectRegion
import Msm8998.RegDecoding
import Msm8998.RemuxVariants
import Msm8998.ScanAgreement
import Msm8998.ScanComplete
import Msm8998.ScanTables
import Msm8998.ScanTotal
import Msm8998.Sections
import Msm8998.SmbiosMemoryMap
import Msm8998.SmbiosRoundTrip
import Msm8998.TouchBinding
import Msm8998.TouchCoordinates
import Msm8998.TouchHandles
import Msm8998.TouchMailbox
import Msm8998.Transcript
import Msm8998.VendorBoot
import Msm8998.VendorBootLayout
import Msm8998.VendorRamdisks
import Msm8998.VirtualMemoryMap
import Msm8998.VirtualRtc
