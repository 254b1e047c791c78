import Mathlib.Algebra.Group.Nat.Defs
import Msm8998.Span

/-!
# The Platform Memory Map

This module models `PlatformMemoryMapLib`: the descriptor type of the hand-written
memory map, the abbreviations its rows are written in, and the map itself with its
two preprocessor switches. The rows stand in the order of the source, since both
consumers of the map (the HOB builder and the MMU table builder) are order sensitive.
The name of a row, which only the log prints, stands beside it.

The enumerations that the rows draw on are declared by the UEFI and PI headers; they
are modelled with the members those headers give them. Addresses and lengths are
64-bit in the source and natural numbers here, every row being far below `2 ^ 64`.
-/

namespace Msm8998

/-- `DeviceMemoryAddHob`: what the HOB builder does with a descriptor. -/
inductive DeviceMemoryAddHob
  | noHob | addMem | addDev | hobOnlyNoCacheSetting | mem4G | mem6G | mem8G | maxMem
deriving Repr, DecidableEq

/-- `EFI_RESOURCE_TYPE`, the members the map uses. -/
inductive EfiResourceType
  | systemMemory | memoryMappedIo | memoryReserved
deriving Repr, DecidableEq

/-- `EFI_MEMORY_TYPE`. -/
inductive EfiMemoryType
  | reservedMemoryType | loaderCode | loaderData | bootServicesCode | bootServicesData
  | runtimeServicesCode | runtimeServicesData | conventionalMemory | unusableMemory
  | acpiReclaimMemory | acpiMemoryNVS | memoryMappedIo | memoryMappedIoPortSpace
  | palCode | persistentMemory | maxMemoryType
deriving Repr, DecidableEq

/-- `ARM_MEMORY_REGION_ATTRIBUTES`. -/
inductive ArmMemoryRegionAttributes
  | uncachedUnbuffered | nonsecureUncachedUnbuffered | writeBack | nonsecureWriteBack
  | writeBackNonshareable | nonsecureWriteBackNonshareable | writeThrough
  | nonsecureWriteThrough | device | nonsecureDevice
deriving Repr, DecidableEq

/-- `ARM_MEMORY_REGION_DESCRIPTOR_EX`: one row of the platform memory map. -/
structure ArmMemoryRegionDescriptorEx where
  address : ℕ
  length : ℕ
  hobOption : DeviceMemoryAddHob
  resourceType : EfiResourceType
  resourceAttribute : ℕ
  memoryType : EfiMemoryType
  armAttributes : ArmMemoryRegionAttributes
deriving Repr, DecidableEq

/-- The addresses a row describes. -/
def ArmMemoryRegionDescriptorEx.span (d : ArmMemoryRegionDescriptorEx) : Span :=
  ⟨d.address, d.length⟩

/-- `ARM_MEMORY_REGION_DESCRIPTOR`: one row of the table handed to the MMU code. -/
structure ArmMemoryRegionDescriptor where
  physicalBase : ℕ
  virtualBase : ℕ
  length : ℕ
  attributes : ArmMemoryRegionAttributes
deriving Repr, DecidableEq

/-- The virtual addresses a region maps. -/
def ArmMemoryRegionDescriptor.span (r : ArmMemoryRegionDescriptor) : Span :=
  ⟨r.virtualBase, r.length⟩

/-- The preprocessor switches of the map. A plain build defines neither; `joan` defines
the first and `nb1` the second. -/
structure BuildFlags where
  lgPilFixed : Bool
  nb1Fixed : Bool
deriving Repr, DecidableEq

namespace PlatformMap

/-! ### The abbreviations of `PlatformMemoryMapLib.h` -/

/-- `SYSTEM_MEMORY_RESOURCE_ATTR_CAPABILITIES`: present, initialized, tested, the four
cacheability bits, and execution, read and write protectable. -/
abbrev sysMemCap : ℕ :=
  0x1 ||| 0x2 ||| 0x4 ||| 0x400 ||| 0x800 ||| 0x1000 ||| 0x2000 ||| 0x400000 ||| 0x100000
    ||| 0x200000

/-- `EFI_RESOURCE_ATTRIBUTE_UNCACHEABLE`. -/
abbrev uncacheable : ℕ := 0x400

/-- `EFI_RESOURCE_ATTRIBUTE_INITIALIZED`. -/
abbrev initialized : ℕ := 0x2

/-- `WRITE_THROUGH` in the attribute column. The header's definition as a resource
attribute is commented out, so the row carries the number of the ARM region attribute
of that name. -/
abbrev writeThroughAttr : ℕ := 6

abbrev sysMem : EfiResourceType := .systemMemory
abbrev memRes : EfiResourceType := .memoryReserved
abbrev mmapIo : EfiResourceType := .memoryMappedIo

abbrev conv : EfiMemoryType := .conventionalMemory
abbrev bsData : EfiMemoryType := .bootServicesData
abbrev rtData : EfiMemoryType := .runtimeServicesData
abbrev reserv : EfiMemoryType := .reservedMemoryType
abbrev maxMem : EfiMemoryType := .maxMemoryType
abbrev mmIo : EfiMemoryType := .memoryMappedIo

abbrev writeBack : ArmMemoryRegionAttributes := .writeBack
abbrev writeBackXn : ArmMemoryRegionAttributes := .writeBack
abbrev writeThrough : ArmMemoryRegionAttributes := .writeThrough
abbrev uncachedUnbuffered : ArmMemoryRegionAttributes := .uncachedUnbuffered
abbrev uncachedUnbufferedXn : ArmMemoryRegionAttributes := .uncachedUnbuffered
abbrev nsDevice : ArmMemoryRegionAttributes := .nonsecureDevice

end PlatformMap

/-! ### The map -/

open PlatformMap DeviceMemoryAddHob in
/-- `gDeviceMemoryDescriptorEx`, as `GetPlatformMemoryMap` returns it under the given
preprocessor switches. -/
def getPlatformMemoryMap (flags : BuildFlags) : List ArmMemoryRegionDescriptorEx :=
  -- DDR regions
  [⟨0x80000000, 0x01AC0000, addMem, sysMem, sysMemCap, conv, writeBackXn⟩,  -- RAM Partition
   ⟨0x81AC0000, 0x03C40000, addMem, sysMem, sysMemCap, bsData, writeBackXn⟩,  -- HLOS 1
   ⟨0x85800000, 0x00600000, addMem, sysMem, sysMemCap, reserv, nsDevice⟩,  -- Hypervisor
   ⟨0x85E00000, 0x00200000, addMem, sysMem, sysMemCap, reserv, nsDevice⟩,  -- MPSS_EFS
   ⟨0x86000000, 0x00200000, addMem, memRes, uncacheable, reserv, uncachedUnbufferedXn⟩,  -- SMEM
   ⟨0x86200000, 0x00B00000, addMem, sysMem, sysMemCap, reserv, nsDevice⟩,  -- TZ
   ⟨0x86D00000, 0x02200000, noHob, sysMem, sysMemCap, reserv, nsDevice⟩,  -- TZApps
   ⟨0x88F00000, 0x01C00000, noHob, sysMem, sysMemCap, reserv, nsDevice⟩] ++  -- HLOS 2
  (if flags.lgPilFixed then
      [⟨0x8AB00000, 0x0B415000, addMem, sysMem, sysMemCap, reserv, uncachedUnbufferedXn⟩,  -- PIL_REGION
       ⟨0x95F15000, 0x074EB000, addMem, sysMem, sysMemCap, conv, writeBackXn⟩]  -- HLOS 3
    else
      [⟨0x8AB00000, 0x0B315000, addMem, sysMem, sysMemCap, reserv, uncachedUnbufferedXn⟩,  -- PIL_REGION
       ⟨0x95E15000, 0x075EB000, addMem, sysMem, sysMemCap, conv, writeBackXn⟩]) ++  -- HLOS 3
  [⟨0x9D400000, 0x02400000, addMem, memRes, writeThroughAttr, maxMem, writeThrough⟩,  -- Display Reserved
   ⟨0x9D330000, 0x000D0000, noHob, mmapIo, initialized, conv, nsDevice⟩,  -- DBI Dump
   ⟨0x97C00000, 0x05800000, addMem, sysMem, sysMemCap, conv, writeBack⟩,  -- DXE Heap
   ⟨0x9F800000, 0x00200000, addMem, sysMem, sysMemCap, bsData, writeBackXn⟩,  -- FV Region
   ⟨0x9FA00000, 0x00200000, addMem, sysMem, sysMemCap, reserv, writeBackXn⟩,  -- ABOOT FV
   ⟨0x9FC00000, 0x00300000, addMem, sysMem, sysMemCap, bsData, writeBack⟩,  -- UEFI FD
   ⟨0x9FF00000, 0x0008C000, addMem, sysMem, sysMemCap, bsData, writeBackXn⟩,  -- SEC Heap
   ⟨0x9FF8C000, 0x00001000, addMem, sysMem, sysMemCap, bsData, writeBack⟩,  -- CPU Vectors
   ⟨0x9FF8D000, 0x00003000, addMem, sysMem, sysMemCap, bsData, writeBackXn⟩,  -- MMU PageTables
   ⟨0x9FF90000, 0x00040000, addMem, sysMem, sysMemCap, bsData, writeBackXn⟩,  -- UEFI Stack
   ⟨0x9FFD0000, 0x0000A000, addMem, sysMem, sysMemCap, rtData, writeBackXn⟩,  -- RSRV1
   ⟨0x9FFDA000, 0x00003000, addMem, sysMem, sysMemCap, rtData, uncachedUnbufferedXn⟩,  -- TPMControl
   ⟨0x9FFDD000, 0x00004000, addMem, sysMem, sysMemCap, rtData, uncachedUnbufferedXn⟩,  -- Reset Data
   ⟨0x9FFE1000, 0x00001000, addMem, sysMem, sysMemCap, rtData, writeBackXn⟩,  -- RSRV3
   ⟨0x9FFE2000, 0x00001000, addMem, sysMem, sysMemCap, rtData, uncachedUnbufferedXn⟩,  -- Capsule Header
   ⟨0x9FFE3000, 0x00014000, addMem, sysMem, sysMemCap, rtData, writeBackXn⟩,  -- RSRV2
   ⟨0x9FFF7000, 0x00008000, addMem, sysMem, sysMemCap, rtData, writeBackXn⟩,  -- Log Buffer
   ⟨0x9FFFF000, 0x00001000, addMem, sysMem, sysMemCap, rtData, writeBackXn⟩] ++  -- Info Blk
  (if flags.nb1Fixed then
      [⟨0xA0000000, 0x00B00000, addMem, sysMem, sysMemCap, reserv, nsDevice⟩,  -- FIH Region
       ⟨0xA0B00000, 0x00200000, addMem, sysMem, sysMemCap, reserv, nsDevice⟩]  -- Ramoops
    else
      []) ++
  -- 4, 6 and 8 GiB memory
  [⟨0xA0000000, 0xDE4C0000, mem4G, sysMem, sysMemCap, conv, writeBackXn⟩,  -- RAM Partition
   ⟨0x40000000, 0x40000000, mem6G, sysMem, sysMemCap, conv, writeBackXn⟩,  -- RAM Partition
   ⟨0xA0000000, 0x60000000, mem6G, sysMem, sysMemCap, conv, writeBackXn⟩,  -- RAM Partition
   ⟨0x100000000, 0xBD8C0000, mem6G, sysMem, sysMemCap, conv, writeBackXn⟩,  -- RAM Partition
   ⟨0xA0000000, 0xE0000000, mem8G, sysMem, sysMemCap, conv, writeBackXn⟩] ++  -- RAM Partition
  (if flags.nb1Fixed then
      [⟨0x180000000, 0xFCBC0000, mem8G, sysMem, sysMemCap, conv, writeBackXn⟩]  -- RAM Partition
    else
      [⟨0x180000000, 0xFCCC0000, mem8G, sysMem, sysMemCap, conv, writeBackXn⟩]) ++  -- RAM Partition
  -- other memory regions, then register regions
  [⟨0x14680000, 0x00040000, noHob, mmapIo, initialized, conv, nsDevice⟩,  -- IMEM Base
   ⟨0x146BF000, 0x00001000, addDev, mmapIo, initialized, conv, nsDevice⟩,  -- IMEM Cookie Base
   ⟨0x16000000, 0x01000000, addDev, mmapIo, initialized, conv, nsDevice⟩,  -- QDSS_STM
   ⟨0x00070000, 0x00010000, addDev, mmapIo, uncacheable, mmIo, nsDevice⟩,  -- BOOT_CONFIG
   ⟨0x00100000, 0x000B0000, addDev, mmapIo, uncacheable, mmIo, nsDevice⟩,  -- GCC CLK CTL
   ⟨0x00620000, 0x00020000, addDev, mmapIo, uncacheable, mmIo, nsDevice⟩,  -- UFS_RUMI
   ⟨0x00778000, 0x00008000, addDev, mmapIo, uncacheable, mmIo, nsDevice⟩,  -- RPM MSG RAM
   ⟨0x00780000, 0x00007000, addDev, mmapIo, uncacheable, mmIo, nsDevice⟩,  -- SECURITY CONTROL
   ⟨0x00790000, 0x00010000, addDev, mmapIo, uncacheable, mmIo, nsDevice⟩,  -- PRNG_CFG_PRNG
   ⟨0x010A3000, 0x00001000, addDev, mmapIo, uncacheable, mmIo, nsDevice⟩,  -- MPM2_SLP_CNTR
   ⟨0x010AA000, 0x00001000, addDev, mmapIo, uncacheable, mmIo, nsDevice⟩,  -- MPM2_TSENS0
   ⟨0x010AB000, 0x00001000, addDev, mmapIo, uncacheable, mmIo, nsDevice⟩,  -- MPM2_TSENS0_TM
   ⟨0x010AC000, 0x00001000, addDev, mmapIo, uncacheable, mmIo, nsDevice⟩,  -- MPM2_PSHOLD
   ⟨0x010AD000, 0x00001000, addDev, mmapIo, uncacheable, mmIo, nsDevice⟩,  -- MPM2_TSENS1
   ⟨0x010AE000, 0x00001000, addDev, mmapIo, uncacheable, mmIo, nsDevice⟩,  -- MPM2_TSENS1_TM
   ⟨0x01680000, 0x00009000, addDev, mmapIo, uncacheable, mmIo, nsDevice⟩,  -- A1_NOC
   ⟨0x01C00000, 0x00007000, addDev, mmapIo, uncacheable, mmIo, nsDevice⟩,  -- PCIE WRAPPER AHB
   ⟨0x01DA0000, 0x00020000, addDev, mmapIo, uncacheable, mmIo, nsDevice⟩,  -- UFS UFS REGS
   ⟨0x01DC0000, 0x00040000, addDev, mmapIo, uncacheable, mmIo, nsDevice⟩,  -- CRYPTO0 CRYPTO
   ⟨0x01FC0000, 0x00026000, addDev, mmapIo, uncacheable, mmIo, nsDevice⟩,  -- TCSR_TCSR_REGS
   ⟨0x03400000, 0x00C00000, addDev, mmapIo, uncacheable, mmIo, nsDevice⟩,  -- TLMM CSR
   ⟨0x05026000, 0x00002000, addDev, mmapIo, uncacheable, mmIo, nsDevice⟩,  -- GPMU_DRAM
   ⟨0x0502A000, 0x00002000, addDev, mmapIo, uncacheable, mmIo, nsDevice⟩,  -- GPMU_BLOCK0
   ⟨0x05030000, 0x00002000, addDev, mmapIo, uncacheable, mmIo, nsDevice⟩,  -- GPU_ISENSE
   ⟨0x05065000, 0x00009000, addDev, mmapIo, uncacheable, mmIo, nsDevice⟩,  -- GPUCC
   ⟨0x06000000, 0x00100000, addDev, mmapIo, uncacheable, mmIo, nsDevice⟩,  -- QDSS_QDSS
   ⟨0x06400000, 0x00200000, addDev, mmapIo, uncacheable, mmIo, nsDevice⟩,  -- HMSS_QLL
   ⟨0x08000000, 0x02800000, addDev, mmapIo, uncacheable, mmIo, nsDevice⟩,  -- PMIC ARB SPMI
   ⟨0x0A800000, 0x0011B000, addDev, mmapIo, uncacheable, mmIo, nsDevice⟩,  -- USB30_PRIM
   ⟨0x0A920000, 0x00010000, addDev, mmapIo, uncacheable, mmIo, nsDevice⟩,  -- USB_RUMI
   ⟨0x0C000000, 0x00200000, addDev, mmapIo, uncacheable, mmIo, nsDevice⟩,  -- PERIPH_SS
   ⟨0x0C800000, 0x00800000, addDev, mmapIo, uncacheable, mmIo, nsDevice⟩,  -- MMSS
   ⟨0x17800000, 0x00100000, addDev, mmapIo, uncacheable, mmIo, nsDevice⟩,  -- APCS_CC
   ⟨0x17900000, 0x00030000, addDev, mmapIo, uncacheable, mmIo, nsDevice⟩,  -- QTIMER
   ⟨0x17A00000, 0x00010000, addDev, mmapIo, uncacheable, mmIo, nsDevice⟩,  -- APCS_GIC500_GICD
   ⟨0x17B00000, 0x00100000, addDev, mmapIo, uncacheable, mmIo, nsDevice⟩,  -- APCS_GIC500_GICR
   ⟨0x17C00000, 0x00040000, addDev, mmapIo, uncacheable, mmIo, nsDevice⟩,  -- APCS_GIC500_GICC
   ⟨0x1B000000, 0x01000000, addDev, mmapIo, uncacheable, mmIo, nsDevice⟩,  -- PCIE WRAPPER AXI
   ⟨0, 0, noHob, sysMem, 0, reserv, uncachedUnbuffered⟩]  -- Terminator

end Msm8998
