import Openisa.Library.BitField
import Openisa.Library.ByteStore
import Openisa.Library.SplitSum
import Openisa.Library.PendingQueue
import Openisa.Bfd.RelocType
import Openisa.Bfd.Howto
import Openisa.Bfd.Shuffle
import Openisa.Bfd.Reloc
import Openisa.Bfd.GenericReloc
import Openisa.Bfd.GpReloc
import Openisa.Bfd.RelocatedContents
import Openisa.Bfd.Reference
import Openisa.Bfd.SpecialStatus
import Openisa.Bfd.UndefinedSymbol
import Openisa.Bfd.PendingHi16
import Openisa.Bfd.FinalLink
import Openisa.Bfd.HiLoPair
import Openisa.Bfd.PartialLink
import Openisa.Bfd.ShuffledWord
import Openisa.Bfd.Mips16HiLo
import Openisa.Bfd.SignedField
import Openisa.Bfd.BranchField
import Openisa.Bfd.GpValue
import Openisa.Bfd.AddressLimits
import Openisa.Bfd.RefusedRelocs
import Openisa.Elf.LinkData
import Openisa.Elf.CalculateRelocation
import Openisa.Elf.PerformRelocation
import Openisa.Elf.RelocateSection
import Openisa.Elf.Reference
import Openisa.Elf.FinalWord
import Openisa.Elf.PartialAddends
import Openisa.Elf.JumpTargets
import Openisa.Elf.LinkPathsAgree
import Openisa.Library.SlotTable
import Openisa.Library.BlockCount
import Openisa.Got.Entry
import Openisa.Got.MultiGot
import Openisa.Got.TableCounts
import Openisa.Got.SplitGots
import Openisa.Got.MergedGots
import Openisa.Got.AccessTypes
import Openisa.Got.MergedCounts
import Openisa.Got.IntactGots
import Openisa.Got.PageRanges
import Openisa.Got.PageEntries
import Openisa.Got.LocalGot
import Openisa.Got.LocalStore
import Openisa.Got.DynamicSymbols
import Openisa.Got.GlobalGotIndex
import Openisa.Library.BumpLayout
import Openisa.Got.TlsEntries
import Openisa.Got.Layout
import Openisa.Got.LayoutRanges
import Openisa.Got.LayoutPartition
import Openisa.Got.GotSection
import Openisa.Library.FirstUse
import Openisa.Got.TlsSlots
import Openisa.Got.TlsEmission
import Openisa.Got.TlsReserve
import Openisa.Got.TlsRelocs
import Openisa.Got.TlsRequests
import Openisa.Library.Forwarding
import Openisa.Dynamic.Symbols
import Openisa.Dynamic.CheckRelocs
import Openisa.Dynamic.CheckedRun
import Openisa.Dynamic.AdjustSymbol
import Openisa.Dynamic.AllocateDynrelocs
import Openisa.Dynamic.CreateRelocation
import Openisa.Dynamic.SectionRoom
import Openisa.Dynamic.AbsoluteRoom
import Openisa.Elf.FieldRoundTrip
import Openisa.Library.LinkChain
import Openisa.Debug.ExternalSymbols
import Openisa.Library.SaveArea
import Openisa.Newlib.Machine
import Openisa.Newlib.Setjmp
import Openisa.Newlib.LatestSave
import Openisa.Library.ByteDeletion
import Openisa.Library.RepeatedUpdate
import Openisa.Relax.Opcodes
import Openisa.Relax.Section
import Openisa.Relax.RelaxSection
import Openisa.Relax.KeptTargets
import Openisa.Relax.RelaxedRun
import Openisa.Library.ExtensionTable
import Openisa.Library.JoinRun
import Openisa.Header.Machine
import Openisa.Header.Flags
import Openisa.Header.Merge
import Openisa.Header.ComparedFlags
import Openisa.Header.MergedHeader
import Openisa.Header.LinkedHeader
import Openisa.Bfd.Words
import Openisa.Library.MipsInstr
import Openisa.Library.MipsMachine
import Openisa.Stubs.HiLoCode
import Openisa.Stubs.La25Stubs
import Openisa.Stubs.La25Layout
import Openisa.Stubs.La25Code
import Openisa.Stubs.La25Run
import Openisa.Library.Numbering
import Openisa.Dynamic.PltSlots
import Openisa.Stubs.LazyLayout
import Openisa.Stubs.PltCode
import Openisa.Stubs.DynPass
import Openisa.Stubs.PltRun
import Openisa.Stubs.LazyRun
import Openisa.Library.HeldOnce
import Openisa.Stubs.Mips16Stubs
import Openisa.Stubs.Mips16Run
import Openisa.Library.StepTotals
import Openisa.Sections.Gptab
import Openisa.Sections.GptabLink
import Openisa.Elf.HintedJumps
import Openisa.Relax.RelaxJumps
