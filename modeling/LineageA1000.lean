import LineageA1000.Lib.Run
import LineageA1000.Lib.BitSet
import LineageA1000.Lib.Errno
import LineageA1000.Caps.Cap
import LineageA1000.Caps.Cred
import LineageA1000.Caps.SetId
import LineageA1000.Caps.Ambient
import LineageA1000.BootImg.Assemble
import LineageA1000.BootImg.Cpio
import LineageA1000.BootImg.CpioArchive
import LineageA1000.BootImg.Replace
import LineageA1000.Lib.CText
import LineageA1000.Sepolicy.Inject
import LineageA1000.UidCputime.Stat
import LineageA1000.Dispc.Live
import LineageA1000.Dispc.Latch
import LineageA1000.Shim.Rotation
import LineageA1000.Shim.Post
import LineageA1000.Power.Boost
import LineageA1000.Dispc.Honest
import LineageA1000.BootImg.CpioInverse
import LineageA1000.Fm.Scan
import LineageA1000.Caps.ExecAmbient
import LineageA1000.Fuse.Tree
import LineageA1000.Fuse.Permissions
import LineageA1000.Fuse.Notice
import LineageA1000.Hci.Owners
import LineageA1000.Elf.Inside
import LineageA1000.Shim.Mapping
import LineageA1000.Shim.Record
import LineageA1000.Shim.Vsync
import LineageA1000.Shim.Patch
import LineageA1000.Ion.Alloc
import LineageA1000.Regulator.Dcdc
import LineageA1000.Lib.Memo
import LineageA1000.Lib.Decimal
import LineageA1000.Power.Cache
import LineageA1000.Fm.Stations
import LineageA1000.Ril.Signal
import LineageA1000.Shim.Adopt
import LineageA1000.RenderEngine.Shader
import LineageA1000.RenderEngine.ProgramCache
import LineageA1000.Elf.Stages
import LineageA1000.Elf.Protect
import LineageA1000.Elf.Trace
import LineageA1000.Elf.Relocate
import LineageA1000.Sepolicy.Reported
import LineageA1000.Memtrack.Mali
import LineageA1000.BootImg.CpioProgress
import LineageA1000.UidCputime.Remove
import LineageA1000.Ril.CardStatus
import LineageA1000.Caps.SecureExec
import LineageA1000.Hci.Parser
import LineageA1000.Regulator.SetGet
import LineageA1000.Regulator.Calibration
import LineageA1000.Batcap.Measure
import LineageA1000.Sepolicy.Xperm
import LineageA1000.Fuse.NodePath
import LineageA1000.Lib.Labels
import LineageA1000.Cpusets.Hierarchy
import LineageA1000.Cpusets.Domains
import LineageA1000.Cpusets.Updates
import LineageA1000.Cpusets.Rules
import LineageA1000.Cpusets.Kept
import LineageA1000.Cpusets.Nesting
import LineageA1000.Cpusets.Outcome
import LineageA1000.Caps.Confine
import LineageA1000.Ion.Handles
import LineageA1000.Lib.RefCount
import LineageA1000.Ion.Ioctl
import LineageA1000.Ion.Sound
import LineageA1000.Ion.Covered
import LineageA1000.Ion.Orderly
import LineageA1000.Creds.Tasks
import LineageA1000.Creds.Counting
import LineageA1000.Creds.Sharing
import LineageA1000.Creds.Private
import LineageA1000.Creds.Descent
import LineageA1000.Hci.Credits
