import OxysOS.Graphics.Primitives
import OxysOS.Graphics.ConsoleText
import OxysOS.Graphics.WindowPresses
import OxysOS.Block.BufferAvailable
import OxysOS.Fs.Vfs.MountPoints
import OxysOS.Fs.Ext2Mount
import OxysOS.Mm.FrameRun
import OxysOS.Mm.Arena
import OxysOS.Fs.Vfs.PipeWake
import OxysOS.Proc.SignalResume
import OxysOS.Proc.Continue
import OxysOS.Proc.ExecHandover
import OxysOS.Exec.ElfJudged
import OxysOS.Libc.LineDisplay
import OxysOS.Libc.ConfigReadBack
import OxysOS.Libc.StreamRead
import OxysOS.Shell.RunList
import OxysOS.Shell.ReadCommand
import OxysOS.Shell.ExpandAgrees
import OxysOS.Shell.EnvironmentGiven
import OxysOS.Crypto.Entropy
import OxysOS.Userland.Save
import OxysOS.Fs.Persist
import OxysOS.Terminal.Delivery
import OxysOS.Userland.CalculatorRun
import OxysOS.Userland.TerminalShown
import OxysOS.Fs.Ext2.DirectoryEdit
import OxysOS.Fs.Ext2.Truncate
import OxysOS.Handoff.Multiboot2Reads
import OxysOS.Mm.BitmapPlace
import OxysOS.Fs.Vfs.OpenRefused
import OxysOS.Libc.ConfigNumber
import OxysOS.Proc.Ending
import OxysOS.Libc.ConfigPlaced
import OxysOS.Proc.WorkingDirectory
import OxysOS.Libc.FormatBounds
import OxysOS.Proc.BreakRun
import OxysOS.Drivers.Ahci
import OxysOS.Acpi.Tables
import OxysOS.Drivers.Calendar
import OxysOS.Libc.ImageScaler
import OxysOS.Shell.JobCommands
import OxysOS.Userland.Copy
import OxysOS.Userland.Notepad
import OxysOS.Userland.Sort
import OxysOS.Userland.Tail
