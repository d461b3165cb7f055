import Maestro.Catalog
import Maestro.Checked
import Maestro.Disk
import Maestro.Pieces

/-!
# What the machine says about its memory

A figure is read out of what a tool of the platform printed, or it is unknown.
Sums are `u64` mebibytes, and the count of the devices an `i32`: a sum that
leaves its range panics, and a reading that panics is `none`.
-/
namespace Maestro.Memory

/-! ## Reading what a tool printed -/

/-- One mebibyte in kibibytes. -/
def KIB_PER_MIB : ℕ := 1024

/-- One mebibyte in bytes. -/
def BYTES_PER_MIB : ℕ := 1024 * 1024

/-- What the columns of the devices come to, and how many devices there are. -/
structure Columns where
  total : ℕ
  used : ℕ
  devices : ℕ
deriving DecidableEq, Repr

/-- The loop over the lines, which ends at the first that cannot be read. -/
def sumDevices (sums : Columns) : List (List Char) → Option (Option Columns)
  | [] => some (some sums)
  | line :: rest => do
    let some (left,right) := Text.splitOnce ',' line | return none
    let some total := Text.parseUnsigned 64 (Text.trim left) | return none
    let total ← Checked.add 64 sums.total total
    let some used := Text.parseUnsigned 64 (Text.trim right) | return none
    let used ← Checked.add 64 sums.used used
    let devices ← Checked.add 31 sums.devices 1
    sumDevices ⟨total,used,devices⟩ rest

def blank (line : List Char) : Bool := (Text.trim line).isEmpty

/-- What the query for the devices printed, as one device: one line a device,
    `total, used`. -/
def device (text : List Char) : Option (Option DeviceMemory) := do
  let some sums ← sumDevices ⟨0,0,0⟩ ((Text.lines text).filter fun line => !blank line) | return none
  return if sums.devices > 0 then some ⟨sums.total,sums.used⟩ else none

/-- The loop over the lines that name the process. -/
def sumUsed (pid : UInt32) (used : Option ℕ) : List (List Char) → Option (Option ℕ)
  | [] => some used
  | line :: rest => match Text.splitOnce ',' line with
    | none => sumUsed pid used rest
    | some (left,right) =>
      if Text.parseUnsigned 32 (Text.trim left) ≠ some pid.toNat then sumUsed pid used rest
      else match Text.parseUnsigned 64 (Text.trim right) with
        | none => some none
        | some mib => (Checked.add 64 (used.getD 0) mib).bind fun sum => sumUsed pid (some sum) rest

/-- What one process holds on the device: one line a process and device,
    `pid, used`. A process on no line is unknown, not zero. -/
def computeApps (text : List Char) (pid : UInt32) : Option (Option ℕ) := sumUsed pid none (Text.lines text)

/-- One whole number on its own, in a unit so many of which make a mebibyte. -/
def scaled (text : List Char) (perMib : ℕ) : Option ℕ := (Text.parseUnsigned 64 (Text.trim text)).map (· / perMib)

/-- `MemTotal` from `/proc/meminfo`. -/
def meminfoTotal (text : List Char) : Option ℕ := do
  let line ← (Text.lines text).findSome? (Text.stripPrefix "MemTotal:".toList)
  let figure ← (Text.words line).head?
  scaled figure KIB_PER_MIB

/-- A resident set from the last field of a quoted line, as `12,345 K`. -/
def tasklistRss (text : List Char) : Option ℕ := do
  let line ← (Text.lines text).find? fun line => line.head? = some '"'
  let last := (Text.rsplitOnce "\",\"".toList line).elim line Prod.snd
  let field := ((Text.trim last).dropWhile (· = '"')).rdropWhile (· = '"')
  let digits := field.filter Char.isDigit
  if digits.isEmpty || field.getLast? ≠ some 'K' then none
  else return (← Text.parseUnsigned 64 digits) / KIB_PER_MIB

example : device "24576, 1000\n24576, 2000\n".toList = some (some ⟨49152,3000⟩) := by decide +kernel

example : computeApps "12345, 4523\n777, 900\n12345, 100\n".toList 12345 = some (some 4623) := by decide +kernel

example : meminfoTotal "MemFree: 1 kB\nMemTotal:       49331796 kB\n".toList = some 48175 := by decide +kernel

example : tasklistRss "\"stub-llama-server.exe\",\"1234\",\"Console\",\"1\",\"12,345 K\"\r\n".toList = some 12 := by decide +kernel

/-! ## The commands -/

/-- The platforms the commands differ on. -/
inductive System
  | Linux
  | Macos
  | Windows
  | Other
deriving DecidableEq, Repr

/-- The tools of a machine: what a command prints, when it can be run, ends in
    time and ends well, and what a file holds, when it can be read. -/
structure Tools where
  system : System
  output : OsStr → List String → Option (List Char)
  readToString : OsStr → Option (List Char)

def DEVICE_QUERY : String := "--query-gpu=memory.total,memory.used"

def PROCESS_QUERY : String := "--query-compute-apps=pid,used_memory"

section Commands
variable (tools : Tools)

/-- What the device tool prints for one query, as bare numbers. -/
def query (nvidiaSmi : OsStr) (query : String) : Option (List Char) :=
  tools.output nvidiaSmi [query,"--format=csv,noheader,nounits"]

/-- What this machine has in system memory. -/
def systemTotalMib : Option ℕ :=
  match tools.system with
  | .Linux => (tools.readToString (Gguf.textBytes "/proc/meminfo")).bind meminfoTotal
  | .Macos => (tools.output (Gguf.textBytes "sysctl") ["-n","hw.memsize"]).bind (scaled · BYTES_PER_MIB)
  | .Windows => (tools.output (Gguf.textBytes "powershell") ["-NoProfile","-Command",
      "(Get-CimInstance Win32_ComputerSystem).TotalPhysicalMemory"]).bind (scaled · BYTES_PER_MIB)
  | .Other => none

/-- The resident set of one process. -/
def residentMib (pid : UInt32) : Option ℕ :=
  match tools.system with
  | .Windows => (tools.output (Gguf.textBytes "tasklist") ["/FI",s!"PID eq {pid}","/FO","CSV","/NH"]).bind tasklistRss
  | _ => (tools.output (Gguf.textBytes "ps") ["-o","rss=","-p",toString pid]).bind (scaled · KIB_PER_MIB)

/-! ## The probe -/

/-- The figures a test states, in place of a machine. -/
structure Fixed where
  device : Option DeviceMemory
  systemTotalMib : Option ℕ
  measurement : Measurement
deriving DecidableEq, Repr

/-- The tools a machine turned out to have. -/
structure Machine where
  nvidiaSmi : Option OsStr
deriving DecidableEq, Repr

/-- Where the machine's own figures come from. -/
inductive Probe
  | Fixed (fixed : Fixed)
  | Machine (machine : Machine)
deriving DecidableEq, Repr

/-- Total and used device memory, where there is a device and it can be asked. -/
def Probe.device (self : Probe) : Option (Option DeviceMemory) :=
  match self with
  | .Fixed fixed => some fixed.device
  | .Machine machine => match machine.nvidiaSmi.bind fun tool => query tools tool DEVICE_QUERY with
    | none => some none
    | some text => Memory.device text

/-- What the machine has in system memory, where something can report it. -/
def Probe.systemTotalMib (self : Probe) : Option ℕ :=
  match self with
  | .Fixed fixed => fixed.systemTotalMib
  | .Machine _ => Memory.systemTotalMib tools

/-- What one running process holds, on each side it can be read on. -/
def Probe.measure (self : Probe) (pid : UInt32) : Option Measurement :=
  match self with
  | .Fixed fixed => some fixed.measurement
  | .Machine machine =>
    let device := match machine.nvidiaSmi.bind fun tool => query tools tool PROCESS_QUERY with
      | none => some none
      | some text => computeApps text pid
    device.map fun device => ⟨residentMib tools pid,device⟩

end Commands

end Maestro.Memory
