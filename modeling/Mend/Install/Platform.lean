import Mend.Install.Error
import Mend.Linter.CommandLine
import Mend.Text.Quoted

/-! The platforms that the linter is released for. -/
namespace Mend

inductive ArchiveFormat
  | zip
  | tarGz
deriving DecidableEq

def ArchiveFormat.suffix : ArchiveFormat → String
  | zip => "zip"
  | tarGz => "tar.gz"

/-- Operating systems. A Linux distribution that runs inside Windows is one of its own. -/
inductive OperatingSystem
  | windows
  | linux
  | macos
  | wsl (distribution : String)
deriving DecidableEq

namespace OperatingSystem

/-- The system of a name; on Windows a distribution may be asked for. -/
def ofName (name : String) (distribution? : Option String) : Except InstallError OperatingSystem :=
  if name = "windows" then
    match distribution? with
    | some d => .ok (wsl d)
    | none => .ok windows
  else if name = "linux" then .ok linux
  else if name = "macos" || name = "darwin" then .ok macos
  else .error (.unsupportedSystem name)

/-- The system in the names of release assets. -/
def tag : OperatingSystem → String
  | windows => "windows"
  | linux | wsl _ => "linux"
  | macos => "darwin"

def describe : OperatingSystem → String
  | windows => "Windows"
  | linux => "Linux"
  | macos => "MacOs"
  | wsl d => "Wsl \x7b distribution: " ++ Text.quoted d ++ " \x7d"

end OperatingSystem

inductive Architecture
  | x86
  | amd64
  | arm64
deriving DecidableEq

namespace Architecture

def ofName (name : String) : Except InstallError Architecture :=
  if name ∈ ["x86", "i386", "i686", "386"] then .ok x86
  else if name ∈ ["x86_64", "amd64"] then .ok amd64
  else if name ∈ ["aarch64", "arm64"] then .ok arm64
  else .error (.unsupportedArchitecture name)

/-- The architecture in the names of release assets. -/
def tag : Architecture → String
  | x86 => "386"
  | amd64 => "amd64"
  | arm64 => "arm64"

end Architecture

structure Platform where
  system : OperatingSystem
  architecture : Architecture
deriving DecidableEq

/-- The linter's name, in asset names and as an executable. -/
def linterName : String := "golangci-lint"

namespace Platform

/-- The platform of a system's and an architecture's name. -/
def ofNames (system architecture : String) (distribution? : Option String) :
    Except InstallError Platform :=
  match OperatingSystem.ofName system distribution? with
  | .error e => .error e
  | .ok s => (Architecture.ofName architecture).map (⟨s, ·⟩)

variable (p : Platform)

def format : ArchiveFormat :=
  match p.system with
  | .windows => .zip
  | _ => .tarGz

def executable : String :=
  match p.system with
  | .windows => linterName ++ ".exe"
  | _ => linterName

/-- The name of the release asset for this platform. -/
def assetName (version : String) : String :=
  linterName ++ "-" ++ version ++ "-" ++ p.system.tag ++ "-" ++ p.architecture.tag ++ "." ++
    p.format.suffix

/-- The directory for downloads. That of a distribution is reached through its network share; other
platforms have that of the host. -/
def tempDirectory (host : String) : String :=
  match p.system with
  | .wsl d => "\\\\wsl$\\" ++ d ++ "\\tmp"
  | _ => host

/-- A command made to run on this platform. In a distribution its directory and its variables become
arguments of the program that enters the distribution. -/
def adapt (c : CommandLine) : CommandLine :=
  match p.system with
  | .wsl d =>
    let directory :=
      match c.directory? with
      | some dir => ["--cd", dir]
      | none => []
    let assignments :=
      match c.environment.entries with
      | [] => []
      | entries => "env" :: entries.map fun (name, value) => name ++ "=" ++ value
    (CommandLine.ofProgram "wsl.exe").withArguments
      (["-d", d] ++ directory ++ ["--"] ++ assignments ++ c.program :: c.arguments)
  | _ => c

def describe : String :=
  let base := p.system.tag ++ "/" ++ p.architecture.tag
  match p.system with
  | .wsl d => base ++ " (WSL: " ++ d ++ ")"
  | _ => base

end Platform
end Mend
