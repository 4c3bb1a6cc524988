import Mend.Files.Limits

/-! What can stop an installation, and whether trying again may help. -/
namespace Mend

inductive InstallError
  | unsupportedSystem (name : String)
  | unsupportedArchitecture (name : String)
  | assetMismatch (name : String) (found : Nat)
  | missingExecutable (name : String)
  | permissionDenied (path : String)
  | badMetadata (reason : String)
  | badResponse (reason : String)
  | io (reason : String)
  | badZip (reason : String)
deriving DecidableEq

inductive InstallErrorKind
  | environmentMismatch
  | permissionDenied
  | transport
deriving DecidableEq

namespace InstallError

def message : InstallError → String
  | unsupportedSystem name => "unsupported operating system: " ++ name
  | unsupportedArchitecture name => "unsupported architecture: " ++ name
  | assetMismatch name found =>
    "expected exactly one release asset named '" ++ name ++ "', found " ++ toString found
  | missingExecutable name => "archive does not contain '" ++ name ++ "'"
  | permissionDenied path => "permission denied for " ++ path
  | badMetadata reason => "invalid release metadata: " ++ reason
  | badResponse reason => "HTTP error: " ++ reason
  | io reason => "I/O error: " ++ reason
  | badZip reason => "zip error: " ++ reason

/-- The host or the release is unfit, permissions are missing, or something else went wrong. -/
def kind : InstallError → InstallErrorKind
  | unsupportedSystem _ | unsupportedArchitecture _ | assetMismatch .. | missingExecutable _ =>
    .environmentMismatch
  | permissionDenied _ => .permissionDenied
  | badMetadata _ | badResponse _ | io _ | badZip _ => .transport

def isRetryable (e : InstallError) : Bool := e.kind = .transport

end InstallError

/-- A file error at a path, as an error of an installation. -/
def InstallError.ofFile (path : String) : FileError → InstallError
  | .permissionDenied => .permissionDenied path
  | e => .io e.message

/-- What keeps a change from coming about at a path, as an error of an installation. -/
def InstallError.ofFault (path : String) : Fault → InstallError
  | .failed e => .ofFile path e
  | .refused .forbidden => .permissionDenied path
  | .refused .full => .io Refusal.full.message

end Mend
