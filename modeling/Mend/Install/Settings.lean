import Mend.Install.Platform

/-! What an installation can be told. -/
namespace Mend

/-- Where to ask for the latest release, how large the chunks of a download are, what to call
oneself, and where to download to. A platform that is not given is detected, and a directory that is
not given is the platform's. -/
structure Settings where
  releaseUrl : String := "https://api.github.com/repos/golangci/golangci-lint/releases/latest"
  chunkSize : Nat := 20 * 1024
  userAgent : String := "lintfix/0.1.0"
  tempDirectory? : Option String := none
  platform? : Option Platform := none
  distribution? : Option String := none

/-- Chunks have one byte at least. -/
def Settings.withChunkSize (s : Settings) (n : Nat) : Settings := { s with chunkSize := max n 1 }

end Mend
