import Mend.Install.Error
import Mend.Json.Typed

/-! Published releases of the linter, and the assets attached to them. -/
namespace Mend

structure Asset where
  name : String
  size : Nat
  url : String
deriving DecidableEq

structure Release where
  name : String
  tag : String
  assets : List Asset

namespace Release

/-- The tag without its first character, unless nothing is left. -/
def version? (r : Release) : Option String :=
  match r.tag.toList.drop 1 with
  | [] => none
  | cs => some (String.ofList cs)

/-- The asset of a name, which has to be the only one. -/
def select (r : Release) (name : String) : Except InstallError Asset :=
  match r.assets.filter (·.name = name) with
  | [a] => .ok a
  | found => .error (.assetMismatch name found.length)

open Json

structure AssetDraft where
  name : Option String := none
  size : Option Nat := none
  url : Option String := none

def assetShape : Shape AssetDraft where
  name := "struct ReleaseAsset"
  slots := [
    .ofOption "name" true text (·.name) fun d s => { d with name := some s },
    .ofOption "size" true (natural "u64") (·.size) fun d n => { d with size := some n },
    .ofOption "browser_download_url" true text (·.url) fun d s => { d with url := some s }]
  empty := {}

def asset : Reader Asset := fun cs => do
  let (d, rest) ← assetShape.read cs
  .ok (⟨d.name.getD "", d.size.getD 0, d.url.getD ""⟩, rest)

structure Draft where
  name : Option String := none
  tag : Option String := none
  assets : Option (List Asset) := none

def shape : Shape Draft where
  name := "struct ReleaseDescriptor"
  slots := [
    .ofOption "name" false text (·.name) fun d s => { d with name := some s },
    .ofOption "tag_name" true text (·.tag) fun d s => { d with tag := some s },
    .ofOption "assets" false (list asset) (·.assets) fun d as => { d with assets := some as }]
  empty := {}

/-- A release from its description; members that are not required may be missing. -/
def parse (description : String) : Except Json.Error Release :=
  document (fun cs => (shape.read cs).map fun (d, rest) =>
    (⟨d.name.getD "", d.tag.getD "", d.assets.getD []⟩, rest)) description.toList

end Release
end Mend
