import Mathlib.Control.Monad.Basic
import Mend.Proofs.Install.Course

/-! What an installation leaves behind: the executable from the archive, or all files as they were
but for the download and for directories. -/
namespace Mend

open Archive

namespace Installer

open Activity

variable {φ : Type} [Fraction φ] {i : Installer φ} {files : Files} {p : Platform} {a : Asset}

/-- The places on the way to a download and to the executable, where directories may be made. -/
def ways (i : Installer φ) (p : Platform) (a : Asset) (files : Files) : List Place :=
  files.wayTo (i.archive p a) ++ files.wayTo (i.target p)

/-- The executable is in its place: it is the first file of its name in the archive that was
downloaded, and everyone may run it. -/
structure Placed (i : Installer φ) (p : Platform) (a : Asset) (files : Files) (w : World φ) :
    Prop where
  evolves : Files.Evolves [files.reach (i.archive p a), files.reach (i.target p)]
    (i.ways p a files) files w.files
  named : w.files.place (i.target p) = .ok (files.reach (i.target p))
  there : ∃ listing entry mode, p.format.entries w.journal.downloaded = .ok listing ∧
    listing.IsFirst p.executable entry ∧ entry.content.failure? = none ∧
    w.files.node? (files.reach (i.target p)) = some (.file entry.content.data mode) ∧
    mode &&& Files.runBits = Files.runBits
  given : ∃ source, i.client.fetch a = .ok source ∧ w.journal.downloaded <+: source.data ∧
    (source.Honest → w.journal.downloaded = source.data)

variable {r : Except InstallError InstallOutcome} {w : World φ}

lemma Finishes.downloaded {target : String} {q t : Place} {content : List UInt8} {fs fs' : Files}
    {steps j : Journal φ} (h : Finishes i.host.limits target q t content fs fs' r steps) :
    (steps ++ j).downloaded = j.downloaded := by
  cases h with
  | forbidden removes => exact removes.downloaded_append
  | installed removes permits =>
    simp only [List.cons_append, List.append_assoc, Journal.downloaded, permits.downloaded_append,
      removes.downloaded_append]

lemma Unpacks.downloaded {archive : String} {file : List UInt8} {fs fs' : Files}
    {steps j : Journal φ} (h : i.Unpacks p archive file fs fs' r steps)
    (hj : j.stage? = some .decompressing) : (steps ++ j).downloaded = j.downloaded := by
  have hne : j.stage? ≠ some .downloading := by simp [hj]
  cases h with
  | unreadable => rfl
  | failed _ extracts => exact extracts.minds.quiet.downloaded_eq hne
  | stopped _ extracts => exact extracts.minds.quiet.downloaded_eq hne
  | extracted _ _ _ calm _ finishes =>
    rw [List.append_assoc, finishes.downloaded, calm.quiet.downloaded_eq hne]

/-- What was downloaded by the end of a course on which a download was unpacked. -/
lemma Unpacks.downloaded_course {archive : String} {file : List UInt8} {fs fs' : Files}
    {steps more : Journal φ} (h : i.Unpacks p archive file fs fs' r more) (hcalm : steps.Calm) :
    Journal.downloaded (more ++ (i.starting p ++ (steps ++ opening a))) = steps.received := by
  rw [h.downloaded (i.stage?_starting p _), ← downloaded_opening a hcalm.quiet]
  rfl

omit [Fraction φ] in
lemma Downloads.evolves_ways {fs : Files} {r : Except InstallError CopyOutcome} {steps : Journal φ}
    (h : i.Downloads a (i.archive p a) files fs r steps) :
    Files.Evolves [files.reach (i.archive p a)] (i.ways p a files) files fs :=
  h.evolves.mono (List.Subset.refl _) (List.subset_append_left _ _)

theorem Course.placed {path : String} (h : i.Course files (.ok (.installed path)) w) :
    ∃ p a, i.Chooses p a ∧ path = i.target p ∧ i.Placed p a files w ∧
      (i.host.limits.Permits → w.files.node? (files.reach (i.archive p a)) = none) := by
  cases h with
  | @delivered p a _ fs fs' steps more _ chooses downloads unpacks =>
  have hdownloaded : Journal.downloaded (more ++ (i.starting p ++ (steps ++ opening a))) = _ :=
    unpacks.downloaded_course (Journal.heeds_completed.1 downloads.minds.heeds)
  have hhere : fs.here = files.here := downloads.evolves.here
  have hways : fs.wayTo (i.target p) ⊆ i.ways p a files := by
    rw [Files.wayTo_congr hhere]
    exact List.subset_append_right _ _
  cases unpacks with
  | extracted readable first sound _ installs finishes =>
  cases finishes with
  | installed _ _ evolves gone named there runnable =>
  have hinstalls := installs.evolves
  rw [Files.reach_congr hhere] at gone named there evolves hinstalls
  rw [Files.reach_congr hhere] at evolves
  obtain ⟨source, mode, hfetch, -, -, hfills⟩ := downloads.filled _ rfl
  refine ⟨p, a, chooses, rfl, ⟨?_, named, ?_, source, hfetch, ?_, fun honest => ?_⟩, gone⟩
  · have hdownloads : Files.Evolves [files.reach (i.archive p a), files.reach (i.target p)]
        (i.ways p a files) files fs :=
      downloads.evolves_ways.mono (by simp) (List.Subset.refl _)
    exact (hdownloads.trans (hinstalls.mono (by simp) hways)).trans
      (evolves.mono (List.Subset.refl _) (List.nil_subset _))
  · exact ⟨_, _, _, hdownloaded ▸ readable, first, sound, there, runnable⟩
  · exact hdownloaded ▸ hfills.given
  · exact hdownloaded ▸ (hfills.complete _ rfl honest).1

/-- Short of success nothing but the download and directories has come about. -/
lemma Course.spares (h : i.Course files r w) (hchooses : i.Chooses p a)
    (permits : i.host.limits.Permits) (hr : ∀ path, r ≠ .ok (.installed path)) :
    Files.Evolves [files.reach (i.archive p a)] (i.ways p a files) files w.files := by
  cases h with
  | unresolved | unlisted | declined | unfit => exact .refl files
  | undelivered chooses downloads =>
    obtain ⟨rfl, rfl⟩ := hchooses.unique chooses
    exact downloads.evolves_ways
  | interrupted chooses downloads =>
    obtain ⟨rfl, rfl⟩ := hchooses.unique chooses
    exact downloads.evolves_ways
  | @delivered _ _ _ fs fs' _ _ _ chooses downloads unpacks =>
    obtain ⟨rfl, rfl⟩ := hchooses.unique chooses
    have hways : fs.wayTo (i.target p) ⊆ i.ways p a files := by
      rw [Files.wayTo_congr downloads.evolves.here]
      exact List.subset_append_right _ _
    have hspared : fs.Spares i.host.limits (fs.wayTo (i.target p)) fs' →
        Files.Evolves [files.reach (i.archive p a)] (i.ways p a files) files fs' := fun hspares =>
      downloads.evolves_ways.trans ((hspares.evolves permits).mono (List.nil_subset _) hways)
    cases unpacks with
    | unreadable => exact downloads.evolves_ways
    | failed _ extracts => exact hspared (extracts.spares (by simp))
    | stopped _ extracts => exact hspared (extracts.spares (by simp))
    | extracted _ _ _ _ _ finishes =>
      cases finishes with
      | forbidden _ forbids => exact (forbids permits).elim
      | installed => exact (hr _ rfl).elim

/-- Where it comes from that an executable is said to be missing: the client says so, or the archive
that was downloaded can be read to its end and has no file of that name. -/
def Lacks (i : Installer φ) (w : World φ) (name : String) : Prop :=
  i.client.latest = .error (.missingExecutable name) ∨
    (∃ a, i.client.fetch a = .error (.missingExecutable name)) ∨
    ∃ p a listing, i.Chooses p a ∧ name = p.executable ∧
      p.format.entries w.journal.downloaded = .ok listing ∧ listing.HasNone name

theorem Course.lacks {name : String} (h : i.Course files (.error (.missingExecutable name)) w) :
    i.Lacks w name := by
  cases h with
  | unresolved unresolved => exact (platform_ne_missing unresolved name rfl).elim
  | unlisted _ unlisted => exact .inl unlisted
  | unfit _ not_missing => exact (not_missing name rfl).elim
  | undelivered _ downloads => exact .inr (.inl ⟨_, downloads.missing name rfl⟩)
  | @delivered p a _ _ _ steps more _ chooses downloads unpacks =>
    have hdownloaded : Journal.downloaded (more ++ (i.starting p ++ (steps ++ opening a))) = _ :=
      unpacks.downloaded_course (Journal.heeds_completed.1 downloads.minds.heeds)
    cases unpacks with
    | unreadable not_missing => exact (not_missing name rfl).elim
    | failed readable extracts =>
      obtain ⟨rfl, hnone⟩ := extracts.missing name rfl
      exact .inr (.inr ⟨p, a, _, chooses, rfl, hdownloaded ▸ readable, hnone⟩)
    | extracted _ _ _ _ _ finishes => cases finishes

/-- An installation to `bin` from a server that has one release, and in it one archive. -/
def sample (tempDirectory : String) (archive : List UInt8) (listener : Listener Float) :
    Installer Float where
  client := {
    latest := .ok ⟨"", "v1.55.2",
      [⟨"golangci-lint-1.55.2-linux-amd64.tar.gz", archive.length, "u"⟩]⟩
    fetch := fun _ => .ok ⟨archive, [], none⟩ }
  settings := { platform? := some ⟨.linux, .amd64⟩, tempDirectory? := some tempDirectory }
  host := { system := "linux", architecture := "x86_64", tempDirectory := "/tmp" }
  listener
  destination := "bin"

/-- Says stop from the second question on. -/
def stopSecond : Listener Float := fun j => j.any fun s => s matches .asked _

end Installer
end Mend
