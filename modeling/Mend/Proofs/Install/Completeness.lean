import Mend.Proofs.Install.Outcome

/-! How much of an entry is installed: all that its archive holds of it, which is not always as much
as the archive says there is. -/
namespace Mend

open Archive

namespace Installer

open Activity

variable {φ : Type} [Fraction φ] {i : Installer φ} {files : Files} {w : World φ} {path : String}

/-- What is installed has the size that the archive gives for the entry just if the archive holds
the whole of it. If a tar file does not, no fault has been found in its compression. -/
theorem run_complete (i : Installer φ) (files : Files) :
    ∃ r w, i.run.Ends ⟨files, []⟩ r w ∧ ∀ path, r = .ok (.installed path) →
      ∃ p a listing entry content mode, i.Chooses p a ∧ path = i.target p ∧
        p.format.entries w.journal.downloaded = .ok listing ∧
        listing.IsFirst p.executable entry ∧
        w.files.node? (files.reach path) = some (.file content mode) ∧
        (content.length = entry.size ↔ p.format.IsWhole w.journal.downloaded entry) ∧
        (content.length ≠ entry.size → p.format = .tarGz →
          (Gzip.unpack w.journal.downloaded).failure? = none) := by
  obtain ⟨r, w, hends⟩ := exists_ends i.run ⟨files, []⟩
  refine ⟨r, w, hends, ?_⟩
  rintro path rfl
  obtain ⟨outcome, hr, hcourse⟩ | ⟨e, -, hr, -⟩ := run_ends hends
  · obtain rfl := Except.ok.inj hr
    obtain ⟨p, a, hchooses, rfl, hplaced, -⟩ := hcourse.placed
    obtain ⟨listing, entry, mode, hentries, hfirst, hsound, hthere, -⟩ := hplaced.there
    have hholds := ArchiveFormat.holds_of_mem_entries hentries hfirst.mem
    have hsize := ArchiveFormat.length_eq_size_iff hholds
    refine ⟨p, a, listing, entry, _, mode, hchooses, rfl, hentries, hfirst, hthere, hsize,
      fun hne hformat => ?_⟩
    rw [hformat] at hholds hsize
    exact ArchiveFormat.sound_of_not_whole hholds (fun hwhole => hne (hsize.2 hwhole)) hsound
  · cases hr

/-- A tar file that ends inside its only entry: of five bytes there are two. -/
def cutTar : List UInt8 :=
  [103, 111, 108, 97, 110, 103, 99, 105, 45, 108, 105, 110, 116] ++ List.replicate 111 0 ++
    List.replicate 10 48 ++ [53] ++ List.replicate 13 0 ++ [48, 48, 52, 49, 53, 53, 0, 32, 48] ++
    List.replicate 355 0 ++ [97, 98]

/-- The same in a gzip file without compression, with the right checksum and size. -/
def cutArchive : List UInt8 :=
  [0x1f, 0x8b, 8, 0, 0, 0, 0, 0, 0, 0xff, 1, 2, 2, 253, 253] ++ cutTar ++
    [78, 93, 18, 200, 2, 2, 0, 0]

/-- The installation from that archive. -/
def cutSample : Installer Float := sample "tmp" cutArchive fun _ => false

/-- The two bytes are installed. -/
theorem run_complete_cut :
    ∃ r w, cutSample.run.Ends ⟨⟨[], []⟩, []⟩ r w ∧
      r.toOption = some (.installed "bin/golangci-lint") ∧
      w.files.node? ["bin", "golangci-lint"] = some (.file [97, 98] 0o755) ∧
      ∃ listing entry, ArchiveFormat.tarGz.entries w.journal.downloaded = .ok listing ∧
        listing.IsFirst "golangci-lint" entry ∧ entry.size = 5 := by
  have hrun : (cutSample.run.run.run ⟨⟨[], []⟩, []⟩).run.1.toOption =
        some (.installed "bin/golangci-lint") ∧
      (cutSample.run.run.run ⟨⟨[], []⟩, []⟩).run.2.files.node? ["bin", "golangci-lint"] =
        some (.file [97, 98] 0o755) ∧
      (cutSample.run.run.run ⟨⟨[], []⟩, []⟩).run.2.journal.downloaded = cutArchive := by
    decide +kernel
  have hfirst : ((ArchiveFormat.tarGz.entries cutArchive).toOption.bind List.head?).any
      (fun item => item.toOption.any fun entry =>
        entry.isNamed "golangci-lint" && entry.size = 5) = true := by decide +kernel
  obtain ⟨hinstalled, hthere, hdownloaded⟩ := hrun
  refine ⟨_, _, ends_run _ _, hinstalled, hthere, ?_⟩
  rw [hdownloaded]
  rcases hentries : ArchiveFormat.tarGz.entries cutArchive with e | ⟨_ | ⟨e | entry, rest⟩⟩
  · simp [hentries, Except.toOption] at hfirst
  · simp [hentries, Except.toOption] at hfirst
  · simp [hentries, Except.toOption] at hfirst
  · have hentry : entry.isNamed "golangci-lint" = true ∧ entry.size = 5 := by
      simpa [hentries, Except.toOption] using hfirst
    exact ⟨_, entry, rfl, ⟨[], rest, rfl, by simp, hentry.1⟩, hentry.2⟩

end Installer
end Mend
