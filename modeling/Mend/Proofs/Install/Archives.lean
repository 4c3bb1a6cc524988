import Mathlib.Tactic.Lemma
import Mathlib.Tactic.SplitIfs
import Mend.Install.Extract
import Mend.Proofs.Install.Copying

/-! What archives list: files by their names, and where in the archive their content is. -/
namespace Mend

open Archive

namespace Archive

namespace Listing

variable {ε : Type} {listing : Listing ε} {name : String} {entry e : Entry}

/-- The entry is the first file of a name: those in front of it can be read and are none. -/
def IsFirst (listing : Listing ε) (name : String) (entry : Entry) : Prop :=
  ∃ (before : List Entry) (after : Listing ε), listing = before.map .ok ++ .ok entry :: after ∧
    (∀ e ∈ before, ¬ e.isNamed name) ∧ entry.isNamed name

/-- All entries can be read, and none is a file of the name. -/
def HasNone (listing : Listing ε) (name : String) : Prop :=
  ∃ entries : List Entry, listing = entries.map .ok ∧ ∀ e ∈ entries, ¬ e.isNamed name

lemma IsFirst.cons (h : listing.IsFirst name entry) (he : ¬ e.isNamed name) :
    IsFirst (.ok e :: listing) name entry := by
  obtain ⟨before, after, rfl, hbefore, hentry⟩ := h
  exact ⟨e :: before, after, rfl, List.forall_mem_cons.2 ⟨he, hbefore⟩, hentry⟩

lemma HasNone.cons (h : listing.HasNone name) (he : ¬ e.isNamed name) :
    HasNone (.ok e :: listing) name := by
  obtain ⟨entries, rfl, hentries⟩ := h
  exact ⟨e :: entries, rfl, List.forall_mem_cons.2 ⟨he, hentries⟩⟩

lemma IsFirst.mem (h : listing.IsFirst name entry) : .ok entry ∈ listing := by
  obtain ⟨before, after, rfl, -⟩ := h
  simp

end Listing

namespace Tar

/-- The content of an entry is what the file has from `o` on. If the file ends inside the entry, so
does the content, and in the same way. -/
structure Holds (file : Source) (entry : Entry) (o : Nat) : Prop where
  start : o ≤ file.data.length
  data : entry.content.data = (file.data.drop o).take entry.size
  failure : entry.content.failure? =
    if file.data.length < o + entry.size then file.failure? else none
  plans : entry.content.plans = []

variable {failure? : Option String} {data : List UInt8} {entry : Entry}

/-- The data behind a header is the data without a front part. -/
lemma Holds.of_rest {skipped o : Nat}
    (hheader : blockSize ≤ ((data.drop skipped).take blockSize).length)
    (h : Holds ⟨(data.drop skipped).drop blockSize, [], failure?⟩ entry o) :
    Holds ⟨data, [], failure?⟩ entry (skipped + blockSize + o) := by
  have hstart := h.start
  simp only [List.length_take, List.length_drop, blockSize] at hheader hstart
  refine ⟨by simp only [blockSize]; omega, ?_, ?_, h.plans⟩
  · rw [h.data, List.drop_drop, List.drop_drop, Nat.add_assoc]
  · have hend : (data.length - skipped - blockSize < o + entry.size) =
        (data.length < skipped + blockSize + o + entry.size) := by
      simp only [blockSize, eq_iff_iff]
      omega
    simp only [h.failure, List.length_drop, hend]

lemma ok_not_mem_error {reason : String} : .ok entry ∉ [Except.error reason] := by simp

lemma ok_not_mem_ending {reason : String} {c : Bool} :
    .ok entry ∉ if c then [] else [Except.error reason] := by
  cases c <;> simp

/-- The induction is on the entries. -/
lemma exists_holds {fuel skipped : Nat} {notes : Notes}
    (h : .ok entry ∈ entriesFrom failure? fuel notes skipped data) :
    ∃ o, Holds ⟨data, [], failure?⟩ entry o := by
  fun_induction entriesFrom failure? fuel notes skipped data with
  | case1 => cases h
  | case4 | case6 => exact (ok_not_mem_ending h).elim
  | case2 | case3 | case5 | case7 | case8 | case9 | case10 | case12 =>
    exact (ok_not_mem_error h).elim
  | case11 fuel notes skipped data _ _ _ _ _ hheader _ _ _ _ _ _ _ _ _ _ _ _ _ _ _ ih =>
    obtain ⟨o, ho⟩ := ih h
    exact ⟨_, ho.of_rest (Nat.le_of_not_lt hheader)⟩
  | case13 fuel notes skipped data _ _ _ _ _ hheader _ _ _ _ _ _ _ _ _ _ _ _ _ ih =>
    rcases List.mem_cons.1 h with h | h
    · obtain rfl := Except.ok.inj h
      exact ⟨_, Holds.of_rest (o := 0) (Nat.le_of_not_lt hheader)
        ⟨Nat.zero_le _, rfl, by rw [Nat.zero_add], rfl⟩⟩
    · obtain ⟨o, ho⟩ := ih h
      exact ⟨_, ho.of_rest (Nat.le_of_not_lt hheader)⟩

theorem holds_of_mem_entries {file : Source} (h : .ok entry ∈ entries file) :
    ∃ o, Holds file entry o := by
  obtain ⟨o, ho⟩ := exists_holds h
  exact ⟨o, ho.start, ho.data, ho.failure, ho.plans⟩

end Tar

namespace Zip

/-- What the bytes of an item unpack to. -/
def Item.unpacked (i : Item) (packed : List UInt8) : List UInt8 :=
  if i.method = 0 then packed else (inflate packed).bytes

/-- The content of an entry is what the bytes of an item of the directory unpack to. Reading it does
not fail unless these are damaged. -/
structure Holds (file : List UInt8) (entry : Entry) (item : Item) (packed : List UInt8) : Prop where
  place : ∃ start, contentStart file item.start = .ok start ∧
    packed = (file.drop start).take item.packedSize
  size : entry.size = item.size
  data : entry.content.data = item.unpacked packed
  sound : entry.content.failure? = none → (crc32 entry.content.data).toNat = item.checksum
  plans : entry.content.plans = []

variable {file packed : List UInt8} {item : Item} {entry : Entry} {content : Source}
  {listing : Listing String}

lemma Item.content_eq_ok (h : item.content packed = .ok content) :
    content.data = item.unpacked packed ∧
      (content.failure? = none → (crc32 content.data).toNat = item.checksum) ∧
      content.plans = [] := by
  have hsound : ∀ (bytes : List UInt8) (failure? : Option String),
      (failure? <|> (if (crc32 bytes).toNat = item.checksum then none else some badChecksum)) =
        none → (crc32 bytes).toNat = item.checksum := by
    intro bytes failure? hnone
    cases failure? with
    | none => simpa using hnone
    | some reason => cases hnone
  unfold Item.content at h
  split at h
  · next hstored =>
    obtain rfl := Except.ok.inj h
    exact ⟨by simp [unpacked, hstored], hsound _ _, rfl⟩
  split at h
  · next hstored _ =>
    have hdata : (inflate packed).bytes = item.unpacked packed := by simp [unpacked, hstored]
    dsimp only at h
    split at h <;> obtain rfl := Except.ok.inj h <;> exact ⟨hdata, hsound _ _, rfl⟩
  · cases h

lemma holds_of_entry (h : item.entry file = .ok entry) :
    ∃ packed, Holds file entry item packed := by
  unfold Item.entry at h
  split_ifs at h
  rcases hstart : contentStart file item.start with _ | start
  · simp [hstart, bind, Except.bind] at h
  rcases hcontent : item.content ((file.drop start).take item.packedSize) with _ | content
  · simp [hstart, hcontent, bind, Except.bind] at h
  obtain ⟨hdata, hsound, hplans⟩ := Item.content_eq_ok hcontent
  have hentry : entry = ⟨latin item.name, item.isFile, item.size, content⟩ := by
    simpa [hstart, hcontent, bind, Except.bind, eq_comm] using h
  subst hentry
  exact ⟨_, ⟨start, hstart, rfl⟩, rfl, hdata, hsound, hplans⟩

theorem holds_of_mem_entries (h : entries file = .ok listing) (hentry : .ok entry ∈ listing) :
    ∃ item packed, Holds file entry item packed := by
  unfold entries at h
  rcases hfound : directory file with _ | found
  · simp [hfound, Except.map] at h
  · obtain rfl : (unique found).map (Item.entry file) = listing := by
      simpa [hfound, Except.map] using h
    obtain ⟨item, -, hitem⟩ := List.mem_map.1 hentry
    exact ⟨item, holds_of_entry hitem⟩

end Zip
end Archive

namespace ArchiveFormat

variable {format : ArchiveFormat} {file : List UInt8} {listing : Listing InstallError}
  {entry : Entry}

lemma ok_mem_map {ε ε' : Type} {f : ε → ε'} {l : Listing ε}
    (h : .ok entry ∈ l.map (Except.mapError f)) : .ok entry ∈ l := by
  obtain ⟨x, hx, hfx⟩ := List.mem_map.1 h
  cases x with
  | error e => cases hfx
  | ok e =>
    obtain rfl := Except.ok.inj hfx
    exact hx

lemma zip_entries_of_ok {found : Listing String} (h : Zip.entries file = .ok found) :
    zip.entries file = .ok (found.map (Except.mapError .badZip)) := by
  simp [entries, h, Except.mapError, Except.map]

lemma zip_entries_of_error {reason : String} (h : Zip.entries file = .error reason) :
    zip.entries file = .error (.badZip reason) := by
  simp [entries, h, Except.mapError, Except.map]

/-- How an entry is held by an archive of a format. -/
def Holds (format : ArchiveFormat) (file : List UInt8) (entry : Entry) : Prop :=
  match format with
  | .tarGz => ∃ o, Tar.Holds (Gzip.unpack file) entry o
  | .zip => ∃ item packed, Zip.Holds file entry item packed

theorem holds_of_mem_entries (h : format.entries file = .ok listing)
    (hentry : .ok entry ∈ listing) : format.Holds file entry := by
  cases format with
  | tarGz =>
    obtain rfl := Except.ok.inj h
    exact Tar.holds_of_mem_entries (ok_mem_map hentry)
  | zip =>
    rcases hfound : Zip.entries file with reason | found
    · cases (zip_entries_of_error hfound).symm.trans h
    · obtain rfl := Except.ok.inj ((zip_entries_of_ok hfound).symm.trans h)
      exact Zip.holds_of_mem_entries hfound (ok_mem_map hentry)

/-- Entries are read without interruptions. -/
lemma Holds.honest (h : format.Holds file entry) : entry.content.Honest := by
  have hplans : entry.content.plans = [] := by
    cases format with
    | tarGz =>
      obtain ⟨o, ho⟩ := h
      exact ho.plans
    | zip =>
      obtain ⟨item, packed, hpacked⟩ := h
      exact hpacked.plans
  intro n hn
  simp [hplans] at hn

/-- An archive that cannot be read, as a whole or from an entry on, is not said to lack a file. -/
theorem error_ne_missing {e : InstallError} {name : String}
    (h : format.entries file = .error e ∨
      ∃ listing, format.entries file = .ok listing ∧ .error e ∈ listing) :
    e ≠ .missingExecutable name := by
  have hmem : ∀ {ε : Type} {f : ε → InstallError} {l : Listing ε},
      .error e ∈ l.map (Except.mapError f) → ∃ x, e = f x := by
    intro ε f l hl
    obtain ⟨x | _, -, hx⟩ := List.mem_map.1 hl
    · exact ⟨x, (Except.error.inj hx).symm⟩
    · cases hx
  cases format with
  | tarGz =>
    rcases h with h | ⟨listing, h, hl⟩
    · cases h
    · obtain rfl := Except.ok.inj h
      obtain ⟨x, rfl⟩ := hmem hl
      simp
  | zip =>
    rcases hfound : Zip.entries file with reason | found
    · rw [zip_entries_of_error hfound] at h
      rcases h with h | ⟨listing, h, -⟩
      · obtain rfl := Except.error.inj h
        simp
      · cases h
    · rw [zip_entries_of_ok hfound] at h
      rcases h with h | ⟨listing, h, hl⟩
      · cases h
      · obtain rfl := Except.ok.inj h
        obtain ⟨x, rfl⟩ := hmem hl
        simp

/-- The archive holds as much of an entry as it says there is: a tar file does not end inside the
entry, and the bytes of a zip file's item unpack to the size in its directory. -/
def IsWhole (format : ArchiveFormat) (file : List UInt8) (entry : Entry) : Prop :=
  match format with
  | .tarGz => ∃ o, Tar.Holds (Gzip.unpack file) entry o ∧
      o + entry.size ≤ (Gzip.unpack file).data.length
  | .zip => ∃ item packed, Zip.Holds file entry item packed ∧
      (item.unpacked packed).length = item.size

theorem length_eq_size_iff (h : format.Holds file entry) :
    entry.content.data.length = entry.size ↔ format.IsWhole file entry := by
  cases format with
  | tarGz =>
    obtain ⟨o, ho⟩ := h
    have hlength : ∀ o, Tar.Holds (Gzip.unpack file) entry o →
        entry.content.data.length = min entry.size ((Gzip.unpack file).data.length - o) := by
      intro o ho
      rw [ho.data, List.length_take, List.length_drop]
    constructor
    · intro heq
      have hstart := ho.start
      have hmin := hlength o ho
      exact ⟨o, ho, by omega⟩
    · rintro ⟨o, ho, hwhole⟩
      rw [hlength o ho]
      omega
  | zip =>
    constructor
    · intro heq
      obtain ⟨item, packed, hitem⟩ := h
      exact ⟨item, packed, hitem, by rw [← hitem.data, heq, hitem.size]⟩
    · rintro ⟨item, packed, hitem, hwhole⟩
      rw [hitem.data, hwhole, hitem.size]

/-- What is cut off a tar file is not missed: unpacking a file that fails would fail to read the
entry. -/
theorem sound_of_not_whole (h : tarGz.Holds file entry) (hwhole : ¬ tarGz.IsWhole file entry)
    (hsound : entry.content.failure? = none) : (Gzip.unpack file).failure? = none := by
  obtain ⟨o, ho⟩ := h
  have hcut : (Gzip.unpack file).data.length < o + entry.size :=
    Nat.lt_of_not_le fun hle => hwhole ⟨o, ho, hle⟩
  rwa [ho.failure, if_pos hcut] at hsound

end ArchiveFormat
end Mend
