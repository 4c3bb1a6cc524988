import Mend.Cli.Run
import Mend.Proofs.Bytes
import Mend.Proofs.Inspection
import Mend.Proofs.Install.Places
import Mend.Proofs.Limits
import Mend.Proofs.Links

/-! Checking a file against a report: which of its findings count, what is left in the file, and
that all other files stay as they are. -/
namespace Mend

namespace Disk

variable {d : Disk} {path text : String} {p : Place} {mode : Nat} {old content : List UInt8}

/-- A path names a file that may be read, and the bytes in it are those of a text. -/
structure Holds (d : Disk) (path : String) (p : Place) (mode : Nat) (text : String) : Prop where
  names : d.Names path p
  node : d.node? p = some (.file (Text.utf8 text.toList) mode)
  shown : d.limits.hides d.toFiles p = false

theorem read?_eq_some_iff :
    d.read? path = some content ↔ ∃ p mode, d.Names path p ∧
      d.node? p = some (.file content mode) ∧ d.limits.hides d.toFiles p = false := by
  constructor
  · intro h
    obtain ⟨p, hplace, hread⟩ := Option.bind_eq_some_iff.1 h
    split at hread
    · next bytes mode hnode =>
      split_ifs at hread with hhides
      obtain rfl := Option.some.inj hread
      obtain ⟨hzero, hempty, hreaches⟩ := place?_eq_some_iff.1 hplace
      have hnames : d.Names path p := ⟨hzero, hempty, hreaches, by simp [hnode]⟩
      exact ⟨p, mode, hnames, hnode, by simpa using hhides⟩
    · cases hread
  · rintro ⟨p, mode, hnames, hnode, hshown⟩
    simp [read?, hnames.place?, hnode, hshown]

/-- The file at a place may be opened for writing, and emptied it has room for some bytes. -/
structure Takes (d : Disk) (p : Place) (mode : Nat) (content : List UInt8) : Prop where
  permitted : d.limits.forbids d.toFiles (.create p Files.plainMode) = false
  fits : d.limits.fits (d.set p (.file [] mode)) p content

/-- A file that is there is opened if that is permitted; how much room there is does not matter. -/
lemma change_create_file (hnode : d.node? p = some (.file old mode)) :
    d.limits.change d.toFiles (.create p Files.plainMode) =
      if d.limits.forbids d.toFiles (.create p Files.plainMode) then
        .error (.refused .forbidden)
      else .ok (d.set p (.file [] mode)) := by
  have hgain : d.gain? (.create p Files.plainMode) = none := by simp [Files.gain?, hnode]
  have hcreate : d.change (.create p Files.plainMode) = .ok (d.set p (.file [] mode)) := by
    simp only [Files.change, hnode]
  simp only [Limits.change, hcreate, Limits.refusal?, hgain]
  cases d.limits.forbids d.toFiles (.create p Files.plainMode) <;> rfl

/-- A file that may not be opened for writing is not touched. -/
theorem write_forbidden (hnames : d.Names path p) (hnode : d.node? p = some (.file old mode))
    (h : d.limits.forbids d.toFiles (.create p Files.plainMode)) :
    d.write path content = (d.toFiles, false) := by
  simp only [write, hnames.place?, change_create_file hnode, if_pos h]

/-- A file that is opened for writing ends up with as many of the bytes as it has room for. -/
theorem write_permitted (hnames : d.Names path p) (hnode : d.node? p = some (.file old mode))
    (h : d.limits.forbids d.toFiles (.create p Files.plainMode) = false) (content : List UInt8) :
    ∃ files, d.write path content =
        (files, d.limits.fits (d.set p (.file [] mode)) p content) ∧
      d.Put files p (some (.file (d.limits.fitting (d.set p (.file [] mode)) p content) mode)) := by
  have hemptied : d.Put (d.set p (.file [] mode)) p (some (.file [] mode)) :=
    Files.put_set _ (by simp [hnode])
  obtain ⟨files, hwrite, hput⟩ := Files.change_write hemptied.at
    (d.limits.fitting (d.set p (.file [] mode)) p content)
  refine ⟨files, ?_, hemptied.trans hput⟩
  simp only [write, hnames.place?, change_create_file hnode, h, Bool.false_eq_true, if_false,
    hwrite]

end Disk

namespace Cli

variable {d : Disk} {path text : String} {p : Place}

/-- A text is read just where a path names a file with its bytes that may be read. -/
theorem readText_eq_ok_iff : readText d path = .ok text ↔ ∃ p mode, d.Holds path p mode text := by
  have hread : readText d path = .ok text ↔ d.read? path = some (Text.utf8 text.toList) := by
    simp only [readText]
    cases hbytes : d.read? path with
    | none => simp
    | some bytes =>
      simp only [Option.bind_some, Option.some.injEq, ← Text.fromUTF8?_eq_some_iff]
      cases String.fromUTF8? ⟨bytes.toArray⟩ <;> simp
  rw [hread, Disk.read?_eq_some_iff]
  constructor
  · rintro ⟨p, mode, hnames, hnode, hshown⟩
    exact ⟨p, mode, hnames, hnode, hshown⟩
  · rintro ⟨p, mode, h⟩
    exact ⟨p, mode, h.names, h.node, h.shown⟩

/-- The findings about the file at a place, their paths taken from `root` on, each with the line of
the document it is about. -/
def findingsAt (d : Disk) (root : String) (place : Place) (found : List Diagnostic) :
    List (Diagnostic × Nat) :=
  (found.filter fun f => d.Names (Path.join root f.file) place).map fun f => (f, f.documentLine)

lemma namesFile_eq (d : Disk) (root : String) (place : Place) (reported : String) :
    namesFile d root place reported = decide (d.Names (Path.join root reported) place) :=
  decide_eq_decide.2 Disk.existing?_eq_some_iff

/-- A path names a saved report of these findings. -/
def Reports (d : Disk) (report : String) (found : List Diagnostic) : Prop :=
  ∃ p mode json, d.Holds report p mode json ∧ Report.ofText json = .ok found

lemma reports_of_toOption {mode : Nat} {json : String} {found : List Diagnostic}
    (hholds : d.Holds path p mode json) (h : (Report.ofText json).toOption = some found) :
    Reports d path found := by
  refine ⟨p, mode, json, hholds, ?_⟩
  cases hjson : Report.ofText json with
  | error e => simp [hjson, Except.toOption] at h
  | ok read => simpa [hjson, Except.toOption] using h

/-- There is a directory that the paths of a report start from: the one that is given, or else the
current one. -/
def Rooted (d : Disk) (root? : Option String) : Prop := root? = none → d.isDirectory d.here

variable {report : String} {found : List Diagnostic} {root? : Option String}

theorem Reports.ofReport (h : Reports d report found) (hroot : Rooted d root?) :
    ofReport d report root? = .ok ⟨found, root?.getD (absolute d.here), d.toFiles⟩ := by
  obtain ⟨p, mode, json, hholds, hfound⟩ := h
  have hread : readText d report = .ok json := readText_eq_ok_iff.2 ⟨p, mode, hholds⟩
  simp only [Cli.ofReport, hread, hfound, bind, Except.bind]
  cases root? with
  | none => rw [if_pos (hroot rfl), Option.getD_none]
  | some root => rw [Option.getD_some]

lemma ofReport_eq_error (h : (¬ ∃ found, Reports d report found) ∨ ¬ Rooted d root?) :
    ∃ e, ofReport d report root? = .error e := by
  cases hread : readText d report with
  | error e => exact ⟨e, by simp only [ofReport, hread, bind, Except.bind]⟩
  | ok json =>
    cases hfound : Report.ofText json with
    | error e =>
      exact ⟨"failed to parse " ++ report, by
        simp only [ofReport, hread, hfound, bind, Except.bind]⟩
    | ok found =>
      obtain ⟨p, mode, hholds⟩ := readText_eq_ok_iff.1 hread
      rcases h with hreport | hroot
      · exact absurd ⟨found, p, mode, json, hholds, hfound⟩ hreport
      · obtain ⟨rfl, hnowhere⟩ := Classical.not_imp.1 hroot
        exact ⟨"failed to read the current directory", by
          simp only [ofReport, hread, hfound, bind, Except.bind, if_neg hnowhere]⟩

end Cli

/-- What a batch leaves of a document is what it was unless a candidate was applied. -/
lemma Application.Sound.document_eq {d : Document} {a : Application} (h : a.Sound d)
    (hnone : a.applied = 0) : a.document = d := by
  have htaken : a.taken = [] := List.length_eq_zero_iff.1 hnone
  have hchars := h.chars_eq
  rw [htaken] at hchars
  have hsame : a.document.chars = d.chars := by simpa [Edit.splice] using hchars
  exact congrArg Document.mk hsame

/-- The fixes of findings in a document apply. -/
lemma exists_applyFixes (d : Document) (findings : List (Diagnostic × Nat)) :
    ∃ done, applyFixes d
        ((inspect (Go.parse d.chars).tree d findings).map (·.resolution)) = .ok done ∧
      (done.applied = 0 → done.document = d) := by
  have haccepts : ∀ r ∈ (inspect (Go.parse d.chars).tree d findings).map (·.resolution),
      ∀ es, r.firstEdits? = some es → d.Accepts es := by
    intro r hr es hes
    exact (accepts_inspect (Go.tree_within d.chars) hr hes).1
  obtain ⟨done, hdone, hsound, _⟩ := applyFixes_sound haccepts
  exact ⟨done, hdone, hsound.document_eq⟩

namespace Cli

variable {d : Disk} {host : Host} {a : CheckArguments} {report text : String} {p : Place}
  {mode : Nat} {found : List Diagnostic}

/-- Checking stops in front of the first change if there is no text to check. -/
lemma check_unreadable (h : ¬ ∃ p mode text, d.Holds a.file p mode text) :
    (check d host a).files = d.toFiles ∧ (check d host a).error? ≠ none := by
  cases hread : readText d a.file with
  | ok text =>
    obtain ⟨p, mode, hholds⟩ := readText_eq_ok_iff.1 hread
    exact absurd ⟨p, mode, text, hholds⟩ h
  | error e => simp [check, hread, bind, Except.bind]

lemma check_unreported (h : (¬ ∃ found, Reports d report found) ∨ ¬ Rooted d a.reportRoot?)
    (ha : a.report? = some report) :
    (check d host a).files = d.toFiles ∧ (check d host a).error? ≠ none := by
  obtain ⟨e, he⟩ := ofReport_eq_error h
  cases hread : readText d a.file with
  | error e => simp [check, hread, bind, Except.bind]
  | ok text =>
    cases hplace : d.existing? a.file with
    | none => simp [check, hread, hplace, bind, Except.bind]
    | some place => simp [check, hread, hplace, ha, he, bind, Except.bind]

/-- What a check leaves of the file at a place when a batch applies to it: with its fixes, if they
are asked for and it can be written, and all else as it was. -/
structure Leaves (d : Disk) (left : Result) (file : String) (place : Place) (mode : Nat)
    (apply : Bool) (done : Application) : Prop where
  unchanged : apply = false ∨ done.applied = 0 → left.files = d.toFiles
  error? : left.error? = none ↔
    (apply = true → done.applied ≠ 0 → d.Takes place mode (Text.utf8 done.document.chars))
  fixed : apply = true → left.error? = none →
    d.Put left.files place (some (.file (Text.utf8 done.document.chars) mode))
  /-- A file that may not be written stays as it is, and one with too little room is filled up. -/
  failed : left.error? ≠ none → left.error? = some ("failed to write " ++ file) ∧
    (d.limits.forbids d.toFiles (.create place Files.plainMode) ∧ left.files = d.toFiles ∨
      ∃ n, d.limits.room? (d.set place (.file [] mode)) place = some n ∧
        d.Put left.files place (some (.file ((Text.utf8 done.document.chars).take n) mode)))

/-- Nothing is written if that was not asked for, or if no fix was applied. -/
lemma leaves_unchanged {stdout : String} {apply : Bool} {done : Application}
    (hnode : d.node? p = some (.file (Text.utf8 text.toList) mode))
    (hsame : done.applied = 0 → done.document = Document.ofString text)
    (h : apply = false ∨ done.applied = 0) :
    Leaves d ⟨stdout, d.toFiles, none⟩ a.file p mode apply done where
  unchanged _ := rfl
  error? := by
    rcases h with rfl | hnone
    · simp
    · simp [hnone]
  fixed happly _ := by
    have hnone : done.applied = 0 := h.resolve_left (by simp [happly])
    rw [hsame hnone]
    exact .refl hnode
  failed herror := absurd rfl herror

/-- The result of writing a document that some fixes were applied to. -/
lemma leaves_written {stdout stdout' : String} {done : Application}
    (hnames : d.Names a.file p) (hnode : d.node? p = some (.file (Text.utf8 text.toList) mode))
    (hsome : done.applied ≠ 0) :
    Leaves d
      (match d.write a.file (Text.utf8 done.document.chars) with
        | (files, true) => ⟨stdout, files, none⟩
        | (files, false) => ⟨stdout', files, some ("failed to write " ++ a.file)⟩)
      a.file p mode true done := by
  cases hforbids : d.limits.forbids d.toFiles (.create p Files.plainMode) with
  | true =>
    rw [Disk.write_forbidden hnames hnode hforbids]
    have htakes : ¬ d.Takes p mode (Text.utf8 done.document.chars) := by
      intro h
      cases hforbids.symm.trans h.permitted
    exact {
      unchanged := by simp [hsome]
      error? := by simp [hsome, htakes]
      fixed := by simp
      failed := fun _ => ⟨rfl, .inl ⟨hforbids, rfl⟩⟩ }
  | false =>
    obtain ⟨files, hwrite, hput⟩ :=
      Disk.write_permitted hnames hnode hforbids (Text.utf8 done.document.chars)
    rw [hwrite]
    cases hfits : d.limits.fits (d.set p (.file [] mode)) p (Text.utf8 done.document.chars) with
    | true =>
      rw [Limits.fitting_of_fits hfits] at hput
      have htakes : d.Takes p mode (Text.utf8 done.document.chars) := ⟨hforbids, hfits⟩
      exact {
        unchanged := by simp [hsome]
        error? := by simp [htakes]
        fixed := fun _ _ => hput
        failed := by simp }
    | false =>
      have htakes : ¬ d.Takes p mode (Text.utf8 done.document.chars) := by
        intro h
        cases hfits.symm.trans h.fits
      have hroom := Limits.room?_of_not_fits (Bool.not_eq_true _ ▸ hfits)
      rw [List.prefix_iff_eq_take.1 (Limits.fitting_prefix _ _ _ _)] at hput
      exact {
        unchanged := by simp [hsome]
        error? := by simp [hsome, htakes]
        fixed := by simp
        failed := fun _ => ⟨rfl, .inr ⟨_, hroom, hput⟩⟩ }

lemma check_leaves (host : Host) (ha : a.report? = some report)
    (hholds : d.Holds a.file p mode text) (hreports : Reports d report found)
    (hroot : Rooted d a.reportRoot?) :
    let document := Document.ofString text
    ∃ done, applyFixes document ((inspect (Go.parse document.chars).tree document
        (findingsAt d (a.reportRoot?.getD (absolute d.here)) p found)).map (·.resolution)) =
          .ok done ∧
      Leaves d (check d host a) a.file p mode a.apply done := by
  intro document
  have hread : readText d a.file = .ok text := readText_eq_ok_iff.2 ⟨p, mode, hholds⟩
  have hplace : d.existing? a.file = some p := Disk.existing?_eq_some_iff.2 hholds.names
  obtain ⟨done, hdone, hsame⟩ := exists_applyFixes document
    (findingsAt d (a.reportRoot?.getD (absolute d.here)) p found)
  refine ⟨done, hdone, ?_⟩
  have hbytes : done.document.text.toUTF8.toList = Text.utf8 done.document.chars := by
    rw [Text.toList_toUTF8, Document.text, String.toList_ofList]
  rw [findingsAt] at hdone
  simp only [check, hread, hplace, ha, hreports.ofReport hroot, namesFile_eq, bind, Except.bind]
  simp only [document] at hdone
  rw [hdone]
  cases happly : a.apply with
  | false => exact leaves_unchanged hholds.node hsame (.inl rfl)
  | true =>
    by_cases hnone : done.applied = 0
    · simp only [hnone, if_pos]
      exact leaves_unchanged hholds.node hsame (.inr hnone)
    · simp only [if_neg hnone, hbytes]
      exact leaves_written hholds.names hholds.node hnone

/-- Checking a file against a saved report: where both can be read, the fixes of just those findings
that name the file are applied to it, in the order of the report, if they are asked for, and
checking succeeds if the file can be written; nothing else changes. Where one of them cannot be
read, nothing changes at all. -/
theorem check_report (d : Disk) (host : Host) (a : CheckArguments) (report : String) :
    let left := check d host { a with report? := some report }
    let root := a.reportRoot?.getD (absolute d.here)
    (∀ p mode text found, d.Holds a.file p mode text → Reports d report found →
      Rooted d a.reportRoot? →
      let document := Document.ofString text
      ∃ done, applyFixes document ((inspect (Go.parse document.chars).tree document
          (findingsAt d root p found)).map (·.resolution)) = .ok done ∧
        Leaves d left a.file p mode a.apply done) ∧
    ((¬ ∃ p mode text, d.Holds a.file p mode text) ∨ (¬ ∃ found, Reports d report found) ∨
        ¬ Rooted d a.reportRoot? →
      left.files = d.toFiles ∧ left.error? ≠ none) := by
  intro left root
  constructor
  · intro p mode text found hholds hreports hroot
    exact check_leaves host (a := { a with report? := some report }) rfl hholds hreports hroot
  · rintro (hfile | hreport)
    · exact check_unreadable hfile
    · exact check_unreported (a := { a with report? := some report }) hreport rfl

/-- Of two findings one names the file, by a link: the directive for it is put in, and none for the
other one. -/
theorem check_report_other_path :
    let text := "package a\n\nvar x = 1\n"
    let json := "[[[\"lll\",\"\",[\"b.go\",1]],[\"lll\",\"\",[\"./c/a.go\",3]]]]"
    let d : Disk := {
      nodes := [(["a.go"], .file (Text.utf8 text.toList) 0o644),
        (["r.json"], .file (Text.utf8 json.toList) 0o644)]
      here := []
      links := [(["c"], "/")] }
    let found : List Diagnostic :=
      [⟨"lll", "", "b.go", 1, 0, none, "lll"⟩, ⟨"lll", "", "./c/a.go", 3, 0, none, "lll"⟩]
    let a : CheckArguments := ⟨"a.go", "golangci-lint", none, none, true, none⟩
    let left := check d { system := "linux", architecture := "x86_64", tempDirectory := "/tmp" }
      { a with report? := some "r.json" }
    d.Holds a.file ["a.go"] 0o644 text ∧ Reports d "r.json" found ∧ Rooted d a.reportRoot? ∧
      ∃ done, Leaves d left a.file ["a.go"] 0o644 true done ∧
        done.document.text = "package a\n\n//nolint:lll\nvar x = 1\n" := by
  intro text json d found a left
  have hholds : d.Holds a.file ["a.go"] 0o644 text := ⟨by decide +kernel, rfl, rfl⟩
  have hreport : d.Holds "r.json" ["r.json"] 0o644 json := ⟨by decide +kernel, rfl, rfl⟩
  have hreports : Reports d "r.json" found := reports_of_toOption hreport (by decide +kernel)
  have hrooted : Rooted d a.reportRoot? := fun _ => by decide +kernel
  obtain ⟨done, hdone, hleaves⟩ :=
    (check_report d _ a "r.json").1 ["a.go"] 0o644 text found hholds hreports hrooted
  refine ⟨hholds, hreports, hrooted, done, hleaves, ?_⟩
  have htext : (applyFixes (Document.ofString text) ((inspect (Go.parse text.toList).tree
      (Document.ofString text) (findingsAt d (absolute d.here) ["a.go"] found)).map
        (·.resolution))).toOption.map (·.document.text) =
      some "package a\n\n//nolint:lll\nvar x = 1\n" := by decide +kernel
  have hsame := congrArg (fun x => x.toOption.map (·.document.text)) hdone
  exact Option.some.inj (hsame.symm.trans htext)

/-- A file that may not be opened for writing keeps its text, although a fix applies to it. -/
theorem check_report_refused :
    let text := "Linux version 6.1.0\n"
    let json := "\x7b\"Issues\":[\x7b\"FromLinter\":\"lll\",\"Text\":\"line is 121 characters\"," ++
      "\"Pos\":\x7b\"Filename\":\"/proc/version\",\"Line\":1,\"Column\":0\x7d\x7d]\x7d"
    let d := diskOf builtFor ⟨[(["r.json"], .file (Text.utf8 json.toList) 0o644)], []⟩
    let found : List Diagnostic :=
      [⟨"lll", "line is 121 characters", "/proc/version", 1, 0, none, "lll"⟩]
    let a : CheckArguments := ⟨"/proc/version", "golangci-lint", none, none, true, none⟩
    let left := check d builtFor { a with report? := some "r.json" }
    d.Holds a.file ["proc", "version"] 0o444 text ∧ Reports d "r.json" found ∧
      Rooted d a.reportRoot? ∧ left.files = d.toFiles ∧
      left.error? = some "failed to write /proc/version" ∧
      ∃ done, applyFixes (Document.ofString text) ((inspect (Go.parse text.toList).tree
          (Document.ofString text) (findingsAt d (absolute d.here) ["proc", "version"] found)).map
            (·.resolution)) = .ok done ∧
        done.document.text = "//nolint:lll\nLinux version 6.1.0\n" := by
  intro text json d found a left
  have hholds : d.Holds a.file ["proc", "version"] 0o444 text :=
    ⟨by decide +kernel, by decide +kernel, rfl⟩
  have hreport : d.Holds "r.json" ["r.json"] 0o644 json :=
    ⟨by decide +kernel, by decide +kernel, rfl⟩
  have hreports : Reports d "r.json" found := reports_of_toOption hreport (by decide +kernel)
  have hrooted : Rooted d a.reportRoot? := fun _ => by decide +kernel
  obtain ⟨done, hdone, hleaves⟩ :=
    check_leaves builtFor (a := { a with report? := some "r.json" }) rfl hholds hreports hrooted
  have hfixed : (applyFixes (Document.ofString text) ((inspect (Go.parse text.toList).tree
      (Document.ofString text) (findingsAt d (absolute d.here) ["proc", "version"] found)).map
        (·.resolution))).toOption.map (fun done => (done.applied, done.document.text)) =
      some (1, "//nolint:lll\nLinux version 6.1.0\n") := by decide +kernel
  have hsame := congrArg (fun x => x.toOption.map fun done => (done.applied, done.document.text))
    hdone
  obtain ⟨happlied, htext⟩ := Prod.mk.inj (Option.some.inj (hsame.symm.trans hfixed))
  have hforbids : d.limits.forbids d.toFiles (.create ["proc", "version"] Files.plainMode) =
      true := by decide +kernel
  have herror : left.error? ≠ none := by
    intro hnone
    have htakes := hleaves.error?.1 hnone rfl (by rw [happlied]; decide)
    cases hforbids.symm.trans htakes.permitted
  obtain ⟨hmessage, ⟨-, hfiles⟩ | ⟨n, hroom, -⟩⟩ := hleaves.failed herror
  · exact ⟨hholds, hreports, hrooted, hfiles, hmessage, done, hdone, htext⟩
  · cases hroom

end Cli
end Mend
