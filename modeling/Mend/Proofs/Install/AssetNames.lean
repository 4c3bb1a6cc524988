import Mend.Proofs.Install.Course

/-! The asset that a release has for a platform. Its name says for which version and which platform
it is, whatever the version looks like: it is read from its right end, where few texts can stand. -/
namespace Mend

namespace Platform

/-- What stands behind the version in the name of the asset for a platform. -/
def ending (p : Platform) : List Char :=
  '-' :: (p.system.tag.toList ++
    '-' :: (p.architecture.tag.toList ++ '.' :: p.format.suffix.toList))

lemma toList_assetName (p : Platform) (version : String) :
    (p.assetName version).toList = linterName.toList ++ '-' :: (version.toList ++ p.ending) := by
  simp [assetName, ending]

/-- The platforms, with Linux for the distributions inside Windows. -/
def plain : List Platform :=
  [.windows, .linux, .macos].flatMap fun system => [.x86, .amd64, .arm64].map (⟨system, ·⟩)

/-- A distribution has the assets of Linux. -/
lemma exists_plain (p : Platform) :
    ∃ r ∈ plain, r.ending = p.ending ∧ r.system.tag = p.system.tag ∧
      r.architecture = p.architecture := by
  rcases p with ⟨system, architecture⟩
  have hmem : ∀ system ∈ [OperatingSystem.windows, .linux, .macos],
      ⟨system, architecture⟩ ∈ plain := by
    cases architecture <;> decide
  cases system with
  | wsl d => exact ⟨⟨.linux, architecture⟩, hmem _ (by decide), rfl, rfl, rfl⟩
  | windows | linux | macos => exact ⟨_, hmem _ (by decide), rfl, rfl, rfl⟩

/-- None of these endings ends in that of another tag or another architecture. -/
lemma plain_apart : ∀ r ∈ plain, ∀ s ∈ plain, r.ending <:+ s.ending →
    r.system.tag = s.system.tag ∧ r.architecture = s.architecture := by
  decide

lemma of_suffix {p q : Platform} (h : p.ending <:+ q.ending) :
    p.system.tag = q.system.tag ∧ p.architecture = q.architecture := by
  obtain ⟨r, hr, hending, htag, harchitecture⟩ := p.exists_plain
  obtain ⟨s, hs, hending', htag', harchitecture'⟩ := q.exists_plain
  rw [← hending, ← hending'] at h
  rw [← htag, ← htag', ← harchitecture, ← harchitecture']
  exact plain_apart r hr s hs h

lemma format_eq (p : Platform) : p.format = if p.system.tag = "windows" then .zip else .tarGz := by
  rcases p with ⟨_ | _ | _ | d, architecture⟩ <;> rfl

lemma ending_congr {p q : Platform} (htag : p.system.tag = q.system.tag)
    (harchitecture : p.architecture = q.architecture) : p.ending = q.ending := by
  rw [ending, ending, format_eq, format_eq, htag, harchitecture]

theorem assetName_inj {p q : Platform} {v w : String} :
    p.assetName v = q.assetName w ↔
      v = w ∧ p.system.tag = q.system.tag ∧ p.architecture = q.architecture := by
  rw [← String.toList_inj, toList_assetName, toList_assetName]
  constructor
  · intro h
    have hrest : v.toList ++ p.ending = w.toList ++ q.ending := by simpa using h
    have hsame : p.system.tag = q.system.tag ∧ p.architecture = q.architecture := by
      rcases List.suffix_or_suffix_of_suffix ⟨_, hrest⟩ (List.suffix_append w.toList q.ending)
        with hsuffix | hsuffix
      · exact of_suffix hsuffix
      · exact ⟨(of_suffix hsuffix).1.symm, (of_suffix hsuffix).2.symm⟩
    rw [ending_congr hsame.1 hsame.2, List.append_cancel_right_eq] at hrest
    exact ⟨String.toList_inj.1 hrest, hsame⟩
  · rintro ⟨rfl, htag, harchitecture⟩
    rw [ending_congr htag harchitecture]

end Platform

namespace Release

variable {r : Release} {name version : String} {a : Asset} {e : InstallError}

theorem version?_eq_some :
    r.version? = some version ↔ version ≠ "" ∧ ∃ c, r.tag.toList = c :: version.toList := by
  rw [version?, ne_eq, ← String.toList_inj, String.toList_empty]
  rcases r.tag.toList with _ | ⟨c, _ | ⟨c', cs⟩⟩
  · simp
  · simp
  · show some (String.ofList (c' :: cs)) = some version ↔ _
    rw [Option.some.injEq, ← String.toList_inj, String.toList_ofList]
    simp only [List.cons.injEq, exists_eq_left']
    exact ⟨fun h => ⟨by simp [← h], h⟩, And.right⟩

theorem exists_version?_iff : (∃ version, r.version? = some version) ↔ 2 ≤ r.tag.length := by
  rw [version?, ← String.length_toList]
  rcases r.tag.toList with _ | ⟨c, _ | ⟨c', cs⟩⟩ <;> simp

/-- How many assets have a name. -/
def countNamed (r : Release) (name : String) : Nat := r.assets.countP (·.name = name)

/-- The asset stands somewhere among those of the release, and no other one there has its name. -/
def HasOnly (r : Release) (name : String) (a : Asset) : Prop :=
  ∃ before after, r.assets = before ++ a :: after ∧ a.name = name ∧
    ∀ b ∈ before ++ after, b.name ≠ name

lemma filter_eq_iff : r.assets.filter (·.name = name) = [a] ↔ r.HasOnly name a := by
  rw [List.filter_eq_cons_iff]
  simp only [List.filter_eq_nil_iff, HasOnly, List.mem_append, decide_eq_true_eq]
  grind

theorem select_ok_iff : r.select name = .ok a ↔ r.HasOnly name a := by
  rw [← filter_eq_iff]
  refine ⟨select_eq_ok, fun h => ?_⟩
  rw [select, h]

theorem select_error_iff :
    r.select name = .error e ↔
      r.countNamed name ≠ 1 ∧ e = .assetMismatch name (r.countNamed name) := by
  rw [countNamed, List.countP_eq_length_filter, select]
  split
  · next h => simp [h]
  · next hne =>
    have hlength : (r.assets.filter (·.name = name)).length ≠ 1 := fun h => by
      obtain ⟨a, ha⟩ := List.length_eq_one_iff.1 h
      exact hne a ha
    rw [Except.error.injEq, eq_comm, and_iff_right hlength]

/-- The name of an asset tells the version and the platform it is for. The asset of a name is taken
from a release when it is the only one there of that name, and the error carries the number of those
there are otherwise; so an asset taken for a version and a platform is for no other ones. -/
theorem select_fits :
    (∀ (p q : Platform) (v w : String), p.assetName v = q.assetName w ↔
      v = w ∧ p.system.tag = q.system.tag ∧ p.architecture = q.architecture) ∧
    (∀ (r : Release) (name : String),
      ((∃ a, r.select name = .ok a) ↔ r.countNamed name = 1) ∧
      (∀ a, r.select name = .ok a ↔ r.HasOnly name a) ∧
      ∀ e, r.select name = .error e ↔
        r.countNamed name ≠ 1 ∧ e = .assetMismatch name (r.countNamed name)) ∧
    (∀ (r : Release) (p : Platform) (v : String) (a : Asset),
      r.version? = some v ∧ r.select (p.assetName v) = .ok a →
        ∀ (q : Platform) (w : String), a.name = q.assetName w ↔
          w = v ∧ q.system.tag = p.system.tag ∧ q.architecture = p.architecture) ∧
    ∀ r : Release,
      (∀ v, r.version? = some v ↔ v ≠ "" ∧ ∃ c, r.tag.toList = c :: v.toList) ∧
      ((∃ v, r.version? = some v) ↔ 2 ≤ r.tag.length) := by
  refine ⟨fun p q v w => Platform.assetName_inj, fun r name => ⟨?_, fun a => select_ok_iff,
    fun e => select_error_iff⟩, ?_, fun r => ⟨fun v => version?_eq_some, exists_version?_iff⟩⟩
  · rw [countNamed, List.countP_eq_length_filter, List.length_eq_one_iff]
    simp only [select_ok_iff, filter_eq_iff]
  · rintro r p v a ⟨-, hselect⟩ q w
    obtain ⟨before, after, -, hname, -⟩ := select_ok_iff.1 hselect
    rw [hname, Platform.assetName_inj]
    simp only [eq_comm]

end Release
end Mend
