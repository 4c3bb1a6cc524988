import Mend.Fix.Strategy
import Mend.Proofs.Go.Leaves
import Mend.Proofs.Go.Origins
import Mend.Proofs.Resolution

/-! Where the name of a package stands in its clause, and where a suffix for it goes. -/
namespace Mend

namespace Go

variable {text : List Char}

/-- A package clause: the keyword, the name behind it, and the comments between the two. -/
structure Node.PackageClause (clause : Node) (comments : List Node) (name : Node) : Prop where
  children : ∃ keyword, keyword.kind = .fixed "package".toList ∧
    clause.children = keyword :: (comments ++ [name])
  kind : name.kind = .packageIdentifier
  between : ∀ c ∈ comments, c.kind = .comment
  apart : ∀ c ∈ comments, c.span.start < c.span.stop ∧ c.span.stop ≤ name.span.start

def packageClause : Grammar.P :=
  .seq (.fixed "package") (.name .packageIdentifier)

theorem exists_packageClause (hvalid : (parse text).hasErrors = false) {c : Cursor}
    (hreach : (parse text).tree.Reachable c) (hkind : c.node.kind = .packageClause) :
    ∃ comments name, c.node.PackageClause comments name := by
  obtain ⟨p, hp, r, a, s, hr, hreads, hclause⟩ :=
    madeOf_of_reachable [packageClause] hvalid rfl (by decide) (by decide +kernel)
      hreach hkind
  obtain rfl := List.mem_singleton.1 hp
  cases hreads with
  | seq hkeyword hname =>
    cases hkeyword with
    | @token _ _ _ _ before keyword s hkeyword =>
      cases hname with
      | @token _ _ _ _ comments name _ hname =>
        obtain ⟨hr', -, -, -, hbefore⟩ := hr.token? hkeyword
        obtain ⟨-, -, -, hrow, hcomments⟩ := hr'.token? hname
        obtain ⟨-, -, -, -, hacc, -, -⟩ := Reading.eq_of_token? hkeyword
        have hk : (Node.ofRead none keyword).kind = .fixed "package".toList :=
          Survey.kind_ofRead hacc rfl
        rw [List.append_assoc] at hclause
        obtain ⟨hchildren, -⟩ := hclause.of_append (fun c hc => (hbefore c hc).1) (by simp [hk])
        exact ⟨comments, _, ⟨_, hk, hchildren⟩, rfl, fun c hc => (hcomments c hc).1,
          fun c hc => ⟨(hcomments c hc).2.2, (hrow.bounds c hc).2.2⟩⟩

lemma Cursor.kind_of_packageClause {c : Cursor} (h : c.nodeKind = .packageClause) :
    c.node.kind = .packageClause :=
  List.mem_singleton.1 (kind_mem (h ▸ rfl))

/-- What passes for the name of a package is what comes first behind the keyword. -/
lemma Cursor.name?_packageClause {c : Cursor} {comments : List Node} {name : Node}
    (hkind : c.node.kind = .packageClause) (h : c.node.PackageClause comments name) :
    ∃ first, (comments ++ [name]).head? = some first ∧ c.name? = some (c.child first) := by
  obtain ⟨keyword, hkeyword, hchildren⟩ := h.children
  have hkey : keyword.isNamed = false := by simp [Node.isNamed, hkeyword]
  cases comments with
  | nil =>
    have hnamed : name.isNamed = true := by simp [Node.isNamed, h.kind]
    exact ⟨name, rfl, by simp [Cursor.name?, hkind, hchildren, hkey, hnamed]⟩
  | cons first rest =>
    have hnamed : first.isNamed = true := by simp [Node.isNamed, h.between first (by simp)]
    exact ⟨first, rfl, by simp [Cursor.name?, hkind, hchildren, hkey, hnamed]⟩

/-- What stands at a node of a tree. -/
lemma text_tree (text : List Char) (c : Cursor) :
    (parse text).tree.text c = Document.slice ⟨text⟩ c.node.span := by
  simp [File.tree, Document.slice]

end Go

/-- To put what stands at a place and more in that place is to put the rest behind it. -/
lemma Document.apply_extending {d : Document} {s : Span} (h : s.Within d.length) (suffix : String) :
    d.apply [⟨s, String.ofList (d.slice s) ++ suffix⟩] =
      .ok ⟨d.chars.take s.stop ++ suffix.toList ++ d.chars.drop s.stop⟩ := by
  have hfront : d.chars.take s.start ++ d.slice s = d.chars.take s.stop := by
    have htake : (d.chars.take s.stop).take s.start = d.chars.take s.start := by
      rw [List.take_take, Nat.min_eq_left h.1]
    rw [slice, ← htake, List.take_append_drop]
  rw [apply_singleton h, String.toList_append, String.toList_ofList, ← List.append_assoc, hfront]

namespace Site

variable {c : Candidate} {r : Resolution}

lemma offers_externalTestPackage {ν : Type} {s : Site ν}
    (hc : c ∈ s.externalTestPackage.candidates) :
    ∃ clause name, s.locate? .packageClause = some clause ∧ s.tree.name? clause = some name ∧
      c.edits? = some [⟨s.tree.span name, String.ofList (s.tree.text name) ++ "_test"⟩] := by
  unfold externalTestPackage at hc
  split at hc
  · rename_i name hname
    obtain ⟨clause, hclause, hname⟩ := Option.bind_eq_some_iff.1 hname
    obtain rfl := List.mem_singleton.1 hc
    exact ⟨clause, name, hclause, hname, rfl⟩
  · cases hc

variable {text : List Char} {diag : Diagnostic} {line : Nat}

/-- The suffix for the package of a test goes behind whatever comes first behind the keyword, and so
behind the name just where no comment stands in front of the name. -/
theorem package_suffix_iff (hvalid : (Go.parse text).hasErrors = false)
    (hrule : diag.rule = "testpackage")
    (hr : (Site.mk (Go.parse text).tree ⟨text⟩ diag line).resolve = .ok r)
    (hc : c ∈ r.candidates) :
    ∃ clause comments name first e d,
      (Site.mk (Go.parse text).tree ⟨text⟩ diag line).locate? .packageClause = some clause ∧
      clause.node.PackageClause comments name ∧ (comments ++ [name]).head? = some first ∧
      c.edits? = some [e] ∧ (Document.mk text).apply [e] = .ok d ∧ e.span = first.span ∧
      d.chars = text.take first.span.stop ++ "_test".toList ++ text.drop first.span.stop ∧
      ((e.span = name.span ∧
          d.chars = text.take name.span.stop ++ "_test".toList ++ text.drop name.span.stop) ↔
        comments = []) := by
  have hoffer : (Site.mk (Go.parse text).tree ⟨text⟩ diag line).externalTestPackage = r := by
    have hstrategy : Strategy.ofRule diag.rule = .externalTestPackage := by rw [hrule]; rfl
    simpa [Site.resolve, hstrategy, Strategy.resolveAt] using hr
  obtain ⟨clause, named, hclause, hnamed, hedits⟩ := offers_externalTestPackage (hoffer ▸ hc)
  have hreach := Tree.Reachable.locate? hclause
  have hkind := Go.Cursor.kind_of_packageClause (Tree.kind_of_locate? hclause)
  obtain ⟨comments, name, hshape⟩ := Go.exists_packageClause hvalid hreach hkind
  obtain ⟨first, hfirst, hname⟩ := Go.Cursor.name?_packageClause hkind hshape
  obtain rfl := Option.some.inj (hnamed.symm.trans hname)
  rw [Go.text_tree] at hedits
  refine ⟨clause, comments, name, first, _, _, hclause, hshape, hfirst, hedits,
    Document.apply_extending (Go.tree_within text _ (hreach.name hnamed)) _, rfl, rfl, ?_⟩
  cases comments with
  | nil =>
    obtain rfl := Option.some.inj hfirst
    exact ⟨fun _ => rfl, fun _ => ⟨rfl, rfl⟩⟩
  | cons comment rest =>
    -- a comment in front of the name ends there, so that its place is another one
    obtain rfl := Option.some.inj hfirst
    obtain ⟨hne, hle⟩ := hshape.apart comment (by simp)
    constructor
    · rintro ⟨hspan, -⟩
      have hspan : comment.span = name.span := hspan
      rw [hspan] at hne hle
      omega
    · intro h
      cases h

/-- A package clause without comments. -/
theorem package_suffix_behind_name :
    let text := "package a\n\nvar x = 1\n".toList
    let diag : Diagnostic :=
      ⟨"testpackage", "package should be a_test", "a.go", 1, 9, none, "testpackage"⟩
    let s : Site Go.Cursor := ⟨(Go.parse text).tree, ⟨text⟩, diag, 0⟩
    ∃ clause name d, s.locate? .packageClause = some clause ∧
      clause.node.PackageClause [] name ∧ name.span = ⟨8, 9⟩ ∧
      s.resolve = .ok (.single
        ⟨"Rename package to 'a_test'", .edits [⟨⟨8, 9⟩, "a_test"⟩]⟩ (some ⟨8, 9⟩)) ∧
      s.document.apply [⟨⟨8, 9⟩, "a_test"⟩] = .ok d ∧
      d.chars = "package a_test\n\nvar x = 1\n".toList := by
  intro text diag s
  have hvalid : (Go.parse text).hasErrors = false := by decide +kernel
  let c : Candidate := ⟨"Rename package to 'a_test'", .edits [⟨⟨8, 9⟩, "a_test"⟩]⟩
  have hoffer : s.externalTestPackage = .single c (some ⟨8, 9⟩) := by decide +kernel
  have hresolve : s.resolve = .ok (.single c (some ⟨8, 9⟩)) := congrArg Except.ok hoffer
  have hlength : (s.locate? .packageClause).map (fun c => c.node.children.length) = some 2 := by
    decide +kernel
  obtain ⟨clause, comments, name, first, e, d, hclause, hshape, hfirst, hedits, happly, hspan,
    hchars, -⟩ := package_suffix_iff hvalid rfl hresolve (List.mem_singleton.2 rfl)
  cases hedits
  obtain ⟨keyword, -, hchildren⟩ := hshape.children
  obtain rfl : comments = [] := by
    rw [hclause, Option.map_some, hchildren] at hlength
    simpa using hlength
  obtain rfl := Option.some.inj hfirst
  rw [← hspan] at hchars
  exact ⟨clause, _, d, hclause, hshape, hspan.symm, hresolve, happly, hchars.trans (by decide)⟩

/-- A comment between the keyword and the name: the suffix goes behind the comment. -/
theorem package_suffix_behind_comment :
    let text := "package /* c */ a\n".toList
    let diag : Diagnostic :=
      ⟨"testpackage", "package should be a_test", "a.go", 1, 17, none, "testpackage"⟩
    let s : Site Go.Cursor := ⟨(Go.parse text).tree, ⟨text⟩, diag, 0⟩
    (Go.parse text).hasErrors = false ∧ ∃ clause comments name d,
      s.locate? .packageClause = some clause ∧ clause.node.PackageClause comments name ∧
      name.span = ⟨16, 17⟩ ∧
      s.resolve = .ok (.single
        ⟨"Rename package to '/* c */_test'", .edits [⟨⟨8, 15⟩, "/* c */_test"⟩]⟩
        (some ⟨8, 15⟩)) ∧
      s.document.apply [⟨⟨8, 15⟩, "/* c */_test"⟩] = .ok d ∧
      d.chars = "package /* c */_test a\n".toList := by
  intro text diag s
  have hvalid : (Go.parse text).hasErrors = false := by decide +kernel
  let c : Candidate :=
    ⟨"Rename package to '/* c */_test'", .edits [⟨⟨8, 15⟩, "/* c */_test"⟩]⟩
  have hoffer : s.externalTestPackage = .single c (some ⟨8, 15⟩) := by decide +kernel
  have hlast : (s.locate? .packageClause).map (fun c => c.node.children.getLast?.map Go.Node.span) =
      some (some ⟨16, 17⟩) := by
    decide +kernel
  obtain ⟨clause, hclause, hlast⟩ := Option.map_eq_some_iff.1 hlast
  obtain ⟨comments, name, hshape⟩ := Go.exists_packageClause hvalid (Tree.Reachable.locate? hclause)
    (Go.Cursor.kind_of_packageClause (Tree.kind_of_locate? hclause))
  obtain ⟨keyword, -, hchildren⟩ := hshape.children
  have hname : name.span = ⟨16, 17⟩ := by
    rw [hchildren, ← List.cons_append, List.getLast?_concat] at hlast
    exact Option.some.inj hlast
  refine ⟨hvalid, clause, comments, name, _, hclause, hshape, hname,
    congrArg Except.ok hoffer, Document.apply_singleton (by decide +kernel), ?_⟩
  decide

end Site
end Mend
