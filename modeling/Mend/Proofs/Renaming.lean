import Mend.Fix.Naming
import Mend.Proofs.Go.Sketches
import Mend.Proofs.Resolution

/-! Which names may be replaced by the blank identifier. Go has more ways to declare a name than the
tree tells apart from uses, and those that it does not tell apart are listed here. -/
namespace Mend

namespace Go

/-- The nodes that declare the identifiers they consist of. -/
def Kind.declares : Kind → Bool
  | .varSpec | .constSpec | .parameterDeclaration | .variadicParameterDeclaration
  | .typeParameterDeclaration | .functionDeclaration => true
  | _ => false

/-- The nodes that may have `:=` in them. -/
def Kind.defines : Kind → Bool
  | .shortVarDeclaration | .rangeClause | .receiveStatement | .typeSwitchStatement => true
  | _ => false

def Kind.define : Kind := .fixed [':', '=']

/-- A list of expressions that stands to the left of `:=` in a statement. -/
structure Node.Defined (list statement : Node) : Prop where
  kind : list.kind = .expressionList
  define : ∃ before after, statement.children = before ++ list :: after ∧
    ∃ m ∈ after, m.kind = .define

namespace Cursor

/-- Whether the identifier at a cursor is a name that is declared there: of a variable, a constant,
a parameter, a type parameter or a function, or one to the left of `:=`. -/
def Declared (c : Cursor) : Prop :=
  (∃ parent above, c.around = parent :: above ∧ parent.kind.declares = true) ∨
    ∃ list statement above, c.around = list :: statement :: above ∧ list.Defined statement

/-- Whether that name is of a type parameter, of the case of a select statement, or of the guard of
a type switch. -/
def Overlooked (c : Cursor) : Prop :=
  (∃ parent above, c.around = parent :: above ∧ parent.kind = .typeParameterDeclaration) ∨
    ∃ list statement above, c.around = list :: statement :: above ∧ list.Defined statement ∧
      (statement.kind = .receiveStatement ∨ statement.kind = .typeSwitchStatement)

end Cursor

/-- A survey of names, lists of expressions and `:=`. -/
def naming : Survey Symbol where
  seen kind := kind = .identifier || kind = .expressionList || kind = .define
  gives
    | .expression | .binary _ | .unary | .primary | .operand => .single ⟨none, .identifier⟩
    | .expressionList => .single ⟨none, .expressionList⟩
    | _ => .nil
  takes
    | .suffix => .single ⟨none, .identifier⟩
    | _ => .nil
  allows kind S :=
    (!kind.declares || S.one.all fun t => t.kind ≠ .identifier || t.role? = some .name) &&
    (kind.defines || S.one.all fun t => t.kind ≠ .define) &&
    (!(kind = .shortVarDeclaration || kind = .rangeClause) || S.two.all fun p =>
      p.1.kind ≠ .expressionList || p.2.kind ≠ .define || p.1.role? = some .left)

theorem naming_covers : naming.Covers Grammar.rule :=
  Survey.covers_of_symbols rfl (fun _ => ⟨rfl, rfl⟩) (by decide +kernel)

section

variable {n m : Node}

/-- What a declaration of identifiers may consist of. -/
lemma exists_sketch (h : naming.Drawn n) (hm : m ∈ n.children) (hn : n.kind.declares = true) :
    ∃ S, naming.allows n.kind S = true ∧ S.Admits (naming.tags n.children) := by
  rcases h with hnil | ⟨hkind, -⟩ | h
  · rw [hnil] at hm
    cases hm
  · rcases hkind with hk | hk <;> simp [hk, Kind.declares] at hn
  · exact h

/-- The identifiers in a declaration are the names it declares. -/
lemma role_of_declares (h : naming.Drawn n) (hn : n.kind.declares = true) (hm : m ∈ n.children)
    (hk : m.kind = .identifier) : m.role? = some .name := by
  obtain ⟨S, hallows, hadmits⟩ := exists_sketch h hm hn
  have hone := hadmits.1 _ (Survey.tag_mem hm (by simp [naming, hk]))
  simp only [naming, Bool.and_eq_true, hn, Bool.not_true, Bool.false_or, List.all_eq_true]
    at hallows
  simpa [Node.tag, hk] using hallows.1.1 _ hone

/-- Where `:=` stands, and what a list to the left of it is in a short declaration and in a range
clause. -/
lemma of_defined {list statement : Node} (h : naming.Drawn statement)
    (hd : list.Defined statement) (hlist : list.children ≠ []) :
    statement.kind.defines = true ∧
      (statement.kind = .shortVarDeclaration ∨ statement.kind = .rangeClause →
        list.role? = some .left) := by
  obtain ⟨hkind, before, after, hchildren, m, hm, hdefine⟩ := hd
  have hmem : list ∈ statement.children := by simp [hchildren]
  have hmem' : m ∈ statement.children := by simp [hchildren, hm]
  obtain ⟨S, hallows, hadmits⟩ := h.exists_sketch hmem hlist
  have hseen : naming.seen m.kind = true := by simp [naming, hdefine]
  have hpair : (list.tag, m.tag) ∈ S.two :=
    Survey.pair_of_append (hchildren ▸ hadmits) hm (by simp [naming, hkind]) hseen
  simp only [naming, Bool.and_eq_true] at hallows
  obtain ⟨⟨_, hdefines⟩, hleft⟩ := hallows
  constructor
  · rw [Bool.or_eq_true, List.all_eq_true] at hdefines
    refine hdefines.resolve_right fun hall => ?_
    simpa [Node.tag, hdefine] using hall _ (hadmits.1 _ (Survey.tag_mem hmem' hseen))
  · intro hstatement
    rw [Bool.or_eq_true, List.all_eq_true] at hleft
    have hpair := hleft.resolve_left (by rcases hstatement with h | h <;> simp [h])
      _ hpair
    simpa [Node.tag, hkind, hdefine] using hpair

end

/-- An identifier that passes for a use is declared there just where that is overlooked. -/
theorem Cursor.declared_iff_overlooked {text : List Char} (hvalid : (parse text).hasErrors = false)
    {c : Cursor} (hreach : (parse text).tree.Reachable c) (hkind : c.nodeKind = .reference) :
    c.Declared ↔ c.Overlooked := by
  obtain ⟨hid, hdef⟩ : c.node.kind = .identifier ∧ c.isDefinition = false := by
    unfold nodeKind at hkind
    split at hkind <;> simp_all
  have hdrawn : ∀ n ∈ c.around, naming.Drawn n := fun n hn =>
    (File.all_of_reachable (naming_covers.root_drawn rfl hvalid) hreach n (by simp [hn])).self
  have hlinked := linked_of_reachable hreach
  obtain ⟨node, around⟩ := c
  constructor
  · rintro (⟨parent, above, rfl, hparent⟩ | ⟨list, statement, above, rfl, hd⟩)
    · cases hlinked with
      | cons_cons hnode _ =>
        have hrole := role_of_declares (hdrawn parent (by simp)) hparent hnode hid
        refine .inl ⟨parent, above, rfl, ?_⟩
        unfold isDefinition at hdef
        cases hk : parent.kind <;> simp_all [Kind.declares]
    · cases hlinked with
      | cons_cons hnode htail =>
        cases htail with
        | cons_cons hlist _ =>
          obtain ⟨hdefines, hleft⟩ := of_defined (hdrawn statement (by simp)) hd
            (List.ne_nil_of_mem hnode)
          refine .inr ⟨list, statement, above, rfl, hd, ?_⟩
          simp only [isDefinition, hd.kind, List.head?_cons] at hdef
          have hany : statement.children.any (fun n => n.kind = .fixed [':', '=']) = true := by
            obtain ⟨before, after, hchildren, m, hm, hdefine⟩ := hd.define
            exact List.any_eq_true.2
              ⟨m, by simp [hchildren, hm], by simpa [Kind.define] using hdefine⟩
          cases hk : statement.kind with
          | receiveStatement => exact .inl rfl
          | typeSwitchStatement => exact .inr rfl
          | shortVarDeclaration => simp [hk, hleft (.inl hk)] at hdef
          | rangeClause => simp [hk, hleft (.inr hk), hany] at hdef
          | _ => simp [hk, Kind.defines] at hdefines
  · rintro (⟨parent, above, rfl, hparent⟩ | ⟨list, statement, above, rfl, hd, _⟩)
    · exact .inl ⟨parent, above, rfl, by rw [hparent]; rfl⟩
    · exact .inr ⟨list, statement, above, rfl, hd⟩

/-- A list that stands in front of `:=` in a statement with no other list. -/
lemma Node.defined_of_kinds {list statement : Node} {rest : List Kind}
    (hmem : list ∈ statement.children) (hlist : list.kind = .expressionList)
    (hkinds : statement.children.map Node.kind = .expressionList :: .define :: rest)
    (hrest : .expressionList ∉ rest) : list.Defined statement := by
  match hchildren : statement.children with
  | first :: second :: others =>
    rw [hchildren] at hmem hkinds
    simp only [List.map_cons, List.cons.injEq] at hkinds
    obtain ⟨_, hdefine, hothers⟩ := hkinds
    have hother : list ∉ second :: others := by
      intro hother
      rcases List.mem_cons.1 hother with rfl | hother
      · cases hlist.symm.trans hdefine
      · exact hrest (hothers ▸ hlist ▸ List.mem_map_of_mem hother)
    obtain rfl := (List.mem_cons.1 hmem).resolve_right hother
    exact ⟨hlist, [], second :: others, hchildren, second, by simp, hdefine⟩
  | [] | [_] => simp [hchildren] at hkinds

end Go

namespace Site

/-- What is replaced by the blank identifier is an identifier that is not declared there, but for
the names of type parameters, those that a case of a select statement declares, and those that the
guard of a type switch declares. -/
theorem discardTarget_declared_iff {text : List Char} {diag : Diagnostic} {line : Nat}
    (hvalid : (Go.parse text).hasErrors = false) {candidate : Candidate}
    (h : candidate ∈
      (Site.mk (Go.parse text).tree ⟨text⟩ diag line).discardTarget.candidates) :
    ∃ c, (Site.mk (Go.parse text).tree ⟨text⟩ diag line).locate? .reference = some c ∧
      candidate.action = .edits [⟨c.node.span, "_"⟩] ∧ c.node.kind = .identifier ∧
      (c.Declared ↔ c.Overlooked) := by
  unfold discardTarget at h
  split at h
  · rename_i c hc
    split at h
    · obtain rfl := List.mem_singleton.1 h
      have hkind : c.nodeKind = .reference := Tree.kind_of_locate? hc
      have hid : c.node.kind = .identifier := by
        unfold Go.Cursor.nodeKind at hkind
        split at hkind <;> simp_all
      exact ⟨c, hc, rfl, hid,
        Go.Cursor.declared_iff_overlooked hvalid (Tree.Reachable.locate? hc) hkind⟩
    · cases h
  · cases h

/-- An assignment to a variable that is declared on the line above. -/
theorem discardTarget_assignment :
    let text := "package a\n\nfunc f() \x7b\n\tx := 1\n\tx = 2\n\x7d\n".toList
    let diag : Diagnostic := ⟨"ineffassign", "assignment to x", "a.go", 5, 2, none, "ineffassign"⟩
    let s := Site.mk (Go.parse text).tree ⟨text⟩ diag 4
    ⟨"Rename 'x' to _", .edits [⟨⟨31, 32⟩, "_"⟩]⟩ ∈ s.discardTarget.candidates ∧
      ∃ c, s.locate? .reference = some c ∧ (c.Declared ↔ c.Overlooked) := by
  intro text diag s
  have hrun : (Go.parse text).hasErrors = false ∧
      ⟨"Rename 'x' to _", .edits [⟨⟨31, 32⟩, "_"⟩]⟩ ∈ s.discardTarget.candidates := by
    decide +kernel
  obtain ⟨c, hc, _, _, hiff⟩ := discardTarget_declared_iff hrun.1 hrun.2
  exact ⟨hrun.2, c, hc, hiff⟩

/-- The variable that a case of a select statement declares is replaced, though it is assigned to
and read below. -/
theorem discardTarget_select :
    let text := "package a\n\nfunc f(c chan int) \x7b\n\tselect \x7b\n\tcase v := <-c:\n".toList ++
      "\t\tv = 1\n\t\tprintln(v)\n\t\x7d\n\x7d\n".toList
    let diag : Diagnostic :=
      ⟨"ineffassign", "ineffectual assignment to v", "a.go", 5, 7, none, "ineffassign"⟩
    let s := Site.mk (Go.parse text).tree ⟨text⟩ diag 4
    (Go.parse text).hasErrors = false ∧
      s.discardTarget.candidates = [⟨"Rename 'v' to _", .edits [⟨⟨48, 49⟩, "_"⟩]⟩] ∧
      ∃ c, s.locate? .reference = some c ∧ c.node.span = ⟨48, 49⟩ ∧ c.Declared := by
  intro text diag s
  -- the file is parsed once for all that is to be seen in it
  obtain ⟨hvalid, hcandidates, hat⟩ : (Go.parse text).hasErrors = false ∧
      s.discardTarget.candidates = [⟨"Rename 'v' to _", .edits [⟨⟨48, 49⟩, "_"⟩]⟩] ∧
      (s.locate? .reference).map (fun c => (c.node.span, (c.around.take 2).map Go.Node.kind,
          (c.around.drop 1).head?.map fun n => n.children.map Go.Node.kind)) =
        some (⟨48, 49⟩, [.expressionList, .receiveStatement],
          some [.expressionList, .define, .unaryExpression]) := by
    decide +kernel
  refine ⟨hvalid, hcandidates, ?_⟩
  obtain ⟨⟨node, around⟩, hc, hat⟩ := Option.map_eq_some_iff.1 hat
  have hlinked := Go.Cursor.linked_of_reachable (Tree.Reachable.locate? hc)
  match around with
  | list :: statement :: above =>
    simp only [Prod.mk.injEq, List.take_succ_cons, List.take_zero, List.map_cons, List.map_nil,
      List.cons.injEq, List.drop_succ_cons, List.drop_zero, List.head?_cons, Option.map_some,
      Option.some_inj] at hat
    cases hlinked with
    | cons_cons _ htail =>
      cases htail with
      | cons_cons hlist _ =>
        exact ⟨_, hc, hat.1, .inr ⟨list, statement, above, rfl,
          Go.Node.defined_of_kinds hlist hat.2.1.1 hat.2.2 (by decide)⟩⟩
  | [] | [_] => simp at hat

end Site
end Mend
