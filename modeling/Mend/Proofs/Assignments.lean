import Mend.Proofs.Go.Leaves
import Mend.Proofs.Go.Origins
import Mend.Proofs.Renaming

/-! What is assigned to. An identifier in a Go file is the target of a plain assignment, or it is
changed in place, declared, or an operand; only in the first place may the blank identifier take
its place. -/
namespace Mend

namespace Go

def Kind.assign : Kind := .fixed ['=']

/-- The operators that read what they assign to. -/
def Kind.compound : List Kind := Grammar.assignmentOperators.tail.map fun op => .fixed op.toList

def Kind.assigning : List Kind := .define :: .assign :: Kind.compound

/-- The nodes with targets of plain assignments. -/
def Kind.assigns : Kind → Bool
  | .assignmentStatement | .rangeClause | .receiveStatement => true
  | _ => false

/-- The nodes that change the variable that they consist of. -/
def Kind.steps : Kind → Bool
  | .incStatement | .decStatement => true
  | _ => false

/-- The nodes that have identifiers in them as operands. -/
def Kind.hasOperands : Kind → Bool
  | .argumentList | .arrayType | .binaryExpression | .callExpression | .deferStatement
  | .expressionStatement | .expressionSwitchStatement | .forClause | .forStatement | .goStatement
  | .ifStatement | .indexExpression | .literalElement | .parenthesizedExpression | .rangeClause
  | .receiveStatement | .selectorExpression | .sendStatement | .sliceExpression
  | .typeAssertionExpression | .typeConversionExpression | .typeSwitchStatement
  | .unaryExpression | .variadicArgument => true
  | _ => false

/-- A list of expressions with an operator behind it in a statement. -/
structure Node.Before (list statement : Node) (op : Kind) : Prop where
  kind : list.kind = .expressionList
  op : ∃ before after, statement.children = before ++ list :: after ∧ ∃ m ∈ after, m.kind = op

lemma Node.before_define {list statement : Node} :
    list.Before statement .define ↔ list.Defined statement :=
  ⟨fun h => ⟨h.kind, h.op⟩, fun h => ⟨h.kind, h.define⟩⟩

namespace Cursor

/-- Whether the identifier at a cursor is itself among the targets of an assignment by `=`. -/
def Assigned (c : Cursor) : Prop :=
  ∃ list statement above, c.around = list :: statement :: above ∧ c.node ∈ list.children ∧
    list.Before statement .assign ∧ statement.kind.assigns = true

/-- Whether the identifier at a cursor is read and assigned to at once: by `++` or `--`, or as a
target of a compound assignment. -/
def Updated (c : Cursor) : Prop :=
  (∃ parent above, c.around = parent :: above ∧ parent.kind.steps = true) ∨
    ∃ list statement above, c.around = list :: statement :: above ∧
      ∃ op ∈ Kind.compound, list.Before statement op

/-- Whether the identifier at a cursor is an operand: a part of something larger, or one of the
expressions of a list with nothing behind it that assigns to them. -/
def Operand (c : Cursor) : Prop :=
  (∃ parent above, c.around = parent :: above ∧ parent.kind.hasOperands = true) ∨
    ∃ list statement above, c.around = list :: statement :: above ∧ list.kind = .expressionList ∧
      ∀ op ∈ Kind.assigning, ¬ list.Before statement op

end Cursor

/-- The nodes that may have identifiers in them. -/
def Kind.hasNames (k : Kind) : Bool :=
  k = .expressionList || k.declares || k.steps || k.hasOperands

/-- A survey of the places of names, and of what assigns to them. -/
def assignment : Survey Symbol where
  seen kind := kind = .identifier || kind = .expressionList || kind ∈ Kind.assigning
  gives := naming.gives
  takes := naming.takes
  allows kind S :=
    (kind.hasNames || S.one.all fun t => t.kind ≠ .identifier) &&
    S.two.all fun p => (p.1.kind ∉ Kind.assigning || p.2.kind ∉ Kind.assigning) &&
      (p.1.kind ≠ .expressionList || p.2.kind ≠ .assign || kind.assigns)

theorem assignment_covers : assignment.Covers Grammar.rule :=
  Survey.covers_of_symbols (by decide) (fun _ => ⟨rfl, rfl⟩) (by decide +kernel)

section

variable {list statement n m : Node} {op op' : Kind}

/-- Where identifiers stand. -/
lemma hasNames_of_mem (h : assignment.Drawn n) (hn : n.Pieced) (hm : m ∈ n.children)
    (hk : m.kind = .identifier) : n.kind.hasNames = true := by
  rcases h with hnil | ⟨hstring, -⟩ | ⟨S, hallows, hadmits⟩
  · rw [hnil] at hm
    cases hm
  · have hpiece := hn (by rcases hstring with h | h <;> simp [Kind.isString, h]) m hm
    rw [hk] at hpiece
    cases hpiece
  · have hone := hadmits.1 _ (Survey.tag_mem hm (by simp [assignment, hk]))
    simp only [assignment, Bool.and_eq_true, Bool.or_eq_true, List.all_eq_true] at hallows
    refine hallows.1.resolve_right fun hall => ?_
    simpa [Node.tag, hk] using hall _ hone

/-- Plain assignments stand in statements of three kinds. -/
lemma assigns_of_before (h : assignment.Drawn statement) (hlist : list.children ≠ [])
    (hb : list.Before statement .assign) : statement.kind.assigns = true := by
  obtain ⟨before, after, hchildren, m, hm, hk⟩ := hb.op
  obtain ⟨S, hallows, hadmits⟩ := h.exists_sketch (by simp [hchildren]) hlist
  have hpair : (list.tag, m.tag) ∈ S.two :=
    Survey.pair_of_append (hchildren ▸ hadmits) hm (by simp [assignment, hb.kind])
      (by simp [assignment, hk, Kind.assigning])
  simp only [assignment, Bool.and_eq_true, List.all_eq_true] at hallows
  simpa [Node.tag, hb.kind, hk] using (hallows.2 _ hpair).2

/-- One operator assigns to a list. -/
lemma Node.Before.unique (h : assignment.Drawn statement) (hlist : list.children ≠ [])
    (hb : list.Before statement op) (hb' : list.Before statement op') (hop : op ∈ Kind.assigning)
    (hop' : op' ∈ Kind.assigning) : op = op' := by
  have hmem {op : Kind} (hb : list.Before statement op) :
      list ∈ statement.children ∧ ∃ m ∈ statement.children, m.kind = op := by
    obtain ⟨before, after, hchildren, m, hm, hk⟩ := hb.op
    exact ⟨by simp [hchildren], m, by simp [hchildren, hm], hk⟩
  obtain ⟨hchild, m, hm, rfl⟩ := hmem hb
  obtain ⟨-, m', hm', rfl⟩ := hmem hb'
  obtain ⟨S, hallows, hadmits⟩ := h.exists_sketch hchild hlist
  by_contra hne
  simp only [assignment, Bool.and_eq_true, List.all_eq_true] at hallows
  have hpair := hadmits.pair (Survey.tag_mem hm (by simp [assignment, hop]))
    (Survey.tag_mem hm' (by simp [assignment, hop'])) fun htag => hne (congrArg Tag.kind htag)
  rcases hpair with hpair | hpair
  all_goals simpa [Node.tag, hop, hop'] using (hallows.2 _ hpair).1

end

namespace Cursor

variable {text : List Char} {c : Cursor}

lemma drawn_around (hvalid : (parse text).hasErrors = false)
    (hreach : (parse text).tree.Reachable c) : ∀ n ∈ c.around, assignment.Drawn n := fun n hn =>
  (File.all_of_reachable (assignment_covers.root_drawn rfl hvalid) hreach n (by simp [hn])).self

/-- What is behind a list of expressions settles the place of the identifiers in it. -/
lemma placed_in_list {list statement : Node} {above : List Node}
    (hdrawn : assignment.Drawn statement) (haround : c.around = list :: statement :: above)
    (hnode : c.node ∈ list.children) (hlist : list.kind = .expressionList) :
    c.Assigned ∨ c.Updated ∨ c.Declared ∨ c.Operand := by
  by_cases hop : ∃ op ∈ Kind.assigning, list.Before statement op
  · obtain ⟨op, hop, hb⟩ := hop
    simp only [Kind.assigning, List.mem_cons] at hop
    rcases hop with rfl | rfl | hop
    · have hdeclared : c.Declared :=
        .inr ⟨list, statement, above, haround, Node.before_define.1 hb⟩
      tauto
    · have hassigned : c.Assigned := ⟨list, statement, above, haround, hnode, hb,
        assigns_of_before hdrawn (List.ne_nil_of_mem hnode) hb⟩
      exact .inl hassigned
    · have hupdated : c.Updated := .inr ⟨list, statement, above, haround, op, hop, hb⟩
      tauto
  · have hoperand : c.Operand := .inr ⟨list, statement, above, haround, hlist,
      fun op hmem hb => hop ⟨op, hmem, hb⟩⟩
    tauto

/-- An identifier stands in one of four places. -/
theorem placed (hvalid : (parse text).hasErrors = false) (hreach : (parse text).tree.Reachable c)
    (hid : c.node.kind = .identifier) :
    c.Assigned ∨ c.Updated ∨ c.Declared ∨ c.Operand := by
  have hdrawn := drawn_around hvalid hreach
  obtain ⟨parent, around, haround, hnode, hparent⟩ := exists_parent hreach (by simp [hid])
  have hmem : parent ∈ c.around := by simp [haround]
  have hnames := hasNames_of_mem (hdrawn parent hmem) (pieced_of_reachable hvalid hreach _ hmem)
    hnode hid
  simp only [Kind.hasNames, Bool.or_eq_true, decide_eq_true_eq] at hnames
  rcases hnames with ((hlist | hk) | hk) | hk
  · obtain ⟨statement, above, rfl, -, -⟩ := exists_parent hparent (by simp [hlist])
    exact placed_in_list (hdrawn statement (by simp [haround])) haround hnode hlist
  · have hdeclared : c.Declared := .inl ⟨parent, around, haround, hk⟩
    tauto
  · have hupdated : c.Updated := .inl ⟨parent, around, haround, hk⟩
    tauto
  · have hoperand : c.Operand := .inl ⟨parent, around, haround, hk⟩
    tauto

/-- A target of a plain assignment stands in no other place. -/
theorem Assigned.alone (hvalid : (parse text).hasErrors = false)
    (hreach : (parse text).tree.Reachable c) (h : c.Assigned) :
    ¬ c.Updated ∧ ¬ c.Declared ∧ ¬ c.Operand := by
  obtain ⟨list, statement, above, haround, hnode, hb, -⟩ := h
  have hparent {p : Kind → Bool} (hp : p .expressionList = false) :
      ¬ ∃ parent above, c.around = parent :: above ∧ p parent.kind = true := by
    rintro ⟨_, _, heq, hk⟩
    cases haround.symm.trans heq
    rw [hb.kind, hp] at hk
    cases hk
  have hassign {op : Kind} (hop : op ∈ Kind.assigning) (hb' : list.Before statement op) :
      op = .assign :=
    hb'.unique (drawn_around hvalid hreach statement (by simp [haround]))
      (List.ne_nil_of_mem hnode) hb hop (by decide)
  refine ⟨?_, ?_, ?_⟩
  · rintro (hstep | ⟨_, _, _, heq, op, hop, hb'⟩)
    · exact hparent rfl hstep
    · cases haround.symm.trans heq
      obtain rfl := hassign (List.mem_cons_of_mem _ (List.mem_cons_of_mem _ hop)) hb'
      exact absurd hop (by decide)
  · rintro (hdeclares | ⟨_, _, _, heq, hd⟩)
    · exact hparent rfl hdeclares
    · cases haround.symm.trans heq
      cases hassign (by decide) (Node.before_define.2 hd)
  · rintro (hpart | ⟨_, _, _, heq, -, hnone⟩)
    · exact hparent rfl hpart
    · cases haround.symm.trans heq
      exact hnone .assign (by decide) hb

/-- An identifier is a target of a plain assignment where it is neither changed in place nor
declared nor an operand, and only there. -/
theorem assigned_iff (hvalid : (parse text).hasErrors = false)
    (hreach : (parse text).tree.Reachable c) (hid : c.node.kind = .identifier) :
    c.Assigned ↔ ¬ c.Updated ∧ ¬ c.Declared ∧ ¬ c.Operand := by
  have hplaced := placed hvalid hreach hid
  refine ⟨Assigned.alone hvalid hreach, fun hother => ?_⟩
  tauto

/-- Where an assignment starts with the list of its targets, and that list is told apart from the
others, the identifiers in it are targets. -/
lemma assigned_of_tags {f : File} (hreach : f.tree.Reachable c) {list statement : Tag}
    {targets rest : List Tag} (hlist : list.kind = .expressionList)
    (hstatement : statement.kind.assigns = true) (hrest : list ∉ rest)
    (h : (c.around.take 2).map (fun n => (n.tag, n.children.map Node.tag)) =
      [(list, targets), (statement, list :: ⟨none, .assign⟩ :: rest)]) : c.Assigned := by
  have hlinked := linked_of_reachable hreach
  obtain ⟨node, around⟩ := c
  match around with
  | targets :: parent :: above =>
    simp only [List.take_succ_cons, List.take_zero, List.map_cons, List.map_nil, List.cons.injEq,
      Prod.mk.injEq] at h
    obtain ⟨⟨rfl, -⟩, ⟨rfl, hchildren⟩, -⟩ := h
    cases hlinked with
    | cons_cons hnode htail =>
      cases htail with
      | cons_cons hmem _ =>
        refine ⟨targets, parent, above, rfl, hnode, ⟨hlist, ?_⟩, hstatement⟩
        obtain ⟨first, others, hparent, hfirst, hothers⟩ := List.map_eq_cons_iff.1 hchildren
        obtain ⟨second, others, rfl, hsecond, hothers⟩ := List.map_eq_cons_iff.1 hothers
        have hother : targets ∉ second :: others := by
          intro hother
          rcases List.mem_cons.1 hother with rfl | hother
          · cases hlist.symm.trans (congrArg Tag.kind hsecond)
          · exact hrest (hothers ▸ List.mem_map_of_mem hother)
        obtain rfl := (List.mem_cons.1 (hparent ▸ hmem)).resolve_right hother
        exact ⟨[], second :: others, hparent, second, by simp, congrArg Tag.kind hsecond⟩
  | [] | [_] => simp at h

end Cursor

end Go

namespace Site

/-- The blank identifier is offered for a located reference that the message ends with. -/
lemma exists_target {ν : Type} {s : Site ν} {candidate : Candidate}
    (h : candidate ∈ s.discardTarget.candidates) :
    ∃ target, s.locate? .reference = some target ∧ s.tree.text target = s.namedInMessage ∧
      candidate.action = .edits [⟨s.tree.span target, "_"⟩] := by
  unfold discardTarget at h
  split at h
  · rename_i target hlocate
    split at h
    · rename_i htext
      obtain rfl := List.mem_singleton.1 h
      exact ⟨target, hlocate, htext, rfl⟩
    · cases h
  · cases h

/-- What is replaced by the blank identifier is the identifier that the message ends with. It is
itself a target of an assignment by `=` just where it is neither read and assigned to at once, nor
a declared name that is overlooked, nor an operand. -/
theorem discardTarget_assigned_iff {text : List Char} {diag : Diagnostic} {line : Nat}
    (hvalid : (Go.parse text).hasErrors = false) {candidate : Candidate}
    (h : candidate ∈
      (Site.mk (Go.parse text).tree ⟨text⟩ diag line).discardTarget.candidates) :
    let s : Site Go.Cursor := ⟨(Go.parse text).tree, ⟨text⟩, diag, line⟩
    ∃ c, s.locate? .reference = some c ∧ candidate.action = .edits [⟨c.node.span, "_"⟩] ∧
      c.node.kind = .identifier ∧ s.document.slice c.node.span = s.namedInMessage ∧
      (c.Assigned ↔ ¬ c.Updated ∧ ¬ c.Overlooked ∧ ¬ c.Operand) := by
  intro s
  obtain ⟨c, hlocate, htext, haction⟩ := exists_target h
  have hreach : (Go.parse text).tree.Reachable c := Tree.Reachable.locate? hlocate
  have hkind : c.nodeKind = .reference := Tree.kind_of_locate? hlocate
  have hid : c.node.kind = .identifier := List.mem_singleton.1 (Go.Cursor.kind_mem (hkind ▸ rfl))
  refine ⟨c, hlocate, haction, hid, ?_, ?_⟩
  · have htext : Document.slice ⟨(Go.parse text).chars⟩ c.node.span = s.namedInMessage := htext
    rwa [Go.chars_parse] at htext
  · rw [Go.Cursor.assigned_iff hvalid hreach hid,
      Go.Cursor.declared_iff_overlooked hvalid hreach hkind]

/-- A variable that is only assigned to: the target of the assignment becomes blank. -/
theorem discardTarget_of_assignment :
    let text := "package a\n\nfunc f(x int) \x7b\n\tx = 2\n\x7d\n".toList
    let diag : Diagnostic :=
      ⟨"ineffassign", "ineffectual assignment to x", "a.go", 4, 2, none, "ineffassign"⟩
    let s : Site Go.Cursor := ⟨(Go.parse text).tree, ⟨text⟩, diag, 3⟩
    s.discardTarget.candidates = [⟨"Rename 'x' to _", .edits [⟨⟨28, 29⟩, "_"⟩]⟩] ∧
      ∃ c, s.locate? .reference = some c ∧ c.node.span = ⟨28, 29⟩ ∧
        s.document.slice c.node.span = s.namedInMessage ∧ c.Assigned ∧
        ¬ c.Updated ∧ ¬ c.Overlooked ∧ ¬ c.Operand := by
  intro text diag s
  obtain ⟨hvalid, hoffer, hat⟩ : (Go.parse text).hasErrors = false ∧
      s.discardTarget.candidates = [⟨"Rename 'x' to _", .edits [⟨⟨28, 29⟩, "_"⟩]⟩] ∧
      (s.locate? .reference).map (fun c => (c.around.take 2).map fun n =>
          (n.tag, n.children.map Go.Node.tag)) =
        some [(⟨some .left, .expressionList⟩, [⟨none, .identifier⟩]),
          (⟨none, .assignmentStatement⟩, [⟨some .left, .expressionList⟩, ⟨none, Go.Kind.assign⟩,
            ⟨none, .expressionList⟩])] := by
    decide +kernel
  have hmem : ⟨"Rename 'x' to _", .edits [⟨⟨28, 29⟩, "_"⟩]⟩ ∈ s.discardTarget.candidates := by
    rw [hoffer]
    exact List.mem_cons_self
  obtain ⟨c, hlocate, haction, -, htext, hiff⟩ := discardTarget_assigned_iff hvalid hmem
  rw [hlocate, Option.map_some, Option.some.injEq] at hat
  have hassigned : c.Assigned :=
    Go.Cursor.assigned_of_tags (Tree.Reachable.locate? hlocate) rfl rfl (by decide) hat
  have hspan : c.node.span = ⟨28, 29⟩ := by simpa using haction.symm
  exact ⟨hoffer, c, hlocate, hspan, htext, hassigned, hiff.1 hassigned⟩

/-- An increment: the blank identifier would be read. -/
theorem discardTarget_of_increment :
    let text := "package a\n\nfunc f(x int) \x7b\n\tx++\n\x7d\n".toList
    let diag : Diagnostic :=
      ⟨"ineffassign", "ineffectual assignment to x", "a.go", 4, 2, none, "ineffassign"⟩
    let s : Site Go.Cursor := ⟨(Go.parse text).tree, ⟨text⟩, diag, 3⟩
    (Go.parse text).hasErrors = false ∧
      s.resolve = .ok (.single
        ⟨"Rename 'x' to _", .edits [⟨⟨28, 29⟩, "_"⟩]⟩ (some ⟨28, 29⟩)) ∧
      ∃ c, s.locate? .reference = some c ∧ c.node.span = ⟨28, 29⟩ ∧ c.Updated ∧ ¬ c.Assigned := by
  intro text diag s
  obtain ⟨hvalid, hoffer, hat⟩ : (Go.parse text).hasErrors = false ∧
      s.discardTarget = .single
        ⟨"Rename 'x' to _", .edits [⟨⟨28, 29⟩, "_"⟩]⟩ (some ⟨28, 29⟩) ∧
      (s.locate? .reference).map (fun c => (c.node.span, c.around.head?.map Go.Node.kind)) =
        some (⟨28, 29⟩, some .incStatement) := by
    decide +kernel
  obtain ⟨c, hlocate, hat⟩ := Option.map_eq_some_iff.1 hat
  obtain ⟨hspan, hparent⟩ := Prod.mk.inj hat
  obtain ⟨parent, hparent, hkind⟩ := Option.map_eq_some_iff.1 hparent
  obtain ⟨above, haround⟩ := List.head?_eq_some_iff.1 hparent
  refine ⟨hvalid, congrArg Except.ok hoffer, c, hlocate, hspan,
    .inl ⟨parent, above, haround, by rw [hkind]; rfl⟩, ?_⟩
  rintro ⟨list, _, _, heq, -, hb, -⟩
  cases haround.symm.trans heq
  cases hkind.symm.trans hb.kind

end Site
end Mend
