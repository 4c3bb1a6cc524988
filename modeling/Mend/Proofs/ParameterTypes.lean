import Mend.Fix.Strategy
import Mend.Proofs.Go.Singles
import Mend.Proofs.Resolution

/-! Which parameters get another type when the type in one declaration is replaced: those that the
declaration names, and no others of their function. -/
namespace Mend

namespace Go

variable {text : List Char}

/-- What may stand in front of the type of a parameter, comments aside. -/
def Kind.beforeTypes : List Kind := [.identifier, .fixed ",".toList, .fixed "...".toList]

/-- A declaration of parameters ends with their type. In front of it stand names, commas, the dots
of a variadic parameter and comments. -/
structure Node.Types (declaration : Node) (front : List Node) (type : Node) : Prop where
  children : declaration.children = front ++ [type]
  before : ∀ n ∈ front, n.kind = .comment ∨ n.kind ∈ Kind.beforeTypes
  isType : type.kind ∈ Kind.types
  nonempty : type.span.start < type.span.stop
  stop : type.span.stop = declaration.span.stop

lemma types_of_append {n : Node} {stop : Nat} {b c : List Node} (h : n.Encloses stop (b ++ c))
    (hb : ∀ m ∈ b, m.kind = .comment ∨ m.kind ∈ Kind.beforeTypes)
    (hc : Single Kind.types stop c) : ∃ front type, n.Types front type := by
  obtain ⟨comments, type, rfl, hcomments, ⟨htype, -⟩, hlt, hstop⟩ := hc
  obtain ⟨⟨comments', heq, -⟩, ⟨first, hfirst, -⟩, hend⟩ := h
  rcases List.eq_nil_or_concat n.children with hnil | ⟨front, last, hlast⟩
  · simp [hnil] at hfirst
  · rw [hlast, List.concat_eq_append, ← List.append_assoc, ← List.append_assoc] at heq
    obtain ⟨hfront, hsame⟩ := List.append_inj' heq rfl
    obtain rfl := List.singleton_inj.1 hsame
    refine ⟨front, type, by rw [hlast, List.concat_eq_append], fun m hm => ?_, htype, hlt,
      hstop.trans hend.symm⟩
    have hmem : m ∈ b ++ comments := hfront ▸ List.mem_append_right _ hm
    exact (List.mem_append.1 hmem).elim (hb m) fun hm => .inl (hcomments m hm)

def namedParameters : Grammar.P := .role .name (.commaSep (.name .identifier))

def variadicParameter : Grammar.P := .opt (.role .name (.name .identifier))

lemma Cursor.kind_of_parameterDeclaration {c : Cursor} (h : c.nodeKind = .parameterDeclaration) :
    c.node.kind = .parameterDeclaration ∨ c.node.kind = .variadicParameterDeclaration :=
  List.mem_pair.1 (kind_mem (h ▸ rfl))

/-- The declaration of parameters ends with their type. -/
theorem exists_types (hvalid : (parse text).hasErrors = false) {c : Cursor}
    (hreach : (parse text).tree.Reachable c) (hkind : c.nodeKind = .parameterDeclaration) :
    ∃ front type, c.node.Types front type := by
  rcases Cursor.kind_of_parameterDeclaration hkind with hk | hk
  · obtain ⟨p, hp, r, a, s, hr, hreads, hn⟩ :=
      madeOf_of_reachable [.seq namedParameters (.symbol .type), .symbol .type] hvalid rfl
        (by decide) (by decide +kernel) hreach hk
    simp only [List.mem_cons, List.not_mem_nil, or_false] at hp
    rcases hp with rfl | rfl
    · cases hreads with
      | seq hnames htype =>
        exact types_of_append hn (hnames.gathers Kind.beforeTypes (by decide +kernel))
          (single_of_type htype (hnames.of hr).1)
    · exact types_of_append (b := []) hn (by simp) (single_of_type hreads hr)
  · obtain ⟨p, hp, r, a, s, hr, hreads, hn⟩ :=
      madeOf_of_reachable [.seqs [variadicParameter, .fixed "...", .symbol .type]] hvalid
        rfl (by decide) (by decide +kernel) hreach hk
    obtain rfl := List.mem_singleton.1 hp
    cases hreads with
    | seq hname hreads => cases hreads with
      | seq hdots htype =>
        rw [← List.append_assoc] at hn
        refine types_of_append hn (fun m hm => ?_)
          (single_of_type htype (hdots.of (hname.of hr).1).1)
        exact (List.mem_append.1 hm).elim
          (hname.gathers Kind.beforeTypes (by decide +kernel) m)
          (hdots.gathers Kind.beforeTypes (by decide +kernel) m)

def Kind.isParameter (k : Kind) : Bool :=
  k = .parameterDeclaration || k = .variadicParameterDeclaration

/-- A survey of where parameters are declared. -/
def declaring : Survey Symbol where
  seen := Kind.isParameter
  gives
    | .parameter => ⟨[⟨none, .parameterDeclaration⟩, ⟨none, .variadicParameterDeclaration⟩], []⟩
    | _ => .nil
  takes _ := .nil
  allows kind S := kind = .parameterList || S.one.isEmpty

theorem declaring_covers : declaring.Covers Grammar.rule :=
  Survey.covers_of_symbols rfl (fun _ => ⟨rfl, rfl⟩) (by decide +kernel)

/-- Parameters are declared in lists. -/
lemma kind_of_declaring {n m : Node} (h : declaring.Drawn n) (hm : m ∈ n.children)
    (hkind : m.kind.isParameter = true) (hchildren : m.children ≠ []) :
    n.kind = .parameterList := by
  obtain ⟨S, hallows, hone, -⟩ := h.exists_sketch hm hchildren
  have hmem : m.tag ∈ S.one := hone _ (Survey.tag_mem hm hkind)
  simp only [declaring, Bool.or_eq_true, decide_eq_true_eq, List.isEmpty_iff] at hallows
  refine hallows.resolve_right fun hnil => ?_
  rw [hnil] at hmem
  cases hmem

/-- A parameter of a function: where it is declared, and its name if it has one. -/
structure Parameter where
  declaration : Node
  name? : Option Node

/-- The parameters that one declaration declares. -/
def Node.declared (declaration : Node) : List Parameter :=
  match declaration.children.filter (·.kind = .identifier) with
  | [] => [⟨declaration, none⟩]
  | names => names.map fun name => ⟨declaration, some name⟩

/-- The parameters in all parameter lists of a function: of the function itself, its receiver and
its results. -/
def Node.parameters (function : Node) : List Parameter :=
  (function.children.filter (·.kind = .parameterList)).flatMap fun list =>
    (list.children.filter (·.kind.isParameter)).flatMap Node.declared

lemma declaration_of_mem {n : Node} {p : Parameter} (h : p ∈ n.declared) : p.declaration = n := by
  unfold Node.declared at h
  split at h
  · rw [List.mem_singleton.1 h]
  · obtain ⟨name, -, rfl⟩ := List.mem_map.1 h
    rfl

lemma mem_parameters {function : Node} {p : Parameter} : p ∈ function.parameters ↔
    ∃ list ∈ function.children, list.kind = .parameterList ∧
      ∃ declaration ∈ list.children, declaration.kind.isParameter = true ∧
        p ∈ declaration.declared := by
  simp only [Node.parameters, List.mem_flatMap, List.mem_filter, decide_eq_true_eq, and_assoc]

/-- The function around the declaration of a parameter. -/
theorem exists_function (hvalid : (parse text).hasErrors = false) {c : Cursor}
    (hreach : (parse text).tree.Reachable c) (hkind : c.node.kind.isParameter = true)
    (hchildren : c.node.children ≠ []) :
    ∃ list function above, c.around = list :: function :: above ∧ list.kind = .parameterList ∧
      c.node ∈ list.children ∧ list ∈ function.children := by
  have hfile : c.node.kind ≠ .sourceFile := fun h => by simp [h, Kind.isParameter] at hkind
  obtain ⟨list, around, haround, hnode, hlist⟩ := Cursor.exists_parent hreach hfile
  have hdrawn := File.all_of_reachable (declaring_covers.root_drawn rfl hvalid) hlist
  have hkind' := kind_of_declaring (hdrawn list (by simp)).self hnode hkind hchildren
  obtain ⟨function, above, rfl, hmem, -⟩ := Cursor.exists_parent hlist (by simp [hkind'])
  exact ⟨list, function, above, haround, hkind', hnode, hmem⟩

/-- Two declarations of parameters of one function are the same one, or one of them ends before the
other one starts. -/
lemma apart_of_parameters {function list list' n m : Node} (h : function.All Node.Ordered)
    (hlist : list ∈ function.children) (hlist' : list' ∈ function.children)
    (hn : n ∈ list.children) (hm : m ∈ list'.children) :
    m = n ∨ m.span.stop ≤ n.span.start ∨ n.span.stop ≤ m.span.start := by
  have hrow : Row function.span.start function.span.stop function.children := h.self
  have hnb := Row.bounds (h.child hlist).self n hn
  have hmb := Row.bounds (h.child hlist').self m hm
  rcases hrow.apart hlist' hlist with rfl | hle | hle
  · exact Row.apart (h.child hlist').self hm hn
  · exact .inr (.inl (by omega))
  · exact .inr (.inr (by omega))

end Go

/-- Where an offset has got to once an edit is applied: what is behind the edit moves with it. -/
def Edit.carry (e : Edit) (o : Nat) : Nat :=
  if o < e.span.stop then o else e.span.start + e.newText.length + (o - e.span.stop)

def Edit.carried (e : Edit) (s : Span) : Span := ⟨e.carry s.start, e.carry s.stop⟩

namespace Document

variable {d r : Document} {e : Edit} {s : Span}

/-- What stands in front of an edit stays. -/
lemma slice_carried_front (hr : d.apply [e] = .ok r) (he : e.span.start < e.span.stop)
    (hs : s.start ≤ s.stop) (h : s.stop ≤ e.span.start) : r.slice (e.carried s) = d.slice s := by
  have hwithin := (accepts_singleton d e).1 (accepts_of_apply hr)
  have hstart : e.carry s.start = s.start := if_pos (by omega)
  have hstop : e.carry s.stop = s.stop := if_pos (by omega)
  have hlen : s.stop ≤ (d.chars.take e.span.start).length := by
    rw [List.length_take_of_le (Nat.le_trans (Nat.le_of_lt he) hwithin.2)]
    exact h
  rw [apply_singleton hwithin] at hr
  obtain rfl := Except.ok.inj hr
  rw [slice, slice, Edit.carried, hstart, hstop, List.append_assoc,
    List.take_append_of_le_length hlen, List.take_take, Nat.min_eq_left h]

/-- What stands behind an edit moves. -/
lemma slice_carried_behind (hr : d.apply [e] = .ok r) (hs : s.start ≤ s.stop)
    (h : e.span.stop ≤ s.start) : r.slice (e.carried s) = d.slice s := by
  have hwithin := (accepts_singleton d e).1 (accepts_of_apply hr)
  have hlen : (d.chars.take e.span.start ++ e.newText.toList).length =
      e.span.start + e.newText.length := by
    rw [List.length_append, List.length_take_of_le (Nat.le_trans hwithin.1 hwithin.2),
      String.length_toList]
  have hcarry (o : Nat) (ho : e.span.stop ≤ o) : e.carry o =
      (d.chars.take e.span.start ++ e.newText.toList).length + (o - e.span.stop) := by
    rw [hlen]
    exact if_neg (by omega)
  have hstop : e.span.stop + (s.stop - e.span.stop) = s.stop := by omega
  have hstart : e.span.stop + (s.start - e.span.stop) = s.start := by omega
  rw [apply_singleton hwithin] at hr
  obtain rfl := Except.ok.inj hr
  rw [slice, slice, Edit.carried, hcarry s.start h, hcarry s.stop (Nat.le_trans h hs),
    List.take_length_add_append, List.drop_length_add_append, List.take_drop, hstop,
    List.drop_drop, hstart]

/-- At the place of an edit stands what the edit puts there. -/
lemma slice_carried_self (hr : d.apply [e] = .ok r) (he : e.span.start < e.span.stop) :
    r.slice (e.carried e.span) = e.newText.toList := by
  have hwithin := (accepts_singleton d e).1 (accepts_of_apply hr)
  have hlen : (d.chars.take e.span.start).length = e.span.start :=
    List.length_take_of_le (Nat.le_trans hwithin.1 hwithin.2)
  have hstart : e.carry e.span.start = (d.chars.take e.span.start).length := by
    rw [hlen]
    exact if_pos he
  have hstop : e.carry e.span.stop =
      (d.chars.take e.span.start ++ e.newText.toList).length := by
    rw [List.length_append, hlen, String.length_toList, Edit.carry, if_neg (Nat.lt_irrefl _),
      Nat.sub_self, Nat.add_zero]
  rw [apply_singleton hwithin] at hr
  obtain rfl := Except.ok.inj hr
  rw [slice, Edit.carried, hstart, hstop, List.take_left, List.drop_left]

end Document

namespace Go

def Parameter.nameText (p : Parameter) (d : Document) : Option (List Char) :=
  p.name?.map fun name => d.slice name.span

/-- The type of a parameter as a document spells it, at the place where the type is found. -/
def Parameter.typeText (p : Parameter) (d : Document) (place : Span → Span) :
    Option (List Char) :=
  p.declaration.children.getLast?.map fun type => d.slice (place type.span)

/-- An edit of the type in one declaration leaves the types in the others as they are. -/
theorem Parameter.typeText_kept {d r : Document} {e : Edit} {function list list' n type : Node}
    {p : Parameter} (hr : d.apply [e] = .ok r) (hordered : function.All Node.Ordered)
    (hlist : list ∈ function.children) (hn : n ∈ list.children) (htype : type ∈ n.children)
    (hspan : e.span = type.span) (hlt : type.span.start < type.span.stop)
    (hlist' : list' ∈ function.children) (hp : p.declaration ∈ list'.children)
    (hne : p.declaration ≠ n) : p.typeText r e.carried = p.typeText d id := by
  unfold typeText
  cases htype' : p.declaration.children.getLast? with
  | none => rfl
  | some type' =>
    -- both types stand within their declarations, which have nothing in common
    have hin := Row.bounds ((hordered.child hlist).child hn).self type htype
    have hin' := Row.bounds ((hordered.child hlist').child hp).self type'
      (List.mem_of_getLast? htype')
    rw [Option.map_some, Option.map_some, id]
    rw [← hspan] at hin hlt
    rcases apart_of_parameters hordered hlist hlist' hn hp with hsame | hle | hle
    · exact absurd hsame hne
    · have hfront : type'.span.stop ≤ e.span.start := by omega
      rw [Document.slice_carried_front hr hlt hin'.2.1 hfront]
    · have hbehind : e.span.stop ≤ type'.span.start := by omega
      rw [Document.slice_carried_behind hr hin'.2.1 hbehind]

end Go

namespace Site

variable {text : List Char} {diag : Diagnostic} {line : Nat}

/-- A narrower type takes the place of the whole type in the located declaration of parameters. All
parameters that this declaration names have it from then on; all others of the function keep the
type they have. -/
theorem narrowed_types (hvalid : (Go.parse text).hasErrors = false)
    (hrule : diag.rule = "interfacer") {declaration : Go.Cursor}
    (hlocate : (Site.mk (Go.parse text).tree ⟨text⟩ diag line).locate? .parameterDeclaration =
      some declaration) :
    let s : Site Go.Cursor := ⟨(Go.parse text).tree, ⟨text⟩, diag, line⟩
    ∃ c front type function e r, s.resolve = .ok (.single c (some type.span)) ∧
      c.edits? = some [e] ∧ s.document.apply [e] = .ok r ∧
      declaration.node.Types front type ∧ e = ⟨type.span, String.ofList s.namedInMessage⟩ ∧
      declaration.around[1]? = some function ∧
      declaration.node.declared ⊆ function.parameters ∧
      ∀ p ∈ function.parameters,
        (p.declaration = declaration.node → p.typeText r e.carried = some s.namedInMessage) ∧
        (p.declaration ≠ declaration.node →
          p.typeText r e.carried = p.typeText s.document id) := by
  intro s
  have hreach : s.tree.Reachable declaration := Tree.Reachable.locate? hlocate
  have hkind : declaration.nodeKind = .parameterDeclaration := Tree.kind_of_locate? hlocate
  have hparameter : declaration.node.kind.isParameter = true := by
    rcases Go.Cursor.kind_of_parameterDeclaration hkind with hk | hk <;>
      simp [hk, Go.Kind.isParameter]
  obtain ⟨front, type, htypes⟩ := Go.exists_types hvalid hreach hkind
  have hchildren : declaration.node.children ≠ [] := by simp [htypes.children]
  obtain ⟨list, function, above, haround, hlist, hmem, hmem'⟩ :=
    Go.exists_function hvalid hreach hparameter hchildren
  have hordered : function.All Go.Node.Ordered :=
    Go.File.all_of_reachable (Go.root_ordered hvalid) hreach function (by simp [haround])
  have hlast : s.tree.lastChild? declaration = some (declaration.child type) := by
    simp [s, Tree.lastChild?, Go.File.tree, Go.Cursor.children, htypes.children]
  have hwithin : type.span.Within text.length :=
    Go.tree_within text _ (hreach.lastChild? hlast)
  let e : Edit := ⟨type.span, String.ofList s.namedInMessage⟩
  let c : Candidate :=
    ⟨s!"Replace parameter type with '{String.ofList s.namedInMessage}'", .edits [e]⟩
  have hoffer : s.narrowParameterType = .single c (some type.span) := by
    unfold narrowParameterType
    rw [show s.locate? .parameterDeclaration = some declaration from hlocate, Option.bind_some,
      hlast]
    rfl
  have hresolve : s.resolve = .ok (.single c (some type.span)) := by
    have hstrategy : Strategy.ofRule diag.rule = .narrowParameterType := by rw [hrule]; rfl
    rw [resolve, hstrategy, ← hoffer]
    rfl
  have happly := Document.apply_singleton (d := s.document) (e := e) hwithin
  refine ⟨c, front, type, function, e, _, hresolve, rfl, happly, htypes, rfl, by simp [haround],
    fun p hp => Go.mem_parameters.2 ⟨list, hmem', hlist, _, hmem, hparameter, hp⟩,
    fun p hp => ?_⟩
  obtain ⟨list', hlist', -, declaration', hdeclaration, -, hp⟩ := Go.mem_parameters.1 hp
  obtain rfl := Go.declaration_of_mem hp
  constructor
  · intro hsame
    rw [Go.Parameter.typeText, hsame, htypes.children, List.getLast?_concat, Option.map_some,
      Document.slice_carried_self happly htypes.nonempty, String.toList_ofList]
  · exact Go.Parameter.typeText_kept happly hordered hmem' hmem (by simp [htypes.children]) rfl
      htypes.nonempty hlist' hdeclaration

/-- Two parameters, each with a type of its own: the second one keeps its type. -/
theorem narrowed_types_of_first :
    let text := "package a\n\nfunc f(a *os.File, b int) \x7b\n\x7d\n".toList
    let s : Site Go.Cursor := ⟨(Go.parse text).tree, ⟨text⟩,
      ⟨"interfacer", "`a` can be `io.Reader`", "a.go", 3, 8, none, "interfacer"⟩, 2⟩
    let e : Edit := ⟨⟨20, 28⟩, "io.Reader"⟩
    ∃ declaration c function r, s.locate? .parameterDeclaration = some declaration ∧
      declaration.around[1]? = some function ∧
      function.parameters.map (fun p => (p.nameText s.document, p.typeText s.document id)) =
        [(some "a".toList, some "*os.File".toList), (some "b".toList, some "int".toList)] ∧
      s.resolve = .ok (.single c (some ⟨20, 28⟩)) ∧ c.edits? = some [e] ∧
      s.document.apply [e] = .ok r ∧ ∀ p ∈ function.parameters,
        (p.declaration = declaration.node → p.typeText r e.carried = some "io.Reader".toList) ∧
        (p.declaration ≠ declaration.node →
          p.typeText r e.carried = p.typeText s.document id) := by
  intro text s e
  obtain ⟨hvalid, hparameters, hspan, hword⟩ : (Go.parse text).hasErrors = false ∧
      ((s.locate? .parameterDeclaration).bind fun c => c.around[1]?.map fun function =>
        function.parameters.map fun p => (p.nameText s.document, p.typeText s.document id)) =
        some [(some "a".toList, some "*os.File".toList), (some "b".toList, some "int".toList)] ∧
      (s.locate? .parameterDeclaration).map
        (fun c => c.node.children.getLast?.map Go.Node.span) = some (some ⟨20, 28⟩) ∧
      s.namedInMessage = "io.Reader".toList := by
    decide +kernel
  obtain ⟨declaration, hlocate, hparameters⟩ := Option.bind_eq_some_iff.1 hparameters
  obtain ⟨c, front, type, function, e', r, hresolve, hedits, happly, htypes, rfl, hfunction, -,
    hall⟩ := narrowed_types hvalid rfl hlocate
  rw [hfunction, Option.map_some, Option.some.injEq] at hparameters
  rw [hlocate, Option.map_some, htypes.children, List.getLast?_concat, Option.map_some,
    Option.some.injEq, Option.some.injEq] at hspan
  have he : e = ⟨type.span, String.ofList s.namedInMessage⟩ := by
    rw [hspan, hword]
    rfl
  rw [he, ← hspan, ← hword]
  exact ⟨declaration, c, function, r, hlocate, hfunction, hparameters, hresolve, hedits, happly,
    hall⟩

/-- Two parameters with one type: the finding is about the first one, and the second one loses its
type with it. -/
theorem narrowed_types_of_group :
    let text := "package a\n\nfunc f(a, b *os.File) \x7b\n\x7d\n".toList
    let s : Site Go.Cursor := ⟨(Go.parse text).tree, ⟨text⟩,
      ⟨"interfacer", "`a` can be `io.Reader`", "a.go", 3, 8, none, "interfacer"⟩, 2⟩
    let e : Edit := ⟨⟨23, 31⟩, "io.Reader"⟩
    let r : Document := ⟨"package a\n\nfunc f(a, b io.Reader) \x7b\n\x7d\n".toList⟩
    (Go.parse text).hasErrors = false ∧
      s.resolve = .ok (.single
        ⟨"Replace parameter type with 'io.Reader'", .edits [e]⟩ (some ⟨23, 31⟩)) ∧
      s.document.apply [e] = .ok r ∧
      ∃ declaration function, s.locate? .parameterDeclaration = some declaration ∧
        declaration.around[1]? = some function ∧ ∃ b ∈ function.parameters,
          b.nameText s.document = some "b".toList ∧
          b.typeText s.document id = some "*os.File".toList ∧
          b.typeText r e.carried = some "io.Reader".toList := by
  intro text s e r
  let describe (p : Go.Parameter) :=
    (p.nameText s.document, p.typeText s.document id, p.typeText r e.carried)
  obtain ⟨hvalid, hoffer, hparameters⟩ : (Go.parse text).hasErrors = false ∧
      s.narrowParameterType = .single
        ⟨"Replace parameter type with 'io.Reader'", .edits [e]⟩ (some ⟨23, 31⟩) ∧
      ((s.locate? .parameterDeclaration).bind fun c => c.around[1]?.map fun function =>
        function.parameters.map describe) =
        some [(some "a".toList, some "*os.File".toList, some "io.Reader".toList),
          (some "b".toList, some "*os.File".toList, some "io.Reader".toList)] := by
    decide +kernel
  obtain ⟨declaration, hlocate, hparameters⟩ := Option.bind_eq_some_iff.1 hparameters
  obtain ⟨function, hfunction, hparameters⟩ := Option.map_eq_some_iff.1 hparameters
  have hb : (some "b".toList, some "*os.File".toList, some "io.Reader".toList) ∈
      function.parameters.map describe := by
    rw [hparameters]
    exact List.mem_cons_of_mem _ List.mem_cons_self
  obtain ⟨b, hmem, hdescribe⟩ := List.mem_map.1 hb
  simp only [describe, Prod.mk.injEq] at hdescribe
  exact ⟨hvalid, congrArg Except.ok hoffer, by decide +kernel, declaration, function, hlocate,
    hfunction, b, hmem, hdescribe⟩

end Site
end Mend
