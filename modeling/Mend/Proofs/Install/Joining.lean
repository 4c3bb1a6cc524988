import Mend.Proofs.Install.Places

/-! Paths that are joined. The pieces of the whole are those of the front and those of the rest, so
a name joined to a directory leads to a place right below it, and a longer rest leads on from
there. -/
namespace Mend

namespace Path

variable {base rest path : String} {c : Char}

lemma splitAt_ne_nil (c : Char) (cs : List Char) : splitAt c cs ≠ [] := by
  fun_cases splitAt c cs <;> simp

lemma splitAt_append (c : Char) (xs ys : List Char) :
    splitAt c (xs ++ c :: ys) = splitAt c xs ++ splitAt c ys := by
  induction xs with
  | nil => simp [splitAt]
  | cons a xs ih =>
    rw [List.cons_append, splitAt, splitAt]
    split_ifs
    · rw [ih, List.cons_append]
    · obtain ⟨s, front, hxs⟩ := List.exists_cons_of_ne_nil (splitAt_ne_nil c xs)
      rw [ih, hxs]
      rfl

lemma splitAt_of_not_mem {cs : List Char} (h : c ∉ cs) : splitAt c cs = [cs] := by
  induction cs with
  | nil => rfl
  | cons a cs ih =>
    obtain ⟨hne, hcs⟩ : c ≠ a ∧ c ∉ cs := by simpa using h
    rw [splitAt, if_neg (Ne.symm hne), ih hcs]

lemma splitAt_cons_of_ne {a : Char} (h : a ≠ c) (cs : List Char) :
    ∃ s front, splitAt c (a :: cs) = (a :: s) :: front := by
  obtain ⟨s, front, hcs⟩ := List.exists_cons_of_ne_nil (splitAt_ne_nil c cs)
  exact ⟨s, front, by rw [splitAt, if_neg h, hcs]⟩

lemma pieces_ne_nil (path : String) : pieces path ≠ [] := by
  simp [pieces, splitAt_ne_nil]

/-- A text with a stretch of its own in front. -/
lemma pieces_append (xs : List Char) (ys : String) :
    pieces (String.ofList (xs ++ '/' :: ys.toList)) = pieces (String.ofList xs) ++ pieces ys := by
  simp [pieces, splitAt_append]

lemma pieces_of_not_mem (h : '/' ∉ path.toList) : pieces path = [path] := by
  rw [pieces, splitAt_of_not_mem h, List.map_singleton, String.ofList_toList]

/-- The pieces of a path that is joined, those of its base in front. -/
lemma pieces_join (base : String) (h : ¬ isAbsolute rest) :
    ∃ front, pieces (join base rest) = front ++ pieces rest ∧
      (pieces base = front ∨ pieces base = front ++ [""]) := by
  unfold join
  split_ifs with hstart hend
  · have hempty : base = "" := by simpa [h] using hstart
    exact ⟨[], rfl, .inr (by rw [hempty]; rfl)⟩
  · obtain ⟨xs, hxs⟩ := List.getLast?_eq_some_iff.1 hend
    have hbase : base = String.ofList (xs ++ '/' :: "".toList) := by
      rw [← String.ofList_toList (s := base), hxs]
      rfl
    have hjoin : base ++ rest = String.ofList (xs ++ '/' :: rest.toList) := by
      rw [← String.ofList_toList (s := base ++ rest), String.toList_append, hxs]
      simp
    refine ⟨pieces (String.ofList xs), ?_, .inr ?_⟩
    · rw [hjoin, pieces_append]
    · rw [hbase, pieces_append]
      rfl
  · have hjoin : base ++ "/" ++ rest = String.ofList (base.toList ++ '/' :: rest.toList) := by
      rw [← String.ofList_toList (s := base ++ "/" ++ rest)]
      simp
    refine ⟨pieces base, ?_, .inl rfl⟩
    rw [hjoin, pieces_append, String.ofList_toList]

/-- Pieces that are left out of the components unless they come first. -/
def matters (piece : String) : Bool := piece ≠ "" && piece ≠ "."

lemma matters_of_ne {piece : String} (hempty : piece ≠ "") (hdot : piece ≠ ".") :
    matters piece := by
  simp [matters, hempty, hdot]

lemma components_of_pieces {first : String} {more : List String}
    (h : pieces path = first :: more) :
    components path = if first = "" then more.filter matters else first :: more.filter matters := by
  rw [components, h]
  rfl

/-- A path that starts with a name. -/
lemma pieces_of_head (hc : path.toList.head? = some c) (hslash : c ≠ '/') (hdot : c ≠ '.') :
    ∃ name more, pieces path = name :: more ∧ name.toList.head? = some c ∧ matters name := by
  obtain ⟨cs, hcs⟩ := List.head?_eq_some_iff.1 hc
  obtain ⟨s, front, hsplit⟩ := splitAt_cons_of_ne hslash cs
  refine ⟨String.ofList (c :: s), front.map String.ofList, ?_, ?_, ?_⟩
  · rw [pieces, hcs, hsplit, List.map_cons]
  · simp
  · apply matters_of_ne
    · intro h
      simpa using congrArg String.toList h
    · intro h
      have hlist : c :: s = ['.'] := by simpa using congrArg String.toList h
      exact hdot (List.cons.inj hlist).1

/-- Joining a path that starts with a name puts the components in a row. -/
theorem components_join (base : String) (hc : rest.toList.head? = some c) (hslash : c ≠ '/')
    (hdot : c ≠ '.') : components (join base rest) = components base ++ components rest := by
  have hrelative : ¬ isAbsolute rest := by simp [isAbsolute, hc, hslash]
  obtain ⟨name, more, hpieces, -, hname⟩ := pieces_of_head hc hslash hdot
  have hne : name ≠ "" := by
    rintro rfl
    simp [matters] at hname
  have hrest : components rest = name :: more.filter matters := by
    rw [components_of_pieces hpieces, if_neg hne]
  obtain ⟨front, hjoin, hbase⟩ := pieces_join base hrelative
  rw [hpieces] at hjoin
  cases front with
  | nil =>
    rcases hbase with hbase | hbase
    · exact absurd hbase (pieces_ne_nil base)
    · rw [components_of_pieces hjoin, components_of_pieces hbase, if_neg hne, hrest]
      rfl
  | cons first front =>
    have hfilter : components base = if first = "" then front.filter matters
        else first :: front.filter matters := by
      rcases hbase with hbase | hbase
      · exact components_of_pieces hbase
      · rw [List.cons_append] at hbase
        rw [components_of_pieces hbase, List.filter_append]
        simp [matters]
    rw [List.cons_append] at hjoin
    rw [components_of_pieces hjoin, hfilter, hrest, List.filter_append,
      List.filter_cons_of_pos hname]
    split_ifs <;> simp

theorem parent_join (base : String) (hc : rest.toList.head? = some c) (hslash : c ≠ '/')
    (hdot : c ≠ '.') : parent (join base rest) = components base ++ parent rest := by
  obtain ⟨name, more, hpieces, -, hname⟩ := pieces_of_head hc hslash hdot
  have hne : components rest ≠ [] := by
    rw [components_of_pieces hpieces]
    split_ifs with hempty
    · simp [hempty, matters] at hname
    · simp
  rw [parent, components_join base hc hslash hdot, List.dropLast_append_of_ne_nil hne, ← parent]

lemma pieces_of_getLast {d : Char} (hd : path.toList.getLast? = some d) (hslash : d ≠ '/')
    (hdot : d ≠ '.') : ∃ front name, pieces path = front ++ [name] ∧ matters name := by
  obtain ⟨front, s, hsplit, hs⟩ := Files.getLast?_splitAt hd hslash
  refine ⟨front.map String.ofList, String.ofList s, ?_, ?_⟩
  · rw [pieces, hsplit, List.map_append, List.map_singleton]
  · apply matters_of_ne
    · intro h
      have hnil : s = [] := by simpa using congrArg String.toList h
      simp [hnil] at hs
    · intro h
      have hlist : s = ['.'] := by simpa using congrArg String.toList h
      simp [hlist, hdot.symm] at hs

/-- A path with a slash between two names is in a directory, which is named by the first of them. -/
theorem exists_parent {d : Char} (hmem : '/' ∈ path.toList) (hc : path.toList.head? = some c)
    (hslash : c ≠ '/') (hdot : c ≠ '.') (hd : path.toList.getLast? = some d) (hslash' : d ≠ '/')
    (hdot' : d ≠ '.') : ∃ name more, parent path = name :: more ∧ name.toList.head? = some c := by
  obtain ⟨xs, ys, hpath⟩ := List.append_of_mem hmem
  have hsplit : pieces path = pieces (String.ofList xs) ++ pieces (String.ofList ys) := by
    rw [← pieces_append, String.toList_ofList, ← hpath, String.ofList_toList]
  have hxs : (String.ofList xs).toList.head? = some c := by
    cases xs with
    | nil => simp [hpath, hslash.symm] at hc
    | cons a xs => simpa [hpath] using hc
  have hys : (String.ofList ys).toList.getLast? = some d := by
    cases ys with
    | nil => simp [hpath, hslash'.symm] at hd
    | cons a ys => simpa [hpath, List.getLast?_cons] using hd
  obtain ⟨name, more, hfirst, hhead, hname⟩ := pieces_of_head hxs hslash hdot
  obtain ⟨front, last, hlast, hmatters⟩ := pieces_of_getLast hys hslash' hdot'
  have hpieces : pieces path = name :: (more ++ front ++ [last]) := by
    rw [hsplit, hfirst, hlast]
    simp
  have hne : name ≠ "" := by
    rintro rfl
    simp [matters] at hname
  refine ⟨name, (more ++ front).filter matters, ?_, hhead⟩
  rw [parent, components_of_pieces hpieces, if_neg hne, List.filter_append,
    List.filter_cons_of_pos hmatters, List.filter_nil, ← List.cons_append, List.dropLast_concat]

/-- A text that a file may have for its name, and that cannot be taken for dots. -/
structure IsName (name : String) : Prop where
  slash : '/' ∉ name.toList
  head : ∃ c, name.toList.head? = some c ∧ c ≠ '.'

lemma IsName.starts {name : String} (h : IsName name) :
    ∃ c, name.toList.head? = some c ∧ c ≠ '/' ∧ c ≠ '.' := by
  obtain ⟨c, hc, hdot⟩ := h.head
  refine ⟨c, hc, ?_, hdot⟩
  rintro rfl
  exact h.slash (List.mem_of_mem_head? hc)

lemma IsName.relative {name : String} (h : IsName name) : ¬ isAbsolute name := by
  obtain ⟨c, hc, hslash, -⟩ := h.starts
  simp [isAbsolute, hc, hslash]

lemma parent_of_not_mem (h : '/' ∉ path.toList) : parent path = [] := by
  rw [parent, components_of_pieces (pieces_of_not_mem h)]
  split_ifs <;> rfl

end Path

namespace Files

variable {fs : Files} {base rest path : String} {c : Char}

/-- A directory that a path names, and the ones on the way to it. -/
def lineage (fs : Files) (path : String) : List Place :=
  (fs.start path).stops (Path.components path)

/-- The place of the directory that a path is in. -/
def directory (fs : Files) (path : String) : Place :=
  (Path.parent path).foldl Place.step (fs.start path)

lemma start_join (base : String) (h : ¬ Path.isAbsolute rest) :
    fs.start (Path.join base rest) = fs.start base := by
  have habsolute : Path.isAbsolute (Path.join base rest) = Path.isAbsolute base := by
    unfold Path.join
    split_ifs with hstart hend
    · have hempty : base = "" := by simpa [h] using hstart
      simpa [hempty, Path.isAbsolute] using h
    all_goals
      have hne : base.toList ≠ [] := by simpa [h] using hstart
      obtain ⟨a, cs, hcs⟩ := List.exists_cons_of_ne_nil hne
      simp [Path.isAbsolute, hcs]
  rw [start, start, habsolute]

/-- Empty pieces and dots lead nowhere. -/
lemma foldl_step_filter (pieces : List String) (p : Place) :
    (pieces.filter Path.matters).foldl Place.step p = pieces.foldl Place.step p := by
  induction pieces generalizing p with
  | nil => rfl
  | cons piece rest ih =>
    by_cases h : Path.matters piece
    · rw [List.filter_cons_of_pos h, List.foldl_cons, List.foldl_cons, ih]
    · have hstep : p.step piece = p := by
        have hdot : piece = "" ∨ piece = "." := by
          by_cases hempty : piece = ""
          · exact .inl hempty
          · exact .inr (by simpa [Path.matters, hempty] using h)
        rw [Place.step, if_pos (by simpa using hdot)]
      rw [List.filter_cons_of_neg h, List.foldl_cons, hstep, ih]

/-- The components of a path lead where its pieces do. -/
lemma foldl_step_components (path : String) (p : Place) :
    (Path.components path).foldl Place.step p = (Path.pieces path).foldl Place.step p := by
  obtain ⟨first, more, hpieces⟩ := List.exists_cons_of_ne_nil (Path.pieces_ne_nil path)
  rw [Path.components_of_pieces hpieces, hpieces, List.foldl_cons]
  split_ifs with hfirst
  · rw [foldl_step_filter, hfirst]
    rfl
  · rw [List.foldl_cons, foldl_step_filter]

theorem reach_join (fs : Files) (base : String) (h : ¬ Path.isAbsolute rest) :
    fs.reach (Path.join base rest) = (Path.pieces rest).foldl Place.step (fs.reach base) := by
  obtain ⟨front, hjoin, hbase⟩ := Path.pieces_join base h
  have hfront : fs.reach base = front.foldl Place.step (fs.start base) := by
    rw [reach]
    rcases hbase with hbase | hbase
    · rw [hbase]
    · rw [hbase, List.foldl_append]
      rfl
  rw [hfront, reach, start_join base h, hjoin, List.foldl_append]

variable {name : String}

/-- A name joined to a directory leads to a place right below it. -/
theorem reach_join_name (fs : Files) (base : String) (h : Path.IsName name) :
    fs.reach (Path.join base name) = fs.reach base ++ [name] := by
  obtain ⟨c, hc, -, hdot⟩ := h.starts
  have hempty : name ≠ "" := by
    rintro rfl
    simp at hc
  have hsingle : name ≠ "." := by
    rintro rfl
    exact hdot (by simpa using hc.symm)
  have hdouble : name ≠ ".." := by
    rintro rfl
    exact hdot (by simpa using hc.symm)
  rw [reach_join fs base h.relative, Path.pieces_of_not_mem h.slash, List.foldl_cons,
    List.foldl_nil]
  exact Place.step_name hempty hsingle hdouble

/-- The way to it ends in the directory. -/
theorem wayTo_join_name (fs : Files) (base : String) (h : Path.IsName name) :
    fs.wayTo (Path.join base name) = fs.lineage base := by
  obtain ⟨c, hc, hslash, hdot⟩ := h.starts
  rw [wayTo, start_join base h.relative, Path.parent_join base hc hslash hdot,
    Path.parent_of_not_mem h.slash, List.append_nil, ← lineage]

theorem directory_join_name (fs : Files) (base : String) (h : Path.IsName name) :
    fs.directory (Path.join base name) = fs.reach base := by
  obtain ⟨c, hc, hslash, hdot⟩ := h.starts
  rw [directory, start_join base h.relative, Path.parent_join base hc hslash hdot,
    Path.parent_of_not_mem h.slash, List.append_nil, foldl_step_components, ← reach]

end Files
end Mend
