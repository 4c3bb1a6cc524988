import Mend.Proofs.Go.Lexing

/-! Places at the starts of lines, and text put in there. In a text that is all tokens, such a place
lies between tokens, where no statement waits for its end, or inside a block comment or a raw
string. -/
namespace Mend.Go

/-- A text that is all tokens. -/
def Readable (cs : List Char) : Prop := ∀ t ∈ tokenize cs, t.kind ≠ .unknown

/-- A raw string of the text goes on over an offset. -/
def RawStringOver (text : List Char) (o : Nat) : Prop :=
  ∃ t ∈ tokenize text, t.kind = .rawString ∧ t.start < o ∧ o < t.stop

instance (text : List Char) (o : Nat) : Decidable (RawStringOver text o) :=
  inferInstanceAs (Decidable (∃ t ∈ tokenize text, _))

/-- What a program is made of: its tokens as they are spelled, comments left out. -/
def significant (ts : List Token) : List (TokenKind × List Char) :=
  (ts.map Token.mark).filter fun m => m.1 ≠ .comment

@[simp] lemma significant_append (ts us : List Token) :
    significant (ts ++ us) = significant ts ++ significant us := by
  simp [significant]

lemma significant_cons (t : Token) (ts : List Token) : significant (t :: ts) =
    if t.kind = .comment then significant ts else t.mark :: significant ts := by
  by_cases h : t.kind = .comment <;> simp [significant, Token.mark, h]

lemma significant_of_comments {ts : List Token} (h : ∀ t ∈ ts, t.kind = .comment) :
    significant ts = [] := by
  simpa [significant, Token.mark] using h

lemma significant_of_map {ts us : List Token} (h : ts.map Token.mark = us.map Token.mark) :
    significant ts = significant us := by
  rw [significant, h, significant]

theorem readable_iff {cs : List Char} :
    Readable cs ↔ .unknown ∉ (significant (tokenize cs)).map Prod.fst := by
  simp only [Readable, significant, List.mem_map, List.mem_filter, not_exists, not_and]
  constructor
  · rintro h _ ⟨⟨t, ht, rfl⟩, _⟩ hk
    exact h t ht hk
  · intro h t ht hk
    exact h t.mark ⟨⟨t, ht, rfl⟩, by simp [Token.mark, hk]⟩ hk

namespace Scan

/-- The tokens that go on over line feeds. -/
inductive Long
  | comment
  | rawString

namespace Long

def mark : Long → List Char
  | comment => ['/', '*']
  | rawString => ['\x60']

def kind : Long → TokenKind
  | comment => .comment
  | rawString => .rawString

/-- The length from behind the opening mark on, if the token is closed. -/
def close? : Long → List Char → Option Nat
  | comment => blockComment?
  | rawString => raw?

/-- Whether a line break ends a statement behind the token. -/
def ends (l : Long) (before : Bool) : Bool :=
  match l with
  | comment => before
  | rawString => true

variable (l : Long)

lemma token_mark (r : List Char) : token (l.mark ++ r) =
    (l.close? r).elim (.unknown, 1) fun n => (l.kind, n + l.mark.length) := by
  cases l with
  | comment => exact token_blockComment r
  | rawString => exact token_rawString r

lemma close?_lineFeed (u v : List Char) : l.close? (u ++ '\n' :: v) =
    (l.close? u).or ((l.close? v).map (· + (u.length + 1))) := by
  cases l with
  | comment => exact blockComment?_append_cons (by decide) u v
  | rawString => exact raw?_append_cons (by decide) u v

lemma close?_le {l : Long} {r : List Char} {n : Nat} (h : l.close? r = some n) :
    n ≤ r.length := by
  cases l with
  | comment => exact (blockComment?_take h).2.1
  | rawString => exact (raw?_take h).2.1

lemma close?_pos {l : Long} {r : List Char} {n : Nat} (h : l.close? r = some n) : 0 < n := by
  cases l with
  | comment => exact (blockComment?_take h).1
  | rawString => exact (raw?_take h).1

lemma mark_head (p : Nat) : ∀ c ∈ l.mark.head?, c ∈ stops ∧ ¬ Skipped c p := by
  have hslash : ¬ Skipped '/' p := by simp [Skipped, isBlank]
  have htick : ¬ Skipped '\x60' p := by simp [Skipped, isBlank]
  cases l with
  | comment => simpa [mark, stops] using hslash
  | rawString => simpa [mark, stops] using htick

lemma mark_ne_nil : l.mark ≠ [] := by
  cases l <;> simp [mark]

lemma step {l : Long} {r : List Char} {n : Nat} (h : l.close? r = some n) (p : Nat) (e : Bool) :
    Step ⟨l.mark ++ r, p, e⟩ [⟨l.kind, p, l.mark ++ r.take n⟩]
      ⟨r.drop n, p + l.mark.length + n, l.ends e⟩ := by
  have hr : l.mark ++ r = (l.mark ++ r.take n) ++ r.drop n := by simp
  have htoken : token (l.mark ++ r.take n ++ r.drop n) = (l.kind, n + l.mark.length) := by
    rw [← hr, l.token_mark, h]
    rfl
  have hlen : (l.mark ++ r.take n).length = l.mark.length + n := by
    simp [Nat.min_eq_left (close?_le h)]
  have hpos : 0 < l.mark.length := List.length_pos_iff.2 l.mark_ne_nil
  have hends : endsAfter e ⟨l.kind, p, l.mark ++ r.take n⟩ = l.ends e := by
    cases l <;> rfl
  rw [hr, ← hends, Nat.add_assoc, ← hlen]
  refine .token (by simp [l.mark_ne_nil]) (fun c hc => ?_) ?_ (by rw [htoken])
  · obtain ⟨d, m, hm⟩ := List.exists_cons_of_ne_nil l.mark_ne_nil
    refine (l.mark_head p c ?_).2
    rw [hm] at hc ⊢
    simpa using hc
  · rw [hlen, htoken]
    simp only
    omega

lemma step_unknown {l : Long} {r : List Char} (h : l.close? r = none) (p : Nat) (e : Bool) :
    ∃ t g, Step ⟨l.mark ++ r, p, e⟩ [t] g ∧ t.kind = .unknown := by
  obtain ⟨c, m, hm⟩ := List.exists_cons_of_ne_nil l.mark_ne_nil
  have htoken : token ([c] ++ (m ++ r)) = (.unknown, 1) := by
    have := l.token_mark r
    rwa [h, hm] at this
  have hc : ¬ Skipped c p := (l.mark_head p c (by rw [hm]; rfl)).2
  have hstep : Step ⟨[c] ++ (m ++ r), p, e⟩ [⟨(token ([c] ++ (m ++ r))).1, p, [c]⟩] _ :=
    .token (by simp) (by simpa using hc) (by rw [htoken]; rfl) rfl
  rw [hm]
  exact ⟨_, _, hstep, by rw [htoken]⟩

/-- What goes on over a line feed is a long token. -/
lemma of_lineFeed {b : List Char} (hb : b ≠ []) (rest : List Char) :
    (token (b ++ '\n' :: rest)).2 ≤ b.length ∨ ∃ l u, b = mark l ++ u ∧ close? l u = none := by
  rcases token_lineFeed hb rest with h | ⟨u, _, hb, hu, _⟩ | ⟨u, _, hb, hu, _⟩
  · exact .inl h
  · exact .inr ⟨comment, u, hb, hu⟩
  · exact .inr ⟨rawString, u, hb, hu⟩

end Long

/-- The text `a` in front of a place ends between tokens, where no line break would end a
statement. -/
def Gap (a : List Char) (ts : List Token) : Prop :=
  ∀ y, Path ⟨a ++ y, 0, false⟩ ts ⟨y, a.length, false⟩

/-- The text `a` in front of a place ends with a line feed inside a token that is still open; `b`
is the text in front of the token and `u` what it has in front of the line feed. -/
structure Inside (l : Long) (a : List Char) (ts : List Token) (b u : List Char) (e : Bool) :
    Prop where
  split : a = b ++ (l.mark ++ (u ++ ['\n']))
  unclosed : l.close? u = none
  path : ∀ y, Path ⟨a ++ y, 0, false⟩ ts ⟨l.mark ++ (u ++ '\n' :: y), b.length, e⟩

variable {l : Long} {a b u y : List Char} {ts : List Token} {e : Bool}

lemma Inside.pos (h : Inside l a ts b u e) : 0 < a.length := by
  have hsplit := congrArg List.length h.split
  simp only [List.length_append, List.length_cons, List.length_nil] at hsplit
  omega

/-- A token that is open at a place ends behind it, or it is no token. -/
theorem Inside.closed (h : Inside l a ts b u e)
    (hu : Readable (a ++ y)) : ∃ n, l.close? y = some n := by
  cases hn : l.close? y with
  | some n => exact ⟨n, rfl⟩
  | none =>
    have hclose : l.close? (u ++ '\n' :: y) = none := by
      rw [l.close?_lineFeed, h.unclosed, hn]
      rfl
    obtain ⟨t, g, hstep, ht⟩ := Long.step_unknown hclose b.length e
    exact absurd ht (hu t (by rw [(h.path y).tokenize_eq, hstep.lex]; simp))

/-- The tokens of a text that has a token over a place. -/
theorem Inside.tokenize_eq (h : Inside l a ts b u e) {n : Nat} (hn : l.close? y = some n) :
    tokenize (a ++ y) = ts ++ ⟨l.kind, b.length, l.mark ++ (u ++ '\n' :: y.take n)⟩ ::
      lex ⟨y.drop n, a.length + n, l.ends e⟩ := by
  have hclose : l.close? (u ++ '\n' :: y) = some (n + (u.length + 1)) := by
    rw [l.close?_lineFeed, h.unclosed, hn]
    rfl
  have htake : (u ++ '\n' :: y).take (n + (u.length + 1)) = u ++ '\n' :: y.take n := by
    rw [Nat.add_comm, Nat.add_assoc, List.take_length_add_append, Nat.add_comm,
      List.take_succ_cons]
  have hdrop : (u ++ '\n' :: y).drop (n + (u.length + 1)) = y.drop n := by
    rw [Nat.add_comm, Nat.add_assoc, List.drop_length_add_append, Nat.add_comm,
      List.drop_succ_cons]
  have hlen : b.length + l.mark.length + (n + (u.length + 1)) = a.length + n := by
    rw [h.split]
    simp only [List.length_append, List.length_cons, List.length_nil]
    omega
  have hstep := Long.step hclose b.length e
  rw [htake, hdrop, hlen] at hstep
  rw [(h.path y).tokenize_eq, hstep.lex]
  rfl

lemma inside_of_path {f g : Front} (hp : Path f ts g) (hf : f.rest = b ++ g.rest)
    (hpos : f.pos = 0 ∧ f.ends = false ∧ g.pos = b.length)
    (hg : g.rest = l.mark ++ (u ++ '\n' :: y)) (hfree : ∀ t ∈ ts, t.kind ≠ .unknown)
    (hopen : l.close? u = none) : Inside l (b ++ (l.mark ++ (u ++ ['\n']))) ts b u g.ends := by
  obtain ⟨c, m, hm⟩ := List.exists_cons_of_ne_nil l.mark_ne_nil
  have hc : c ∈ stops := (l.mark_head 0 c (by rw [hm]; rfl)).1
  refine ⟨rfl, hopen, fun y' => ?_⟩
  have hg' : g.rest = [] ++ c :: (m ++ (u ++ '\n' :: y)) := by rw [hg, hm]; rfl
  have hpath := hp.replace hc (by rw [hf, hg']; rfl) hg' hfree (m ++ (u ++ '\n' :: y'))
  rw [hpos.1, hpos.2.1, hpos.2.2] at hpath
  simpa [hm] using hpath

/-- A place at the start of a line lies between tokens, or inside a token that goes on over line
feeds. -/
theorem place_cases (ha : a = [] ∨ ∃ a', a = a' ++ ['\n'])
    (hu : Readable (a ++ y)) :
    (∃ ts, Gap a ts) ∨ ∃ l ts b u e, Inside l a ts b u e := by
  rcases ha with rfl | ⟨a, rfl⟩
  · exact .inl ⟨[], fun y => .refl _⟩
  · rcases path_to ⟨a ++ ['\n'] ++ y, 0, false⟩ (a ++ ['\n']).length (by simp) with
      ⟨ts, g, hp, hpos⟩ | ⟨ts, g, t, h, hp, hs, hlt, hgt⟩
    · obtain ⟨x, hx, hxpos⟩ := hp.consumes
      have hlen : (a ++ ['\n']).length = x.length := by
        simp only at hxpos hpos
        omega
      obtain ⟨rfl, hrest⟩ := List.append_inj hx hlen
      have hfree : ∀ t ∈ ts, t.kind ≠ .unknown := fun t ht =>
        hu t (by rw [hp.tokenize_eq]; simp [ht])
      refine .inl ⟨ts, fun y' => ?_⟩
      obtain ⟨hends, hpath⟩ := hp.replace_line (a := a) (by simp) hrest.symm hfree y'
      rw [hends, hpos] at hpath
      simpa using hpath
    · obtain ⟨x, hx, hxpos⟩ := hp.consumes
      have hfree : ∀ t ∈ ts, t.kind ≠ .unknown := fun t ht =>
        hu t (by rw [hp.tokenize_eq]; simp [ht])
      simp only [Nat.zero_add, List.length_append, List.length_singleton] at hxpos hlt hgt
      -- the token starts in front of the line feed, with `z` as its text up to there
      obtain ⟨z, rfl⟩ : x <+: a := by
        refine List.prefix_of_prefix_length_le ⟨g.rest, hx.symm⟩ ?_ (by omega)
        rw [List.append_assoc]
        exact List.prefix_append a _
      have hrest : g.rest = z ++ '\n' :: y := by simpa using hx.symm
      rw [List.length_append] at hlt hgt
      cases hs with
      | newline rest pos =>
        simp only at hxpos hlt hgt
        omega
      | @token w rest pos ends t hw hskip hl ht =>
        simp only at hxpos hlt hgt hrest
        have hz : z ≠ [] := by
          rintro rfl
          obtain ⟨c, w, rfl⟩ := List.exists_cons_of_ne_nil hw
          obtain ⟨rfl, _⟩ := List.cons.inj hrest
          exact hskip '\n' rfl (.inl (by decide))
        rw [hrest] at hl
        rcases Long.of_lineFeed hz y with h | ⟨l, u, rfl, hopen⟩
        · omega
        · refine .inr ⟨l, ts, x, u, ends, ?_⟩
          have := inside_of_path hp (by simpa using hx) ⟨rfl, rfl, hxpos⟩ (by simpa using hrest)
            hfree hopen
          simpa using this

/-- A text that leaves nothing but comments where a statement need not end. -/
def Filler (w : List Char) : Prop :=
  ∀ y p, ∃ ts, Path ⟨w ++ y, p, false⟩ ts ⟨y, p + w.length, false⟩ ∧ ∀ t ∈ ts, t.kind = .comment

/-- A text that a long token passes over. -/
def Long.Passes (l : Long) (w : List Char) : Prop :=
  ∀ y, l.close? (w ++ y) = (l.close? y).map (· + w.length)

variable {w : List Char}

/-- Between tokens a filler changes nothing, unless it moves a byte order mark that starts the
text. -/
theorem Gap.fill (h : Gap a ts) (hw : Filler w) (hy : a = [] → ∀ c ∈ y.head?, c ≠ '\ufeff') :
    significant (tokenize (a ++ (w ++ y))) = significant (tokenize (a ++ y)) := by
  obtain ⟨us, hus, hcomments⟩ := hw y a.length
  have hmove : ∀ c ∈ y.head?, Skipped c a.length ↔ Skipped c (a.length + w.length) := by
    intro c hc
    cases a with
    | nil => simp [Skipped, hy rfl c hc]
    | cons x a => exact skipped_iff_of_pos (Nat.succ_pos _) (Nat.add_pos_left (Nat.succ_pos _) _)
  have hmarks := lex_move ⟨y, a.length, false⟩ hmove
  rw [(h y).tokenize_eq, (h (w ++ y)).tokenize_eq, hus.lex]
  simp only [significant_append]
  rw [    significant_of_comments hcomments, List.nil_append, significant_of_map hmarks]

/-- The tokens of a text with and without another text put into a long token. -/
theorem Inside.fill (h : Inside l a ts b u e) (hw : l.Passes w)
    (hu : Readable (a ++ y) ∨ Readable (a ++ (w ++ y))) :
    ∃ n rest, (tokenize (a ++ y)).map Token.mark =
        ts.map Token.mark ++ (l.kind, l.mark ++ (u ++ '\n' :: y.take n)) :: rest ∧
      (tokenize (a ++ (w ++ y))).map Token.mark =
        ts.map Token.mark ++ (l.kind, l.mark ++ (u ++ '\n' :: (w ++ y.take n))) :: rest := by
  obtain ⟨n, hn⟩ : ∃ n, l.close? y = some n := by
    rcases hu with hu | hu
    · exact h.closed hu
    · obtain ⟨m, hm⟩ := h.closed hu
      rw [hw y] at hm
      obtain ⟨n, hn, _⟩ := Option.map_eq_some_iff.1 hm
      exact ⟨n, hn⟩
  have hn' : l.close? (w ++ y) = some (n + w.length) := by rw [hw y, hn]; rfl
  refine ⟨n, (lex ⟨y.drop n, a.length + n, l.ends e⟩).map Token.mark, ?_, ?_⟩
  · rw [h.tokenize_eq hn]
    simp [Token.mark]
  · have htake : (w ++ y).take (n + w.length) = w ++ y.take n := by
      rw [Nat.add_comm, List.take_length_add_append]
    have hdrop : (w ++ y).drop (n + w.length) = y.drop n := by
      rw [Nat.add_comm, List.drop_length_add_append]
    have hpos := h.pos
    have hmove := lex_move ⟨y.drop n, a.length + n, l.ends e⟩ (q := a.length + (n + w.length))
      fun c _ => skipped_iff_of_pos (Nat.add_pos_left hpos _) (Nat.add_pos_left hpos _)
    rw [h.tokenize_eq hn', htake, hdrop]
    simp only [List.map_append, List.map_cons, hmove]
    rfl

/-- A place where a text may be put in: between tokens, or in a comment that the text does not
close. -/
def Spares (a w : List Char) : Prop :=
  (∃ ts, Gap a ts) ∨ (∃ ts b u e, Inside .comment a ts b u e) ∧ Long.comment.Passes w

theorem Spares.fill (h : Spares a w) (hw : Filler w)
    (hy : a = [] → ∀ c ∈ y.head?, c ≠ '\ufeff')
    (hu : Readable (a ++ y) ∨ Readable (a ++ (w ++ y))) :
    significant (tokenize (a ++ (w ++ y))) = significant (tokenize (a ++ y)) := by
  rcases h with ⟨ts, h⟩ | ⟨⟨ts, b, u, e, h⟩, hpass⟩
  · exact h.fill hw hy
  · obtain ⟨n, rest, hold, hnew⟩ := h.fill hpass hu
    simp [significant, hold, hnew, Long.kind]

end Scan

/-- The characters of significant tokens one after the other, ends of lines left out. -/
def spelled (ms : List (TokenKind × List Char)) : List Char :=
  (ms.filter fun m => m.1 ≠ .newline).flatMap Prod.snd

@[simp] lemma spelled_append (ms ns : List (TokenKind × List Char)) :
    spelled (ms ++ ns) = spelled ms ++ spelled ns := by
  simp [spelled]

namespace Scan

/-- A text put into a raw string makes it longer, and everything else stays what it is. -/
theorem Inside.fill_raw (h : Inside .rawString a ts b u e) (hw : Long.rawString.Passes w)
    (hu : Readable (a ++ y) ∨ Readable (a ++ (w ++ y))) :
    (significant (tokenize (a ++ (w ++ y)))).map Prod.fst =
        (significant (tokenize (a ++ y))).map Prod.fst ∧
      (spelled (significant (tokenize (a ++ (w ++ y))))).length =
        (spelled (significant (tokenize (a ++ y)))).length + w.length := by
  obtain ⟨n, rest, hold, hnew⟩ := h.fill hw hu
  simp [significant, hold, hnew, Long.kind, spelled]
  omega

/-- A token that is open at a place reaches over it. -/
theorem Inside.covers (h : Inside l a ts b u e) (hu : Readable (a ++ y)) :
    ∃ t ∈ tokenize (a ++ y), t.kind = l.kind ∧ t.start < a.length ∧ a.length < t.stop := by
  obtain ⟨n, hn⟩ := h.closed hu
  have hpos := Long.close?_pos hn
  have hle := Long.close?_le hn
  refine ⟨⟨l.kind, b.length, l.mark ++ (u ++ '\n' :: y.take n)⟩, ?_, rfl, ?_, ?_⟩
  · rw [h.tokenize_eq hn]
    simp
  · have hsplit := congrArg List.length h.split
    simp only [List.length_append, List.length_cons, List.length_nil] at hsplit
    simp only
    omega
  · have hsplit := congrArg List.length h.split
    simp only [List.length_append, List.length_cons, List.length_nil] at hsplit
    simp only [Token.stop, List.length_append, List.length_cons, List.length_take,
      Nat.min_eq_left hle]
    omega

lemma start_of_mem_lex {text : List Char} {o : Nat} {e : Bool} {t : Token} (ho : o ≤ text.length)
    (ht : t ∈ lex ⟨text.drop o, o, e⟩) : o ≤ t.start := by
  have hlaid : Laid text o (lex ⟨text.drop o, o, e⟩) := laid_lex ⟨text.drop o, o, e⟩ rfl ho
  obtain ⟨xs, ys, hsplit⟩ := List.append_of_mem ht
  rw [hsplit] at hlaid
  exact hlaid.split.2.1

/-- Between tokens no token reaches over the place. -/
theorem Gap.not_covers (h : Gap a ts) {t : Token} (ht : t ∈ tokenize (a ++ y)) :
    ¬ (t.start < a.length ∧ a.length < t.stop) := by
  rw [(h y).tokenize_eq] at ht
  rcases List.mem_append.1 ht with ht | ht
  · have := (h y).bounds t ht
    simp only at this
    omega
  · have hdrop : (a ++ y).drop a.length = y := List.drop_left
    rw [← hdrop] at ht
    have := start_of_mem_lex (by simp) ht
    omega

/-- A token that is open at a place is the only one that reaches over it. -/
theorem Inside.kind_of_covers (h : Inside l a ts b u e) (hu : Readable (a ++ y)) {t : Token}
    (ht : t ∈ tokenize (a ++ y)) (hcovers : t.start < a.length ∧ a.length < t.stop) :
    t.kind = l.kind := by
  obtain ⟨n, hn⟩ := h.closed hu
  have hle := Long.close?_le hn
  have hsplit := congrArg List.length h.split
  simp only [List.length_append] at hsplit
  rw [h.tokenize_eq hn] at ht
  rcases List.mem_append.1 ht with ht | ht
  · have := (h.path y).bounds t ht
    simp only at this
    omega
  · rcases List.mem_cons.1 ht with rfl | ht
    · rfl
    · have hdrop : (a ++ y).drop (a.length + n) = y.drop n := List.drop_length_add_append n
      rw [← hdrop] at ht
      have := start_of_mem_lex (by simp; omega) ht
      omega

/-- A place at the start of a line is open to a text that closes no comment, or it is inside a raw
string. -/
theorem spares_or_inside (ha : a = [] ∨ ∃ a', a = a' ++ ['\n']) (hu : Readable (a ++ y))
    (hw : Long.comment.Passes w) :
    Spares a w ∧ ¬ RawStringOver (a ++ y) a.length ∨
      (∃ ts b u e, Inside .rawString a ts b u e) ∧ RawStringOver (a ++ y) a.length := by
  rcases place_cases ha hu with ⟨ts, h⟩ | ⟨l, ts, b, u, e, h⟩
  · exact .inl ⟨.inl ⟨ts, h⟩, fun ⟨t, ht, _, hcovers⟩ => h.not_covers ht hcovers⟩
  · cases l with
    | comment =>
      refine .inl ⟨.inr ⟨⟨ts, b, u, e, h⟩, hw⟩, ?_⟩
      rintro ⟨t, ht, hkind, hcovers⟩
      rw [h.kind_of_covers hu ht hcovers] at hkind
      cases hkind
    | rawString => exact .inr ⟨⟨ts, b, u, e, h⟩, h.covers hu⟩

end Scan
end Mend.Go
