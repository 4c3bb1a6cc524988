import Mend.Proofs.Go.Scanning

/-! Reading a text token by token, as steps and as the paths they make up: what a path takes, where
its tokens stand, and what it reads when the text behind it is another one. -/
namespace Mend.Go

/-- What a token is, wherever it stands. -/
def Token.mark (t : Token) : TokenKind × List Char := (t.kind, t.chars)

namespace Scan

/-- Where the reader of a text has got to: what is left, at which offset, and whether a line break
ends a statement there. -/
structure Front where
  rest : List Char
  pos : Nat
  ends : Bool

/-- The tokens from a front on. -/
def lex (f : Front) : List Token := tokens (f.rest.length + 1) f.rest f.pos f.ends

/-- Passed over without a token: white space, and a byte order mark that starts the text. -/
def Skipped (c : Char) (pos : Nat) : Prop := isBlank c = true ∨ c = '\ufeff' ∧ pos = 0

/-- Whether a line break ends a statement behind a token. -/
def endsAfter (ends : Bool) (t : Token) : Bool :=
  if t.kind = .comment then ends else t.endsStatement

/-- What the reader does at once: a step takes at least one character and gives at most one
token. -/
inductive Step : Front → List Token → Front → Prop
  | newline (rest : List Char) (pos : Nat) :
      Step ⟨'\n' :: rest, pos, true⟩ [⟨.newline, pos, ['\n']⟩] ⟨rest, pos + 1, false⟩
  | skip {c : Char} {pos : Nat} {ends : Bool} (rest : List Char) :
      Skipped c pos → (c = '\n' → ends = false) →
      Step ⟨c :: rest, pos, ends⟩ [] ⟨rest, pos + 1, ends⟩
  | token {a rest : List Char} {pos : Nat} {ends : Bool} {t : Token} :
      a ≠ [] → (∀ c ∈ a.head?, ¬ Skipped c pos) → a.length = max 1 (token (a ++ rest)).2 →
      t = ⟨(token (a ++ rest)).1, pos, a⟩ →
      Step ⟨a ++ rest, pos, ends⟩ [t] ⟨rest, pos + a.length, endsAfter ends t⟩

lemma tokens_of_length_lt {m n : Nat} (cs : List Char) (pos : Nat) (ends : Bool)
    (hm : cs.length < m) (hn : cs.length < n) : tokens m cs pos ends = tokens n cs pos ends := by
  induction m generalizing n cs pos ends with
  | zero => omega
  | succ m ih =>
    obtain ⟨n, rfl⟩ : ∃ k, n = k + 1 := ⟨n - 1, by omega⟩
    cases cs with
    | nil => rfl
    | cons c rest =>
      simp only [List.length_cons] at hm hn
      have hdrop (k : Nat) : ((c :: rest).drop (max 1 k)).length ≤ rest.length := by
        simp only [List.length_drop, List.length_cons]
        omega
      have hshort := hdrop (token (c :: rest)).2
      simp only [tokens]
      rw [ih (n := n) rest (pos + 1) false (by omega) (by omega),
        ih (n := n) rest (pos + 1) ends (by omega) (by omega),
        ih (n := n) _ _ _ (by omega) (by omega)]

lemma Step.lex {f g : Front} {ts : List Token} (h : Step f ts g) :
    Scan.lex f = ts ++ Scan.lex g := by
  cases h with
  | newline rest pos => simp [Scan.lex, tokens]
  | @skip c pos ends rest hskip hline =>
    have hends : ¬ (c = '\n' ∧ ends = true) := by
      rintro ⟨hc, he⟩
      simp [hline hc] at he
    have hpass : isBlank c = true ∨ c = '\ufeff' ∧ pos = 0 := hskip
    simp [Scan.lex, tokens, hends, hpass]
  | @token a rest pos ends t ha hskip hlen ht =>
    obtain ⟨c, a, rfl⟩ := List.exists_cons_of_ne_nil ha
    have hpass : ¬ (isBlank c = true ∨ c = '\ufeff' ∧ pos = 0) := hskip c rfl
    have hends : ¬ (c = '\n' ∧ ends = true) := by
      rintro ⟨rfl, _⟩
      exact hpass (.inl (by decide))
    have htake : (c :: (a ++ rest)).take (max 1 (Scan.token (c :: (a ++ rest))).2) = c :: a := by
      rw [← List.cons_append, ← hlen, List.take_left]
    have hdrop : (c :: (a ++ rest)).drop (max 1 (Scan.token (c :: (a ++ rest))).2) = rest := by
      rw [← List.cons_append, ← hlen, List.drop_left]
    subst ht
    simp only [Scan.lex, tokens, List.cons_append]
    rw [if_neg (by simpa using hends), if_neg (by simpa using hpass), htake, hdrop,
      tokens_of_length_lt rest _ _ (n := rest.length + 1)
        (by rw [List.length_cons, List.length_append]; omega) (by omega)]
    simp only [endsAfter, ← List.cons_append, ← hlen]
    rfl

/-- What is left is shorter after a step by what the step takes. -/
lemma Step.consumes {f g : Front} {ts : List Token} (h : Step f ts g) :
    ∃ a, a ≠ [] ∧ f.rest = a ++ g.rest ∧ g.pos = f.pos + a.length := by
  cases h with
  | newline rest pos => exact ⟨['\n'], by simp, rfl, rfl⟩
  | @skip c pos ends rest => exact ⟨[c], by simp, rfl, rfl⟩
  | @token a rest pos ends t ha => exact ⟨a, ha, rfl, rfl⟩

lemma exists_step {f : Front} (h : f.rest ≠ []) : ∃ ts g, Step f ts g := by
  obtain ⟨rest, pos, ends⟩ := f
  obtain ⟨c, rest, rfl⟩ := List.exists_cons_of_ne_nil h
  by_cases hends : c = '\n' ∧ ends = true
  · obtain ⟨rfl, rfl⟩ := hends
    exact ⟨_, _, .newline rest pos⟩
  · by_cases hskip : Skipped c pos
    · exact ⟨_, _, .skip rest hskip (by simpa using hends)⟩
    · have hlen := length_token_le (List.cons_ne_nil c rest)
      obtain ⟨a, b, hab, ha⟩ : ∃ a b, c :: rest = a ++ b ∧ a.length = max 1 (token (c :: rest)).2 :=
        ⟨(c :: rest).take (max 1 (token (c :: rest)).2), (c :: rest).drop _,
          (List.take_append_drop _ _).symm, by
          rw [List.length_take]
          simp only [List.length_cons] at *
          omega⟩
      have hne : a ≠ [] := by
        rintro rfl
        simp only [List.length_nil] at ha
        omega
      have hhead : ∀ x ∈ a.head?, ¬ Skipped x pos := by
        obtain ⟨x, a, rfl⟩ := List.exists_cons_of_ne_nil hne
        obtain ⟨rfl, _⟩ := List.cons.inj hab
        simpa using hskip
      rw [hab] at ha ⊢
      exact ⟨_, _, .token hne hhead ha rfl⟩

/-- An argument about all fronts, step by step from the end of the text. -/
theorem Front.induction {P : Front → Prop} (nil : ∀ pos ends, P ⟨[], pos, ends⟩)
    (step : ∀ {f g ts}, Step f ts g → P g → P f) (f : Front) : P f := by
  obtain ⟨n, hn⟩ : ∃ n, n = f.rest.length := ⟨_, rfl⟩
  induction n using Nat.strongRecOn generalizing f with
  | ind n ih =>
    by_cases hf : f.rest = []
    · obtain ⟨rest, pos, ends⟩ := f
      subst hf
      exact nil pos ends
    · obtain ⟨ts, g, hstep⟩ := exists_step hf
      obtain ⟨a, ha, hrest, _⟩ := hstep.consumes
      have hlen := congrArg List.length hrest
      have hpos := List.length_pos_iff.2 ha
      rw [List.length_append] at hlen
      exact step hstep (ih g.rest.length (by omega) g rfl)

/-- Any number of steps, with the tokens they give. -/
inductive Path : Front → List Token → Front → Prop
  | refl (f : Front) : Path f [] f
  | cons {f g h : Front} {ts us : List Token} : Step f ts g → Path g us h → Path f (ts ++ us) h

variable {f g h : Front} {ts us : List Token}

lemma Step.path (hs : Step f ts g) : Path f ts g := by
  simpa using Path.cons hs (.refl g)

lemma Path.trans (hfg : Path f ts g) (hgh : Path g us h) : Path f (ts ++ us) h := by
  induction hfg with
  | refl => exact hgh
  | cons hs _ ih =>
    rw [List.append_assoc]
    exact .cons hs (ih hgh)

lemma Path.lex (hp : Path f ts g) : Scan.lex f = ts ++ Scan.lex g := by
  induction hp with
  | refl => rfl
  | cons hs _ ih => rw [hs.lex, ih, List.append_assoc]

lemma Path.tokenize_eq {cs : List Char} (hp : Path ⟨cs, 0, false⟩ ts g) :
    tokenize cs = ts ++ Scan.lex g := hp.lex

lemma Path.consumes (hp : Path f ts g) :
    ∃ a, f.rest = a ++ g.rest ∧ g.pos = f.pos + a.length := by
  induction hp with
  | refl => exact ⟨[], rfl, rfl⟩
  | cons hs _ ih =>
    obtain ⟨a, _, hrest, hpos⟩ := hs.consumes
    obtain ⟨b, hrest', hpos'⟩ := ih
    exact ⟨a ++ b, by rw [hrest, hrest', List.append_assoc], by simp; omega⟩

lemma Step.bounds (hs : Step f ts g) : ∀ t ∈ ts, t.start = f.pos ∧ t.stop = g.pos := by
  cases hs <;> simp_all [Token.stop]

lemma Path.bounds (hp : Path f ts g) : ∀ t ∈ ts, f.pos ≤ t.start ∧ t.stop ≤ g.pos := by
  induction hp with
  | refl => simp
  | cons hs hp ih =>
    obtain ⟨_, _, _, hpos⟩ := hs.consumes
    obtain ⟨_, _, hpos'⟩ := hp.consumes
    intro t ht
    rcases List.mem_append.1 ht with ht | ht
    · have := hs.bounds t ht
      omega
    · have := ih t ht
      omega

/-- Every offset of a text lies between two steps or inside a token. -/
theorem path_to (f : Front) (m : Nat) (hm : m ≤ f.rest.length) :
    (∃ ts g, Path f ts g ∧ g.pos = f.pos + m) ∨
      ∃ ts g t h, Path f ts g ∧ Step g [t] h ∧ g.pos < f.pos + m ∧ f.pos + m < h.pos := by
  induction f using Front.induction generalizing m with
  | nil pos ends =>
    obtain rfl : m = 0 := by simpa using hm
    exact .inl ⟨[], _, .refl _, rfl⟩
  | @step f g ts hs ih =>
    obtain ⟨a, _, hrest, hpos⟩ := hs.consumes
    have hlen := congrArg List.length hrest
    rw [List.length_append] at hlen
    by_cases hzero : m = 0
    · exact .inl ⟨[], f, .refl f, by omega⟩
    · by_cases ham : a.length ≤ m
      · rcases ih (m - a.length) (by omega) with ⟨us, h, hp, hh⟩ | ⟨us, h, t, k, hp, ht, h₁, h₂⟩
        · exact .inl ⟨ts ++ us, h, .cons hs hp, by omega⟩
        · exact .inr ⟨ts ++ us, h, t, k, .cons hs hp, ht, by omega, by omega⟩
      · obtain ⟨t, rfl⟩ : ∃ t, ts = [t] := by
          cases hs with
          | newline => exact ⟨_, rfl⟩
          | skip => simp only at hpos; omega
          | token => exact ⟨_, rfl⟩
        exact .inr ⟨[], f, t, g, .refl f, hs, by omega, by omega⟩

/-- Every token of a text is given by a step, apart from the mark for the end of the text. -/
theorem exists_step_of_mem {f : Front} {t : Token} (ht : t ∈ lex f) (hk : t.kind ≠ .endOfText) :
    ∃ ts g h, Path f ts g ∧ Step g [t] h := by
  induction f using Front.induction with
  | nil pos ends =>
    cases ends with
    | false => cases ht
    | true =>
      obtain rfl := List.mem_singleton.1 ht
      exact absurd rfl hk
  | @step f g ts hs ih =>
    rw [hs.lex] at ht
    rcases List.mem_append.1 ht with ht | ht
    · obtain rfl : ts = [t] := by
        cases hs <;> simp_all
      exact ⟨[], f, g, .refl f, hs⟩
    · obtain ⟨us, k, h, hp, hstep⟩ := ih ht
      exact ⟨ts ++ us, k, h, .cons hs hp, hstep⟩

/-- A step in front of a stop does not depend on what comes after the stop. -/
lemma Step.replace {s : Char} (hstop : s ∈ stops) {a b y : List Char} (hs : Step f ts g)
    (hf : f.rest = a ++ s :: y) (hg : g.rest = b ++ s :: y) (hu : ∀ t ∈ ts, t.kind ≠ .unknown)
    (y' : List Char) :
    Step ⟨a ++ s :: y', f.pos, f.ends⟩ ts ⟨b ++ s :: y', g.pos, g.ends⟩ := by
  have hab {x : List Char} (h : x ++ (b ++ s :: y) = a ++ s :: y) : a = x ++ b := by
    rw [← List.append_assoc] at h
    exact (List.append_cancel_right h).symm
  cases hs with
  | newline rest pos =>
    obtain rfl := hg
    rw [hab (x := ['\n']) hf]
    exact .newline _ pos
  | @skip c pos ends rest hskip hline =>
    obtain rfl := hg
    rw [hab (x := [c]) hf]
    exact .skip _ hskip hline
  | @token x rest pos ends t hx hskip hlen ht =>
    obtain rfl := hg
    obtain rfl := hab hf
    have hne : x ++ b ≠ [] := by simp [hx]
    have hkind : (Scan.token (x ++ b ++ s :: y)).1 ≠ .unknown := by
      rw [List.append_assoc]
      simpa [ht] using hu t (by simp)
    have hle : (Scan.token (x ++ b ++ s :: y)).2 ≤ (x ++ b).length := by
      rw [List.append_assoc, List.length_append]
      omega
    have htoken := token_append hstop hne hkind hle y'
    simp only [List.append_assoc] at htoken ⊢
    exact .token hx hskip (by rw [htoken]; exact hlen) (by rw [htoken]; exact ht)

theorem Path.replace {s : Char} (hstop : s ∈ stops) {a b y : List Char} (hp : Path f ts g)
    (hf : f.rest = a ++ s :: y) (hg : g.rest = b ++ s :: y) (hu : ∀ t ∈ ts, t.kind ≠ .unknown)
    (y' : List Char) :
    Path ⟨a ++ s :: y', f.pos, f.ends⟩ ts ⟨b ++ s :: y', g.pos, g.ends⟩ := by
  induction hp generalizing a with
  | refl f =>
    obtain rfl : a = b := List.append_cancel_right (hf.symm.trans hg)
    exact .refl _
  | @cons f g' h ts us hs hp ih =>
    obtain ⟨x, hrest, _⟩ := hp.consumes
    have hg' : g'.rest = (x ++ b) ++ s :: y := by rw [hrest, hg, List.append_assoc]
    exact .cons (hs.replace hstop hf hg' (fun t ht => hu t (by simp [ht])) y')
      (ih hg' hg fun t ht => hu t (by simp [ht]))

lemma Path.eq_refl (hp : Path f ts g) (h : f.rest = g.rest) : ts = [] ∧ f = g := by
  cases hp with
  | refl => exact ⟨rfl, rfl⟩
  | cons hs hp =>
    obtain ⟨a, ha, hrest, _⟩ := hs.consumes
    obtain ⟨b, hrest', _⟩ := hp.consumes
    have hlen := congrArg List.length (hrest.symm.trans h)
    have hpos := List.length_pos_iff.2 ha
    rw [hrest', List.length_append, List.length_append] at hlen
    omega

/-- No token ends with a line feed, apart from the line feed that ends a statement. -/
lemma Step.lineFeed {a y : List Char} (hs : Step f ts g) (hf : f.rest = a ++ '\n' :: y)
    (hg : g.rest = y) : a = [] := by
  refine Classical.byContradiction fun ha => ?_
  have hab {x : List Char} (h : x ++ y = a ++ '\n' :: y) : x = a ++ ['\n'] := by
    rw [← List.singleton_append, ← List.append_assoc] at h
    exact List.append_cancel_right h
  have hlen : 0 < a.length := List.length_pos_iff.2 ha
  cases hs with
  | newline rest pos =>
    obtain rfl := hg
    have := congrArg List.length (hab (x := ['\n']) hf)
    simp only [List.length_append, List.length_cons, List.length_nil] at this
    omega
  | @skip c pos ends rest =>
    obtain rfl := hg
    have := congrArg List.length (hab (x := [c]) hf)
    simp only [List.length_append, List.length_cons, List.length_nil] at this
    omega
  | @token x rest pos ends t hx hskip hl ht =>
    obtain rfl := hg
    obtain rfl := hab hf
    rw [List.length_append, List.append_assoc] at hl
    simp only [List.singleton_append, List.length_cons, List.length_nil] at hl
    rcases token_lineFeed ha rest with h | ⟨u, n, _, _, hn, h⟩ | ⟨u, n, _, _, hn, h⟩
    · omega
    · have := (blockComment?_take hn).1
      rw [h] at hl
      simp only at hl
      omega
    · have := (raw?_take hn).1
      rw [h] at hl
      simp only at hl
      omega

/-- A path over a line feed has a step of its own for it. -/
theorem Path.split_lineFeed {a y : List Char} (hp : Path f ts g) (hf : f.rest = a ++ '\n' :: y)
    (hg : g.rest = y) : ∃ us vs h, Path f us h ∧ Step h vs g ∧ h.rest = '\n' :: y ∧
      ts = us ++ vs := by
  induction hp generalizing a with
  | refl f =>
    have := congrArg List.length (hf.symm.trans hg)
    simp only [List.length_append, List.length_cons] at this
    omega
  | @cons f g' h ts us hs hp ih =>
    obtain ⟨b, hrest, _⟩ := hp.consumes
    rw [hg] at hrest
    rcases List.eq_nil_or_concat b with rfl | ⟨b, c, rfl⟩
    · obtain rfl := hs.lineFeed hf hrest
      obtain ⟨rfl, rfl⟩ := hp.eq_refl (by rw [hrest, hg]; rfl)
      exact ⟨[], ts, f, .refl f, hs, hf, by simp⟩
    · obtain ⟨x, _, hx, _⟩ := hs.consumes
      have hc : c = '\n' := by
        have hall : (a ++ ['\n']) ++ y = (x ++ b ++ [c]) ++ y := by
          rw [hrest] at hx
          simpa using hf.symm.trans hx
        have := (List.append_inj' (List.append_cancel_right hall) rfl).2
        exact (List.singleton_inj.1 this).symm
      subst hc
      obtain ⟨vs, ws, k, hvs, hws, hk, rfl⟩ := ih (by simpa using hrest) hg
      exact ⟨ts ++ vs, ws, k, .cons hs hvs, hws, hk, by simp⟩

lemma Step.over_lineFeed {y : List Char} (hs : Step f ts g) (hf : f.rest = '\n' :: y)
    (hg : g.rest = y) (y' : List Char) :
    g.ends = false ∧ Step ⟨'\n' :: y', f.pos, f.ends⟩ ts ⟨y', g.pos, g.ends⟩ := by
  cases hs with
  | newline rest pos => exact ⟨rfl, .newline y' pos⟩
  | skip rest hskip hline =>
    obtain ⟨rfl, _⟩ := List.cons.inj hf
    exact ⟨hline rfl, .skip y' hskip hline⟩
  | @token a rest pos ends t ha hskip =>
    obtain ⟨c, a, rfl⟩ := List.exists_cons_of_ne_nil ha
    obtain ⟨rfl, _⟩ := List.cons.inj hf
    exact absurd (.inl (by decide)) (hskip '\n' rfl)

/-- Behind a line feed no line break ends a statement, and what was read in front of it does not
depend on what comes next. -/
theorem Path.replace_line {a y : List Char} (hp : Path f ts g) (hf : f.rest = a ++ '\n' :: y)
    (hg : g.rest = y) (hu : ∀ t ∈ ts, t.kind ≠ .unknown) (y' : List Char) :
    g.ends = false ∧ Path ⟨a ++ '\n' :: y', f.pos, f.ends⟩ ts ⟨y', g.pos, g.ends⟩ := by
  obtain ⟨us, vs, h, hus, hvs, hh, rfl⟩ := hp.split_lineFeed hf hg
  obtain ⟨hends, hstep⟩ := hvs.over_lineFeed hh hg y'
  have hpath := hus.replace (b := []) (by decide) hf hh (fun t ht => hu t (by simp [ht])) y'
  exact ⟨hends, hpath.trans hstep.path⟩

lemma Step.move (hs : Step f ts g) {q : Nat}
    (hq : ∀ c ∈ f.rest.head?, Skipped c f.pos ↔ Skipped c q) :
    ∃ us r, Step ⟨f.rest, q, f.ends⟩ us ⟨g.rest, r, g.ends⟩ ∧ 0 < r ∧
      us.map Token.mark = ts.map Token.mark := by
  cases hs with
  | newline rest pos => exact ⟨_, _, .newline rest q, Nat.succ_pos q, rfl⟩
  | @skip c pos ends rest hskip hline =>
    exact ⟨_, _, .skip rest ((hq c rfl).1 hskip) hline, Nat.succ_pos q, rfl⟩
  | @token a rest pos ends t ha hskip hlen ht =>
    obtain ⟨c, a, rfl⟩ := List.exists_cons_of_ne_nil ha
    have hskip' : ¬ Skipped c q := fun h => hskip c rfl ((hq c rfl).2 h)
    refine ⟨[⟨(Scan.token (c :: a ++ rest)).1, q, c :: a⟩], q + (c :: a).length, ?_, ?_, ?_⟩
    · subst ht
      exact .token ha (by simpa using hskip') hlen rfl
    · simp only [List.length_cons]
      omega
    · simp [ht, Token.mark]

lemma skipped_iff_of_pos {c : Char} {p q : Nat} (hp : 0 < p) (hq : 0 < q) :
    Skipped c p ↔ Skipped c q := by
  simp [Skipped, Nat.ne_of_gt hp, Nat.ne_of_gt hq]

/-- A text gives the same tokens wherever it stands, but for a byte order mark in front of it. -/
theorem lex_move (f : Front) {q : Nat}
    (hq : ∀ c ∈ f.rest.head?, Skipped c f.pos ↔ Skipped c q) :
    (lex ⟨f.rest, q, f.ends⟩).map Token.mark = (lex f).map Token.mark := by
  induction f using Front.induction generalizing q with
  | nil pos ends => cases ends <;> rfl
  | @step f g ts hs ih =>
    obtain ⟨us, r, hstep, hr, hmark⟩ := hs.move hq
    obtain ⟨a, ha, _, hpos⟩ := hs.consumes
    have hgpos : 0 < g.pos := by
      have := List.length_pos_iff.2 ha
      omega
    rw [hstep.lex, hs.lex, List.map_append, List.map_append, hmark,
      ih fun _ _ => skipped_iff_of_pos hgpos hr]

lemma plainToken_kind (cs : List Char) : (plainToken cs).1 ∈
    [.name, .fixed, .intNumber, .floatNumber, .imaginaryNumber, TokenKind.unknown] := by
  unfold plainToken
  split
  · simp only
    split
    · simp
    · split <;> simp
  · split
    · simp only
      split <;> simp
    · split <;> simp

lemma token_kind (cs : List Char) : (token cs).1 ≠ .endOfText ∧ (token cs).1 ≠ .newline ∧
    ((token cs).1 = .quotedString ∨ (token cs).1 = .rawString → 2 ≤ (token cs).2) := by
  unfold token
  split
  · simp
  · split <;> simp
  · split
    · rename_i n hn
      have := (quoted?_take (by decide) hn).1
      simp
      omega
    · simp
  · split <;> simp
  · split
    · rename_i n hn
      have := (raw?_take hn).1
      simp
      omega
    · simp
  · have h := plainToken_kind cs
    simp only [List.mem_cons, List.not_mem_nil, or_false] at h
    rcases h with h | h | h | h | h | h <;> simp [h]

end Scan

/-- A token is what a text has at its place; only the mark for the end of the text is empty, and a
string has both its quotes. -/
structure Token.Stands (text : List Char) (t : Token) : Prop where
  isPrefix : t.chars <+: text.drop t.start
  start_le : t.start ≤ text.length
  empty_iff : t.chars = [] ↔ t.kind = .endOfText
  quotes : t.kind = .quotedString ∨ t.kind = .rawString → 2 ≤ t.chars.length

theorem Token.Stands.stop_le {text : List Char} {t : Token} (h : t.Stands text) :
    t.stop ≤ text.length := by
  have hlen := h.isPrefix.length_le
  have hstart := h.start_le
  rw [List.length_drop] at hlen
  unfold Token.stop
  omega

/-- Tokens that stand in a text one after the other, from an offset on. -/
def Laid (text : List Char) (offset : Nat) : List Token → Prop
  | [] => offset ≤ text.length
  | t :: ts => offset ≤ t.start ∧ t.Stands text ∧ Laid text t.stop ts

theorem Laid.mono {text : List Char} {a b : Nat} {ts : List Token} (h : Laid text b ts)
    (hab : a ≤ b) : Laid text a ts := by
  cases ts with
  | nil => exact Nat.le_trans hab h
  | cons t ts => exact ⟨Nat.le_trans hab h.1, h.2⟩

theorem Laid.le {text : List Char} {a : Nat} {ts : List Token} (h : Laid text a ts) :
    a ≤ text.length := by
  cases ts with
  | nil => exact h
  | cons t ts => exact Nat.le_trans h.1 h.2.1.start_le

/-- What is laid out in front of a token ends in front of it. -/
theorem Laid.split {text : List Char} {a : Nat} {xs ts : List Token} {t : Token}
    (h : Laid text a (xs ++ t :: ts)) :
    (∀ x ∈ xs, x.Stands text ∧ x.stop ≤ t.start) ∧ a ≤ t.start ∧ t.Stands text ∧
      Laid text t.stop ts := by
  induction xs generalizing a with
  | nil => exact ⟨by simp, h⟩
  | cons x xs ih =>
    obtain ⟨ha, hx, hxs⟩ := h
    obtain ⟨hall, hstop, ht⟩ := ih hxs
    refine ⟨fun y hy => ?_, ?_, ht⟩
    · rcases List.mem_cons.1 hy with rfl | hy
      · exact ⟨hx, hstop⟩
      · exact hall y hy
    · have : x.start ≤ x.stop := Nat.le_add_right _ _
      omega

theorem Laid.stands {text : List Char} {a : Nat} {ts : List Token} (h : Laid text a ts) :
    ∀ t ∈ ts, t.Stands text := by
  intro t ht
  obtain ⟨xs, ys, rfl⟩ := List.append_of_mem ht
  exact h.split.2.2.1

namespace Scan

theorem laid_lex {text : List Char} (f : Front) (hrest : text.drop f.pos = f.rest)
    (hpos : f.pos ≤ text.length) : Laid text f.pos (lex f) := by
  induction f using Front.induction with
  | nil pos ends =>
    have hstop : text.length ≤ pos := List.drop_eq_nil_iff.1 hrest
    cases ends with
    | false => exact hpos
    | true =>
      refine ⟨Nat.le_refl _, ⟨List.nil_prefix, hpos, by simp, by simp⟩, ?_⟩
      exact hpos
  | @step f g ts hs ih =>
    obtain ⟨a, _, hcons, hgpos⟩ := hs.consumes
    have hlen : f.pos + a.length ≤ text.length := by
      have := congrArg List.length (hrest.trans hcons)
      simp only [List.length_drop, List.length_append] at this
      omega
    have hdrop : text.drop g.pos = g.rest := by
      rw [hgpos, ← List.drop_drop, hrest, hcons, List.drop_left]
    have hg := ih hdrop (by omega)
    rw [hs.lex]
    cases hs with
    | newline rest pos =>
      refine ⟨Nat.le_refl _, ⟨?_, hpos, by simp, by simp⟩, hg⟩
      exact ⟨rest, by simpa using hrest.symm⟩
    | skip => exact hg.mono (by simp)
    | @token a rest pos ends t ha _ hl ht =>
      subst ht
      have hk := token_kind (a ++ rest)
      refine ⟨Nat.le_refl _, ⟨⟨rest, hrest.symm⟩, hpos, by simp [ha, hk.1], fun hq => ?_⟩, hg⟩
      have := hk.2.2 hq
      simp only
      omega

end Scan

theorem laid_tokenize (text : List Char) : Laid text 0 (tokenize text) :=
  Scan.laid_lex ⟨text, 0, false⟩ rfl (Nat.zero_le _)

end Mend.Go
