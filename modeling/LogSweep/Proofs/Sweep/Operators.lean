import LogSweep.Proofs.Sweep.Seams

/-!
# What goes on behind a call

A call expression goes on when the next token is a template literal, one of the punctuators
`operators`, or one of the words `operatorWords`. The search looks at one byte of the next token
only. That is enough for a template literal and for every punctuator whose first byte is among
`continuations`; the others are `^`, `!=` and `!==`, and words are not looked at (`goesOn_iff`). So
behind a call statement without a semicolon an expression goes on exactly when one of these comes
next.
-/

namespace LogSweep

open Lexical Block Call

/-! ## Tokens -/

/-- Whether the cells begin with the bytes of a token, all of them code. -/
def beginsToken (token : String) (cells : List Cell) : Bool :=
  (codeCells (.ofString token)).isPrefixOf cells

/-- Whether the cells begin with a word that no longer name goes on from. -/
def beginsWord (word : String) (cells : List Cell) : Bool :=
  beginsToken word cells &&
    (cells.drop (Bytes.ofString word).length).head?.all (!Byte.isName ·.byte)

/-- The punctuators that a call expression can go on with. -/
def operators : List String :=
  [".", "?.", "(", "[", "?", ",", "+", "-", "*", "/", "%", "**", "=", "==", "===", "!=", "!==", "<",
    ">", "<=", ">=", "<<", ">>", ">>>", "&", "|", "^", "&&", "||", "??"]

/-- The words that a call expression can go on with. -/
def operatorWords : List String :=
  ["in", "instanceof"]

/-- Whether an expression goes on with the token that the cells begin with. -/
def goesOn (cells : List Cell) : Bool :=
  cells.head?.any (·.kind? == some .template) || operators.any (beginsToken · cells) ||
    operatorWords.any (beginsWord · cells)

/-- What comes next behind the cells of a gap. -/
def nextToken (cells : List Cell) : List Cell :=
  cells.dropWhile (·.isGap)

/-- A token begins where its code cells stand first. -/
theorem beginsToken_iff {token : String} {cells : List Cell} :
    beginsToken token cells = true ↔ codeCells (.ofString token) <+: cells :=
  List.isPrefixOf_iff_prefix

/-- A token begins with those that begin it. -/
theorem beginsToken_mono {short long : String} {cells : List Cell}
    (h : Bytes.ofString short <+: Bytes.ofString long) (hlong : beginsToken long cells = true) :
    beginsToken short cells = true := by
  rw [beginsToken_iff] at hlong ⊢
  exact (h.map _).trans hlong

/-- A token of one byte. -/
theorem beginsToken_byte {token : String} {b : UInt8} (h : Bytes.ofString token = [b])
    {cells : List Cell} : beginsToken token cells = true ↔ cells.head? = some ⟨b, .code⟩ := by
  rw [beginsToken_iff, h]
  cases cells with
  | nil => simp
  | cons c cells => simp [codeCells, List.cons_prefix_cons, eq_comm]

/-! ## The table of continuations -/

/-- Every byte of the table is a punctuator. -/
theorem exists_operator {b : UInt8} (h : continuations.contains b = true) :
    ∃ token ∈ operators, Bytes.ofString token = [b] := by
  have hall : continuations.all (fun b => operators.any (Bytes.ofString · == [b])) = true := by
    decide +kernel
  have hb := List.all_eq_true.1 hall b (List.contains_iff_mem.1 h)
  obtain ⟨token, hmem, htoken⟩ := List.any_eq_true.1 hb
  exact ⟨token, hmem, beq_iff_eq.1 htoken⟩

/-- Every punctuator begins with a byte of the table, with `^` or with `!=`. -/
theorem operator_cases {token : String} (h : token ∈ operators) :
    (∃ b bytes, Bytes.ofString token = b :: bytes ∧ continuations.contains b = true) ∨
      Bytes.ofString "^" <+: Bytes.ofString token ∨
      Bytes.ofString "!=" <+: Bytes.ofString token := by
  have hall : operators.all (fun token => (Bytes.ofString token).head?.any continuations.contains ||
      (Bytes.ofString "^").isPrefixOf (Bytes.ofString token) ||
      (Bytes.ofString "!=").isPrefixOf (Bytes.ofString token)) = true := by
    decide +kernel
  have htoken := List.all_eq_true.1 hall token h
  simp only [Bool.or_eq_true, List.isPrefixOf_iff_prefix, or_assoc] at htoken
  refine htoken.imp_left fun hhead => ?_
  obtain ⟨b, hb, hcontains⟩ := (Option.any_eq_true _ _).1 hhead
  obtain ⟨bytes, hbytes⟩ := List.head?_eq_some_iff.1 hb
  exact ⟨b, bytes, hbytes, hcontains⟩

/-- The first cell that is no gap decides whether an expression goes on. -/
theorem continuesExpression_cons {c : Cell} (hc : c.isGap = false) (rest : List Cell) :
    continuesExpression (c :: rest) =
      (c.kind? == some .template || c.isCode && continuations.contains c.byte) := by
  rw [continuesExpression, List.dropWhile_cons_of_neg (by rw [hc]; exact Bool.false_ne_true)]

/-- All operators are seen but for two, which begin with bytes that the table lacks. -/
theorem continuesExpression_of_operator {token : String} (h : token ∈ operators)
    {cells : List Cell} (hcells : ∀ c, cells.head? = some c → c.isGap = false)
    (hbegins : beginsToken token cells = true) :
    continuesExpression cells = true ∨ beginsToken "^" cells = true ∨
      beginsToken "!=" cells = true := by
  rcases operator_cases h with ⟨b, bytes, hbytes, hcontains⟩ | hshort | hshort
  · left
    rw [beginsToken_iff, hbytes, codeCells_cons] at hbegins
    obtain ⟨rest, rfl⟩ := hbegins
    rw [List.cons_append, continuesExpression_cons (hcells _ rfl), Bool.or_eq_true,
      Bool.and_eq_true]
    exact .inr ⟨rfl, hcontains⟩
  · exact .inr (.inl (beginsToken_mono hshort hbegins))
  · exact .inr (.inr (beginsToken_mono hshort hbegins))

/-- What is seen to go on does go on. -/
theorem goesOn_of_continuesExpression {cells : List Cell}
    (hcells : ∀ c, cells.head? = some c → c.isGap = false)
    (h : continuesExpression cells = true) : goesOn cells = true := by
  cases cells with
  | nil => cases h
  | cons c rest =>
    rw [continuesExpression_cons (hcells c rfl), Bool.or_eq_true, Bool.and_eq_true] at h
    rw [goesOn, Bool.or_eq_true, Bool.or_eq_true]
    rcases h with htemplate | ⟨hcode, hcontains⟩
    · exact .inl (.inl htemplate)
    · obtain ⟨token, hmem, htoken⟩ := exists_operator hcontains
      refine .inl (.inr (List.any_eq_true.2 ⟨token, hmem, (beginsToken_byte htoken).2 ?_⟩))
      have hmark : c.mark = .code := beq_iff_eq.1 hcode
      rw [List.head?_cons, ← hmark]

/-- The table finds every token that an expression goes on with, but for `^`, `!=`, `!==` and the
words. -/
theorem goesOn_iff {cells : List Cell} (hcells : ∀ c, cells.head? = some c → c.isGap = false) :
    goesOn cells = true ↔ continuesExpression cells = true ∨ beginsToken "^" cells = true ∨
      beginsToken "!=" cells = true ∨ beginsWord "in" cells = true ∨
      beginsWord "instanceof" cells = true := by
  constructor
  · intro h
    rw [goesOn, Bool.or_eq_true, Bool.or_eq_true] at h
    rcases h with (htemplate | hoperator) | hword
    · obtain ⟨c, hc, hkind⟩ := (Option.any_eq_true _ _).1 htemplate
      obtain ⟨rest, rfl⟩ := List.head?_eq_some_iff.1 hc
      left
      rw [continuesExpression_cons (hcells c hc), hkind, Bool.true_or]
    · obtain ⟨token, hmem, hbegins⟩ := List.any_eq_true.1 hoperator
      rcases continuesExpression_of_operator hmem hcells hbegins with h | h | h
      · exact .inl h
      · exact .inr (.inl h)
      · exact .inr (.inr (.inl h))
    · obtain ⟨word, hmem, hbegins⟩ := List.any_eq_true.1 hword
      simp only [operatorWords, List.mem_cons, List.not_mem_nil, or_false] at hmem
      rcases hmem with rfl | rfl
      · exact .inr (.inr (.inr (.inl hbegins)))
      · exact .inr (.inr (.inr (.inr hbegins)))
  · have htoken : ∀ token ∈ operators, beginsToken token cells = true → goesOn cells = true := by
      intro token hmem hbegins
      rw [goesOn, List.any_eq_true.2 ⟨token, hmem, hbegins⟩, Bool.or_true, Bool.true_or]
    have hword : ∀ word ∈ operatorWords, beginsWord word cells = true → goesOn cells = true := by
      intro word hmem hbegins
      rw [goesOn, List.any_eq_true.2 ⟨word, hmem, hbegins⟩, Bool.or_true]
    rintro (h | h | h | h | h)
    · exact goesOn_of_continuesExpression hcells h
    · exact htoken "^" (by decide) h
    · exact htoken "!=" (by decide) h
    · exact hword "in" (by decide) h
    · exact hword "instanceof" (by decide) h

/-! ## Behind a call statement -/

/-- The next token is no gap. -/
theorem not_isGap_nextToken {cells : List Cell} {c : Cell} (h : (nextToken cells).head? = some c) :
    c.isGap = false := by
  have hhead := List.head?_dropWhile_not (fun c : Cell => c.isGap) cells
  rw [show cells.dropWhile _ = nextToken cells from rfl, h] at hhead
  simpa using hhead

/-- Gaps before the next token do not matter. -/
theorem continuesExpression_nextToken (cells : List Cell) :
    continuesExpression (nextToken cells) = continuesExpression cells := by
  have hgap : ∀ c ∈ cells.takeWhile (·.isGap), c.isGap = true :=
    List.all_eq_true.1 List.all_takeWhile
  rw [nextToken, ← continuesExpression_of_gaps hgap, List.takeWhile_append_dropWhile]

/-- Behind a call statement without a semicolon of its own, past ASCII white space and comments,
there is no template literal and no punctuator that a call expression goes on with, other than `^`,
`!=` and `!==`. Of all tokens that it goes on with only these and the words can come next, and each
of them is taken for the start of another statement. -/
theorem goesOn_behind_site_iff (target : String) (h : Rules.isDottedName target.toList = true)
    (keyword text : Bytes) :
    ∀ site ∈ (find (.ofString target) keyword text).sites, site.semicolon = false →
      (goesOn (nextToken ((scan text).drop site.stop)) = true ↔
        beginsToken "^" (nextToken ((scan text).drop site.stop)) = true ∨
        beginsToken "!=" (nextToken ((scan text).drop site.stop)) = true ∨
        beginsWord "in" (nextToken ((scan text).drop site.stop)) = true ∨
        beginsWord "instanceof" (nextToken ((scan text).drop site.stop)) = true) := by
  intro site hsite hsemi
  have hrun := find_run (Rules.dotted_of_isDottedName h) keyword text
  have hends := hrun.not_continuesExpression (Lexed.scan text) site hsite hsemi
  rw [goesOn_iff fun c hc => not_isGap_nextToken hc, continuesExpression_nextToken]
  rw [List.nil_append] at hends
  rw [hends, or_iff_right Bool.false_ne_true]

/-- Behind a comment and a line break there is a word that begins like an operator. -/
theorem goesOn_behind_site_iff_name :
    Rules.isDottedName "log".toList = true ∧
    (find (.ofString "log") [] (.ofString "log(a) // b\n\tinner")).sites.map
      (fun site => (site.stop, site.semicolon)) = [(6, false)] ∧
    goesOn (nextToken ((scan (.ofString "log(a) // b\n\tinner")).drop 6)) = false := by
  have hname : Rules.isDottedName "log".toList = true := by decide
  have hsites : (find (.ofString "log") [] (.ofString "log(a) // b\n\tinner")).sites.map
      (fun site => (site.stop, site.semicolon)) = [(6, false)] := by decide +kernel
  refine ⟨hname, hsites, Bool.eq_false_iff.2 fun hgoes => ?_⟩
  obtain ⟨site, hsite, hpair⟩ := List.mem_map.1 (hsites ▸ List.mem_singleton_self (6, false))
  obtain ⟨hstop, hsemi⟩ := Prod.mk.inj hpair
  rw [← hstop] at hgoes
  have hmissed := (goesOn_behind_site_iff "log" hname [] _ site hsite hsemi).1 hgoes
  rw [hstop] at hmissed
  revert hmissed
  decide +kernel

/-- An operator on the next line that is not in the table: the call is accepted, and its value is
an operand. So it is where a vertical tab stands in front of an operator that is in the table. -/
theorem goesOn_behind_site_caret :
    Rules.isDottedName "console.log".toList = true ∧
    (find (.ofString "console.log") (.ofString "catch") (.ofString "console.log(a)\n^ b")).sites.map
      (fun site => (site.span, site.semicolon)) = [(⟨0, 14⟩, false)] ∧
    beginsToken "^" (nextToken ((scan (.ofString "console.log(a)\n^ b")).drop 14)) = true ∧
    goesOn (nextToken ((scan (.ofString "console.log(a)\n^ b")).drop 14)) = true ∧
    (find (.ofString "console.log") (.ofString "catch")
        (.ofString "console.log(a)\n\x0b.then(b)")).sites.map
      (fun site => (site.span, site.semicolon)) = [(⟨0, 14⟩, false)] ∧
    beginsToken "\x0b." (nextToken ((scan (.ofString "console.log(a)\n\x0b.then(b)")).drop 14)) =
      true := by
  decide +kernel

end LogSweep
