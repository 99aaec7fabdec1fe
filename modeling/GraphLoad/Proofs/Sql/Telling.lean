/-
The tokens of statements. Where every table, column and alias that a statement speaks of is told to the
dialect, the text of the statement is read, with the quotes of the dialect, as its clauses with exactly
these names and its labels in their places.
-/
import GraphLoad.Proofs.Sql.Lexing
import GraphLoad.Proofs.Sql.Speaking
import GraphLoad.Proofs.Sql.Spelling

namespace GraphLoad.Sql

/-! ## What a statement speaks of -/

/-- Whether the alias and the column of an expression are told to a dialect. -/
def Expr.Safe (d : Dialect) : Expr → Prop
  | .column aliasName name => Bare aliasName ∧ d.Safe name
  | .verbatim _ => False

/-- Whether the name of a table is told to a dialect. -/
def Table.Safe (d : Dialect) : Table → Prop
  | .named name => d.Safe name
  | .verbatim _ => False

namespace Select

/-- A statement that only speaks of what is told to a dialect. -/
abbrev Safe (q : Select) (d : Dialect) : Prop := q.Speaks (Table.Safe d) Bare (Expr.Safe d)

end Select

/-! ## Tokens -/

/-- The token of a name of a table or a column. -/
def nameToken (name : String) : Token Mark := if needsQuotes name then .name name else .word name

/-- The tokens of a column under its alias. -/
def Expr.tokens : Expr → List (Token Mark)
  | .column aliasName name => [.word aliasName, .dot, nameToken name]
  | .verbatim _ => []

/-- The token of a table. -/
def Table.tokens : Table → List (Token Mark)
  | .named name => [nameToken name]
  | .verbatim _ => []

/-- The tokens of a kind of join. -/
def JoinKind.tokens : JoinKind → List (Token Mark)
  | inner => [.word "INNER", .word "JOIN"]
  | left => [.word "LEFT", .word "JOIN"]

/-- The tokens of a window of rows. -/
def Page.tokens (d : Dialect) (p : Page) : List (Token Mark) :=
  let limitTokens : List (Token Mark) :=
    match p.limit, p.offset with
    | some limit, _ => [.word "LIMIT", .number (toString limit)]
    | none, some _ =>
      match d with
      | .postgres => []
      | .sqlite => [.word "LIMIT", .minus, .number "1"]
      | .mysql => [.word "LIMIT", .number (toString maxRows)]
    | none, none => []
  limitTokens ++
    match p.offset with
    | some offset => [.word "OFFSET", .number (toString offset)]
    | none => []

namespace Select

/-- The tokens of what is selected. -/
def columnsTokens (columns : List Column) : List (Token Mark) :=
  if columns.isEmpty then [.star]
  else [.comma].intercalate (columns.map fun c => c.expr.tokens ++ [.word "AS", .name c.label])

/-- The tokens of a table that is known under an alias. -/
def knownTokens (table : Table) (aliasName : String) : List (Token Mark) :=
  table.tokens ++ [.word "AS", .word aliasName]

/-- The tokens of the table a statement starts from. -/
def sourceTokens : Option (Table × String) → List (Token Mark)
  | some (table, aliasName) => .word "FROM" :: knownTokens table aliasName
  | none => []

/-- The tokens of the equalities of a join. -/
def equalitiesTokens (on : List (Expr × Expr)) : List (Token Mark) :=
  [.word "AND"].intercalate (on.map fun e => e.1.tokens ++ .operator .equal :: e.2.tokens)

/-- The tokens of a joined table. -/
def joinTokens (j : Join) : List (Token Mark) :=
  j.kind.tokens ++ knownTokens j.table j.aliasName ++ .word "ON" :: equalitiesTokens j.on

/-- The tokens of the ordering, if there is one. -/
def orderTokens (order : List (Expr × Direction)) : List (Token Mark) :=
  if order.isEmpty then []
  else .word "ORDER" :: .word "BY" ::
    [.comma].intercalate (order.map fun term => term.1.tokens ++ [.word term.2.keyword])

/-- The tokens of a statement for a dialect. -/
def tokens (q : Select) (d : Dialect) : List (Token Mark) :=
  .word "SELECT" :: columnsTokens q.columns ++ sourceTokens q.source ++ q.joins.flatMap joinTokens ++
    (if q.condition.isAlways then [] else .word "WHERE" :: q.condition.tokens Expr.tokens d 0) ++
    orderTokens q.order ++ q.page.tokens d

end Select

/-! ## Names -/

variable {d : Dialect} {q : Char}

theorem lex_nameText {name : String} (h : d.Safe name) :
    lex d.quote (nameText name).toList = some [nameToken name] := by
  unfold Dialect.Safe at h
  unfold nameText nameToken
  by_cases hquotes : needsQuotes name = true
  · simp only [hquotes, if_true] at h ⊢
    have hdouble : d.quote = '\x22' := by
      cases d
      · rfl
      · exact absurd rfl h
      · rfl
    rw [hdouble]
    exact lex_enclose .double name
  · rw [if_neg hquotes] at h ⊢
    rw [if_neg hquotes]
    exact lex_word d.isQuote h

theorem Expr.Safe.lex {x : Expr} (h : x.Safe d) :
    Sql.lex d.quote x.text.toList = some x.tokens := by
  cases x with
  | verbatim text => exact h.elim
  | column a name =>
    obtain ⟨⟨hbare, -⟩, hname⟩ := h
    rw [Expr.text, String.toList_append, String.toList_append, List.append_assoc]
    exact lex_append (stops_of d.isQuote (.inr (.inl rfl))) (lex_word d.isQuote hbare)
      (lex_sign d.isQuote rfl (lex_nameText hname))

theorem Table.Safe.lex {t : Table} (h : t.Safe d) :
    Sql.lex d.quote t.text.toList = some t.tokens := by
  cases t with
  | verbatim text => exact h.elim
  | named name => exact lex_nameText h

/-! ## Clauses -/

/-- A clause that is read as some tokens behind any text. -/
def Follows (q : Char) (s : String) (ts : List (Token Mark)) : Prop :=
  ∀ xs us, lex q xs = some us → lex q (xs ++ s.toList) = some (us ++ ts)

theorem Follows.nothing : Follows q "" [] := by
  intro xs us h
  simpa using h

theorem Follows.append {s s' : String} {ts ts' : List (Token Mark)} (h : Follows q s ts)
    (h' : Follows q s' ts') : Follows q (s ++ s') (ts ++ ts') := by
  intro xs us hx
  rw [String.toList_append, ← List.append_assoc, ← List.append_assoc]
  exact h' _ _ (h xs us hx)

/-- Clauses one behind the other. -/
theorem follows_join {α : Type} {text : α → String} {tokens : α → List (Token Mark)} {xs : List α}
    (h : ∀ x ∈ xs, Follows q (text x) (tokens x)) :
    Follows q (String.join (xs.map text)) (xs.flatMap tokens) := by
  induction xs with
  | nil => exact Follows.nothing
  | cons x xs ih =>
    rw [List.map_cons, String.join_cons, List.flatMap_cons]
    exact (h x (List.mem_cons_self ..)).append (ih fun y hy => h y (List.mem_cons_of_mem _ hy))

section
variable (hq : IsQuote q)
include hq

/-- A clause starts with a blank. -/
theorem follows_blank {s : String} {ts : List (Token Mark)} (h : lex q s.toList = some ts) :
    Follows q (" " ++ s) ts := by
  intro xs us hx
  rw [String.toList_append]
  exact lex_spaced hq hx h

/-- A clause starts with a blank and a word. -/
theorem follows_word (lead word : String) {s : String} {ts : List (Token Mark)}
    (hlead : lead.toList = ' ' :: (word.toList ++ [' ']))
    (hword : OrderTerm.isIdentifier word = true) (h : lex q s.toList = some ts) :
    Follows q (lead ++ s) (.word word :: ts) := by
  intro xs us hx
  rw [String.toList_append, hlead, List.cons_append, List.append_assoc]
  exact lex_spaced hq hx (lex_spaced hq (lex_word hq hword) h)

/-- Two texts with `AS` between them. -/
theorem lex_as {s s' : String} {ts us : List (Token Mark)} (h : lex q s.toList = some ts)
    (h' : lex q s'.toList = some us) :
    lex q (s ++ " AS " ++ s').toList = some (ts ++ .word "AS" :: us) := by
  have hbetween : Separates q " AS " [.word "AS"] := separates_word hq "AS" (by decide)
  rw [String.toList_append, String.toList_append, hbetween h h', List.append_assoc]
  rfl

end

namespace Select

theorem lex_columnsText {columns : List Column} (h : ∀ c ∈ columns, c.expr.Safe d) :
    lex d.quote (columnsText d columns).toList = some (columnsTokens columns) := by
  cases columns with
  | nil =>
    have hchars : "*".toList = ['*'] := by decide
    show lex d.quote "*".toList = _
    rw [hchars]
    exact lex_sign d.isQuote rfl (lex_nil _)
  | cons c cs =>
    show lex d.quote (String.intercalate ", " ((c :: cs).map (columnText d))).toList =
      some ([.comma].intercalate ((c :: cs).map fun c => c.expr.tokens ++ [.word "AS", .name c.label]))
    refine lex_intercalate_map (separates_comma d.isQuote) fun c hc => ?_
    have hlabel := lex_enclose d.isQuote c.label
    rw [← d.quoteLabel_eq] at hlabel
    exact lex_as d.isQuote (h c hc).lex hlabel

/-- A table and its alias. -/
theorem lex_known {t : Table} {a : String} (ht : t.Safe d) (ha : Bare a) :
    lex d.quote (t.text ++ " AS " ++ a).toList = some (knownTokens t a) :=
  lex_as d.isQuote ht.lex (lex_word d.isQuote ha.1)

theorem follows_sourceText {source : Option (Table × String)}
    (h : ∀ s ∈ source, s.1.Safe d ∧ Bare s.2) :
    Follows d.quote (sourceText source) (sourceTokens source) := by
  cases source with
  | none => exact Follows.nothing
  | some s =>
    obtain ⟨ht, ha⟩ := h s rfl
    have hfrom := follows_word d.isQuote " FROM " "FROM" (by decide) (by decide)
      (lex_known ht ha)
    simpa only [sourceText, sourceTokens, String.append_assoc] using hfrom

theorem lex_equalitiesText {on : List (Expr × Expr)} (h : ∀ e ∈ on, e.1.Safe d ∧ e.2.Safe d) :
    lex d.quote (equalitiesText on).toList = some (equalitiesTokens on) := by
  refine lex_intercalate_map (separates_word d.isQuote "AND" (by decide)) fun e he => ?_
  obtain ⟨hleft, hright⟩ := h e he
  have hchars : (e.1.text ++ " = " ++ e.2.text).toList =
      e.1.text.toList ++ ' ' :: '=' :: ' ' :: e.2.text.toList := by simp
  rw [hchars]
  exact lex_spaced d.isQuote hleft.lex (lex_sign d.isQuote rfl (lex_blank d.isQuote hright.lex))

theorem follows_joinText {j : Join} (ht : j.table.Safe d) (ha : Bare j.aliasName)
    (hon : ∀ e ∈ j.on, e.1.Safe d ∧ e.2.Safe d) : Follows d.quote (joinText j) (joinTokens j) := by
  have hkeyword : lex d.quote j.kind.keyword.toList = some j.kind.tokens := by
    obtain hd | hd := d.isQuote <;> rw [hd] <;> cases j.kind <;> decide
  have hkind := follows_blank d.isQuote hkeyword
  have htable := follows_blank d.isQuote (lex_known ht ha)
  have hequalities := follows_word d.isQuote " ON " "ON" (by decide) (by decide)
    (lex_equalitiesText hon)
  have hall := (hkind.append htable).append hequalities
  simpa only [joinText, joinTokens, String.append_assoc] using hall

theorem follows_conditionText {c : Condition} (h : ∀ x ∈ c.exprs, x.Safe d) :
    Follows d.quote (conditionText d c)
      (if c.isAlways then [] else .word "WHERE" :: c.tokens Expr.tokens d 0) := by
  unfold conditionText
  split
  · exact Follows.nothing
  · exact follows_word d.isQuote " WHERE " "WHERE" (by decide) (by decide)
      (c.lex_text d.isQuote d (fun x hx => (h x hx).lex) 0)

theorem follows_orderText {order : List (Expr × Direction)} (h : ∀ term ∈ order, term.1.Safe d) :
    Follows d.quote (orderText order) (orderTokens order) := by
  cases order with
  | nil => exact Follows.nothing
  | cons term order =>
    have hterms : lex d.quote (String.intercalate ", " ((term :: order).map orderTermText)).toList =
        some ([.comma].intercalate ((term :: order).map fun t =>
          t.1.tokens ++ [.word t.2.keyword])) := by
      refine lex_intercalate_map (separates_comma d.isQuote) fun t ht => ?_
      have hkeyword : OrderTerm.isIdentifier t.2.keyword = true := by cases t.2 <;> decide
      have hchars : (orderTermText t).toList =
          t.1.text.toList ++ ' ' :: t.2.keyword.toList := by simp [orderTermText]
      rw [hchars]
      exact lex_spaced d.isQuote (h t ht).lex (lex_word d.isQuote hkeyword)
    intro xs us hx
    have hchars (s : String) : (" ORDER BY " ++ s).toList =
        ' ' :: ("ORDER".toList ++ ' ' :: ("BY".toList ++ ' ' :: s.toList)) := by simp
    show lex d.quote (xs ++ (" ORDER BY " ++ _).toList) = _
    rw [hchars]
    exact lex_spaced d.isQuote hx (lex_spaced d.isQuote (lex_word d.isQuote (by decide))
      (lex_spaced d.isQuote (lex_word d.isQuote (by decide)) hterms))

/-- A word and the number behind it. -/
theorem lex_counted (d : Dialect) {lead word : String} (hlead : lead.toList = word.toList ++ [' '])
    (hword : OrderTerm.isIdentifier word = true) (n : Nat) :
    lex d.quote (lead ++ toString n).toList = some [.word word, .number (toString n)] := by
  rw [String.toList_append, hlead, List.append_assoc]
  exact lex_spaced d.isQuote (lex_word d.isQuote hword) (lex_digits d.isQuote (digits_toString n))

/-- The number of rows that are skipped, behind a text. -/
theorem lex_offset (d : Dialect) {s : String} {ts : List (Token Mark)} (n : Nat)
    (hs : lex d.quote s.toList = some ts) : lex d.quote (s ++ " OFFSET " ++ toString n).toList =
      some (ts ++ [.word "OFFSET", .number (toString n)]) := by
  have hchars : (s ++ " OFFSET " ++ toString n).toList =
      s.toList ++ ' ' :: ("OFFSET " ++ toString n).toList := by simp
  rw [hchars]
  exact lex_spaced d.isQuote hs (lex_counted d (by decide) (by decide) n)

theorem lex_pageText (d : Dialect) (p : Page) :
    lex d.quote (p.text d).toList = some (p.tokens d) := by
  have hlimit (n : Nat) : lex d.quote ("LIMIT " ++ toString n).toList =
      some [.word "LIMIT", .number (toString n)] := lex_counted d (by decide) (by decide) n
  have hoffset (n : Nat) : lex d.quote ("OFFSET " ++ toString n).toList =
      some [.word "OFFSET", .number (toString n)] := lex_counted d (by decide) (by decide) n
  obtain ⟨limit, offset⟩ := p
  cases limit with
  | some l =>
    cases offset with
    | none => exact hlimit l
    | some o => exact lex_offset d o (hlimit l)
  | none =>
    cases offset with
    | none => exact lex_nil _
    | some o =>
      cases d with
      | postgres => exact hoffset o
      | sqlite =>
        have hnone : lex Dialect.sqlite.quote "LIMIT -1".toList =
            some [.word "LIMIT", .minus, .number "1"] := by decide
        have htext : "LIMIT -1 OFFSET " ++ toString o = "LIMIT -1" ++ " OFFSET " ++ toString o :=
          congrArg (· ++ toString o) (by decide)
        simp only [Page.text, Page.tokens, htext]
        exact lex_offset .sqlite o hnone
      | mysql =>
        simp only [Page.text, Page.tokens]
        exact lex_offset .mysql o (hlimit Page.maxRows)

theorem follows_pageText (d : Dialect) (p : Page) : Follows d.quote (pageText d p) (p.tokens d) := by
  unfold pageText
  split
  · rename_i hempty
    obtain ⟨limit, offset⟩ := p
    cases limit <;> cases offset <;> cases hempty
    exact Follows.nothing
  · exact follows_blank d.isQuote (lex_pageText d p)

/-! ## Statements -/

variable {q : Select}

/-- The text of a statement that only speaks of what is told to the dialect is read as its tokens. -/
theorem lex_text (h : q.Safe d) : lex d.quote (q.text d).toList = some (q.tokens d) := by
  have hcolumns : lex d.quote (columnsText d q.columns).toList = some (columnsTokens q.columns) := by
    refine lex_columnsText fun c hc => h.exprs c.expr ?_
    simp only [exprs, List.append_assoc]
    exact List.mem_append_left _ (List.mem_map_of_mem hc)
  have hselect : lex d.quote ("SELECT".toList ++ ' ' :: (columnsText d q.columns).toList) =
      some ([.word "SELECT"] ++ columnsTokens q.columns) :=
    lex_spaced d.isQuote (lex_word d.isQuote (by decide)) hcolumns
  have hsource : Follows d.quote (sourceText q.source) (sourceTokens q.source) := by
    refine follows_sourceText fun s hs => ?_
    constructor
    · exact h.tables _ (List.mem_append_left _ (by rw [hs]; simp))
    · exact h.aliases _ (List.mem_append_left _ (by rw [hs]; simp))
  have hjoins : Follows d.quote (String.join (q.joins.map joinText)) (q.joins.flatMap joinTokens) := by
    refine follows_join fun j hj => ?_
    obtain ⟨ht, ha, hon⟩ := h.join hj
    exact follows_joinText ht ha hon
  have hcondition := follows_conditionText (d := d) (c := q.condition) fun x hx =>
    h.exprs x (List.mem_append_left _ (List.mem_append_right _ hx))
  have horder : Follows d.quote (orderText q.order) (orderTokens q.order) :=
    follows_orderText fun term hterm =>
      h.exprs _ (List.mem_append_right _ (List.mem_map_of_mem hterm))
  have hall := ((((hsource.append hjoins).append hcondition).append horder).append
    (follows_pageText d q.page)) _ _ hselect
  have hchars : (q.text d).toList = "SELECT".toList ++ ' ' :: (columnsText d q.columns).toList ++
      (sourceText q.source ++ String.join (q.joins.map joinText) ++ conditionText d q.condition ++
        orderText q.order ++ pageText d q.page).toList := by
    simp [text]
  rw [hchars, hall]
  simp [tokens]

/-- A statement whose tables, columns, aliases and labels are all told to a dialect, and whose text is
read as its tokens. -/
structure Told (q : Select) (d : Dialect) : Prop where
  tables : ∀ table ∈ q.tables, ∃ name, table = .named name ∧ d.Spells name table.text
  aliases : ∀ a ∈ q.aliases, d.Spells a a
  columns : ∀ x ∈ q.exprs, ∃ a name text, x = .column a name ∧ x.text = a ++ "." ++ text ∧
    d.Spells a a ∧ d.Spells name text
  labels : ∀ l ∈ q.labels, d.Spells l (d.quoteLabel l)
  read : lex d.quote (q.build d).text.toList = some (q.tokens d)

/-- So it is exactly with the statements that only speak of what is told. -/
theorem told_iff : q.Told d ↔ q.Safe d := by
  constructor
  · intro h
    refine ⟨fun table ht => ?_, fun a ha => spells_self_iff.1 (h.aliases a ha), fun x hx => ?_⟩
    · obtain ⟨name, rfl, hname⟩ := h.tables table ht
      exact spells_nameText_iff.1 hname
    · obtain ⟨a, name, text, rfl, htext, ha, hname⟩ := h.columns x hx
      obtain rfl : nameText name = text := by
        simpa [Expr.text, String.append_assoc] using htext
      exact ⟨spells_self_iff.1 ha, spells_nameText_iff.1 hname⟩
  · intro h
    refine ⟨fun table ht => ?_, fun a ha => (h.aliases a ha).spells d, fun x hx => ?_,
      fun l _ => spells_quoteLabel d l, lex_text h⟩
    · have hsafe := h.tables table ht
      cases table with
      | verbatim text => exact hsafe.elim
      | named name => exact ⟨name, rfl, spells_nameText_iff.2 hsafe⟩
    · have hsafe := h.exprs x hx
      cases x with
      | verbatim text => exact hsafe.elim
      | column a name =>
        exact ⟨a, name, _, rfl, rfl, hsafe.1.spells d, spells_nameText_iff.2 hsafe.2⟩

end Select

end GraphLoad.Sql
