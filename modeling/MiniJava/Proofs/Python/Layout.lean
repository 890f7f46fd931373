import MiniJava.Text.CharClass

/-!
# Blocks of Python text

The rows of a text are its lines without the blank ones. A row that ends in a colon opens a suite,
and the rows behind it tell by their indentation which of the open blocks they belong to. A text is
well blocked if every row stands where the rows around it let it stand; the rows that are read as a
tree of suites, with the clauses of one statement side by side, are well blocked.
-/

namespace MiniJava.Python

open Text

structure Row where
  indent : Nat
  text : List Char
deriving DecidableEq, Repr

def rowOf (line : List Char) : Row :=
  ⟨(line.takeWhile (· == ' ')).length, line.dropWhile (· == ' ')⟩

/-- The lines of a text but for the blank ones. -/
def rowsOf (text : String) : List Row :=
  ((text.toList.splitOn '\n').map rowOf).filter fun row => !row.text.isEmpty

def wordOf (text : List Char) : String := String.ofList (text.takeWhile isIdentifierPart)

namespace Row

def opens (row : Row) : Bool := row.text.getLast? = some ':'

def Begins (row : Row) (words : List String) : Prop :=
  row.opens = true ∧ wordOf row.text ∈ words

end Row

structure OnLine (text : List Char) : Prop where
  unbroken : '\n' ∉ text
  first : ∃ c rest, text = c :: rest ∧ c ≠ ' '

structure Plain (text : String) : Prop extends OnLine text.toList where
  last : ∃ front c, text.toList = front ++ [c] ∧ c ≠ ':'

def isPlain (text : String) : Bool :=
  !text.toList.contains '\n' && text.toList.head?.any (· ≠ ' ') &&
    text.toList.getLast?.any (· ≠ ':')

theorem plain_of_isPlain {text : String} (h : isPlain text = true) : Plain text := by
  simp only [isPlain, Bool.and_eq_true, Bool.not_eq_true', Option.any_eq_true] at h
  obtain ⟨⟨hbreak, c, hfirst, hc⟩, d, hlast, hd⟩ := h
  obtain ⟨rest, htext⟩ := List.head?_eq_some_iff.mp hfirst
  obtain ⟨front, hends⟩ := List.getLast?_eq_some_iff.mp hlast
  refine ⟨⟨?_, c, rest, htext, of_decide_eq_true hc⟩, front, d, hends, of_decide_eq_true hd⟩
  intro hmem
  rw [List.contains_iff_mem.mpr hmem] at hbreak
  cases hbreak

theorem Plain.around {front back : String} (hfront : Plain front) (middle : String)
    (hmiddle : '\n' ∉ middle.toList) (hback : Plain back) : Plain (front ++ middle ++ back) := by
  obtain ⟨c, rest, hfirst, hc⟩ := hfront.first
  obtain ⟨before, d, hlast, hd⟩ := hback.last
  refine ⟨⟨?_, c, rest ++ middle.toList ++ back.toList, ?_, hc⟩,
    front.toList ++ middle.toList ++ before, d, ?_, hd⟩
  · simp [hfront.unbroken, hmiddle, hback.unbroken]
  · simp [hfirst]
  · simp [hlast]

theorem Plain.append {front back : String} (hfront : Plain front) (hback : Plain back) :
    Plain (front ++ back) := by
  have hjoined := hfront.around "" (by simp) hback
  rwa [String.append_empty] at hjoined

theorem OnLine.ne_empty {text : String} (h : OnLine text.toList) : text ≠ "" := by
  rintro rfl
  obtain ⟨c, rest, htext, -⟩ := h.first
  cases htext

/-- Some block that is open behind the rows has this indentation. -/
def OpenAt (before : List Row) (indent : Nat) : Prop :=
  indent = 0 ∨ ∃ outer opener suite, before = outer ++ opener :: suite ∧ opener.opens = true ∧
    indent = opener.indent + 4 ∧ ∀ row ∈ suite, indent ≤ row.indent

/-- In front of the row stands a suite that was opened at the row's own level, by a row that begins
with one of the words. -/
def Closes (before : List Row) (row : Row) (words : List String) : Prop :=
  ∃ outer opener suite, before = outer ++ opener :: suite ∧ suite ≠ [] ∧ opener.Begins words ∧
    opener.indent = row.indent ∧ ∀ inner ∈ suite, row.indent < inner.indent

/-- Behind the row stands its suite, and then a row at the row's own level that begins with one of
the words. -/
def ClosedBy (row : Row) (after : List Row) (words : List String) : Prop :=
  ∃ suite closer rest, after = suite ++ closer :: rest ∧ suite ≠ [] ∧ closer.Begins words ∧
    closer.indent = row.indent ∧ ∀ inner ∈ suite, row.indent < inner.indent

structure FitsIn (before : List Row) (row : Row) (after : List Row) : Prop where
  deeper : row.opens = true → ∃ next rest, after = next :: rest ∧ next.indent = row.indent + 4
  within : row.opens = false → ∀ next ∈ after.head?,
    next.indent ≤ row.indent ∧ OpenAt (before ++ [row]) next.indent
  alternative : row.Begins ["elif", "else"] → Closes before row ["if", "elif"]
  handler : row.Begins ["except", "finally"] → Closes before row ["try", "except"]
  guarded : row.Begins ["try"] → ClosedBy row after ["except", "finally"]

/-- The first row is not indented, and every row fits. -/
structure WellBlocked (rows : List Row) : Prop where
  first : ∀ row ∈ rows.head?, row.indent = 0
  fits : ∀ before row after, rows = before ++ row :: after → FitsIn before row after

def FitsAll (before : List Row) : List Row → List Row → Prop
  | [], _ => True
  | row :: rest, after => FitsIn before row (rest ++ after) ∧ FitsAll (before ++ [row]) rest after

theorem FitsAll.append {before front rest after : List Row}
    (hfront : FitsAll before front (rest ++ after)) (hrest : FitsAll (before ++ front) rest after) :
    FitsAll before (front ++ rest) after := by
  induction front generalizing before with
  | nil => simpa using hrest
  | cons row front ih =>
      rw [List.append_cons] at hrest
      rw [List.cons_append, FitsAll, List.append_assoc]
      exact ⟨hfront.1, ih hfront.2 hrest⟩

theorem FitsAll.fitsIn {before rows after : List Row} (h : FitsAll before rows after)
    {front rest : List Row} {row : Row} (hsplit : rows = front ++ row :: rest) :
    FitsIn (before ++ front) row (rest ++ after) := by
  subst hsplit
  induction front generalizing before with
  | nil => simpa using h.1
  | cons first front ih =>
      rw [List.append_cons]
      exact ih h.2

inductive Node where
  | line (text : List Char)
  | clause (header : List Char) (body : List Node)

/-- Rows with this indentation, each opened suite four blanks deeper. -/
inductive Block : Nat → List Row → List Node → Prop
  | nil {n : Nat} : Block n [] []
  | line {n : Nat} {text : List Char} {rest : List Row} {nodes : List Node} :
      (Row.mk n text).opens = false → Block n rest nodes →
      Block n (⟨n, text⟩ :: rest) (.line text :: nodes)
  | clause {n : Nat} {header : List Char} {suite rest : List Row} {body nodes : List Node} :
      (Row.mk n header).opens = true → Block (n + 4) suite body → suite ≠ [] →
      Block n rest nodes → Block n (⟨n, header⟩ :: (suite ++ rest)) (.clause header body :: nodes)

structure Joins (earlier header : List Char) : Prop where
  alternative : wordOf header ∈ ["elif", "else"] → wordOf earlier ∈ ["if", "elif"]
  handler : wordOf header ∈ ["except", "finally"] → wordOf earlier ∈ ["try", "except"]
  guarded : wordOf earlier = "try" → wordOf header ∈ ["except", "finally"]

theorem joins_alternative {earlier header : List Char} (hearlier : wordOf earlier ∈ ["if", "elif"])
    (hheader : wordOf header ∈ ["elif", "else"]) : Joins earlier header := by
  have hapart : ∀ word ∈ ["elif", "else"], word ∉ ["except", "finally"] := by decide
  refine ⟨fun _ => hearlier, fun hmem => absurd hmem (hapart _ hheader), fun htry => ?_⟩
  rw [htry] at hearlier
  exact absurd hearlier (by decide)

theorem joins_handler {earlier header : List Char} (hearlier : wordOf earlier ∈ ["try", "except"])
    (hheader : wordOf header ∈ ["except", "finally"]) : Joins earlier header := by
  have hapart : ∀ word ∈ ["except", "finally"], word ∉ ["elif", "else"] := by decide
  exact ⟨fun hmem => absurd hmem (hapart _ hheader), fun _ => hearlier, fun _ => hheader⟩

/-- The clauses of a block, behind a clause with the header `earlier`, go on with the statements
they belong to. Behind a line `earlier` is empty. -/
inductive Linked : List Char → List Node → Prop
  | nil {earlier : List Char} : wordOf earlier ≠ "try" → Linked earlier []
  | line {earlier text : List Char} {nodes : List Node} : wordOf earlier ≠ "try" →
      Linked [] nodes → Linked earlier (.line text :: nodes)
  | clause {earlier header : List Char} {body nodes : List Node} : Joins earlier header →
      Linked [] body → Linked header nodes → Linked earlier (.clause header body :: nodes)

namespace Block

variable {n : Nat} {rows : List Row} {nodes : List Node}

theorem le_indent (h : Block n rows nodes) : ∀ row ∈ rows, n ≤ row.indent := by
  induction h with
  | nil => simp
  | line _ _ ih =>
      rw [List.forall_mem_cons]
      exact ⟨Nat.le_refl _, ih⟩
  | clause _ _ _ _ ihbody ih =>
      rw [List.forall_mem_cons, List.forall_mem_append]
      refine ⟨Nat.le_refl _, fun row hrow => ?_, ih⟩
      have hdeep := ihbody row hrow
      omega

theorem head_indent (h : Block n rows nodes) : ∀ row ∈ rows.head?, row.indent = n := by
  cases h <;> simp

theorem append {more : List Row} {others : List Node} (h : Block n rows nodes)
    (hmore : Block n more others) : Block n (rows ++ more) (nodes ++ others) := by
  induction h with
  | nil => exact hmore
  | line hopens _ ih => exact .line hopens (ih hmore)
  | clause hopens hsuite hne _ _ ih =>
      rw [List.cons_append, List.append_assoc]
      exact .clause hopens hsuite hne (ih hmore)

theorem rows_ne_nil (h : Block n rows nodes) (hne : nodes ≠ []) : rows ≠ [] := by
  cases h with
  | nil => exact absurd rfl hne
  | line _ _ => exact List.cons_ne_nil _ _
  | clause _ _ _ _ => exact List.cons_ne_nil _ _

end Block

/-- Clauses that go on with no statement in front of them. -/
def Free (nodes : List Node) : Prop := ∀ earlier, wordOf earlier ≠ "try" → Linked earlier nodes

theorem Linked.append {earlier : List Char} {nodes others : List Node} (h : Linked earlier nodes)
    (hothers : Free others) : Linked earlier (nodes ++ others) := by
  induction h with
  | nil hnot => exact hothers _ hnot
  | line hnot _ ih => exact .line hnot ih
  | clause hjoins hbody _ _ ih => exact .clause hjoins hbody ih

namespace Free

theorem nil : Free [] := fun _ hnot => .nil hnot

theorem append {nodes others : List Node} (h : Free nodes) (hothers : Free others) :
    Free (nodes ++ others) := fun _ hnot => (h _ hnot).append hothers

theorem linked {nodes : List Node} (h : Free nodes) : Linked [] nodes := h [] (by decide)

theorem line {text : List Char} {nodes : List Node} (h : Free nodes) :
    Free (.line text :: nodes) := fun _ hnot => .line hnot h.linked

/-- A clause that begins a statement. -/
theorem clause {header : List Char} {body nodes : List Node}
    (hword : wordOf header ∉ ["elif", "else", "except", "finally"]) (hbody : Free body)
    (hnodes : Linked header nodes) : Free (.clause header body :: nodes) := by
  intro earlier hnot
  refine .clause ⟨fun hmem => ?_, fun hmem => ?_, fun htry => absurd htry hnot⟩ hbody.linked hnodes
  · exact absurd (List.mem_append_left ["except", "finally"] hmem) hword
  · exact absurd (List.mem_append_right ["elif", "else"] hmem) hword

end Free

theorem OpenAt.extend {before more : List Row} {indent : Nat} (h : OpenAt before indent)
    (hmore : ∀ row ∈ more, indent ≤ row.indent) : OpenAt (before ++ more) indent := by
  rcases h with hzero | ⟨outer, opener, suite, rfl, hopens, hindent, hsuite⟩
  · exact .inl hzero
  · refine .inr ⟨outer, opener, suite ++ more, by simp, hopens, hindent, ?_⟩
    rw [List.forall_mem_append]
    exact ⟨hsuite, hmore⟩

theorem openAt_suite (before : List Row) {row : Row} (h : row.opens = true) :
    OpenAt (before ++ [row]) (row.indent + 4) :=
  .inr ⟨before, row, [], rfl, h, rfl, by simp⟩

def Follows (before : List Row) (n : Nat) (after : List Row) : Prop :=
  ∀ next ∈ after.head?, next.indent ≤ n ∧ OpenAt before next.indent

theorem Follows.extend {before more after : List Row} {n : Nat} (h : Follows before n after)
    (hmore : ∀ row ∈ more, n ≤ row.indent) : Follows (before ++ more) n after := by
  intro next hnext
  obtain ⟨hle, hopen⟩ := h next hnext
  exact ⟨hle, hopen.extend fun row hrow => Nat.le_trans hle (hmore row hrow)⟩

theorem Follows.prepend {before rows after : List Row} {nodes : List Node} {n : Nat}
    (h : Follows before n after) (hblock : Block n rows nodes) (hopen : OpenAt before n) :
    Follows before n (rows ++ after) := by
  cases rows with
  | nil => exact h
  | cons row rows =>
      intro next hnext
      obtain rfl : row = next := by simpa using hnext
      have hindent := hblock.head_indent row rfl
      rw [hindent]
      exact ⟨Nat.le_refl n, hopen⟩

def AfterClause (before : List Row) (n : Nat) (earlier : List Char) : Prop :=
  earlier = [] ∨ ∃ outer suite, before = outer ++ ⟨n, earlier⟩ :: suite ∧ suite ≠ [] ∧
    (Row.mk n earlier).opens = true ∧ ∀ inner ∈ suite, n < inner.indent

theorem AfterClause.closes {before : List Row} {n : Nat} {earlier : List Char}
    (h : AfterClause before n earlier) {words : List String} (hwords : "" ∉ words)
    (hword : wordOf earlier ∈ words) (header : List Char) : Closes before ⟨n, header⟩ words := by
  rcases h with rfl | ⟨outer, suite, hbefore, hne, hopens, hdeep⟩
  · exact absurd hword hwords
  · exact ⟨outer, ⟨n, earlier⟩, suite, hbefore, hne, ⟨hopens, hword⟩, rfl, hdeep⟩

/-- A `try` is followed by a clause at its level. -/
theorem Block.closedBy {n : Nat} {header : List Char} {suite rest after : List Row}
    {nodes : List Node} (h : Block n rest nodes) (hlinked : Linked header nodes)
    (htry : wordOf header = "try") (hne : suite ≠ [])
    (hdeep : ∀ inner ∈ suite, n < inner.indent) :
    ClosedBy ⟨n, header⟩ (suite ++ rest ++ after) ["except", "finally"] := by
  cases hlinked with
  | nil hnot => exact absurd htry hnot
  | line hnot _ => exact absurd htry hnot
  | @clause _ closer _ _ hjoins _ _ =>
      cases h with
      | @clause _ _ body rest _ _ hopens _ _ _ =>
          refine ⟨suite, ⟨n, closer⟩, body ++ rest ++ after, by simp, hne, ?_, rfl, hdeep⟩
          exact ⟨hopens, hjoins.guarded htry⟩

theorem Block.fitsAll {n : Nat} {rows : List Row} {nodes : List Node} (h : Block n rows nodes)
    {earlier : List Char} (hlinked : Linked earlier nodes) {before after : List Row}
    (hopen : OpenAt before n) (hbehind : AfterClause before n earlier)
    (hafter : Follows before n after) : FitsAll before rows after := by
  induction h generalizing earlier before after with
  | nil => exact True.intro
  | @line n text rest nodes hopens hrest ih =>
      cases hlinked with
      | line _ hlinked =>
          have hlevel : ∀ row ∈ [Row.mk n text], n ≤ row.indent := by simp
          have hbegins : ∀ words, ¬ (Row.mk n text).Begins words := by
            intro words hbegins
            rw [hbegins.1] at hopens
            cases hopens
          have hopen' := hopen.extend hlevel
          have hafter' := hafter.extend hlevel
          refine ⟨⟨?_, ?_, ?_, ?_, ?_⟩, ih hlinked hopen' (.inl rfl) hafter'⟩
          · intro htrue
            rw [htrue] at hopens
            cases hopens
          · exact fun _ => hafter'.prepend hrest hopen'
          · exact fun hword => absurd hword (hbegins _)
          · exact fun hword => absurd hword (hbegins _)
          · exact fun hword => absurd hword (hbegins _)
  | @clause n header suite rest body nodes hopens hsuite hne hrest ihsuite ih =>
      cases hlinked with
      | clause hjoins hbody hlinked =>
          have hlevel : ∀ row ∈ [Row.mk n header], n ≤ row.indent := by simp
          have hdeep : ∀ inner ∈ suite, n < inner.indent := by
            intro inner hinner
            have hle := hsuite.le_indent inner hinner
            omega
          have hshallow : ∀ inner ∈ suite, n ≤ inner.indent :=
            fun inner hinner => Nat.le_of_lt (hdeep inner hinner)
          have hopen' := hopen.extend hlevel
          have hbehind' : AfterClause (before ++ [⟨n, header⟩] ++ suite) n header :=
            .inr ⟨before, suite, by simp, hne, hopens, hdeep⟩
          have hfollows := (hafter.extend hlevel).prepend hrest hopen'
          refine ⟨⟨?_, ?_, ?_, ?_, ?_⟩, ?_⟩
          · intro _
            obtain ⟨next, more, rfl⟩ := List.exists_cons_of_ne_nil hne
            exact ⟨next, more ++ rest ++ after, by simp, hsuite.head_indent next rfl⟩
          · intro hfalse
            rw [hfalse] at hopens
            cases hopens
          · intro hword
            have hearlier := hjoins.alternative hword.2
            exact hbehind.closes (by decide) hearlier header
          · intro hword
            have hearlier := hjoins.handler hword.2
            exact hbehind.closes (by decide) hearlier header
          · intro hword
            exact hrest.closedBy hlinked (List.mem_singleton.mp hword.2) hne hdeep
          · apply FitsAll.append
            · apply ihsuite hbody (openAt_suite before hopens) (.inl rfl)
              intro next hnext
              obtain ⟨hle, hat⟩ := hfollows next hnext
              exact ⟨Nat.le_add_right_of_le hle, hat⟩
            · exact ih hlinked (hopen'.extend hshallow) hbehind'
                ((hafter.extend hlevel).extend hshallow)

/-- The rows of a block without indentation are well blocked if its clauses belong together. -/
theorem Block.wellBlocked {rows : List Row} {nodes : List Node} (h : Block 0 rows nodes)
    (hlinked : Linked [] nodes) : WellBlocked rows := by
  have hfits : FitsAll [] rows [] := by
    apply h.fitsAll hlinked (.inl rfl) (.inl rfl)
    simp [Follows]
  refine ⟨h.head_indent, fun before row after hsplit => ?_⟩
  simpa using hfits.fitsIn hsplit

end MiniJava.Python
