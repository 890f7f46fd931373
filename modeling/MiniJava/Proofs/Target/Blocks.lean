import MiniJava.Proofs.Target.Neat
import MiniJava.Proofs.Text.Integer

/-!
# Blocks of emitted code

The lines of neat statements are the rows of a block, with a clause for each header and `pass` in a
suite that would be empty, and the clauses of one statement stand side by side.
-/

namespace MiniJava.Target

open Text Python

structure IsHeader (word : String) (text : List Char) : Prop extends OnLine text where
  last : text.getLast? = some ':'
  word : wordOf text = word

theorem IsHeader.opens {word : String} {text : List Char} (h : IsHeader word text) (n : Nat) :
    (Row.mk n text).opens = true := by
  simp [Row.opens, h.last]

theorem isHeader_of_word (word : String) {text rest : List Char} {mark : Char}
    (htext : text = word.toList ++ mark :: rest) (hne : word.toList ≠ [])
    (hword : word.toList.all isIdentifierPart = true)
    (hmark : isIdentifierPart mark = false) (hunbroken : '\n' ∉ mark :: rest)
    (hlast : (mark :: rest).getLast? = some ':') : IsHeader word text := by
  obtain ⟨c, more, hfirst⟩ := List.exists_cons_of_ne_nil hne
  have hparts := List.all_eq_true.mp hword
  have hpart : ¬ isIdentifierPart mark = true := by simp [hmark]
  refine ⟨⟨?_, c, more ++ mark :: rest, by simp [htext, hfirst], ?_⟩, ?_, ?_⟩
  · intro hmem
    rw [htext, List.mem_append] at hmem
    rcases hmem with hin | hin
    · exact absurd (hparts _ hin) (by decide)
    · exact hunbroken hin
  · rintro rfl
    exact absurd (hparts ' ' (by simp [hfirst])) (by decide)
  · rw [htext, List.getLast?_append, hlast, Option.some_or]
  · rw [wordOf, htext, List.takeWhile_append_of_pos hparts, List.takeWhile_cons_of_neg hpart,
      List.append_nil, String.ofList_toList]

/-- A header of a word and a text behind it. -/
theorem isHeader_spaced (word : String) {text middle : List Char}
    (htext : text = word.toList ++ ' ' :: (middle ++ [':'])) (hne : word.toList ≠ [])
    (hword : word.toList.all isIdentifierPart = true) (hmiddle : '\n' ∉ middle) :
    IsHeader word text := by
  refine isHeader_of_word word htext hne hword (by decide) ?_ ?_
  · simp [hmiddle]
  · rw [← List.cons_append, List.getLast?_concat]

theorem isHeader_else : IsHeader "else" "else:".toList :=
  isHeader_of_word "else" rfl (by decide) (by decide) (by decide) (by decide) rfl

theorem isHeader_try : IsHeader "try" "try:".toList :=
  isHeader_of_word "try" rfl (by decide) (by decide) (by decide) (by decide) rfl

theorem isHeader_finally : IsHeader "finally" "finally:".toList :=
  isHeader_of_word "finally" rfl (by decide) (by decide) (by decide) (by decide) rfl

/-- The row that a line becomes. -/
def Line.row (line : Line) : Row := ⟨4 * line.level, line.text.toList⟩

def rowsOfLines (lines : List Line) : List Row :=
  (lines.filter fun line => line.text ≠ "").map Line.row

theorem rowsOfLines_append (front rest : List Line) :
    rowsOfLines (front ++ rest) = rowsOfLines front ++ rowsOfLines rest := by
  simp [rowsOfLines]

theorem rowsOfLines_cons {line : Line} (h : line.text ≠ "") (rest : List Line) :
    rowsOfLines (line :: rest) = line.row :: rowsOfLines rest := by
  simp [rowsOfLines, h]

theorem toList_indent (level : Nat) :
    (String.join (List.replicate level "    ")).toList = List.replicate (4 * level) ' ' := by
  induction level with
  | zero => rfl
  | succ level ih =>
      have hcount : 4 * (level + 1) = 4 + 4 * level := by omega
      rw [List.replicate_succ, String.join_cons, String.toList_append, ih, hcount,
        ← List.replicate_append_replicate]
      rfl

theorem rowOf_indented (n : Nat) {text : List Char} (h : ∀ c ∈ text.head?, c ≠ ' ') :
    rowOf (List.replicate n ' ' ++ text) = ⟨n, text⟩ := by
  have hblanks : ∀ c ∈ List.replicate n ' ', (c == ' ') = true := by
    intro c hc
    rw [List.eq_of_mem_replicate hc]
    rfl
  rw [rowOf, List.takeWhile_append_of_pos hblanks, List.dropWhile_append_of_pos hblanks]
  cases text with
  | nil => simp
  | cons c rest =>
      have hc : c ≠ ' ' := h c rfl
      simp [hc]

def Line.Fits (line : Line) : Prop := line.text = "" ∨ OnLine line.text.toList

/-- The rows of a text are those of its lines. -/
theorem rowsOf_lines {lines : List Line} (h : ∀ line ∈ lines, line.Fits) :
    rowsOf (String.join (lines.map Line.toText)) = rowsOfLines lines := by
  induction lines with
  | nil => rfl
  | cons line lines ih =>
      rw [List.forall_mem_cons] at h
      have hunbroken : '\n' ∉ List.replicate (4 * line.level) ' ' ++ line.text.toList := by
        rcases h.1 with hblank | hline
        · simp [hblank]
        · simp [hline.unbroken]
      have htext : (String.join ((line :: lines).map Line.toText)).toList =
          (List.replicate (4 * line.level) ' ' ++ line.text.toList) ++
            '\n' :: (String.join (lines.map Line.toText)).toList := by
        rw [List.map_cons, String.join_cons, String.toList_append, Line.toText,
          String.toList_append, String.toList_append, toList_indent, List.append_assoc]
        rfl
      have hrest := ih h.2
      rw [rowsOf] at hrest
      rw [rowsOf, htext, List.splitOn_append_cons_self_of_not_mem hunbroken, List.map_cons]
      rcases h.1 with hblank | hline
      · rw [rowOf_indented _ (by simp [hblank]), List.filter_cons_of_neg (by simp [hblank]), hrest]
        simp [rowsOfLines, hblank]
      · obtain ⟨c, rest, htext, hc⟩ := hline.first
        rw [rowOf_indented _ (by simpa [htext] using hc),
          List.filter_cons_of_pos (by simp [htext]), hrest, rowsOfLines_cons hline.ne_empty]
        rfl

mutual

def Stmt.nodes : Stmt → List Node
  | .ifElse condition body alternative =>
    .clause ("if " ++ condition.toText ++ ":").toList (suiteNodes body) :: alternative.nodes
  | .whileLoop condition body =>
    [.clause ("while " ++ condition.toText ++ ":").toList (suiteNodes body)]
  | .forRange counter start stop step body =>
    [.clause ("for " ++ counter.toText ++ " in range(" ++ rangeArguments start stop step ++
      "):").toList (suiteNodes body)]
  | .tryExcept body handlers none =>
    .clause "try:".toList (suiteNodes body) :: handlersNodes handlers
  | .tryExcept body handlers (some cleanup) =>
    .clause "try:".toList (suiteNodes body) :: handlersNodes handlers ++
      [.clause "finally:".toList (suiteNodes cleanup)]
  | .function isStatic name params body =>
    (if isStatic then [.line "@staticmethod".toList] else []) ++
      [.clause ("def " ++ name ++ "(" ++ joined ", " params ++ "):").toList (suiteNodes body)]
  | .classDef name body => [.clause ("class " ++ name ++ ":").toList (suiteNodes body)]
  | s@(.assign _ _) | s@(.update _ _ _) | s@(.expression _) | s@(.print _ _)
  | s@(.printFormatted _ _) | s@(.returns _) | s@.breaks | s@.continues =>
    (s.lines 0).map fun line => .line line.text.toList

def allNodes : List Stmt → List Node
  | [] => []
  | first :: rest => first.nodes ++ allNodes rest

def suiteNodes : List Stmt → List Node
  | [] => [.line "pass".toList]
  | first :: rest => first.nodes ++ allNodes rest

def Alternative.nodes : Alternative → List Node
  | .nothing => []
  | .elseIf condition body alternative =>
    .clause ("elif " ++ condition.toText ++ ":").toList (suiteNodes body) :: alternative.nodes
  | .otherwise body => [.clause "else:".toList (suiteNodes body)]

def handlersNodes : List (Handler Stmt) → List Node
  | [] => []
  | ⟨exception, name, body⟩ :: rest =>
    .clause ("except " ++ exception ++ " as " ++ name ++ ":").toList (suiteNodes body) ::
      handlersNodes rest

end

structure Lays (level : Nat) (lines : List Line) (nodes : List Node) : Prop where
  fits : ∀ line ∈ lines, line.Fits
  block : Block (4 * level) (rowsOfLines lines) nodes

namespace Lays

variable {level : Nat} {lines more : List Line} {nodes others : List Node}

theorem nil : Lays level [] [] := ⟨by simp, .nil⟩

theorem append (h : Lays level lines nodes) (hmore : Lays level more others) :
    Lays level (lines ++ more) (nodes ++ others) := by
  refine ⟨List.forall_mem_append.mpr ⟨h.fits, hmore.fits⟩, ?_⟩
  rw [rowsOfLines_append]
  exact h.block.append hmore.block

theorem blank (h : Lays level lines nodes) : Lays level (.blank :: lines) nodes :=
  ⟨List.forall_mem_cons.mpr ⟨.inl rfl, h.fits⟩, h.block⟩

theorem line {text : String} (htext : Plain text) (h : Lays level lines nodes) :
    Lays level (⟨level, text⟩ :: lines) (.line text.toList :: nodes) := by
  refine ⟨List.forall_mem_cons.mpr ⟨.inr htext.toOnLine, h.fits⟩, ?_⟩
  rw [rowsOfLines_cons htext.ne_empty]
  obtain ⟨front, c, hlast, hc⟩ := htext.last
  refine .line ?_ h.block
  simp [Row.opens, hlast, hc]

theorem clause {word text : String} {suite : List Line} {body : List Node}
    (hheader : IsHeader word text.toList) (hsuite : Lays (level + 1) suite body)
    (hne : body ≠ []) (h : Lays level lines nodes) :
    Lays level (⟨level, text⟩ :: suite ++ lines) (.clause text.toList body :: nodes) := by
  refine ⟨?_, ?_⟩
  · rw [List.cons_append, List.forall_mem_cons, List.forall_mem_append]
    exact ⟨.inr hheader.toOnLine, hsuite.fits, h.fits⟩
  · rw [List.cons_append, rowsOfLines_cons hheader.ne_empty, rowsOfLines_append]
    exact .clause (hheader.opens _) hsuite.block (hsuite.block.rows_ne_nil hne) h.block

theorem single {word text : String} {suite : List Line} {body : List Node}
    (hheader : IsHeader word text.toList) (hsuite : Lays (level + 1) suite body)
    (hne : body ≠ []) :
    Lays level (⟨level, text⟩ :: suite) [.clause text.toList body] := by
  have hclause := clause hheader hsuite hne nil
  rwa [List.append_nil] at hclause

end Lays

theorem Stmt.nodes_ne_nil (s : Stmt) : s.nodes ≠ [] := by
  cases s with
  | function isStatic name params body =>
      rw [Stmt.nodes]
      exact List.append_ne_nil_of_right_ne_nil _ (List.cons_ne_nil _ _)
  | tryExcept body handlers cleanup =>
      cases cleanup with
      | none =>
          rw [Stmt.nodes]
          exact List.cons_ne_nil _ _
      | some cleanup =>
          rw [Stmt.nodes]
          exact List.cons_ne_nil _ _
  | ifElse _ _ _ | whileLoop _ _ | forRange _ _ _ _ _ | classDef _ _ =>
      rw [Stmt.nodes]
      exact List.cons_ne_nil _ _
  | returns value =>
      cases value with
      | none =>
          rw [Stmt.nodes, Stmt.lines]
          exact List.cons_ne_nil _ _
      | some value =>
          rw [Stmt.nodes, Stmt.lines]
          exact List.cons_ne_nil _ _
  | assign _ _ | update _ _ _ | expression _ | print _ _ | printFormatted _ _ | breaks
  | continues =>
      rw [Stmt.nodes, Stmt.lines]
      exact List.cons_ne_nil _ _

theorem suiteNodes_ne_nil (body : List Stmt) : suiteNodes body ≠ [] := by
  cases body with
  | nil => simp [suiteNodes]
  | cons first rest =>
      rw [suiteNodes]
      exact List.append_ne_nil_of_left_ne_nil first.nodes_ne_nil _

theorem isHeader_for {counter start stop : Expr} {step : Int} (hcounter : Plain counter.toText)
    (hstart : Plain start.toText) (hstop : Plain stop.toText) :
    IsHeader "for" ("for " ++ counter.toText ++ " in range(" ++ rangeArguments start stop step ++
      "):").toList := by
  have hstep : '\n' ∉ (if step = 1 then "" else ", " ++ toString step).toList := by
    split
    · simp
    · simp only [String.toList_append, List.mem_append, not_or]
      refine ⟨by decide, fun hmem => ?_⟩
      rcases Text.mem_toString hmem with hsign | hdigit
      · exact absurd hsign (by decide)
      · exact absurd hdigit (by decide)
  have harguments : '\n' ∉ (rangeArguments start stop step).toList := by
    rw [rangeArguments, String.toList_append, List.mem_append, not_or]
    refine ⟨?_, hstep⟩
    simp [hstart.unbroken, hstop.unbroken]
  have hmiddle : '\n' ∉ counter.toText.toList ++ " in range(".toList ++
      (rangeArguments start stop step).toList ++ [')'] := by
    simp [hcounter.unbroken, harguments]
  exact isHeader_spaced "for" (by simp) (by decide) (by decide) hmiddle

theorem isHeader_def {name : String} {params : List String} (hname : Plain name)
    (hparams : ∀ param ∈ params, Plain param) :
    IsHeader "def" ("def " ++ name ++ "(" ++ joined ", " params ++ "):").toList := by
  have hjoined : '\n' ∉ (joined ", " params).toList :=
    unbroken_joined (by decide) fun param hparam => (hparams param hparam).unbroken
  have hmiddle : '\n' ∉ name.toList ++ ['('] ++ (joined ", " params).toList ++ [')'] := by
    simp only [List.mem_append, not_or]
    exact ⟨⟨⟨hname.unbroken, by decide⟩, hjoined⟩, by decide⟩
  exact isHeader_spaced "def" (by simp) (by decide) (by decide) hmiddle

theorem isHeader_except {exception name : String} (hexception : Plain exception)
    (hname : Plain name) :
    IsHeader "except" ("except " ++ exception ++ " as " ++ name ++ ":").toList := by
  have hmiddle : '\n' ∉ exception.toList ++ " as ".toList ++ name.toList := by
    simp [hexception.unbroken, hname.unbroken]
  exact isHeader_spaced "except" (by simp) (by decide) (by decide) hmiddle

structure Stands (level : Nat) (lines : List Line) (nodes : List Node) : Prop
    extends Lays level lines nodes where
  free : Free nodes

theorem Stands.line {level : Nat} {text : String} (h : Plain text) :
    Stands level [⟨level, text⟩] [.line text.toList] := ⟨.line h .nil, Free.nil.line⟩

theorem Stands.append {level : Nat} {lines more : List Line} {nodes others : List Node}
    (h : Stands level lines nodes) (hmore : Stands level more others) :
    Stands level (lines ++ more) (nodes ++ others) :=
  ⟨h.toLays.append hmore.toLays, h.free.append hmore.free⟩

/-- A header that begins a statement of one clause. -/
theorem Stands.single {level : Nat} {word text : String} {suite : List Line} {body : List Node}
    (hheader : IsHeader word text.toList) (hsuite : Stands (level + 1) suite body)
    (hne : body ≠ []) (hword : word ∉ ["elif", "else", "except", "finally", "try"]) :
    Stands level (⟨level, text⟩ :: suite) [.clause text.toList body] := by
  refine ⟨.single hheader hsuite.toLays hne, .clause ?_ hsuite.free (.nil ?_)⟩
  · rw [hheader.word]
    exact fun hmem => hword (List.mem_append_left ["try"] hmem)
  · rw [hheader.word]
    rintro rfl
    exact hword (by decide)

mutual

theorem stmt_stands (level : Nat) : (s : Stmt) → s.Neat → Stands level (s.lines level) s.nodes
  | .assign _ _, h | .update _ _ _, h | .expression _, h | .print _ _, h
  | .printFormatted _ _, h | .returns none, h | .returns (some _), h | .breaks, h
  | .continues, h => by
      rw [Stmt.Neat, Stmt.lines] at h
      rw [Stmt.lines, Stmt.nodes, Stmt.lines]
      exact .line (h _ (List.mem_singleton_self _))
  | .ifElse condition body alternative, h => by
      rw [Stmt.Neat] at h
      obtain ⟨hcondition, hbody, halternative⟩ := h
      have hheader : IsHeader "if" ("if " ++ condition.toText ++ ":").toList :=
        isHeader_spaced "if" (by simp) (by decide) (by decide) hcondition.unbroken
      have hsuite := suite_stands (level + 1) body hbody
      obtain ⟨hrest, hlinked⟩ := alternative_stands level alternative halternative
      rw [Stmt.lines, Stmt.nodes]
      refine ⟨.clause hheader hsuite.toLays (suiteNodes_ne_nil body) hrest,
        .clause ?_ hsuite.free (hlinked _ ?_)⟩
      · rw [hheader.word]
        decide
      · rw [hheader.word]
        decide
  | .whileLoop condition body, h => by
      rw [Stmt.Neat] at h
      have hsuite := suite_stands (level + 1) body h.2
      rw [Stmt.lines, Stmt.nodes]
      exact .single (isHeader_spaced "while" (by simp) (by decide) (by decide) h.1.unbroken) hsuite
        (suiteNodes_ne_nil body) (by decide)
  | .forRange counter start stop step body, h => by
      rw [Stmt.Neat] at h
      obtain ⟨hcounter, hstart, hstop, hbody⟩ := h
      have hsuite := suite_stands (level + 1) body hbody
      rw [Stmt.lines, Stmt.nodes]
      exact .single (isHeader_for hcounter hstart hstop) hsuite (suiteNodes_ne_nil body)
        (by decide)
  | .tryExcept body handlers none, h => by
      rw [Stmt.Neat] at h
      obtain ⟨hbody, hhandlers, hne⟩ := h
      have hsuite := suite_stands (level + 1) body hbody
      obtain ⟨hrest, hlinked⟩ := handlers_stand level handlers hhandlers
      rw [Stmt.lines, Stmt.nodes]
      refine ⟨.clause isHeader_try hsuite.toLays (suiteNodes_ne_nil body) hrest,
        .clause (by decide) hsuite.free ?_⟩
      rw [← List.append_nil (handlersNodes handlers)]
      refine hlinked [] (fun header hword => .nil ?_) "try:".toList (by decide) ?_
      · rw [hword]
        decide
      · exact fun hnil => absurd hnil hne
  | .tryExcept body handlers (some cleanup), h => by
      rw [Stmt.Neat] at h
      obtain ⟨hbody, hhandlers, hcleanup⟩ := h
      have hsuite := suite_stands (level + 1) body hbody
      have hlast := suite_stands (level + 1) cleanup hcleanup
      obtain ⟨hrest, hlinked⟩ := handlers_stand level handlers hhandlers
      have hfinally : ∀ header, wordOf header ∈ ["try", "except"] →
          Linked header [.clause "finally:".toList (suiteNodes cleanup)] := by
        intro header hword
        exact .clause (joins_handler hword (by decide)) hlast.free.linked (.nil (by decide))
      have hlines := (Lays.clause isHeader_try hsuite.toLays (suiteNodes_ne_nil body) hrest).append
        (.single isHeader_finally hlast.toLays (suiteNodes_ne_nil cleanup))
      rw [Stmt.lines, Stmt.nodes]
      refine ⟨hlines, .clause (by decide) hsuite.free ?_⟩
      refine hlinked _ (fun header hword => hfinally header ?_) _ (by decide) fun _ => ?_
      · rw [hword]
        decide
      · exact hfinally _ (by decide)
  | .function isStatic name params body, h => by
      rw [Stmt.Neat] at h
      obtain ⟨hname, hparams, hbody⟩ := h
      have hsuite := suite_stands (level + 1) body hbody
      have hdef := Stands.single (isHeader_def hname hparams) hsuite (suiteNodes_ne_nil body)
        (by decide)
      rw [Stmt.lines, Stmt.nodes]
      cases isStatic with
      | false => exact hdef
      | true =>
          have hmark : Plain "@staticmethod" := plain_of_isPlain (by decide)
          exact (Stands.line hmark).append hdef
  | .classDef name body, h => by
      rw [Stmt.Neat] at h
      have hsuite := classSuite_stands (level + 1) body h.2
      rw [Stmt.lines, Stmt.nodes]
      exact .single (isHeader_spaced "class" (by simp) (by decide) (by decide) h.1.unbroken) hsuite
        (suiteNodes_ne_nil body) (by decide)

theorem all_stand (level : Nat) : (body : List Stmt) → allNeat body →
    Stands level (Stmt.allLines level body) (allNodes body)
  | [], _ => by
      rw [Stmt.allLines, allNodes]
      exact ⟨.nil, .nil⟩
  | first :: rest, h => by
      rw [allNeat] at h
      rw [Stmt.allLines, allNodes]
      exact (stmt_stands level first h.1).append (all_stand level rest h.2)

theorem suite_stands (level : Nat) : (body : List Stmt) → allNeat body →
    Stands level (Stmt.suite level body) (suiteNodes body)
  | [], _ => by
      rw [Stmt.suite, suiteNodes]
      exact .line (plain_of_isPlain (by decide))
  | first :: rest, h => by
      rw [allNeat] at h
      rw [Stmt.suite, suiteNodes]
      exact (stmt_stands level first h.1).append (all_stand level rest h.2)

theorem classSuite_stands (level : Nat) : (body : List Stmt) → allNeat body →
    Stands level (Stmt.classSuite level body) (suiteNodes body)
  | [], _ => by
      rw [Stmt.classSuite, suiteNodes]
      exact .line (plain_of_isPlain (by decide))
  | first :: rest, h => by
      rw [allNeat] at h
      rw [Stmt.classSuite, suiteNodes]
      exact (stmt_stands level first h.1).append (spaced_stand level rest h.2)

theorem spaced_stand (level : Nat) : (body : List Stmt) → allNeat body →
    Stands level (Stmt.spacedLines level body) (allNodes body)
  | [], _ => by
      rw [Stmt.spacedLines, allNodes]
      exact ⟨.nil, .nil⟩
  | first :: rest, h => by
      rw [allNeat] at h
      have hall := (stmt_stands level first h.1).append (spaced_stand level rest h.2)
      rw [Stmt.spacedLines, allNodes, List.append_assoc]
      split
      · exact ⟨hall.toLays.blank, hall.free⟩
      · exact hall

theorem alternative_stands (level : Nat) : (alternative : Alternative) → alternative.Neat →
    Lays level (Stmt.alternativeLines level alternative) alternative.nodes ∧
      ∀ header, wordOf header ∈ ["if", "elif"] → Linked header alternative.nodes
  | .nothing, _ => by
      rw [Stmt.alternativeLines, Alternative.nodes]
      refine ⟨.nil, fun header hword => .nil ?_⟩
      rintro hword'
      rw [hword'] at hword
      exact absurd hword (by decide)
  | .elseIf condition body alternative, h => by
      rw [Alternative.Neat] at h
      obtain ⟨hcondition, hbody, halternative⟩ := h
      have hheader : IsHeader "elif" ("elif " ++ condition.toText ++ ":").toList :=
        isHeader_spaced "elif" (by simp) (by decide) (by decide) hcondition.unbroken
      have hsuite := suite_stands (level + 1) body hbody
      obtain ⟨hrest, hlinked⟩ := alternative_stands level alternative halternative
      rw [Stmt.alternativeLines, Alternative.nodes]
      refine ⟨.clause hheader hsuite.toLays (suiteNodes_ne_nil body) hrest, fun header hword => ?_⟩
      refine .clause (joins_alternative hword ?_) hsuite.free.linked (hlinked _ ?_)
      · rw [hheader.word]
        decide
      · rw [hheader.word]
        decide
  | .otherwise body, h => by
      rw [Alternative.Neat] at h
      have hsuite := suite_stands (level + 1) body h
      rw [Stmt.alternativeLines, Alternative.nodes]
      refine ⟨.single isHeader_else hsuite.toLays (suiteNodes_ne_nil body), fun header hword => ?_⟩
      exact .clause (joins_alternative hword (by decide)) hsuite.free.linked (.nil (by decide))

theorem handlers_stand (level : Nat) : (handlers : List (Handler Stmt)) → handlersNeat handlers →
    Lays level (Stmt.handlerLines level handlers) (handlersNodes handlers) ∧
      ∀ last, (∀ header, wordOf header = "except" → Linked header last) →
        ∀ header, wordOf header ∈ ["try", "except"] → (handlers = [] → Linked header last) →
          Linked header (handlersNodes handlers ++ last)
  | [], _ => by
      rw [Stmt.handlerLines, handlersNodes]
      exact ⟨.nil, fun last _ header _ hlast => hlast rfl⟩
  | ⟨exception, name, body⟩ :: rest, h => by
      rw [handlersNeat] at h
      obtain ⟨hexception, hname, hbody, hmore⟩ := h
      have hheader := isHeader_except hexception hname
      have hsuite := suite_stands (level + 1) body hbody
      obtain ⟨hrest, hlinked⟩ := handlers_stand level rest hmore
      rw [Stmt.handlerLines, handlersNodes]
      refine ⟨.clause hheader hsuite.toLays (suiteNodes_ne_nil body) hrest,
        fun last hlast header hword _ => ?_⟩
      refine .clause (joins_handler hword ?_) hsuite.free.linked
        (hlinked last hlast _ ?_ fun _ => ?_)
      · rw [hheader.word]
        decide
      · rw [hheader.word]
        decide
      · exact hlast _ hheader.word

end

def Chunk.nodes : Chunk → List Node
  | definition stmt => stmt.nodes
  | script body => allNodes body

def entryNodes : Option String → List Node
  | none => []
  | some name =>
    [.clause "if __name__ == \"__main__\":".toList [.line (name ++ ".main([])").toList]]

namespace Module

def nodes (m : Module) : List Node := m.chunks.flatMap Chunk.nodes ++ entryNodes m.entry

theorem chunk_stands (chunk : Chunk) (h : chunk.Neat) : Stands 0 chunk.lines chunk.nodes := by
  cases chunk with
  | definition stmt => exact stmt_stands 0 stmt h
  | script body => exact all_stand 0 body h

theorem gap_stands {lines : List Line} {nodes : List Node} (h : Stands 0 lines nodes) :
    Stands 0 (gap ++ lines) nodes := ⟨h.toLays.blank.blank, h.free⟩

theorem linesAfter_stand (afterDefinition : Bool) (chunks : List Chunk)
    (h : ∀ chunk ∈ chunks, chunk.Neat) :
    Stands 0 (linesAfter afterDefinition chunks) (chunks.flatMap Chunk.nodes) := by
  induction chunks generalizing afterDefinition with
  | nil => exact ⟨.nil, .nil⟩
  | cons chunk rest ih =>
      rw [List.forall_mem_cons] at h
      have hall := (chunk_stands chunk h.1).append (ih chunk.isDefinition h.2)
      rw [linesAfter, List.flatMap_cons, List.append_assoc]
      split
      · exact gap_stands hall
      · exact hall

theorem chunkLines_stand (chunks : List Chunk) (h : ∀ chunk ∈ chunks, chunk.Neat) :
    Stands 0 (chunkLines chunks) (chunks.flatMap Chunk.nodes) := by
  cases chunks with
  | nil => exact ⟨.nil, .nil⟩
  | cons chunk rest =>
      rw [List.forall_mem_cons] at h
      exact (chunk_stands chunk h.1).append (linesAfter_stand _ rest h.2)

theorem entryLines_stand (entry : Option String) (h : ∀ name ∈ entry, Plain name) :
    Stands 0 (entryLines entry) (entryNodes entry) := by
  cases entry with
  | none => exact ⟨.nil, .nil⟩
  | some name =>
      have hcall : Plain ".main([])" :=
        plain_of_isPlain (by decide)
      have hheader : IsHeader "if" "if __name__ == \"__main__\":".toList :=
        isHeader_of_word "if" rfl (by decide) (by decide) (by decide) (by decide) rfl
      exact gap_stands (.single hheader (.line ((h name rfl).append hcall)) (List.cons_ne_nil _ _)
        (by decide))

theorem lines_stand {m : Module} (h : m.Neat) : Stands 0 m.lines m.nodes :=
  (chunkLines_stand m.chunks h.chunks).append (entryLines_stand m.entry h.entry)

/-- The text of a module is a block of its nodes. -/
theorem block_toText {m : Module} (h : m.Neat) : Block 0 (rowsOf m.toText) m.nodes := by
  have hlines := lines_stand h
  rw [toText, rowsOf_lines hlines.fits]
  exact hlines.block

theorem wellBlocked_toText {m : Module} (h : m.Neat) : WellBlocked (rowsOf m.toText) :=
  (block_toText h).wellBlocked (lines_stand h).free.linked

end Module

end MiniJava.Target