import MiniJava.Proofs.Python.Run
import MiniJava.Proofs.Target.Blocks
import MiniJava.Proofs.Target.Reading

/-!
# Emitted statements as Python reads them

The line of an emitted assignment, update or print call is read as such, and so are the headers of
`if`, `while` and `for`; what is read of the parts of a statement is put together to what is read of
the statement. A suite that would be empty is read as `pass`.
-/

namespace MiniJava.Target

open Python

namespace Expr

theorem readUpTo_tokens {e : Expr} (h : e.Spelled) {rest : List Python.Token}
    (hrest : Behind 0 rest) : readUpTo rest (e.tokens ++ rest) = some e.tree := by
  have hderives := level_of_form (derives_tokens e h) (by decide) e.precedence_pos
  rw [readUpTo, hderives.readBack.whole hrest (by decide)]
  exact if_pos rfl

theorem readUpTo_end {e : Expr} (h : e.Spelled) : readUpTo [] e.tokens = some e.tree := by
  have hread := readUpTo_tokens h (show Behind 0 [] by simp [Behind])
  rwa [List.append_nil] at hread

theorem behind_colon : Behind 0 [.symbol ":"] :=
  behind_symbol (by decide) (by decide) (by decide) 0 []

theorem tokens?_end {e : Expr} (h : e.Spelled) : tokens? e.toText.toList = some e.tokens := by
  have hsplit := splitsInto_toText e h [] (by simp [Delimited])
  rwa [List.append_nil, tokens?_nil, Option.map_some, List.append_nil] at hsplit

theorem tokens?_colon : tokens? [':'] = some [.symbol ":"] := by
  rw [tokens?_single (by decide) (by decide) (by simp), tokens?_nil]
  rfl

theorem tokens?_header {e : Expr} (h : e.Spelled) :
    tokens? (e.toText.toList ++ [':']) = some (e.tokens ++ [.symbol ":"]) := by
  rw [splitsInto_toText e h _ (delimited_cons (by decide) _), tokens?_colon]
  rfl

/-- A word is read in front of a blank. -/
theorem tokens?_wordBlank {word : String} (h : isIdentifier word = true) (rest : List Char) :
    tokens? (word.toList ++ ' ' :: rest) = (tokens? rest).map (.word word :: ·) := by
  rw [tokens?_word h (delimited_blank rest).endsWord, tokens?_blank]

def argumentChars (list : List Expr) : List Char :=
  list.flatMap fun e => ',' :: ' ' :: e.toText.toList

def argumentTokens (list : List Expr) : List Python.Token :=
  list.flatMap fun e => .symbol "," :: e.tokens

theorem tokens?_arguments {list : List Expr} (h : ∀ e ∈ list, e.Spelled) (rest : List Char) :
    tokens? (argumentChars list ++ ')' :: rest) =
      (tokens? rest).map (argumentTokens list ++ .symbol ")" :: ·) := by
  induction list with
  | nil => exact tokens?_close rest
  | cons e list ih =>
      rw [List.forall_mem_cons] at h
      have hbehind : Delimited (argumentChars list ++ ')' :: rest) := by
        cases list with
        | nil => exact delimited_close rest
        | cons next list => exact delimited_cons (by decide) _
      have hcomma := @tokens?_alone ',' (' ' :: (e.toText.toList ++ (argumentChars list ++ ')' :: rest)))
        (by decide) (by decide +kernel) (by decide)
      rw [tokens?_blank, splitsInto_toText e h.1 _ hbehind, ih h.2] at hcomma
      simpa [argumentChars, argumentTokens, Function.comp_def] using hcomma

def callTokens (callee : String) (first : Expr) (list : List Expr) : List Python.Token :=
  .word callee :: .symbol "(" :: (first.tokens ++ argumentTokens list ++ [.symbol ")"])

theorem tokens?_call {callee : String} (hcallee : isIdentifier callee = true) {first : Expr}
    {list : List Expr} (hfirst : first.Spelled) (h : ∀ e ∈ list, e.Spelled) (rest : List Char) :
    tokens? (callee.toList ++ '(' :: (first.toText.toList ++ (argumentChars list ++ ')' :: rest))) =
      (tokens? rest).map (callTokens callee first list ++ ·) := by
  have hends : EndsWord ('(' :: (first.toText.toList ++ (argumentChars list ++ ')' :: rest))) := by
    intro c hc
    cases hc
    decide
  have hbehind : Delimited (argumentChars list ++ ')' :: rest) := by
    cases list with
    | nil => exact delimited_close rest
    | cons next list => exact delimited_cons (by decide) _
  rw [tokens?_word hcallee hends, tokens?_open, splitsInto_toText first hfirst _ hbehind,
    tokens?_arguments h]
  simp [callTokens, Function.comp_def]

/-- A call groups as a call of its arguments. -/
theorem derives_call {callee : String} (hcallee : isName callee = true) {first : Expr}
    {list : List Expr} (hfirst : first.Spelled) (h : ∀ e ∈ list, e.Spelled) :
    Derives .primary (callTokens callee first list)
      (.call (.name callee) (first.tree :: list.map tree)) := by
  have hderives (e : Expr) (he : e.Spelled) : Derives (.level 1) e.tokens e.tree :=
    level_of_form (derives_tokens e he) (by decide) e.precedence_pos
  have hopen (list : List Expr) (h : ∀ e ∈ list, e.Spelled) : ∀ left operands,
      Derives .openCall left (.call (.name callee) operands) →
        Derives .openCall (left ++ argumentTokens list)
          (.call (.name callee) (operands ++ list.map tree)) := by
    induction list with
    | nil => simp [argumentTokens]
    | cons e list ih =>
        rw [List.forall_mem_cons] at h
        intro left operands hleft
        have hrest := ih h.2 _ _ (hleft.argumentAgain (hderives e h.1))
        simpa [argumentTokens] using hrest
  have hcall := (hopen list h _ _ (Derives.argument (.atom (atom?_name hcallee))
    (hderives first hfirst))).call
  simpa [callTokens] using hcall

theorem readUpTo_call {callee : String} (hcallee : isName callee = true) {first : Expr}
    {list : List Expr} (hfirst : first.Spelled) (h : ∀ e ∈ list, e.Spelled)
    {rest : List Python.Token} (hrest : Behind 0 rest) :
    readUpTo rest (callTokens callee first list ++ rest) =
      some (.call (.name callee) (first.tree :: list.map tree)) := by
  have hderives : Derives (.level 1) _ _ :=
    (derives_call hcallee hfirst h).primary.loosen (by decide)
  rw [readUpTo, hderives.readBack.whole hrest (by decide)]
  exact if_pos rfl

def integer : Int → Expr
  | .ofNat n => .number n.repr
  | .negSucc n => .signed .minus (.number (n + 1).repr)

theorem toText_integer (n : Int) : (integer n).toText = toString n := by
  rw [Int.toString_eq_repr]
  cases n with
  | ofNat n => rfl
  | negSucc n => rfl

theorem isDecimal_repr (n : Nat) : isDecimal n.repr.toList = true := by
  have hall : ∀ c ∈ n.repr.toList, Text.isAsciiDigit c = true :=
    fun _ hc => Text.isAsciiDigit_of_mem_repr hc
  have htake : n.repr.toList.takeWhile Text.isAsciiDigit = n.repr.toList :=
    List.takeWhile_eq_self_iff.mpr hall
  have hdrop : n.repr.toList.dropWhile Text.isAsciiDigit = [] :=
    List.dropWhile_eq_nil_iff.mpr hall
  simp only [isDecimal, htake, hdrop, Bool.and_eq_true, Bool.or_eq_true, decide_eq_true_eq]
  refine ⟨by simp, ?_⟩
  cases n with
  | zero => exact .inr (by decide)
  | succ n => exact .inl (Text.head?_repr (Nat.succ_pos n))

theorem spelled_integer (n : Int) : (integer n).Spelled := by
  cases n with
  | ofNat n => exact isDecimal_repr n
  | negSucc n => exact isDecimal_repr (n + 1)

theorem value?_integer (n : Int) (env : Env) : (integer n).tree.value? env = some (.int n) := by
  have hnumber (m : Nat) : (Tree.number m.repr).value? env = some (.int m) := by
    rw [Tree.value?, Python.integer?, if_pos (isDecimal_repr m), Text.magnitude?_repr]
    rfl
  cases n with
  | ofNat n => exact hnumber n
  | negSucc n =>
      rw [integer, tree, tree, Tree.value?, hnumber]
      rfl

end Expr

section Lines

variable {name : String} {e : Expr}

theorem tokens?_change {mark : String} (hname : isTarget name = true) (hmark : mark ∈ symbols)
    (hlength : mark.toList.length ≤ 2) (hpoint : mark.toList.head? ≠ some '.') (he : e.Spelled) :
    tokens? (name ++ " " ++ mark ++ " " ++ e.toText).toList =
      some (.word name :: .symbol mark :: e.tokens) := by
  have hsplit : (name ++ " " ++ mark ++ " " ++ e.toText).toList =
      name.toList ++ ' ' :: (mark.toList ++ ' ' :: e.toText.toList) := by simp
  rw [hsplit, Expr.tokens?_wordBlank (Expr.isIdentifier_of_isName (isName_of_isTarget hname)),
    tokens?_spaced hmark hlength hpoint, Expr.tokens?_end he]
  rfl

theorem line?_assign (hname : isTarget name = true) (he : e.Spelled) :
    line? (name ++ " = " ++ e.toText).toList = some (.assign name e.tree) := by
  have htokens := tokens?_change hname (show "=" ∈ symbols by decide) (by decide) (by decide) he
  have htext : name ++ " = " ++ e.toText = name ++ " " ++ "=" ++ " " ++ e.toText := by
    simp [String.append_assoc]
  rw [htext, line?, htokens]
  simp [changed?, hname, Expr.readUpTo_end he]

theorem line?_update {mark operator : String} (hname : isTarget name = true)
    (hmark : updates.lookup mark = some operator) (hsymbol : mark ∈ symbols)
    (hlength : mark.toList.length ≤ 2) (hpoint : mark.toList.head? ≠ some '.')
    (hne : mark ≠ "=") (he : e.Spelled) :
    line? (name ++ " " ++ mark ++ " " ++ e.toText).toList =
      some (.update name operator e.tree) := by
  rw [line?, tokens?_change hname hsymbol hlength hpoint he]
  simp [changed?, hname, hne, hmark, Expr.readUpTo_end he]

theorem line?_print (he : e.Spelled) :
    line? (printCall (some e) true).toList = some (.print e.tree) := by
  have hsplit : (printCall (some e) true).toList =
      "print".toList ++ '(' :: (e.toText.toList ++ (Expr.argumentChars [] ++ [')'])) := by
    simp [printCall, joined, Expr.argumentChars]
  have hnone : ∀ e ∈ ([] : List Expr), e.Spelled := by simp
  have htokens := Expr.tokens?_call (show isIdentifier "print" = true by decide) he hnone []
  have hread := Expr.readUpTo_call (show isName "print" = true by decide) he hnone
    (show Behind 0 [] by simp [Behind])
  rw [List.append_nil] at hread
  have hchange : changed? (Expr.callTokens "print" e []) = none := rfl
  have hpass : Expr.callTokens "print" e [] ≠ [.word "pass"] := by simp [Expr.callTokens]
  rw [line?, hsplit, htokens, tokens?_nil]
  simp only [Option.map_some, List.append_nil, Option.bind_eq_bind, Option.bind_some, if_neg hpass,
    hchange, hread]
  rfl

theorem line?_pass : line? "pass".toList = some .pass := by
  have htokens := @tokens?_word "pass" [] (by decide) (by simp [EndsWord])
  rw [tokens?_nil, List.append_nil] at htokens
  rw [line?, htokens]
  rfl

end Lines

theorem header?_conditional {word : String} {header : Tree → Header}
    (hword : conditionals.lookup word = some header) (hidentifier : isIdentifier word = true)
    {e : Expr} (he : e.Spelled) {text : List Char}
    (htext : text = word.toList ++ ' ' :: (e.toText.toList ++ [':'])) :
    header? text = some (header e.tree) := by
  rw [header?, htext, Expr.tokens?_wordBlank hidentifier, Expr.tokens?_header he]
  simp [hword, Expr.readUpTo_tokens he Expr.behind_colon]

theorem header?_else : header? "else:".toList = some .otherwise := by
  have hends : EndsWord [':'] := by
    intro c hc
    cases hc
    decide
  have htokens := tokens?_word (show isIdentifier "else" = true by decide) hends
  have hsplit : "else:".toList = "else".toList ++ [':'] := rfl
  rw [header?, hsplit, htokens, Expr.tokens?_colon]
  rfl

/-- The step of a range, which is not written if it is one. -/
def stepArguments (step : Int) : List Expr := if step = 1 then [] else [.integer step]

theorem toList_rangeArguments (start stop : Expr) (step : Int) :
    (rangeArguments start stop step).toList =
      start.toText.toList ++ Expr.argumentChars (stop :: stepArguments step) := by
  unfold rangeArguments stepArguments
  split
  · simp [Expr.argumentChars]
  · simp [Expr.argumentChars, Expr.toText_integer]

theorem spelled_stepArguments (step : Int) : ∀ e ∈ stepArguments step, e.Spelled := by
  unfold stepArguments
  split
  · simp
  · simpa using Expr.spelled_integer step

theorem header?_for {counter : String} (hcounter : isTarget counter = true) {start stop : Expr}
    (hstart : start.Spelled) (hstop : stop.Spelled) (step : Int) :
    header? ("for " ++ counter ++ " in range(" ++ rangeArguments start stop step ++ "):").toList =
      some (.forRange counter start.tree stop.tree
        ((stepArguments step).map Expr.tree).head?) := by
  have harguments : ∀ e ∈ stop :: stepArguments step, e.Spelled :=
    List.forall_mem_cons.mpr ⟨hstop, spelled_stepArguments step⟩
  have hsplit : ("for " ++ counter ++ " in range(" ++ rangeArguments start stop step ++ "):").toList =
      "for".toList ++ ' ' :: (counter.toList ++ ' ' :: ("in".toList ++ ' ' :: ("range".toList ++
        '(' :: (start.toText.toList ++
          (Expr.argumentChars (stop :: stepArguments step) ++ ')' :: [':']))))) := by
    simp [toList_rangeArguments]
  have htokens := Expr.tokens?_call (show isIdentifier "range" = true by decide) hstart harguments
    [':']
  have hread := Expr.readUpTo_call (show isName "range" = true by decide) hstart harguments
    Expr.behind_colon
  have hrange : overRange? counter (.call (.name "range")
      (start.tree :: (stop :: stepArguments step).map Expr.tree)) =
      some (.forRange counter start.tree stop.tree ((stepArguments step).map Expr.tree).head?) := by
    unfold stepArguments
    split
    · rfl
    · rfl
  rw [header?, hsplit, Expr.tokens?_wordBlank (by decide),
    Expr.tokens?_wordBlank (Expr.isIdentifier_of_isName (isName_of_isTarget hcounter)),
    Expr.tokens?_wordBlank (by decide), htokens, Expr.tokens?_colon]
  have hnone : conditionals.lookup "for" = none := rfl
  simp only [Option.map_some, Option.bind_eq_bind, Option.bind_some, hnone, if_true, forHeader?,
    hcounter, hread, hrange, Bool.true_and, decide_true]

theorem allNodes_append (body more : List Stmt) :
    allNodes (body ++ more) = allNodes body ++ allNodes more := by
  induction body with
  | nil => simp [allNodes]
  | cons first rest ih => simp [allNodes, ih]

/-- The statements are read as code, whatever statements stand behind them. -/
def Reads (out : List Stmt) (code : List Code) : Prop :=
  ∀ nodes more, partsOf nodes = some ⟨[], more⟩ →
    partsOf (allNodes out ++ nodes) = some ⟨[], code ++ more⟩

def ReadsBranch (alternative : Alternative) (code : List Code) : Prop :=
  ∀ nodes more, partsOf nodes = some ⟨[], more⟩ →
    partsOf (alternative.nodes ++ nodes) = some ⟨code, more⟩

def ReadsSuite (body : List Stmt) (code : List Code) : Prop :=
  partsOf (suiteNodes body) = some ⟨[], code⟩

namespace Reads

variable {out more : List Stmt} {code next other : List Code}

theorem nil : Reads [] [] := by
  intro nodes behind h
  rw [allNodes]
  exact h

theorem append (h : Reads out code) (hmore : Reads more next) :
    Reads (out ++ more) (code ++ next) := by
  intro nodes behind hnodes
  rw [allNodes_append, List.append_assoc, List.append_assoc]
  exact h _ _ (hmore _ _ hnodes)

theorem codeOf_eq (h : Reads out code) : codeOf (allNodes out) = some code := by
  have hparts := h [] [] (by rw [partsOf])
  rw [List.append_nil, List.append_nil] at hparts
  rw [codeOf, hparts]
  rfl

theorem code_eq_nil (h : Reads [] code) : code = [] := by
  have hcode := h.codeOf_eq
  rw [allNodes, codeOf, partsOf] at hcode
  exact (Option.some.inj hcode).symm

/-- A statement in a line of its own. -/
theorem line {s : Stmt} {text : String} {statement : Code}
    (hnodes : s.nodes = [.line text.toList]) (h : line? text.toList = some statement) :
    Reads [s] [statement] := by
  intro nodes behind hbehind
  rw [allNodes, allNodes, List.append_nil, hnodes, List.singleton_append, partsOf, hbehind, h]
  rfl

/-- A statement of one clause. -/
theorem clause {s : Stmt} {text : List Char} {header : Header} {body : List Stmt}
    (hnodes : s.nodes = [.clause text (suiteNodes body)]) (hbody : ReadsSuite body code)
    (h : header? text = some header) {statement : Code}
    (hheader : ∀ parts : Parts, parts.behindClause code header = parts.behind statement) :
    Reads [s] [statement] := by
  intro nodes behind hbehind
  rw [allNodes, allNodes, List.append_nil, hnodes, List.singleton_append, partsOf, hbody, hbehind, h]
  exact hheader ⟨[], behind⟩

theorem assign {name : String} (hname : isTarget name = true) {e : Expr} (he : e.Spelled) :
    Reads [.assign (.name name) e] [.assign name e.tree] :=
  @line (.assign (.name name) e) (name ++ " = " ++ e.toText) _ rfl (line?_assign hname he)

theorem print {e : Expr} (he : e.Spelled) : Reads [.print (some e) true] [.print e.tree] :=
  line rfl (line?_print he)

theorem update {name operator : String} {op : UpdateOp} (hname : isTarget name = true)
    (hop : updates.lookup op.symbol = some operator) (hsymbol : op.symbol ∈ symbols)
    (hlength : op.symbol.toList.length ≤ 2) (hpoint : op.symbol.toList.head? ≠ some '.')
    (hne : op.symbol ≠ "=") {e : Expr} (he : e.Spelled) :
    Reads [.update (.name name) op e] [.update name operator e.tree] :=
  line rfl (line?_update hname hop hsymbol hlength hpoint hne he)

theorem ifElse {e : Expr} (he : e.Spelled) (h : ReadsSuite out code) {alternative : Alternative}
    (hother : ReadsBranch alternative other) :
    Reads [.ifElse e out alternative] [.ifElse e.tree code other] := by
  intro nodes behind hbehind
  have hheader := header?_conditional (show conditionals.lookup "if" = _ from rfl) (by decide) he
    (show ("if " ++ e.toText ++ ":").toList = _ by simp)
  rw [allNodes, allNodes, List.append_nil, Stmt.nodes, List.cons_append, partsOf,
    hother _ _ hbehind, hheader, h]
  rfl

theorem whileLoop {e : Expr} (he : e.Spelled) (h : ReadsSuite out code) :
    Reads [.whileLoop e out] [.whileLoop e.tree code] :=
  clause rfl h (header?_conditional (show conditionals.lookup "while" = _ from rfl) (by decide) he
    (by simp)) fun _ => rfl

/-- A loop over a range whose end may be written in another way. -/
theorem forRange {counter : String} (hcounter : isTarget counter = true)
    {start stop written : Expr} (hstart : start.Spelled) (hwritten : written.Spelled)
    (htext : stop.toText = written.toText) (step : Int) (h : ReadsSuite out code) :
    Reads [.forRange (.name counter) start stop step out]
      [.forRange counter start.tree written.tree ((stepArguments step).map Expr.tree).head? code] := by
  have harguments : rangeArguments start stop step = rangeArguments start written step := by
    rw [rangeArguments, htext, rangeArguments]
  have hnodes : (Stmt.forRange (.name counter) start stop step out).nodes =
      [.clause ("for " ++ counter ++ " in range(" ++ rangeArguments start written step ++
        "):").toList (suiteNodes out)] := by
    rw [Stmt.nodes, harguments, Expr.toText]
  exact clause hnodes h (header?_for hcounter hstart hwritten step) fun _ => rfl

/-- The suite does what the statements do. -/
theorem suite (h : Reads out code) : ∃ suite, ReadsSuite out suite ∧
    ∀ rounds vars, runAll rounds suite vars = runAll rounds code vars := by
  cases out with
  | nil =>
      obtain rfl := h.code_eq_nil
      refine ⟨[.pass], ?_, fun rounds vars => ?_⟩
      · rw [ReadsSuite, suiteNodes, partsOf, partsOf, line?_pass]
        rfl
      · rw [runAll_single, Code.run, runAll]
  | cons first rest =>
      refine ⟨code, ?_, fun _ _ => rfl⟩
      have hparts := h [] [] (by rw [partsOf])
      rwa [List.append_nil, List.append_nil, allNodes, ← suiteNodes] at hparts

end Reads

namespace ReadsBranch

theorem nothing : ReadsBranch .nothing [] := by
  intro nodes behind h
  rw [Alternative.nodes]
  exact h

variable {out : List Stmt} {code other : List Code}

theorem otherwise (h : ReadsSuite out code) : ReadsBranch (.otherwise out) code := by
  intro nodes behind hbehind
  rw [Alternative.nodes, List.singleton_append, partsOf, h, hbehind, header?_else]
  rfl

theorem elseIf {e : Expr} (he : e.Spelled) (h : ReadsSuite out code) {alternative : Alternative}
    (hother : ReadsBranch alternative other) :
    ReadsBranch (.elseIf e out alternative) [.ifElse e.tree code other] := by
  intro nodes behind hbehind
  have hheader := header?_conditional (show conditionals.lookup "elif" = _ from rfl) (by decide) he
    (show ("elif " ++ e.toText ++ ":").toList = _ by simp)
  rw [Alternative.nodes, List.cons_append, partsOf, hother _ _ hbehind, hheader, h]
  rfl

end ReadsBranch

end MiniJava.Target
