import MiniJava.Proofs.Grammar.ProgramOutcome

/-!
# Readers as loops

A reader of a run of tokens can be written as a loop, which goes through the table in rounds and
keeps what it has read so far. Each round of such a loop leaves fewer tokens than it finds, so the
loop ends within one round more than there are tokens, and it ends with what the reader gives.
-/

namespace MiniJava.Grammar

variable {α β σ : Type}

def Outcome.Shortens (outcome : Outcome α) (limit : Nat) : Prop :=
  ∀ value rest, outcome = .ok (value, rest) → rest.length < limit

namespace Outcome.Shortens

theorem of_reading {n : Nat} (reading : Reading α n) : Shortens reading.outcome n :=
  fun _ _ => Reading.length_lt_of_outcome

theorem mono {outcome : Outcome α} {limit more : Nat} (h : outcome.Shortens limit)
    (hle : limit ≤ more) : outcome.Shortens more :=
  fun value rest hread => Nat.lt_of_lt_of_le (h value rest hread) hle

theorem andThen {first : Outcome α} {next : α → List Token → Outcome β} {between limit : Nat}
    (h : first.Shortens between)
    (hnext : ∀ value rest, rest.length < between → (next value rest).Shortens limit) :
    (first.andThen next).Shortens limit := by
  intro result left hread
  obtain ⟨value, rest, hfirst, hrest⟩ := Outcome.andThen_eq_ok.mp hread
  exact hnext value rest (h value rest hfirst) result left hrest

end Outcome.Shortens

/-- What a round comes to: the tokens for the next round, or the result of the loop. -/
inductive Round (σ α : Type) where
  | again (state : σ) (rest : List Token)
  | done (result : α)

def Round.reading (outcome : Outcome α) (next : α → σ) : Round σ (Outcome β) :=
  match outcome with
  | .ok (value, rest) => .again (next value) rest
  | .error error => .done (.error error)

/-- A loop, by its rounds. -/
abbrev Loop (σ α : Type) := σ → List Token → Round σ α

namespace Loop

variable {loop : Loop σ α} {result : σ → List Token → α}

/-- The result of a loop that ends within a number of rounds. -/
def run (loop : Loop σ α) : Nat → σ → List Token → Option α
  | 0, _, _ => none
  | limit + 1, state, tokens =>
    match loop state tokens with
    | .again next rest => run loop limit next rest
    | .done last => some last

/-- The loop ends within one round more than there are tokens, with the result. -/
def Ends (loop : Loop σ α) (start : σ) (result : List Token → α) : Prop :=
  ∀ tokens, loop.run (tokens.length + 1) start tokens = some (result tokens)

/-- A round leaves fewer tokens than it finds and the result as it is. -/
def Keeps (result : σ → List Token → α) (state : σ) (tokens : List Token) : Round σ α → Prop
  | .again next rest => rest.length < tokens.length ∧ result state tokens = result next rest
  | .done last => result state tokens = last

theorem keeps_reading {result : σ → List Token → Outcome β} {outcome : Outcome α} {next : α → σ}
    {state : σ} {tokens : List Token} (hlt : outcome.Shortens tokens.length)
    (h : result state tokens = outcome.andThen fun value rest => result (next value) rest) :
    Keeps result state tokens (.reading outcome next) := by
  rcases outcome with error | ⟨value, rest⟩
  · exact h
  · exact ⟨hlt value rest rfl, h⟩

theorem run_eq (h : ∀ state tokens, Keeps result state tokens (loop state tokens)) {limit : Nat}
    {state : σ} {tokens : List Token} (hlimit : tokens.length < limit) :
    loop.run limit state tokens = some (result state tokens) := by
  induction limit generalizing state tokens with
  | zero => exact absurd hlimit (Nat.not_lt_zero _)
  | succ limit ih =>
      have hround := h state tokens
      rw [run]
      cases hloop : loop state tokens with
      | done last =>
          rw [hloop] at hround
          exact congrArg some hround.symm
      | again next rest =>
          rw [hloop] at hround
          obtain ⟨hlt, hresult⟩ := hround
          rw [hresult]
          exact ih (Nat.lt_of_lt_of_le hlt (Nat.le_of_lt_succ hlimit))

theorem ends (h : ∀ state tokens, Keeps result state tokens (loop state tokens)) (start : σ) :
    loop.Ends start (result start) := fun _ => run_eq h (Nat.lt_succ_self _)

end Loop

section Gathering

variable {join : σ → σ → σ} {part : List Token → Round σ (Outcome σ)}
  {reader : List Token → Outcome σ} {tokens : List Token}

def joined (join : σ → σ → σ) (before : σ) (behind : Outcome σ) : Outcome σ :=
  behind.andThen fun read rest => .ok (join before read, rest)

/-- Reads part by part and joins each with those in front of it. -/
def gathering (join : σ → σ → σ) (part : List Token → Round σ (Outcome σ)) :
    Loop σ (Outcome σ) := fun before tokens =>
  match part tokens with
  | .again read rest => .again (join before read) rest
  | .done last => .done (joined join before last)

def Continues (join : σ → σ → σ) (reader : List Token → Outcome σ) (tokens : List Token) :
    Round σ (Outcome σ) → Prop
  | .again read rest => rest.length < tokens.length ∧
      reader tokens = joined join read (reader rest)
  | .done last => reader tokens = last

theorem continues_reading {outcome : Outcome α} {next : α → σ}
    (hlt : outcome.Shortens tokens.length)
    (h : reader tokens =
      outcome.andThen fun value rest => joined join (next value) (reader rest)) :
    Continues join reader tokens (.reading outcome next) := by
  rcases outcome with error | ⟨value, rest⟩
  · exact h
  · exact ⟨hlt value rest rfl, h⟩

theorem joined_joined [Std.Associative join] (before read : σ) (behind : Outcome σ) :
    joined join before (joined join read behind) = joined join (join before read) behind := by
  have hassoc (a b c : σ) : join (join a b) c = join a (join b c) := Std.Associative.assoc a b c
  rw [joined, joined, Outcome.andThen_assoc]
  simp only [Outcome.ok_andThen, ← hassoc]
  rfl

theorem joined_unit {unit : σ} [Std.LawfulLeftIdentity join unit] (behind : Outcome σ) :
    joined join unit behind = behind := by
  cases behind with
  | error error => rfl
  | ok read => simp only [joined, Outcome.andThen, Std.LawfulLeftIdentity.left_id]

theorem gathering_ends [Std.Associative join] {unit : σ} [Std.LawfulLeftIdentity join unit]
    (h : ∀ tokens, Continues join reader tokens (part tokens)) :
    (gathering join part).Ends unit reader := by
  have hkeeps (before : σ) (tokens : List Token) :
      Loop.Keeps (fun before tokens => joined join before (reader tokens)) before tokens
        (gathering join part before tokens) := by
    have hpart := h tokens
    rw [gathering]
    cases hround : part tokens with
    | done last =>
        rw [hround] at hpart
        exact congrArg (joined join before) hpart
    | again read rest =>
        rw [hround] at hpart
        obtain ⟨hlt, hreader⟩ := hpart
        exact ⟨hlt, (congrArg (joined join before) hreader).trans (joined_joined before read _)⟩
  exact fun tokens => (Loop.ends hkeeps unit tokens).trans (congrArg some (joined_unit _))

end Gathering

def modifierPart : List Token → Round (List Modifier) (Outcome (List Modifier))
  | [] => .done (.ok ([], []))
  | token :: rest =>
    match Modifier.ofWord? token.lexeme with
    | none => .done (.ok ([], token :: rest))
    | some modifier => .again [modifier] rest

/-- The modifiers with the tokens behind them. -/
def leading (tokens : List Token) : Outcome (List Modifier) :=
  .ok ((modifiers tokens).value, (modifiers tokens).rest)

theorem leading_stop {token : Token} (rest : List Token)
    (h : Modifier.ofWord? token.lexeme = none) :
    leading (token :: rest) = .ok ([], token :: rest) := by
  rw [leading, modifiers, h]
  rfl

theorem leading_more {token : Token} {modifier : Modifier} (rest : List Token)
    (h : Modifier.ofWord? token.lexeme = some modifier) :
    leading (token :: rest) = joined (· ++ ·) [modifier] (leading rest) := by
  rw [leading, modifiers, h]
  rfl

theorem modifiers_loop : (gathering (· ++ ·) modifierPart).Ends [] leading := by
  refine gathering_ends fun tokens => ?_
  cases tokens with
  | nil => rfl
  | cons token rest =>
      rw [modifierPart]
      cases hword : Modifier.ofWord? token.lexeme with
      | none => exact leading_stop rest hword
      | some modifier => exact ⟨Nat.lt_succ_self _, leading_more rest hword⟩

def bracketPart : List Token → Round Nat (Outcome Nat)
  | [] => .done (.ok (0, []))
  | token :: rest =>
    if token.lexeme = "[" then .reading (expect "]" rest).outcome fun _ => 1
    else .done (.ok (0, token :: rest))

theorem outcome_dimensions_open {left : Token} (rest : List Token) (h : left.lexeme = "[") :
    (dimensions (left :: rest)).outcome = (expect "]" rest).outcome.andThen fun _ rest =>
      (dimensions rest).outcome.andThen fun n rest => .ok (n + 1, rest) := by
  cases rest with
  | nil =>
      rw [dimensions, if_pos h]
      rfl
  | cons right rest =>
      rw [outcome_expect_cons]
      split
      · next hright => exact outcome_dimensions_pair rest h hright
      · next hright =>
        rw [dimensions, if_pos h, if_neg hright]
        rfl

theorem dimensions_loop :
    (gathering (· + ·) bracketPart).Ends 0 fun tokens => (dimensions tokens).outcome := by
  refine gathering_ends fun tokens => ?_
  cases tokens with
  | nil => exact outcome_dimensions_stop rfl
  | cons left rest =>
      rw [bracketPart]
      split
      · next hleft =>
        refine continues_reading ((Outcome.Shortens.of_reading _).mono (Nat.le_succ _))
          ((outcome_dimensions_open rest hleft).trans ?_)
        simp only [joined, Nat.add_comm]
      · next hleft => exact outcome_dimensions_stop (decide_eq_false hleft)

def aheadRound : Loop Unit Bool
  | _, first :: second :: rest =>
    if first.lexeme = "[" && second.lexeme = "]" then .again () rest
    else .done (first.kind = .identifier)
  | _, [token] => .done (token.kind = .identifier)
  | _, [] => .done false

theorem nameFollows_loop : aheadRound.Ends () nameFollows := by
  have hkeeps (start : Unit) (tokens : List Token) :
      Loop.Keeps (fun _ => nameFollows) start tokens (aheadRound start tokens) := by
    cases tokens with
    | nil => rfl
    | cons first tokens =>
        cases tokens with
        | nil => rfl
        | cons second rest =>
            rw [aheadRound]
            split
            · next hpair => exact ⟨Nat.lt_succ_of_lt (Nat.lt_succ_self _), if_pos hpair⟩
            · next hpair => exact if_neg hpair
  exact Loop.ends hkeeps ()

/-- Another part follows a part with a comma behind it. -/
def listedPart (reader : List Token → Outcome α) (tokens : List Token) :
    Round (List α) (Outcome (List α)) :=
  match reader tokens with
  | .error error => .done (.error error)
  | .ok (value, rest) =>
    if nextIs "," rest then .again [value] rest.tail else .done (.ok ([value], rest))

theorem listed_loop {reader : List Token → Outcome α} {list : List Token → Outcome (List α)}
    (hlt : ∀ tokens, (reader tokens).Shortens tokens.length)
    (h : ∀ tokens, list tokens = (reader tokens).andThen fun first rest =>
      if nextIs "," rest then (list rest.tail).andThen fun more rest => .ok (first :: more, rest)
      else .ok ([first], rest)) : (gathering (· ++ ·) (listedPart reader)).Ends [] list := by
  refine gathering_ends fun tokens => ?_
  have hlist := h tokens
  have hfirst := hlt tokens
  rw [listedPart]
  rcases hread : reader tokens with error | ⟨value, rest⟩
  · rw [hread] at hlist
    exact hlist
  · rw [hread] at hlist hfirst
    rw [Outcome.ok_andThen] at hlist
    dsimp only
    split
    · next hcomma =>
      rw [if_pos hcomma] at hlist
      have htail : rest.tail.length ≤ rest.length := by simp
      exact ⟨Nat.lt_of_le_of_lt htail (hfirst value rest rfl), hlist⟩
    · next hcomma => rwa [if_neg hcomma] at hlist

theorem params_loop : (gathering (· ++ ·) (listedPart fun tokens => (param tokens).outcome)).Ends []
    fun tokens => (params tokens).outcome :=
  listed_loop (fun _ => .of_reading _) outcome_params

theorem expressions_loop :
    (gathering (· ++ ·) (listedPart fun tokens => (expression tokens).outcome)).Ends []
      fun tokens => (expressions tokens).outcome :=
  listed_loop (fun _ => .of_reading _) outcome_expressions

def blockPart : List Token → Round (List Stmt) (Outcome (List Stmt))
  | [] => .done (.error (.unexpectedEnd .blockEnd))
  | token :: rest =>
    if token.lexeme = "\x7d" then .done (.ok ([], rest))
    else .reading (statement (token :: rest)).outcome fun s => [s]

theorem blockBody_loop :
    (gathering (· ++ ·) blockPart).Ends [] fun tokens => (blockBody tokens).outcome := by
  refine gathering_ends fun tokens => ?_
  cases tokens with
  | nil => exact outcome_blockBody_nil
  | cons token rest =>
      rw [blockPart]
      split
      · next hend => exact outcome_blockBody_end rest hend
      · next hend => exact continues_reading (.of_reading _) (outcome_blockBody_cons rest hend)

def casePart : List Token → Round (List Stmt) (Outcome (List Stmt))
  | [] => .done (.error (.unexpectedEnd .switchEnd))
  | token :: rest =>
    if endsCase token then .done (.ok ([], token :: rest))
    else .reading (statement (token :: rest)).outcome fun s => [s]

theorem caseBody_loop :
    (gathering (· ++ ·) casePart).Ends [] fun tokens => (caseBody tokens).outcome := by
  refine gathering_ends fun tokens => ?_
  cases tokens with
  | nil => exact outcome_caseBody_nil
  | cons token rest =>
      rw [casePart]
      split
      · next hend => exact outcome_caseBody_end rest hend
      · next hend => exact continues_reading (.of_reading _) (outcome_caseBody_cons rest hend)

def catchPart : List Token → Round (List (CatchClause Stmt)) (Outcome (List (CatchClause Stmt)))
  | [] => .done (.ok ([], []))
  | token :: rest =>
    if token.lexeme = "catch" then
      .reading ((catchHeader rest).outcome.andThen fun header rest =>
        (block rest).outcome.andThen fun body rest => .ok ((header, body), rest))
        fun ((exception, name), body) => [⟨exception, name.lexeme, body, name.position⟩]
    else .done (.ok ([], token :: rest))

theorem catches_loop :
    (gathering (· ++ ·) catchPart).Ends [] fun tokens => (catches tokens).outcome := by
  refine gathering_ends fun tokens => ?_
  cases tokens with
  | nil => exact outcome_catches_stop rfl
  | cons token rest =>
      rw [catchPart]
      split
      · next hcatch =>
        refine continues_reading ?_ ?_
        · refine (Outcome.Shortens.of_reading (catchHeader rest)).andThen fun _ left hleft => ?_
          refine (Outcome.Shortens.of_reading (block left)).andThen fun _ behind hbehind => ?_
          rintro _ _ ⟨⟩
          simp only [List.length_cons]
          omega
        · rw [outcome_catches_cons rest hcatch]
          simp only [Outcome.andThen_assoc, Outcome.ok_andThen]
          rfl
      · next hcatch => exact outcome_catches_stop (decide_eq_false hcatch)

/-- The parts of a switch, of which the later default holds. -/
def SwitchBody.join (before behind : SwitchBody) : SwitchBody :=
  ⟨before.cases ++ behind.cases, behind.default.or before.default⟩

instance : Std.Associative SwitchBody.join where
  assoc a b c := by simp [SwitchBody.join, Option.or_assoc]

instance : Std.LawfulLeftIdentity SwitchBody.join ⟨[], none⟩ where
  left_id a := by simp [SwitchBody.join]

def sectionPart : List Token → Round SwitchBody (Outcome SwitchBody)
  | [] => .done (.error (.unexpectedEnd .switchLabel))
  | token :: rest =>
    if token.lexeme = "case" then
      .reading ((expression rest).outcome.andThen fun value rest =>
        (expect ":" rest).outcome.andThen fun _ rest =>
          (caseBody rest).outcome.andThen fun body rest => .ok ((value, body), rest))
        fun (value, body) => ⟨[⟨value, body⟩], none⟩
    else if token.lexeme = "default" then
      .reading ((expect ":" rest).outcome.andThen fun _ rest => (caseBody rest).outcome)
        fun body => ⟨[], some body⟩
    else if token.lexeme = "\x7d" then .done (.ok (⟨[], none⟩, rest))
    else .done (.error (.atNext .switchLabel (token :: rest)))

theorem switchBody_loop :
    (gathering SwitchBody.join sectionPart).Ends ⟨[], none⟩
      fun tokens => (switchBody tokens).outcome := by
  refine gathering_ends fun tokens => ?_
  cases tokens with
  | nil => exact outcome_switchBody_nil
  | cons token rest =>
      rw [sectionPart]
      split
      · next hcase =>
        refine continues_reading ?_ ?_
        · refine (Outcome.Shortens.of_reading (expression rest)).andThen fun _ left hleft => ?_
          refine (Outcome.Shortens.of_reading (expect ":" left)).andThen fun _ after hafter => ?_
          refine (Outcome.Shortens.of_reading (caseBody after)).andThen fun _ last hlast => ?_
          rintro _ _ ⟨⟩
          simp only [List.length_cons]
          omega
        · rw [outcome_switchBody_case rest hcase]
          simp only [Outcome.andThen_assoc, Outcome.ok_andThen, joined, SwitchBody.join,
            Option.or_none, List.singleton_append]
      split
      · next hdefault =>
        refine continues_reading ?_ ?_
        · refine (Outcome.Shortens.of_reading (expect ":" rest)).andThen fun _ left hleft => ?_
          refine (Outcome.Shortens.of_reading (caseBody left)).mono ?_
          simp only [List.length_cons]
          omega
        · rw [outcome_switchBody_default rest hdefault]
          simp only [Outcome.andThen_assoc, joined, SwitchBody.join, List.nil_append]
      split
      · next hend => exact outcome_switchBody_end rest hend
      · next hcase hdefault hend => exact outcome_switchBody_other rest hcase hdefault hend

def memberPart (className : String) : List Token → Round (List Member) (Outcome (List Member))
  | [] => .done (.error (.unexpectedEnd .classEnd))
  | token :: rest =>
    if token.lexeme = "\x7d" then .done (.ok ([], rest))
    else if token.lexeme = ";" then .again [] rest
    else .reading (member className (token :: rest)).outcome fun first => [first]

theorem members_loop (className : String) :
    (gathering (· ++ ·) (memberPart className)).Ends []
      fun tokens => (members className tokens).outcome := by
  refine gathering_ends fun tokens => ?_
  cases tokens with
  | nil => exact outcome_members_nil className
  | cons token rest =>
      rw [memberPart]
      split
      · next hend => exact outcome_members_end className rest hend
      split
      · next hskip =>
        exact ⟨Nat.lt_succ_self _,
          (outcome_members_skip className rest hskip).trans (joined_unit _).symm⟩
      · next hend hskip =>
        exact continues_reading (.of_reading _) (outcome_members_cons className rest hend hskip)

def itemPart : List Token → Round (List Item) (Outcome (List Item))
  | [] => .done (.ok ([], []))
  | token :: rest => .reading (item (token :: rest)).outcome fun first => [first]

theorem items_loop : (gathering (· ++ ·) itemPart).Ends []
    fun tokens => (items tokens).map fun list => (list, []) := by
  refine gathering_ends fun tokens => ?_
  cases tokens with
  | nil => exact congrArg (Except.map fun list => (list, [])) items_nil
  | cons token rest =>
      refine continues_reading (.of_reading _)
        ((congrArg (Except.map fun list => (list, [])) (items_cons token rest)).trans ?_)
      rcases (item (token :: rest)).outcome with error | ⟨first, behind⟩
      · rfl
      · dsimp only [Outcome.ok_andThen]
        cases items behind <;> rfl

/-- An operator that is strong enough takes what has been read as its left side. -/
def climbRound (least : Nat) : Loop Expr (Outcome Expr)
  | lhs, [] => .done (.ok (lhs, []))
  | lhs, token :: rest =>
    match binaryOp? token with
    | none => .done (.ok (lhs, token :: rest))
    | some op =>
      if op.precedence < least then .done (.ok (lhs, token :: rest))
      else .reading (binary (op.precedence + 1) rest).outcome (.binary op lhs)

theorem climb_loop (least : Nat) (lhs : Expr) :
    (climbRound least).Ends lhs fun tokens => (climb least lhs tokens).outcome := by
  have hkeeps (lhs : Expr) (tokens : List Token) :
      Loop.Keeps (fun lhs tokens => (climb least lhs tokens).outcome) lhs tokens
        (climbRound least lhs tokens) := by
    cases tokens with
    | nil => exact outcome_climb_nil least lhs
    | cons token rest =>
        rw [climbRound]
        cases hop : binaryOp? token with
        | none => exact outcome_climb_stop lhs rest (by simp [hop])
        | some op =>
            dsimp only
            split
            · next hweak => exact outcome_climb_stop lhs rest (by simp [hop, hweak])
            · next hweak =>
              exact Loop.keeps_reading ((Outcome.Shortens.of_reading _).mono (Nat.le_succ _))
                (outcome_climb_go lhs rest hop (Nat.not_lt.mp hweak))
  exact Loop.ends hkeeps lhs

end MiniJava.Grammar
