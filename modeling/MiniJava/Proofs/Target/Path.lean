import MiniJava.Target.Stmt

/-!
# Ways through emitted statements

A way is a finite run in which every test may come out either way, every loop may take any number
of rounds, and whatever is evaluated may raise an exception. Its trace is what is evaluated or
executed on it, in order. How the ways through a statement can end is computed from the statement.
-/

namespace MiniJava.Target

inductive Exit where
  | done | continued | broken | returned | raised
deriving DecidableEq, Repr

namespace Exit

def all : List Exit := [done, continued, broken, returned, raised]

def goesOn : Exit → Bool
  | done | continued => true
  | _ => false

def behindLoop : Exit → Exit
  | broken => done
  | exit => exit

/-- How a `try` ends whose cleanup ends like this; a cleanup that is done keeps the earlier end. -/
def cleaned (earlier : Exit) : Exit → Exit
  | done => earlier
  | exit => exit

theorem mem_all (exit : Exit) : exit ∈ all := by cases exit <;> decide

end Exit

/-- The ends of the ways through something. -/
abbrev Ends := Exit → Bool

namespace Ends

def only (exit : Exit) : Ends := fun e => decide (e = exit)

def never : Ends := fun _ => false

def or (first second : Ends) : Ends := fun e => first e || second e

def seq (first second : Ends) : Ends := fun e =>
  (first e && decide (e ≠ .done)) || (first .done && second e)

/-- What is executed in one step is done or raises an exception. -/
def plain : Ends := (only .done).or (only .raised)

def choice (first second : Ends) : Ends := (only .raised).or (first.or second)

def loop (body : Ends) : Ends := plain.or fun e => decide (e = .returned) && body .returned

def guarded (body handlers : Ends) : Ends := fun e => body e || (body .raised && handlers e)

def cleaned (inner cleanup : Ends) : Ends := fun e =>
  (inner e && cleanup .done) || (decide (e ≠ .done) && cleanup e && Exit.all.any inner)

section Membership

variable (first second : Ends) (e : Exit)

theorem only_iff (exit : Exit) : only exit e = true ↔ e = exit := decide_eq_true_iff

theorem or_iff : first.or second e = true ↔ first e = true ∨ second e = true := by
  rw [or, Bool.or_eq_true]

theorem seq_iff : first.seq second e = true ↔
    first e = true ∧ e ≠ .done ∨ first .done = true ∧ second e = true := by
  simp [seq]

theorem plain_iff : plain e = true ↔ e = .done ∨ e = .raised := by simp [plain, or, only]

theorem choice_iff : choice first second e = true ↔
    e = .raised ∨ first e = true ∨ second e = true := by
  simp [choice, or, only]

theorem loop_iff : first.loop e = true ↔
    (e = .done ∨ e = .raised) ∨ e = .returned ∧ first .returned = true := by
  simp [loop, or, plain, only]

theorem guarded_iff : first.guarded second e = true ↔
    first e = true ∨ first .raised = true ∧ second e = true := by
  simp [guarded]

theorem cleaned_iff : first.cleaned second e = true ↔
    first e = true ∧ second .done = true ∨
      e ≠ .done ∧ second e = true ∧ ∃ earlier, first earlier = true := by
  have hany : Exit.all.any first = true ↔ ∃ earlier, first earlier = true := by
    simp [List.any_eq_true, Exit.mem_all]
  simp [cleaned, hany, and_assoc]

end Membership

@[simp] theorem only_done_seq (ends : Ends) : (only .done).seq ends = ends := by
  funext e
  cases e <;> simp [seq, only]

@[simp] theorem seq_only_done (ends : Ends) : ends.seq (only .done) = ends := by
  funext e
  cases e <;> simp [seq, only]

theorem seq_assoc (first second third : Ends) :
    (first.seq second).seq third = first.seq (second.seq third) := by
  funext e
  cases e <;> simp [seq, Bool.and_assoc, Bool.or_assoc, Bool.and_or_distrib_left]

theorem plain_seq_loop (body : Ends) : plain.seq body.loop = body.loop := by
  funext e
  cases e <;> simp [seq, plain, loop, or, only]

/-- A loop does not tell what is behind its body unless that returns. -/
theorem loop_seq {body last : Ends} (h : last .returned = false) :
    (body.seq last).loop = body.loop := by
  funext e
  simp [loop, seq, h]

end Ends

mutual

def Stmt.ends : Stmt → Ends
  | .ifElse _ body alternative => .choice (allEnds body) alternative.ends
  | .whileLoop _ body | .forRange _ _ _ _ body => .loop (allEnds body)
  | .tryExcept body handlers none => .guarded (allEnds body) (handlersEnds handlers)
  | .tryExcept body handlers (some cleanup) =>
    .cleaned (.guarded (allEnds body) (handlersEnds handlers)) (allEnds cleanup)
  | .returns none => .only .returned
  | .returns (some _) => (Ends.only .returned).or (.only .raised)
  | .breaks => .only .broken
  | .continues => .only .continued
  | _ => .plain

def allEnds : List Stmt → Ends
  | [] => .only .done
  | first :: rest => first.ends.seq (allEnds rest)

def Alternative.ends : Alternative → Ends
  | .nothing => .only .done
  | .elseIf _ body alternative => .choice (allEnds body) alternative.ends
  | .otherwise body => allEnds body

def handlersEnds : List (Handler Stmt) → Ends
  | [] => .never
  | ⟨_, _, body⟩ :: rest => (allEnds body).or (handlersEnds rest)

end

theorem allEnds_append (front back : List Stmt) :
    allEnds (front ++ back) = (allEnds front).seq (allEnds back) := by
  induction front with
  | nil => simp [allEnds]
  | cons first front ih => rw [List.cons_append, allEnds, ih, allEnds, Ends.seq_assoc]

/-- What a way meets: a test, the next number of a range, or a statement that is executed in one
step. -/
inductive Event where
  | tests (condition : Expr)
  | counts (counter start stop : Expr) (step : Int)
  | executes (s : Stmt)

/-- What there are ways through. The rounds of a loop have a header each, and the statements of a
`try` stand with its handlers. -/
inductive Part where
  | one (s : Stmt)
  | run (body : List Stmt)
  | rest (alternative : Alternative)
  | rounds (header : Event) (body : List Stmt)
  | guarded (body : List Stmt) (handlers : List (Handler Stmt))

def Stmt.isPlain : Stmt → Bool
  | .assign .. | .update .. | .expression .. | .print .. | .printFormatted .. | .function ..
  | .classDef .. => true
  | _ => false

inductive Path : Part → List Event → Exit → Prop
  | plain {s : Stmt} : s.isPlain = true → Path (.one s) [.executes s] .done
  | plainRaises {s : Stmt} : s.isPlain = true → Path (.one s) [.executes s] .raised
  | returns {value : Option Expr} :
      Path (.one (.returns value)) [.executes (.returns value)] .returned
  | returnRaises {value : Expr} :
      Path (.one (.returns (some value))) [.executes (.returns (some value))] .raised
  | breaks : Path (.one .breaks) [] .broken
  | continues : Path (.one .continues) [] .continued
  | holds {condition : Expr} {body : List Stmt} {alternative : Alternative} {t : List Event}
      {e : Exit} : Path (.run body) t e →
      Path (.one (.ifElse condition body alternative)) (.tests condition :: t) e
  | fails {condition : Expr} {body : List Stmt} {alternative : Alternative} {t : List Event}
      {e : Exit} : Path (.rest alternative) t e →
      Path (.one (.ifElse condition body alternative)) (.tests condition :: t) e
  | testRaises {condition : Expr} {body : List Stmt} {alternative : Alternative} :
      Path (.one (.ifElse condition body alternative)) [.tests condition] .raised
  | nothing : Path (.rest .nothing) [] .done
  | elseIf {condition : Expr} {body : List Stmt} {alternative : Alternative} {t : List Event}
      {e : Exit} : Path (.one (.ifElse condition body alternative)) t e →
      Path (.rest (.elseIf condition body alternative)) t e
  | otherwise {body : List Stmt} {t : List Event} {e : Exit} : Path (.run body) t e →
      Path (.rest (.otherwise body)) t e
  | whileLoop {condition : Expr} {body : List Stmt} {t : List Event} {e : Exit} :
      Path (.rounds (.tests condition) body) t e → Path (.one (.whileLoop condition body)) t e
  | forRange {counter start stop : Expr} {step : Int} {body : List Stmt} {t : List Event}
      {e : Exit} : Path (.rounds (.counts counter start stop step) body) t e →
      Path (.one (.forRange counter start stop step body)) t e
  | ends {header : Event} {body : List Stmt} : Path (.rounds header body) [header] .done
  | headerRaises {header : Event} {body : List Stmt} : Path (.rounds header body) [header] .raised
  | round {header : Event} {body : List Stmt} {t u : List Event} {e f : Exit} :
      Path (.run body) t e → e.goesOn = true → Path (.rounds header body) u f →
      Path (.rounds header body) (header :: (t ++ u)) f
  | leaves {header : Event} {body : List Stmt} {t : List Event} {e : Exit} :
      Path (.run body) t e → e.goesOn = false →
      Path (.rounds header body) (header :: t) e.behindLoop
  | nil : Path (.run []) [] .done
  | next {s : Stmt} {body : List Stmt} {t u : List Event} {e : Exit} : Path (.one s) t .done →
      Path (.run body) u e → Path (.run (s :: body)) (t ++ u) e
  | stops {s : Stmt} {body : List Stmt} {t : List Event} {e : Exit} : Path (.one s) t e →
      e ≠ .done → Path (.run (s :: body)) t e
  | unhandled {body : List Stmt} {handlers : List (Handler Stmt)} {t : List Event} {e : Exit} :
      Path (.run body) t e → Path (.guarded body handlers) t e
  | handled {body : List Stmt} {handlers : List (Handler Stmt)} {handler : Handler Stmt}
      {t u : List Event} {e : Exit} : Path (.run body) t .raised → handler ∈ handlers →
      Path (.run handler.body) u e → Path (.guarded body handlers) (t ++ u) e
  | tryExcept {body : List Stmt} {handlers : List (Handler Stmt)} {t : List Event} {e : Exit} :
      Path (.guarded body handlers) t e → Path (.one (.tryExcept body handlers none)) t e
  | tryFinally {body cleanup : List Stmt} {handlers : List (Handler Stmt)} {t u : List Event}
      {e f : Exit} : Path (.guarded body handlers) t e → Path (.run cleanup) u f →
      Path (.one (.tryExcept body handlers (some cleanup))) (t ++ u) (e.cleaned f)

theorem path_continues_iff {t : List Event} {e : Exit} :
    Path (.one .continues) t e ↔ t = [] ∧ e = .continued := by
  constructor
  · intro h
    cases h with
    | continues => exact ⟨rfl, rfl⟩
    | plain hplain | plainRaises hplain => cases hplain
  · rintro ⟨rfl, rfl⟩
    exact .continues

/-- How the ways through a part can end. -/
def Part.ends : Part → Ends
  | one s => s.ends
  | run body => allEnds body
  | rest alternative => alternative.ends
  | rounds _ body => .loop (allEnds body)
  | guarded body handlers => .guarded (allEnds body) (handlersEnds handlers)

theorem ends_of_isPlain {s : Stmt} (h : s.isPlain = true) : s.ends = .plain := by
  cases s <;> first | rfl | cases h

theorem handlersEnds_of_mem {handlers : List (Handler Stmt)} {handler : Handler Stmt}
    (hmem : handler ∈ handlers) {e : Exit} (h : allEnds handler.body e = true) :
    handlersEnds handlers e = true := by
  induction handlers with
  | nil => cases hmem
  | cons first rest ih =>
      rw [handlersEnds, Ends.or, Bool.or_eq_true]
      rcases List.mem_cons.mp hmem with rfl | hlater
      · exact .inl h
      · exact .inr (ih hlater)

/-- Every way ends as it is computed to. -/
theorem Path.mem_ends {part : Part} {t : List Event} {e : Exit} (h : Path part t e) :
    part.ends e = true := by
  induction h with
  | plain hplain => rw [Part.ends, ends_of_isPlain hplain]; rfl
  | plainRaises hplain => rw [Part.ends, ends_of_isPlain hplain]; rfl
  | @returns value => cases value <;> rfl
  | returnRaises | breaks | continues | testRaises | nothing | ends | headerRaises | nil => rfl
  | holds _ ih => exact (Ends.choice_iff ..).mpr (.inr (.inl ih))
  | fails _ ih => exact (Ends.choice_iff ..).mpr (.inr (.inr ih))
  | elseIf _ ih => exact ih
  | otherwise _ ih => exact ih
  | whileLoop _ ih => exact ih
  | forRange _ ih => exact ih
  | round _ _ _ _ ih => exact ih
  | @leaves header body t e _ hstops ih =>
      refine (Ends.loop_iff ..).mpr ?_
      cases e with
      | done | continued => cases hstops
      | broken => exact .inl (.inl rfl)
      | returned => exact .inr ⟨rfl, ih⟩
      | raised => exact .inl (.inr rfl)
  | next _ _ ihfirst ih => exact (Ends.seq_iff ..).mpr (.inr ⟨ihfirst, ih⟩)
  | stops _ hne ih => exact (Ends.seq_iff ..).mpr (.inl ⟨ih, hne⟩)
  | unhandled _ ih => exact (Ends.guarded_iff ..).mpr (.inl ih)
  | handled _ hmem _ ihbody ih =>
      exact (Ends.guarded_iff ..).mpr (.inr ⟨ihbody, handlersEnds_of_mem hmem ih⟩)
  | tryExcept _ ih => exact ih
  | @tryFinally body cleanup handlers t u e f _ _ ihinner ihcleanup =>
      refine (Ends.cleaned_iff ..).mpr ?_
      by_cases hdone : f = .done
      · subst hdone
        exact .inl ⟨ihinner, ihcleanup⟩
      · have hlater : e.cleaned f = f := by cases f <;> first | rfl | exact absurd rfl hdone
        rw [hlater]
        exact .inr ⟨hdone, ihcleanup, e, ihinner⟩

/-- There is a way that ends like this through each part that is computed to have one. -/
def Reaches (part : Part) : Prop := ∀ e, part.ends e = true → ∃ t, Path part t e

theorem reaches_plain {s : Stmt} (h : s.isPlain = true) : Reaches (.one s) := by
  intro e hends
  rw [Part.ends, ends_of_isPlain h, Ends.plain_iff] at hends
  rcases hends with rfl | rfl
  · exact ⟨_, .plain h⟩
  · exact ⟨_, .plainRaises h⟩

theorem reaches_choice {condition : Expr} {body : List Stmt} {alternative : Alternative}
    (hbody : Reaches (.run body)) (hrest : Reaches (.rest alternative)) :
    Reaches (.one (.ifElse condition body alternative)) := by
  intro e hends
  rcases (Ends.choice_iff ..).mp hends with rfl | hthen | helse
  · exact ⟨_, .testRaises⟩
  · obtain ⟨t, ht⟩ := hbody e hthen
    exact ⟨_, .holds ht⟩
  · obtain ⟨t, ht⟩ := hrest e helse
    exact ⟨_, .fails ht⟩

theorem reaches_rounds {body : List Stmt} (header : Event) (h : Reaches (.run body)) :
    Reaches (.rounds header body) := by
  intro e hends
  rcases (Ends.loop_iff ..).mp hends with (rfl | rfl) | ⟨rfl, hreturned⟩
  · exact ⟨_, .ends⟩
  · exact ⟨_, .headerRaises⟩
  · obtain ⟨t, ht⟩ := h .returned hreturned
    exact ⟨_, .leaves ht rfl⟩

theorem reaches_guarded {body : List Stmt} {handlers : List (Handler Stmt)}
    (hbody : Reaches (.run body)) (hhandlers : ∀ handler ∈ handlers, Reaches (.run handler.body)) :
    Reaches (.guarded body handlers) := by
  have hmem : ∀ (list : List (Handler Stmt)) e, handlersEnds list e = true →
      ∃ handler ∈ list, allEnds handler.body e = true := by
    intro list e
    induction list with
    | nil => exact fun h => nomatch h
    | cons first rest ih =>
        intro h
        rcases (Ends.or_iff ..).mp h with hfirst | hrest
        · exact ⟨first, List.mem_cons_self .., hfirst⟩
        · obtain ⟨handler, hmem, hends⟩ := ih hrest
          exact ⟨handler, List.mem_cons_of_mem _ hmem, hends⟩
  intro e hends
  rcases (Ends.guarded_iff ..).mp hends with hunhandled | ⟨hraised, hhandled⟩
  · obtain ⟨t, ht⟩ := hbody e hunhandled
    exact ⟨t, .unhandled ht⟩
  · obtain ⟨handler, hhandler, hends⟩ := hmem _ _ hhandled
    obtain ⟨t, ht⟩ := hbody .raised hraised
    obtain ⟨u, hu⟩ := hhandlers handler hhandler e hends
    exact ⟨t ++ u, .handled ht hhandler hu⟩

theorem reaches_cleaned {body cleanup : List Stmt} {handlers : List (Handler Stmt)}
    (hinner : Reaches (.guarded body handlers)) (hcleanup : Reaches (.run cleanup)) :
    Reaches (.one (.tryExcept body handlers (some cleanup))) := by
  intro e hends
  rcases (Ends.cleaned_iff ..).mp hends with ⟨hearlier, hdone⟩ | ⟨hne, hlater, earlier, hearlier⟩
  · obtain ⟨t, ht⟩ := hinner e hearlier
    obtain ⟨u, hu⟩ := hcleanup .done hdone
    exact ⟨t ++ u, .tryFinally ht hu⟩
  · obtain ⟨t, ht⟩ := hinner earlier hearlier
    obtain ⟨u, hu⟩ := hcleanup e hlater
    have hcleaned : earlier.cleaned e = e := by cases e <;> first | rfl | exact absurd rfl hne
    exact ⟨t ++ u, hcleaned ▸ .tryFinally ht hu⟩

theorem reaches_nil : Reaches (.run []) := by
  intro e hends
  rw [(Ends.only_iff ..).mp hends]
  exact ⟨[], .nil⟩

theorem reaches_cons {s : Stmt} {body : List Stmt} (hs : Reaches (.one s))
    (hbody : Reaches (.run body)) : Reaches (.run (s :: body)) := by
  intro e hends
  rcases (Ends.seq_iff ..).mp hends with ⟨hfirst, hne⟩ | ⟨hdone, hrest⟩
  · obtain ⟨t, ht⟩ := hs e hfirst
    exact ⟨t, .stops ht hne⟩
  · obtain ⟨t, ht⟩ := hs .done hdone
    obtain ⟨u, hu⟩ := hbody e hrest
    exact ⟨t ++ u, .next ht hu⟩

mutual

theorem reaches_one : (s : Stmt) → Reaches (.one s)
  | .assign .. | .update .. | .expression .. | .print .. | .printFormatted .. | .function ..
  | .classDef .. => reaches_plain rfl
  | .ifElse _ body alternative => reaches_choice (reaches_run body) (reaches_rest alternative)
  | .whileLoop condition body => fun e hends => by
      obtain ⟨t, ht⟩ := reaches_rounds (.tests condition) (reaches_run body) e hends
      exact ⟨t, .whileLoop ht⟩
  | .forRange counter start stop step body => fun e hends => by
      obtain ⟨t, ht⟩ := reaches_rounds (.counts counter start stop step) (reaches_run body) e hends
      exact ⟨t, .forRange ht⟩
  | .tryExcept body handlers none => fun e hends => by
      obtain ⟨t, ht⟩ := reaches_guarded (reaches_run body) (reaches_handlers handlers) e hends
      exact ⟨t, .tryExcept ht⟩
  | .tryExcept body handlers (some cleanup) =>
      reaches_cleaned (reaches_guarded (reaches_run body) (reaches_handlers handlers))
        (reaches_run cleanup)
  | .returns none => fun e hends => by
      rw [(Ends.only_iff ..).mp hends]
      exact ⟨_, .returns⟩
  | .returns (some value) => fun e hends => by
      rcases (Ends.or_iff ..).mp hends with hreturned | hraised
      · rw [(Ends.only_iff ..).mp hreturned]
        exact ⟨_, .returns⟩
      · rw [(Ends.only_iff ..).mp hraised]
        exact ⟨_, .returnRaises⟩
  | .breaks => fun e hends => by
      rw [(Ends.only_iff ..).mp hends]
      exact ⟨_, .breaks⟩
  | .continues => fun e hends => by
      rw [(Ends.only_iff ..).mp hends]
      exact ⟨_, .continues⟩

theorem reaches_run : (body : List Stmt) → Reaches (.run body)
  | [] => reaches_nil
  | first :: rest => reaches_cons (reaches_one first) (reaches_run rest)

theorem reaches_rest : (alternative : Alternative) → Reaches (.rest alternative)
  | .nothing => fun e hends => by
      rw [(Ends.only_iff ..).mp hends]
      exact ⟨_, .nothing⟩
  | .elseIf condition body alternative => fun e hends => by
      have hchoice : Reaches (.one (.ifElse condition body alternative)) :=
        reaches_choice (reaches_run body) (reaches_rest alternative)
      obtain ⟨t, ht⟩ := hchoice e hends
      exact ⟨t, .elseIf ht⟩
  | .otherwise body => fun e hends => by
      obtain ⟨t, ht⟩ := reaches_run body e hends
      exact ⟨t, .otherwise ht⟩

theorem reaches_handlers : (handlers : List (Handler Stmt)) →
    ∀ handler ∈ handlers, Reaches (.run handler.body)
  | [] => fun _ hmem => nomatch hmem
  | ⟨_, _, body⟩ :: rest => fun handler hmem => by
      rcases List.mem_cons.mp hmem with rfl | hlater
      · exact reaches_run body
      · exact reaches_handlers rest handler hlater

end

/-- The ways through statements end in just the ways that are computed. -/
theorem exists_path_run_iff (body : List Stmt) (e : Exit) :
    (∃ t, Path (.run body) t e) ↔ allEnds body e = true :=
  ⟨fun ⟨_, h⟩ => h.mem_ends, reaches_run body e⟩

/-- A way through statements and more ends in the former, or it is done with them. -/
theorem path_append_iff (front back : List Stmt) (t : List Event) (e : Exit) :
    Path (.run (front ++ back)) t e ↔
      Path (.run front) t e ∧ e ≠ .done ∨
        ∃ u v, t = u ++ v ∧ Path (.run front) u .done ∧ Path (.run back) v e := by
  induction front generalizing t with
  | nil =>
      constructor
      · exact fun h => .inr ⟨[], t, rfl, .nil, h⟩
      · rintro (⟨hnil, hne⟩ | ⟨u, v, rfl, hnil, hback⟩)
        · cases hnil
          exact absurd rfl hne
        · cases hnil
          exact hback
  | cons s front ih =>
      constructor
      · intro h
        cases h with
        | stops hs hne => exact .inl ⟨.stops hs hne, hne⟩
        | @next _ _ u v _ hs hrest =>
            rcases (ih v).mp hrest with ⟨hfront, hne⟩ | ⟨v, w, rfl, hfront, hback⟩
            · exact .inl ⟨.next hs hfront, hne⟩
            · exact .inr ⟨u ++ v, w, by rw [List.append_assoc], .next hs hfront, hback⟩
      · rintro (⟨hfront, hne⟩ | ⟨u, v, rfl, hfront, hback⟩)
        · cases hfront with
          | stops hs _ => exact .stops hs hne
          | next hs hrest => exact .next hs ((ih _).mpr (.inl ⟨hrest, hne⟩))
        · cases hfront with
          | stops _ hdone => exact absurd rfl hdone
          | @next _ _ w x _ hs hrest =>
              rw [List.append_assoc]
              exact .next hs ((ih _).mpr (.inr ⟨x, v, rfl, hrest, hback⟩))

/-- A round that is done with the body and then with the last statements. -/
def Kept (body last : List Stmt) (t : List Event) : Prop :=
  ∃ u v, t = u ++ v ∧ Path (.run body) u .done ∧ Path (.run last) v .done

/-- A round that ends with a `continue` in the body. -/
def Skipped (body : List Stmt) (t : List Event) : Prop := Path (.run body) t .continued

/-- How a loop ends: its header ends it, or a round that it does not go on behind. -/
def Final (header : Event) (body : List Stmt) (t : List Event) : Prop :=
  t = [header] ∨ ∃ u e, t = header :: u ∧ Path (.run body) u e ∧ e.goesOn = false

section Rounds

variable {body last : List Stmt}

theorem path_done_iff (t : List Event) : Path (.run (body ++ last)) t .done ↔ Kept body last t := by
  rw [path_append_iff]
  exact ⟨fun h => h.resolve_left fun hne => hne.2 rfl, .inr⟩

/-- Last statements that do not `continue` are left out of every round that a `continue` ends. -/
theorem path_continued_iff (hlast : allEnds last .continued = false) (t : List Event) :
    Path (.run (body ++ last)) t .continued ↔ Skipped body t := by
  rw [path_append_iff]
  constructor
  · rintro (⟨hbody, -⟩ | ⟨u, v, -, -, hv⟩)
    · exact hbody
    · have hends := hv.mem_ends
      rw [Part.ends, hlast] at hends
      cases hends
  · exact fun hbody => .inl ⟨hbody, nofun⟩

/-- A run of the loop is rounds that it goes on behind, and then its end. -/
theorem exists_rounds (hlast : allEnds last .continued = false) {header : Event}
    {t : List Event} {e : Exit} (h : Path (.rounds header (body ++ last)) t e) :
    ∃ (rounds : List (List Event)) (final : List Event),
      t = rounds.flatMap (header :: ·) ++ final ∧
      (∀ round ∈ rounds, Kept body last round ∨ Skipped body round) ∧
      Final header (body ++ last) final := by
  generalize hpart : Part.rounds header (body ++ last) = part at h
  induction h with
  | ends | headerRaises =>
      cases hpart
      exact ⟨[], _, rfl, List.forall_mem_nil _, .inl rfl⟩
  | @round _ _ u v f _ hround hgoes _ _ ih =>
      cases hpart
      obtain ⟨rounds, final, rfl, hrounds, hfinal⟩ := ih rfl
      have hkind : Kept body last u ∨ Skipped body u := by
        cases f with
        | done => exact .inl ((path_done_iff u).mp hround)
        | continued => exact .inr ((path_continued_iff hlast u).mp hround)
        | broken | returned | raised => cases hgoes
      exact ⟨u :: rounds, final, by simp, List.forall_mem_cons.mpr ⟨hkind, hrounds⟩, hfinal⟩
  | leaves hround hstops =>
      cases hpart
      exact ⟨[], _, rfl, List.forall_mem_nil _, .inr ⟨_, _, rfl, hround, hstops⟩⟩
  | _ => cases hpart

end Rounds

end MiniJava.Target
