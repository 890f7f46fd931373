import MiniJava.Proofs.Diagnostics.Core
import MiniJava.Proofs.Lowering.Mirrors
import MiniJava.Proofs.Lowering.References
import MiniJava.Proofs.Target.Code

/-!
# Runs of lowered core statements

A sound statement is lowered to code that runs alike: from variables that mirror the store, both
print the same lines and end in the same way, with variables that mirror the store again.
-/

namespace MiniJava

open Python (Vars)

structure Scoped (types : String → Option ValueType) (scope : List String) (table : SymbolTable) :
    Prop where
  fits : table.Fits types
  found : ∀ name ∈ scope, ∃ symbol, table.lookup? name = some symbol
  words : ∀ name ∈ scope, Python.isTarget name = true ∧ name ∉ Python.reserved

namespace Scoped

variable {types : String → Option ValueType} {scope more : List String}
  {table other : SymbolTable} {name : String}

theorem empty (types : String → Option ValueType) : Scoped types [] .empty :=
  ⟨by simp [SymbolTable.Fits, SymbolTable.scopes, SymbolTable.empty], nofun, nofun⟩

theorem of_bare (h : Scoped types scope table) (hbare : other.bare = table.bare) :
    Scoped types scope other := by
  refine ⟨?_, fun name hname => ?_, h.words⟩
  · rw [← SymbolTable.fits_bare, hbare, SymbolTable.fits_bare]
    exact h.fits
  · obtain ⟨symbol, hsymbol⟩ := h.found name hname
    have hlookup := other.lookup?_bare name
    rw [hbare, SymbolTable.lookup?_bare, hsymbol] at hlookup
    obtain ⟨found, hfound, -⟩ := Option.map_eq_some_iff.mp hlookup.symm
    exact ⟨found, hfound⟩

theorem mono (h : Scoped types more table) (hsub : scope ⊆ more) : Scoped types scope table :=
  ⟨h.fits, fun name hname => h.found name (hsub hname), fun name hname => h.words name (hsub hname)⟩

theorem enter (h : Scoped types scope table) : Scoped types scope table.enter :=
  ⟨h.fits.enter, h.found, h.words⟩

theorem bring (h : Scoped types scope table) (symbol : Symbol)
    (htype : types name = some symbol.type) (hname : Python.isTarget name = true)
    (hfree : name ∉ Python.reserved) : Scoped types (name :: scope) (table.bring name symbol) := by
  refine ⟨h.fits.bring htype, fun used hused => ?_, List.forall_mem_cons.mpr ⟨⟨hname, hfree⟩, h.words⟩⟩
  by_cases heq : used = name
  · subst heq
    exact ⟨_, by rw [SymbolTable.lookup?, SymbolTable.resolve?_bring_self]; rfl⟩
  · obtain ⟨found, hfound⟩ := h.found used ((List.mem_cons.mp hused).resolve_left heq)
    have hresolve := (SymbolTable.Extends.bring table name symbol).resolve? (by simpa using heq)
    have hlookup := (table.bring name symbol).lookup?_bare used
    rw [SymbolTable.lookup?, hresolve, ← SymbolTable.lookup?, SymbolTable.lookup?_bare, hfound] at hlookup
    obtain ⟨symbol, hsymbol, -⟩ := Option.map_eq_some_iff.mp hlookup.symm
    exact ⟨symbol, hsymbol⟩

/-- The table gives the names in scope their types. -/
theorem typed (h : Scoped types scope table) (hname : name ∈ scope) :
    (table.lookup? name).map Symbol.type = types name := by
  obtain ⟨symbol, hsymbol⟩ := h.found name hname
  rw [hsymbol, h.fits.lookup hsymbol]
  rfl

end Scoped

namespace Lowering

open Run

variable {types : String → Option ValueType} {scope : List String} {table : SymbolTable}
  {type : ValueType} {e : Expr}

/-- A sound expression is lowered to one that Python can read and that has the same value. -/
theorem exists_value (hscoped : Scoped types scope table) (h : e.Sound types scope type) :
    ∃ t, (value .outside e).outcome table = (.ok t, table) ∧ t.Spelled ∧
      ∀ store vars, Mirrors types scope store vars →
        SameValue type (e.value? store.read) (t.tree.value? vars.env) := by
  obtain ⟨t, ht, hagree⟩ := exists_agree h.typed fun name hname => hscoped.typed (h.names name hname)
  have hlexical : e.IsLexical := ⟨fun name hname => Target.Expr.isIdentifier_of_isName
    (Python.isName_of_isTarget (hscoped.words name (h.names name hname)).1), fun value hvalue => (h.literals value hvalue).1⟩
  have hportable : e.IsPortable := ⟨fun name hname hkeyword =>
    (hscoped.words name (h.names name hname)).2 (List.mem_append_left _ hkeyword),
    fun value hvalue => (h.literals value hvalue).2⟩
  have hholders : PortableHolders .outside table e := by
    intro name _ holder hholder
    cases hholder
  refine ⟨t, congrArg (·, table) ht, spelled_of_expr _ _ e hlexical hportable hholders ht,
    fun store vars hmirrors => ?_⟩
  exact hagree store.read vars (hmirrors.free "str" (by decide)) fun name hname =>
    hmirrors.cells name (h.names name hname)

/-- From variables that mirror the store, the code runs like the program, and what they leave is
related. -/
def Simulates (types : String → Option ValueType) (scope : List String)
    (R : Store → Vars → Prop) (run : Nat → Store → Run Store) (code : List Python.Code) : Prop :=
  ∀ rounds store vars, Mirrors types scope store vars →
    Alike R (run rounds store) (Python.runAll rounds code vars)

/-- The variables in scope are mirrored, and newer ones have other names. -/
def Within (types : String → Option ValueType) (scope : List String) (store : Store)
    (vars : Vars) : Prop :=
  ∃ front, (∀ name ∈ front, name ∉ scope) ∧ Mirrors types (front ++ scope) store vars

namespace Simulates

variable {R : Store → Vars → Prop} {run next : Nat → Store → Run Store}
  {code more : List Python.Code}

theorem nothing (types : String → Option ValueType) (scope : List String) :
    Simulates types scope (Mirrors types scope) (fun _ => done) [] := by
  intro rounds store vars hmirrors
  rw [Python.runAll]
  exact .of_done hmirrors

/-- A statement of one line. -/
theorem single {statement : Python.Code}
    (h : ∀ rounds store vars, Mirrors types scope store vars →
      Alike R (run rounds store) (statement.run rounds vars)) :
    Simulates types scope R run [statement] := by
  intro rounds store vars hmirrors
  rw [Python.runAll_single]
  exact h rounds store vars hmirrors

theorem andThen {between : List String}
    (h : Simulates types scope (Mirrors types between) run code)
    (hnext : Simulates types between R next more) :
    Simulates types scope R (fun rounds store => (run rounds store).andThen (next rounds))
      (code ++ more) := by
  intro rounds store vars hmirrors
  rw [Python.runAll_append]
  exact (h rounds store vars hmirrors).andThen (hnext rounds)

/-- Behind a block the variables declared in it are gone. -/
theorem leave (h : Simulates types scope (Within types scope) run code) :
    Simulates types scope (Mirrors types scope)
      (fun rounds store => (run rounds store).andThen fun inner => done (inner.leave store.length))
      code := by
  intro rounds store vars hmirrors
  have hsize : store.length = scope.length := by rw [← hmirrors.names, List.length_map]
  rw [← andThen_done (Python.runAll rounds code vars)]
  refine (h rounds store vars hmirrors).andThen fun inner vars ⟨front, hfront, hinner⟩ => ?_
  rw [hsize]
  exact .of_done (hinner.leave hfront)

end Simulates

theorem given_bind {σ α β : Type} (value : Option α) (f : α → Option β) (next : β → Run σ) :
    given (value.bind f) next = given value fun a => given (f a) next := by
  cases value <;> rfl

theorem given_done {σ τ : Type} (value : Option σ) (next : σ → Run τ) :
    (given value done).andThen next = given value next := by
  cases value <;> rfl

section Effects

def changed (op : BinaryOp) (target : String) (value : Store → Option Value) (store : Store) :
    Option Store := do
  let old ← store.read target
  store.assign target (← op.result? .truncated old (← value store))

/-- An update of an integer variable by an integer. -/
theorem exists_update (hscoped : Scoped types scope table) {op : BinaryOp}
    (hop : op = .add ∨ op = .sub ∨ op = .mul) {target : String} (hmem : target ∈ scope)
    (htype : types target = some .int) {t : Target.Expr} (hspelled : t.Spelled)
    {value : Store → Option Value}
    (hvalue : ∀ store vars, Mirrors types scope store vars →
      SameValue .int (value store) (t.tree.value? vars.env)) :
    ∃ code, Target.Reads [.update (.name target) (.applying op) t] code ∧
      Simulates types scope (Mirrors types scope)
        (fun _ store => given (changed op target value store) done) code := by
  obtain ⟨hname, hfree⟩ := hscoped.words target hmem
  obtain ⟨operator, hlookup, hcombine⟩ : ∃ operator,
      Python.updates.lookup (Target.UpdateOp.applying op).symbol = some operator ∧
        ∀ a b, ∃ c, op.result? .truncated (.int a) (.int b) = some (.int c) ∧
          Python.combine? operator (.int a) (.int b) = some (.int c) := by
    rcases hop with rfl | rfl | rfl
    · exact ⟨"+", rfl, fun a b => ⟨a + b, rfl, rfl⟩⟩
    · exact ⟨"-", rfl, fun a b => ⟨a - b, rfl, rfl⟩⟩
    · exact ⟨"*", rfl, fun a b => ⟨a * b, rfl, rfl⟩⟩
  refine ⟨[.update target operator t.tree], ?_, .single fun rounds store vars hmirrors => ?_⟩
  · rcases hop with rfl | rfl | rfl <;>
      exact Target.Reads.update hname hlookup (by decide) (by decide) (by decide) (by decide) hspelled
  · obtain ⟨_, hfound, old, hold, hread, hvars⟩ := hmirrors.cells target hmem
    obtain ⟨amount, hamount, hadded, htree⟩ := hvalue store vars hmirrors
    cases htype.symm.trans hfound
    obtain ⟨a, rfl⟩ := Value.exists_int hold
    obtain ⟨b, rfl⟩ := Value.exists_int hamount
    obtain ⟨c, hresult, hcombined⟩ := hcombine a b
    obtain ⟨after, hassign, -, hafter⟩ := hmirrors.assign (.int c) hmem htype hfree
    have hchanged : changed op target value store = some after := by
      simp [changed, hread, hadded, hresult, hassign]
    have hupdated : Python.updated? target operator t.tree vars = some (.int c) := by
      simp [Python.updated?, hvars, htree, hcombined]
    rw [hchanged, Python.Code.run, hupdated]
    exact .of_done hafter

/-- Python reads the number one as it is written. -/
theorem value?_one (vars : Vars) :
    (Target.Expr.number "1").tree.value? vars.env = some (.int 1) :=
  Target.Expr.value?_integer 1 vars.env

theorem exists_effect (hscoped : Scoped types scope table) (h : e.SoundEffect types scope) :
    ∃ out code, (effect .outside e).outcome table = (.ok out, table) ∧ Target.Reads out code ∧
      Simulates types scope (Mirrors types scope)
        (fun _ store => given (e.perform store) done) code := by
  cases e with
  | assign target op source position =>
      cases op with
      | none =>
          obtain ⟨hmem, type, htype, hsource⟩ := h
          obtain ⟨hname, hfree⟩ := hscoped.words target hmem
          obtain ⟨t, ht, hspelled, hagree⟩ := exists_value hscoped hsource
          refine ⟨_, _, ?_, Target.Reads.assign hname hspelled,
            .single fun rounds store vars hmirrors => ?_⟩
          · rw [effect, outcome_bind_of_ok ht]
            rfl
          · obtain ⟨v, rfl, hvalue, htree⟩ := hagree store vars hmirrors
            obtain ⟨after, hassign, -, hafter⟩ := hmirrors.assign v hmem htype hfree
            rw [Expr.perform, hvalue, Python.Code.run, htree]
            simp only [Option.bind_eq_bind, Option.bind_some, hassign]
            exact .of_done hafter
      | some op =>
          obtain ⟨hmem, htype, hop, hsource⟩ := h
          obtain ⟨t, ht, hspelled, hagree⟩ := exists_value hscoped hsource
          obtain ⟨code, hreads, hruns⟩ := exists_update hscoped hop hmem htype hspelled hagree
          refine ⟨_, code, ?_, hreads, hruns⟩
          have htypeOf (e : Expr) : (typeOf e).outcome table = (.ok (table.typeOf e), table) := rfl
          rcases hop with rfl | rfl | rfl <;>
          · rw [effect, outcome_bind_of_ok (htypeOf _), outcome_bind_of_ok (htypeOf _),
              outcome_bind_of_ok ht]
            · rfl
            · intro hadd
              cases hadd
  | step target op form position =>
      obtain ⟨hmem, htype⟩ := h
      have hone (store : Store) (vars : Vars) (_ : Mirrors types scope store vars) :
          SameValue .int (some (.int 1)) ((Target.Expr.number "1").tree.value? vars.env) :=
        ⟨.int 1, rfl, rfl, value?_one vars⟩
      have hspelled : (Target.Expr.number "1").Spelled := Target.Expr.spelled_integer 1
      cases op with
      | increment =>
          obtain ⟨code, hreads, hruns⟩ := exists_update hscoped (.inl rfl) hmem htype hspelled hone
          exact ⟨_, code, rfl, hreads, hruns⟩
      | decrement =>
          obtain ⟨code, hreads, hruns⟩ :=
            exists_update hscoped (.inr (.inl rfl)) hmem htype hspelled hone
          exact ⟨_, code, rfl, hreads, hruns⟩
  | literal value position => cases h
  | name word position => cases h
  | unary op operand => cases h
  | binary op lhs rhs => cases h

theorem exists_effects (hscoped : Scoped types scope table) {update : List Expr}
    (h : ∀ change ∈ update, change.SoundEffect types scope) :
    ∃ out code, (effects .outside update).outcome table = (.ok out, table) ∧
      Target.Reads out code ∧ Simulates types scope (Mirrors types scope)
        (fun _ store => given (performAll store update) done) code := by
  induction update with
  | nil => exact ⟨[], [], rfl, .nil, .nothing types scope⟩
  | cons first rest ih =>
      obtain ⟨hfirst, hrest⟩ := List.forall_mem_cons.mp h
      obtain ⟨out, code, hout, hreads, hruns⟩ := exists_effect hscoped hfirst
      obtain ⟨more, next, hmore, hmoreReads, hmoreRuns⟩ := ih hrest
      refine ⟨out ++ more, code ++ next, ?_, hreads.append hmoreReads, ?_⟩
      · rw [effects, outcome_bind_of_ok hout, outcome_bind_of_ok hmore]
        rfl
      · have hboth := hruns.andThen hmoreRuns
        simp only [given_done, ← given_bind] at hboth
        exact hboth

end Effects

end Lowering

end MiniJava
