import MiniJava.Proofs.Diagnostics.Clean

/-!
# Scoping is exact

The reference of the scopes is a tree of sites: mentions of names, declarations of names and scopes
with the sites in them. The names that it does not bind and the names that it declares twice in one
scope are what the checker reports as undeclared and as redeclared, in the order of its walk.
-/

namespace MiniJava

inductive Site where
  | mention (name : String) (position : Position)
  | declaration (name : String) (position : Position)
  | scope (inner : List Site)

namespace Site

/-- The mentions of names that are not visible; a declaration makes its name visible behind it. -/
def unbound (visible : List String) : List Site → List Diagnostic
  | [] => []
  | mention name position :: rest =>
    if name ∈ visible then unbound visible rest
    else ⟨.undeclared name, position⟩ :: unbound visible rest
  | declaration name _ :: rest => unbound (name :: visible) rest
  | scope inner :: rest => unbound visible inner ++ unbound visible rest
termination_by sites => sizeOf sites
decreasing_by
  all_goals
    simp only [List.cons.sizeOf_spec, scope.sizeOf_spec]
    omega

/-- The declarations behind an earlier one of the same name in the scope, each with the position of
the first. -/
def redeclared (earlier : List (String × Position)) : List Site → List Diagnostic
  | [] => []
  | mention _ _ :: rest => redeclared earlier rest
  | declaration name position :: rest =>
    ((earlier.lookup name).map fun first => ⟨.redeclared name first, position⟩).toList ++
      redeclared (earlier ++ [(name, position)]) rest
  | scope inner :: rest => redeclared [] inner ++ redeclared earlier rest

/-- The declarations in the scope itself, in order. -/
def declared : List Site → List (String × Position)
  | [] => []
  | declaration name position :: rest => (name, position) :: declared rest
  | mention _ _ :: rest => declared rest
  | scope _ :: rest => declared rest

end Site

def Expr.sites : Expr → List Site
  | .literal _ _ => []
  | .name word position => [.mention word position]
  | .binary _ lhs rhs => lhs.sites ++ rhs.sites
  | .unary _ operand => operand.sites
  | .assign target _ value position => .mention target position :: value.sites
  | .step target _ _ position => [.mention target position]

/-- A variable comes into scope behind its initial value. -/
def VarDecl.sites (decl : VarDecl) : List Site :=
  (match decl.init with
    | none => []
    | some value => value.sites) ++ [.declaration decl.name decl.position]

def headerSites (condition : Option Expr) (update : List Expr) : List Site :=
  condition.toList.flatMap Expr.sites ++ update.flatMap Expr.sites

mutual

def Stmt.sites : Stmt → List Site
  | .declare decl => decl.sites
  | .expression e => e.sites
  | .block body => [.scope (bodySites body)]
  | .ifElse e thenBranch none => e.sites ++ thenBranch.sites
  | .ifElse e thenBranch (some elseBranch) => e.sites ++ thenBranch.sites ++ elseBranch.sites
  | .whileLoop e body => e.sites ++ body.sites
  | .doWhile body e => body.sites ++ e.sites
  | .forLoop none e update body => [.scope (headerSites e update ++ body.sites)]
  | .forLoop (some init) e update body =>
    [.scope (init.sites ++ headerSites e update ++ body.sites)]
  | .switch scrutinee cases none => scrutinee.sites ++ [.scope (caseSites cases)]
  | .switch scrutinee cases (some default) =>
    scrutinee.sites ++ [.scope (caseSites cases ++ bodySites default)]
  | .tryCatch body catches none => .scope (bodySites body) :: catchSites catches
  | .tryCatch body catches (some cleanup) =>
    .scope (bodySites body) :: catchSites catches ++ [.scope (bodySites cleanup)]
  | .print _ args _ => args.flatMap Expr.sites
  | .returns none _ => []
  | .returns (some value) _ => value.sites
  | .breaks | .continues | .empty => []

def bodySites : List Stmt → List Site
  | [] => []
  | first :: rest => first.sites ++ bodySites rest

def caseSites : List (SwitchCase Stmt) → List Site
  | [] => []
  | ⟨value, body⟩ :: rest => value.sites ++ bodySites body ++ caseSites rest

def catchSites : List (CatchClause Stmt) → List Site
  | [] => []
  | ⟨_, name, body, position⟩ :: rest =>
    .scope (.declaration name position :: bodySites body) :: catchSites rest

end

def Param.site (param : Param) : Site := .declaration param.name param.position

/-- The parameters and the variables of the body share one scope. -/
def Method.sites (decl : Method) : List Site :=
  [.scope (decl.params.map Param.site ++ bodySites decl.body)]

def fieldSites : List Member → List Site
  | [] => []
  | .field decl :: rest => decl.sites ++ fieldSites rest
  | .method _ :: rest => fieldSites rest
  | .nested _ :: rest => fieldSites rest

mutual

def classSites : ClassDecl → List Site
  | ⟨_, _, members, _⟩ => [.scope (fieldSites members ++ memberSites members)]

def memberSites : List Member → List Site
  | [] => []
  | .field _ :: rest => memberSites rest
  | .method decl :: rest => decl.sites ++ memberSites rest
  | .nested decl :: rest => classSites decl ++ memberSites rest

end

def Item.sites : Item → List Site
  | .declaration decl => classSites decl
  | .statement s => s.sites

def Program.sites (program : Program) : List Site := program.items.flatMap Item.sites

namespace Site

theorem declared_append (sites more : List Site) :
    declared (sites ++ more) = declared sites ++ declared more := by
  induction sites with
  | nil => rfl
  | cons first rest ih => cases first <;> simp [declared, ih]

theorem unbound_append (visible : List String) (sites more : List Site) :
    unbound visible (sites ++ more) = unbound visible sites ++
      unbound (((declared sites).map Prod.fst).reverse ++ visible) more := by
  induction sites generalizing visible with
  | nil => simp [unbound, declared]
  | cons first rest ih =>
      cases first with
      | mention name position =>
          simp only [List.cons_append, unbound, ih, declared]
          split <;> simp
      | declaration name position => simp [unbound, ih, declared]
      | scope inner => simp [unbound, ih, declared]

theorem redeclared_append (earlier : List (String × Position)) (sites more : List Site) :
    redeclared earlier (sites ++ more) = redeclared earlier sites ++
      redeclared (earlier ++ declared sites) more := by
  induction sites generalizing earlier with
  | nil => simp [redeclared, declared]
  | cons first rest ih => cases first <;> simp [redeclared, ih, declared]

end Site

def Check.site? : Check → Option Site
  | .declares _ name position _ _ => some (.declaration name position)
  | .reads name position => some (.mention name position)
  | .begins target _ _ position => some (.mention target position)
  | .steps target _ position => some (.mention target position)
  | _ => none

inductive Sited : List Check → List Site → Prop
  | nil : Sited [] []
  | append {checks more : List Check} {sites further : List Site} (h : Sited checks sites)
      (hmore : Sited more further) : Sited (checks ++ more) (sites ++ further)
  | silent {c : Check} (h : c.site? = none) (henter : c ≠ .enter) (hleave : c ≠ .leave) :
      Sited [c] []
  | site {c : Check} {site : Site} (h : c.site? = some site) : Sited [c] [site]
  | scope {checks : List Check} {sites : List Site} (h : Sited checks sites) :
      Sited (.enter :: checks ++ [.leave]) [.scope sites]

namespace Sited

theorem flatMap {α : Type} {list : List α} {checks : α → List Check} {sites : α → List Site}
    (h : ∀ a ∈ list, Sited (checks a) (sites a)) :
    Sited (list.flatMap checks) (list.flatMap sites) := by
  induction list with
  | nil => exact nil
  | cons first rest ih =>
      exact (h first List.mem_cons_self).append
        (ih fun a ha => h a (List.mem_cons_of_mem _ ha))

/-- A check behind others that has no site of its own. -/
theorem behind {checks : List Check} {sites : List Site} {c : Check} (h : Sited checks sites)
    (hsite : c.site? = none) (henter : c ≠ .enter) (hleave : c ≠ .leave) :
    Sited (checks ++ [c]) sites := by
  have hboth := h.append (silent hsite henter hleave)
  rwa [List.append_nil] at hboth

theorem expr (e : Expr) : Sited e.checks e.sites := by
  induction e with
  | literal value position => exact nil
  | name word position => exact site rfl
  | binary op lhs rhs ihl ihr => exact (ihl.append ihr).behind rfl nofun nofun
  | unary op operand ih => exact ih.behind rfl nofun nofun
  | assign target op value position ih =>
      exact ((site rfl).append ih).behind rfl nofun nofun
  | step target op form position => exact site rfl

theorem exprs (list : List Expr) : Sited (list.flatMap Expr.checks) (list.flatMap Expr.sites) :=
  flatMap fun e _ => expr e

theorem condition (statement : Conditional) (e : Expr) : Sited (statement.checks e) e.sites :=
  (expr e).behind rfl nofun nofun

theorem header (e : Option Expr) (update : List Expr) :
    Sited (headerChecks e update) (headerSites e update) :=
  (flatMap fun e _ => condition .forLoop e).append (exprs update)

theorem declaration (decl : VarDecl) (initialized : Bool) :
    Sited (decl.checks initialized) decl.sites := by
  unfold VarDecl.checks VarDecl.sites
  cases decl.init with
  | none => exact site rfl
  | some value => exact append (behind (expr value) rfl nofun nofun) (site rfl)

mutual

theorem stmt (expected : Option ValueType) : (s : Stmt) → Sited (s.checks expected) s.sites
  | .declare decl => declaration decl false
  | .expression e => expr e
  | .block list => (body expected list).scope
  | .ifElse e thenBranch none => (condition .ifElse e).append (stmt expected thenBranch)
  | .ifElse e thenBranch (some elseBranch) =>
    ((condition .ifElse e).append (stmt expected thenBranch)).append (stmt expected elseBranch)
  | .whileLoop e body => (condition .whileLoop e).append (stmt expected body)
  | .doWhile body e => (stmt expected body).append (condition .doWhile e)
  | .forLoop none e update body => ((header e update).append (stmt expected body)).scope
  | .forLoop (some init) e update body =>
    (((stmt expected init).append (header e update)).append (stmt expected body)).scope
  | .switch scrutinee list none => (expr scrutinee).append (cases expected list).scope
  | .switch scrutinee list (some default) =>
    (expr scrutinee).append ((cases expected list).append (body expected default)).scope
  | .tryCatch tried list none => (body expected tried).scope.append (catches expected list)
  | .tryCatch tried list (some cleanup) =>
    ((body expected tried).scope.append (catches expected list)).append
      (body expected cleanup).scope
  | .print _ args _ => exprs args
  | .returns none _ => silent rfl nofun nofun
  | .returns (some value) _ => (expr value).behind rfl nofun nofun
  | .breaks | .continues | .empty => nil

theorem body (expected : Option ValueType) :
    (list : List Stmt) → Sited (bodyChecks expected list) (bodySites list)
  | [] => nil
  | first :: rest => (stmt expected first).append (body expected rest)

theorem cases (expected : Option ValueType) :
    (list : List (SwitchCase Stmt)) → Sited (caseChecks expected list) (caseSites list)
  | [] => nil
  | ⟨value, statements⟩ :: rest =>
    ((expr value).append (body expected statements)).append (cases expected rest)

theorem catches (expected : Option ValueType) :
    (list : List (CatchClause Stmt)) → Sited (catchChecks expected list) (catchSites list)
  | [] => nil
  | ⟨_, _, statements, _⟩ :: rest =>
    ((site rfl).append (body expected statements)).scope.append (catches expected rest)

end

theorem method (decl : Method) : Sited decl.checks decl.sites := by
  have hparams (params : List Param) :
      Sited (params.map Param.check) (params.map Param.site) := by
    induction params with
    | nil => exact nil
    | cons param rest ih => exact (site rfl).append ih
  exact ((hparams decl.params).append (body _ decl.body)).scope.behind rfl nofun nofun

theorem fields (list : List Member) : Sited (fieldChecks list) (fieldSites list) := by
  induction list with
  | nil => exact nil
  | cons member rest ih =>
      cases member with
      | field decl => exact (declaration decl true).append ih
      | method decl => exact ih
      | nested decl => exact ih

mutual

theorem classDecl : (decl : ClassDecl) → Sited (classChecks decl) (classSites decl)
  | ⟨_, _, list, _⟩ => by
      rw [classChecks, classSites]
      exact ((fields list).append (members list)).scope

theorem members : (list : List Member) → Sited (memberChecks list) (memberSites list)
  | [] => by
      rw [memberChecks, memberSites]
      exact nil
  | .field _ :: rest => by
      rw [memberChecks, memberSites]
      exact members rest
  | .method decl :: rest => by
      rw [memberChecks, memberSites]
      exact (method decl).append (members rest)
  | .nested decl :: rest => by
      rw [memberChecks, memberSites]
      exact (classDecl decl).append (members rest)

end

theorem program (program : Program) : Sited program.checks program.sites :=
  flatMap fun item _ => by
    cases item with
    | declaration decl => exact classDecl decl
    | statement s => exact stmt none s

end Sited

namespace SymbolTable

def reports (table : SymbolTable) (checks : List Check) : List Diagnostic :=
  (Inspection.run ⟨table, []⟩ checks).diagnostics

theorem reports_cons (table : SymbolTable) (first : Check) (rest : List Check) :
    table.reports (first :: rest) = table.reports [first] ++ (first.after table).reports rest := by
  have hrun (checks : List Check) (inspection : Inspection) (earlier : List Diagnostic) :
      (inspection.behind earlier).run checks = (inspection.run checks).behind earlier := by
    induction checks generalizing inspection with
    | nil => rfl
    | cons first rest ih => rw [Inspection.run_cons, Inspection.check_behind, ih]; rfl
  have hbehind := hrun rest ⟨first.after table, []⟩ (table.reports [first])
  have hfirst : (Inspection.check ⟨table, []⟩ first) =
      Inspection.behind ⟨first.after table, []⟩ (table.reports [first]) := by
    simp [Inspection.behind, reports, Check.after]
  rw [reports, Inspection.run_cons, hfirst, hbehind]
  rfl

theorem reports_append (table : SymbolTable) (checks more : List Check) :
    table.reports (checks ++ more) = table.reports checks ++ (table.run checks).reports more := by
  induction checks generalizing table with
  | nil => rfl
  | cons first rest ih =>
      rw [List.cons_append, reports_cons, ih, reports_cons table first rest, run_cons,
        List.append_assoc]

/-- What is reported is reported by one of the checks. -/
theorem mem_reports {table : SymbolTable} {checks : List Check} {d : Diagnostic} :
    d ∈ table.reports checks ↔ ∃ i c, checks[i]? = some c ∧
      d ∈ (table.run (checks.take i)).reports [c] := by
  induction checks generalizing table with
  | nil => simp [reports]
  | cons first rest ih =>
      rw [reports_cons, List.mem_append, ih]
      constructor
      · rintro (hfirst | ⟨i, c, hc, hd⟩)
        · exact ⟨0, first, rfl, hfirst⟩
        · exact ⟨i + 1, c, hc, hd⟩
      · rintro ⟨i, c, hc, hd⟩
        cases i with
        | zero =>
            cases hc
            exact .inl hd
        | succ i => exact .inr ⟨i, c, hc, hd⟩

end SymbolTable

/-- The names of the table are visible, and the scope has these declarations. -/
structure SymbolTable.Shows (table : SymbolTable) (visible : List String)
    (earlier : List (String × Position)) : Prop where
  visible : ∀ name, (table.lookup? name).isSome ↔ name ∈ visible
  earlier : ∀ name, (table.current.lookup name).map Symbol.position = earlier.lookup name

namespace SymbolTable.Shows

variable {table other : SymbolTable} {visible : List String} {earlier : List (String × Position)}

theorem of_bare (h : table.Shows visible earlier) (hbare : other.bare = table.bare) :
    other.Shows visible earlier where
  visible name := by
    have hlookup := congrArg (fun table : SymbolTable => (table.lookup? name).isSome) hbare
    simp only [lookup?_bare, Option.isSome_map] at hlookup
    rw [hlookup, h.visible]
  earlier name := by
    have hlookup := congrArg
      (fun table : SymbolTable => (table.current.lookup name).map Symbol.position) hbare
    have hcurrent (table : SymbolTable) : table.bare.current = table.current.bare := rfl
    simp only [hcurrent, Scope.lookup_bare, Option.map_map] at hlookup
    exact hlookup.trans (h.earlier name)

theorem empty : SymbolTable.empty.Shows [] [] :=
  ⟨fun _ => iff_of_false Bool.false_ne_true List.not_mem_nil, fun _ => rfl⟩

theorem enter (h : table.Shows visible earlier) : table.enter.Shows visible [] :=
  ⟨h.visible, fun _ => rfl⟩

theorem bring (h : table.Shows visible earlier) (name : String) (symbol : Symbol) :
    (table.bring name symbol).Shows (name :: visible) (earlier ++ [(name, symbol.position)]) where
  visible used := by
    by_cases hused : used = name
    · subst hused
      simp [lookup?, resolve?_bring_self]
    · have hresolve := (Extends.bring table name symbol).resolve? (by simpa using hused)
      have hlookup := congrArg Option.isSome hresolve
      simp only [resolve?_bare, Option.isSome_map] at hlookup
      rw [List.mem_cons, or_iff_right hused, ← h.visible, lookup?, lookup?, Option.isSome_map,
        Option.isSome_map, hlookup]
  earlier used := by
    rw [lookup_bring, List.lookup_append, ← h.earlier]
    by_cases hused : used = name
    · subst hused
      cases table.current.lookup used <;> simp
    · simp [hused, List.lookup_cons, beq_false_of_ne hused]

end SymbolTable.Shows

/-- What the checks report about scopes is what the sites say, and behind them the table has the
further declarations. -/
structure Finds (table : SymbolTable) (visible : List String) (earlier : List (String × Position))
    (checks : List Check) (sites : List Site) : Prop where
  undeclared : (table.reports checks).filter (fun d => d.kind = .undeclared) =
    Site.unbound visible sites
  redeclared : (table.reports checks).filter (fun d => d.kind = .redeclared) =
    Site.redeclared earlier sites
  shows : (table.run checks).Shows (((Site.declared sites).map Prod.fst).reverse ++ visible)
    (earlier ++ Site.declared sites)
  keeps : ∃ names, table.Extends names (table.run checks)

def DiagnosticKind.isOfNames : DiagnosticKind → Bool
  | .undeclared | .redeclared | .uninitialized | .assignToFinal => true
  | _ => false

def Inspection.Quiet (kind : DiagnosticKind) (inspection : Inspection) : Prop :=
  ∀ d ∈ inspection.diagnostics, d.kind ≠ kind

namespace Inspection.Quiet

variable {kind : DiagnosticKind} {inspection : Inspection} {problem : Problem}

theorem start (kind : DiagnosticKind) (table : SymbolTable) :
    (⟨table, []⟩ : Inspection).Quiet kind :=
  fun _ hd => absurd hd List.not_mem_nil

theorem report (h : inspection.Quiet kind) (hproblem : problem.kind ≠ kind)
    (position : Position) : (inspection.report position problem).Quiet kind := by
  intro d hd
  rcases List.mem_append.mp hd with hd | hd
  · exact h d hd
  · rwa [List.mem_singleton.mp hd]

theorem reportIf (h : inspection.Quiet kind) (hproblem : problem.kind ≠ kind) (condition : Bool)
    (position : Position) : (inspection.reportIf condition position problem).Quiet kind := by
  unfold Inspection.reportIf
  split
  · exact h.report hproblem position
  · exact h

theorem assignable (h : inspection.Quiet kind) (hkind : .typeMismatch ≠ kind) (target : ValueType)
    (source : Option ValueType) (value : Expr) (position : Position) :
    (inspection.assignable target source value position).Quiet kind := by
  cases source with
  | none => exact h
  | some source => exact h.reportIf (by exact hkind) _ position

theorem store (h : inspection.Quiet kind) (hkind : .typeMismatch ≠ kind) (symbol : Symbol)
    (op : Option BinaryOp) (source : Option ValueType) (value : Expr) (position : Position) :
    (inspection.store symbol op source value position).Quiet kind := by
  cases op with
  | none => exact h.assignable hkind _ _ _ _
  | some op => exact h.reportIf (by exact hkind) _ position

theorem filter_eq_nil (h : inspection.Quiet kind) :
    inspection.diagnostics.filter (fun d => d.kind = kind) = [] :=
  List.filter_eq_nil_iff.mpr fun d hd heq => h d hd (of_decide_eq_true heq)

end Inspection.Quiet

namespace Check

variable {table : SymbolTable} {visible : List String} {earlier : List (String × Position)}

/-- A check without a site reports nothing about names. -/
theorem quiet_of_silent {c : Check} (h : c.site? = none) {kind : DiagnosticKind}
    (hkind : kind.isOfNames = true) : (Inspection.check ⟨table, []⟩ c).Quiet kind := by
  have hstart := Inspection.Quiet.start kind table
  have hother : ∀ {problem : Problem}, problem.kind.isOfNames = false → problem.kind ≠ kind := by
    rintro problem hproblem rfl
    exact Bool.false_ne_true (hproblem.symm.trans hkind)
  have htypes : DiagnosticKind.typeMismatch ≠ kind := by
    rintro rfl
    cases hkind
  cases c with
  | enter | leave => exact hstart
  | declares | reads | begins | steps => cases h
  | applies | signs | ends => exact hstart.reportIf (hother rfl) _ _
  | initializes => exact hstart.assignable htypes _ _ _ _
  | stores target op value position =>
      rw [Inspection.check]
      cases table.lookup? target with
      | none => exact hstart
      | some symbol => exact hstart.store htypes symbol op _ value position
  | tests statement condition =>
      rw [Inspection.check]
      cases table.typeOf condition with
      | none => exact hstart
      | some type => exact hstart.reportIf (hother rfl) _ _
  | gives expected value position =>
      cases expected with
      | none => exact hstart
      | some expected =>
          cases value with
          | none => exact hstart.reportIf (hother rfl) _ _
          | some value =>
              cases hvalue : table.typeOf value <;> cases expected <;>
                simp only [Inspection.check, hvalue] <;>
                first
                  | exact hstart
                  | exact hstart.report (hother rfl) _
                  | exact hstart.reportIf (hother rfl) _ _

theorem after_of_silent {c : Check} (h : c.site? = none) (henter : c ≠ .enter)
    (hleave : c ≠ .leave) : (c.after table).bare = table.bare := by
  rw [after_eq]
  cases c with
  | enter => exact absurd rfl henter
  | leave => exact absurd rfl hleave
  | declares => cases h
  | stores => exact SymbolTable.bare_markInitialized ..
  | _ => rfl

theorem finds_silent {c : Check} (h : c.site? = none) (henter : c ≠ .enter) (hleave : c ≠ .leave)
    (hshows : table.Shows visible earlier) : Finds table visible earlier [c] [] := by
  have hquiet := @quiet_of_silent table c h
  have hafter := @after_of_silent table c h henter hleave
  refine ⟨?_, ?_, ?_, [], .of_bare hafter⟩
  · rw [Site.unbound]
    exact (hquiet rfl).filter_eq_nil
  · rw [Site.redeclared]
    exact (hquiet rfl).filter_eq_nil
  · rw [Site.declared, List.append_nil]
    exact hshows.of_bare hafter

/-- A check that needs a name reports it if nothing declares it. -/
theorem reports_mention {c : Check} {name : String} {position : Position}
    (h : c.site? = some (.mention name position)) :
    if (table.lookup? name).isSome then ∀ kind ∈ [DiagnosticKind.undeclared, .redeclared],
      (Inspection.check ⟨table, []⟩ c).Quiet kind
    else table.reports [c] = [⟨.undeclared name, position⟩] := by
  cases hlookup : table.lookup? name with
  | none =>
      cases c with
      | reads | begins | steps =>
          cases h
          simp [SymbolTable.reports, Inspection.check, Inspection.expr, Inspection.read,
            Inspection.write, Inspection.report, Inspection.reportIf, hlookup]
      | _ => cases h
  | some symbol =>
      rw [if_pos Option.isSome_some]
      intro kind hkind
      have hstart := Inspection.Quiet.start kind table
      have hother : ∀ other ∉ [DiagnosticKind.undeclared, .redeclared], other ≠ kind :=
        fun _ hnot heq => hnot (heq ▸ hkind)
      have hread := hother .uninitialized (by decide)
      have hfinal := hother .assignToFinal (by decide)
      cases c with
      | reads =>
          cases h
          simp only [Inspection.check, Inspection.read, hlookup]
          exact hstart.reportIf (by exact hread) _ _
      | begins =>
          cases h
          simp only [Inspection.check, Inspection.write, hlookup]
          exact (hstart.reportIf (by exact hfinal) _ _).reportIf (by exact hread) _ _
      | steps =>
          cases h
          simp only [Inspection.check, Inspection.expr, Inspection.read, Inspection.write, hlookup,
            Inspection.symbols_reportIf]
          exact ((hstart.reportIf (by exact hread) _ _).reportIf (by exact hfinal) _ _).reportIf
            (by exact hother .typeMismatch (by decide)) _ _
      | _ => cases h

theorem finds_mention {c : Check} {name : String} {position : Position}
    (h : c.site? = some (.mention name position)) (hshows : table.Shows visible earlier) :
    Finds table visible earlier [c] [.mention name position] := by
  have hafter : c.after table = table := by
    rw [after_eq]
    cases c with
    | reads | begins | steps => rfl
    | _ => cases h
  have hreports := @reports_mention table c name position h
  have hvisible := hshows.visible name
  refine ⟨?_, ?_, ?_, [], .of_bare (congrArg SymbolTable.bare hafter)⟩
  · simp only [Site.unbound]
    by_cases hname : name ∈ visible
    · rw [if_pos (hvisible.mpr hname)] at hreports
      rw [if_pos hname]
      exact (hreports .undeclared (by decide)).filter_eq_nil
    · rw [if_neg (mt hvisible.mp hname)] at hreports
      rw [if_neg hname, hreports]
      rfl
  · simp only [Site.redeclared]
    by_cases hname : name ∈ visible
    · rw [if_pos (hvisible.mpr hname)] at hreports
      exact (hreports .redeclared (by decide)).filter_eq_nil
    · rw [if_neg (mt hvisible.mp hname)] at hreports
      rw [hreports]
      rfl
  · simp only [Site.declared, List.map_nil, List.reverse_nil, List.nil_append, List.append_nil]
    exact hshows.of_bare (congrArg SymbolTable.bare hafter)

theorem finds_declaration {c : Check} {name : String} {position : Position}
    (h : c.site? = some (.declaration name position)) (hshows : table.Shows visible earlier) :
    Finds table visible earlier [c] [.declaration name position] := by
  cases c with
  | declares type _ _ initialized constant =>
      cases h
      have hearlier := hshows.earlier name
      have hafter := after_eq table (.declares type name position initialized constant)
      refine ⟨?_, ?_, ?_, [name], ?_⟩
      · cases hlookup : table.current.lookup name <;>
          simp [SymbolTable.reports, Inspection.check, Inspection.declare, SymbolTable.declare,
            Inspection.report, hlookup, Site.unbound, Diagnostic.kind, Problem.kind]
      · rw [Site.redeclared, ← hearlier]
        cases hlookup : table.current.lookup name <;>
          simp [SymbolTable.reports, Inspection.check, Inspection.declare, SymbolTable.declare,
            Inspection.report, hlookup, Site.redeclared, Diagnostic.kind, Problem.kind]
      · rw [SymbolTable.run_cons, SymbolTable.run_nil, hafter]
        exact hshows.bring name _
      · rw [SymbolTable.run_cons, SymbolTable.run_nil, hafter]
        exact .bring table name _
  | reads | begins | steps => cases h
  | _ => cases h

end Check

namespace Finds

variable {table : SymbolTable} {visible : List String} {earlier : List (String × Position)}
  {checks more : List Check} {sites further : List Site}

theorem append (h : Finds table visible earlier checks sites)
    (hmore : Finds (table.run checks) (((Site.declared sites).map Prod.fst).reverse ++ visible)
      (earlier ++ Site.declared sites) more further) :
    Finds table visible earlier (checks ++ more) (sites ++ further) := by
  obtain ⟨names, hkeeps⟩ := h.keeps
  obtain ⟨others, hothers⟩ := hmore.keeps
  refine ⟨?_, ?_, ?_, names ++ others, ?_⟩
  · rw [SymbolTable.reports_append, List.filter_append, h.undeclared, hmore.undeclared,
      Site.unbound_append]
  · rw [SymbolTable.reports_append, List.filter_append, h.redeclared, hmore.redeclared,
      Site.redeclared_append]
  · have hshows := hmore.shows
    rw [SymbolTable.run_append, Site.declared_append, List.map_append, List.reverse_append,
      List.append_assoc, ← List.append_assoc earlier]
    exact hshows
  · rw [SymbolTable.run_append]
    exact hkeeps.trans hothers

theorem scope (hshows : table.Shows visible earlier)
    (h : Finds table.enter visible [] checks sites) :
    Finds table visible earlier (.enter :: checks ++ [.leave]) [.scope sites] := by
  have hrun : table.run (.enter :: checks ++ [.leave]) = (table.enter.run checks).leave := by
    rw [SymbolTable.run_append]
    rfl
  have hbare : (table.run (.enter :: checks ++ [.leave])).bare = table.bare := by
    obtain ⟨names, hkeeps⟩ := h.keeps
    rw [hrun]
    exact hkeeps.leave
  have hreports : table.reports (.enter :: checks ++ [.leave]) = table.enter.reports checks := by
    rw [SymbolTable.reports_append, SymbolTable.reports_cons]
    exact List.append_nil _
  refine ⟨?_, ?_, ?_, [], .of_bare hbare⟩
  · rw [hreports, h.undeclared]
    simp [Site.unbound]
  · rw [hreports, h.redeclared]
    simp [Site.redeclared]
  · simp only [Site.declared, List.map_nil, List.reverse_nil, List.nil_append, List.append_nil]
    exact hshows.of_bare hbare

end Finds

theorem Sited.finds {checks : List Check} {sites : List Site} (h : Sited checks sites) :
    ∀ {table : SymbolTable} {visible : List String} {earlier : List (String × Position)},
      table.Shows visible earlier → Finds table visible earlier checks sites := by
  induction h with
  | nil =>
      intro table visible earlier hshows
      refine ⟨?_, ?_, ?_, [], .refl table⟩
      · rw [Site.unbound]
        rfl
      · rw [Site.redeclared]
        rfl
      · rwa [Site.declared, List.append_nil]
  | append _ _ ih ihMore =>
      intro table visible earlier hshows
      exact (ih hshows).append (ihMore (ih hshows).shows)
  | silent hsite henter hleave => exact Check.finds_silent hsite henter hleave
  | @site c site hsite =>
      cases site with
      | mention name position => exact Check.finds_mention hsite
      | declaration name position => exact Check.finds_declaration hsite
      | scope inner => cases c <;> cases hsite
  | scope _ ih =>
      intro table visible earlier hshows
      exact .scope hshows (ih hshows.enter)

/-- The checker reports exactly the mentions that no declaration binds as undeclared, and exactly
the declarations that their scope has an earlier one of the same name as redeclared. -/
theorem Program.scoping_exact (program : Program) :
    program.diagnostics.filter (fun d => d.kind = .undeclared) =
      Site.unbound [] program.sites ∧
    program.diagnostics.filter (fun d => d.kind = .redeclared) =
      Site.redeclared [] program.sites := by
  have hfinds := (Sited.program program).finds SymbolTable.Shows.empty
  rw [diagnostics_eq_run]
  exact ⟨hfinds.undeclared, hfinds.redeclared⟩

end MiniJava
