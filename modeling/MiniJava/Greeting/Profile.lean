import MiniJava.Decimal.Binary64

/-!
# Profiles and their greetings

A profile is a name, an age and a salary, and whoever is older than eighteen is an adult. The lines
of a greeting are a summary of the profile, the age category, and three counter lines.
-/

namespace MiniJava.Greeting

inductive AgeCategory where
  | adult | minor
deriving DecidableEq, Repr, Inhabited

namespace AgeCategory

def adultAge : Int := 18

def ofAge (age : Int) : AgeCategory := if age > adultAge then .adult else .minor

def label : AgeCategory → String
  | adult => "Mayor de edad"
  | minor => "Menor de edad"

end AgeCategory

def salaryText (salary : Float) : String := (Decimal.Binary64.ofFloat salary).toFixed

/-- Counter lines from zero up to below a limit. -/
def counterLines (limit : Nat) : List String :=
  (List.range limit).map fun i => "Contador: " ++ toString i

def counterLimit : Nat := 3

structure Profile where
  name : String
  age : Int
  salary : Float
deriving Repr, Inhabited

namespace Profile

/-- The profile of the demo. -/
def demo : Profile := ⟨"Juan", 30, 2500.75⟩

def category (profile : Profile) : AgeCategory := .ofAge profile.age

def summary (profile : Profile) : String :=
  "Nombre: " ++ profile.name ++ " | Edad: " ++ toString profile.age ++ " | Salario: " ++
    salaryText profile.salary

def lines (profile : Profile) : List String :=
  [profile.summary, profile.category.label] ++ counterLines counterLimit

end Profile

end MiniJava.Greeting
