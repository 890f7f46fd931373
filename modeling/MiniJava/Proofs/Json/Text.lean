import MiniJava.Proofs.Json.Token

/-!
# Reading JSON text

A reader takes a value from the front of the tokens. The tokens of a value are read as that value,
whatever stands behind them, so the text of a value is read back as the value it was written for.
-/

namespace MiniJava.Json

def ofWord? (text : String) : Option Json :=
  [("null", null), ("true", bool true), ("false", bool false)].lookup text

-- No reader leaves more tokens than it was given; saying so makes the recursion end.
mutual

def value? : List Token → Option (Json × List Token)
  | [] => none
  | .word text :: rest => (ofWord? text).map (·, rest)
  | .count value :: rest => some (count value, rest)
  | .text value :: rest => some (string value, rest)
  | .mark c :: rest =>
    if c = '[' then
      if rest.head? = some (.mark ']') then some (array [], rest.tail)
      else do
        let (first, behind) ← value? rest
        if behind.length ≤ rest.length then
          (moreElements? behind).map fun found => (array (first :: found.1), found.2)
        else none
    else if c = '\x7b' then
      if rest.head? = some (.mark '\x7d') then some (object [], rest.tail)
      else do
        let (first, behind) ← entry? rest
        if behind.length ≤ rest.length then
          (moreMembers? behind).map fun found => (object (first :: found.1), found.2)
        else none
    else none
termination_by tokens => 2 * tokens.length
decreasing_by
  all_goals
    simp only [List.length_cons]
    omega

def moreElements? : List Token → Option (List Json × List Token)
  | .mark ']' :: rest => some ([], rest)
  | .mark ',' :: rest => do
    let (next, behind) ← value? rest
    if behind.length ≤ rest.length then
      (moreElements? behind).map fun found => (next :: found.1, found.2)
    else none
  | _ => none
termination_by tokens => 2 * tokens.length
decreasing_by
  all_goals
    simp only [List.length_cons]
    omega

def moreMembers? : List Token → Option (List (String × Json) × List Token)
  | .mark '\x7d' :: rest => some ([], rest)
  | .mark ',' :: rest => do
    let (next, behind) ← entry? rest
    if behind.length ≤ rest.length then
      (moreMembers? behind).map fun found => (next :: found.1, found.2)
    else none
  | _ => none
termination_by tokens => 2 * tokens.length
decreasing_by
  all_goals
    simp only [List.length_cons]
    omega

def entry? : List Token → Option ((String × Json) × List Token)
  | .text key :: .mark ':' :: rest => (value? rest).map fun found => ((key, found.1), found.2)
  | _ => none
termination_by tokens => 2 * tokens.length + 1
decreasing_by
  simp only [List.length_cons]
  omega

end

/-- The value that a text stands for, if it is the text of one value. -/
def ofText? (text : String) : Option Json :=
  match (tokens? text.toList).bind value? with
  | some (json, []) => some json
  | _ => none

theorem length_le_append (tokens rest : List Token) : rest.length ≤ (tokens ++ rest).length := by
  simp

theorem value?_array {first : Json} {others : List Json} {tokens behind rest : List Token}
    (hne : (tokens ++ behind).head? ≠ some (.mark ']'))
    (hfirst : value? (tokens ++ behind) = some (first, behind))
    (hothers : moreElements? behind = some (others, rest)) :
    value? (.mark '[' :: (tokens ++ behind)) = some (array (first :: others), rest) := by
  rw [value?, if_pos rfl, if_neg hne, hfirst]
  simp only [Option.bind_eq_bind, Option.bind_some, if_pos (length_le_append tokens behind),
    hothers, Option.map_some]

theorem value?_object {first : String × Json} {others : List (String × Json)}
    {tokens behind rest : List Token} (hne : (tokens ++ behind).head? ≠ some (.mark '\x7d'))
    (hfirst : entry? (tokens ++ behind) = some (first, behind))
    (hothers : moreMembers? behind = some (others, rest)) :
    value? (.mark '\x7b' :: (tokens ++ behind)) = some (object (first :: others), rest) := by
  rw [value?, if_neg (by decide), if_pos rfl, if_neg hne, hfirst]
  simp only [Option.bind_eq_bind, Option.bind_some, if_pos (length_le_append tokens behind),
    hothers, Option.map_some]

theorem moreElements?_next {next : Json} {others : List Json} {tokens behind rest : List Token}
    (hnext : value? (tokens ++ behind) = some (next, behind))
    (hothers : moreElements? behind = some (others, rest)) :
    moreElements? (.mark ',' :: (tokens ++ behind)) = some (next :: others, rest) := by
  rw [moreElements?, hnext]
  simp only [Option.bind_eq_bind, Option.bind_some, if_pos (length_le_append tokens behind),
    hothers, Option.map_some]

theorem moreMembers?_next {next : String × Json} {others : List (String × Json)}
    {tokens behind rest : List Token} (hnext : entry? (tokens ++ behind) = some (next, behind))
    (hothers : moreMembers? behind = some (others, rest)) :
    moreMembers? (.mark ',' :: (tokens ++ behind)) = some (next :: others, rest) := by
  rw [moreMembers?, hnext]
  simp only [Option.bind_eq_bind, Option.bind_some, if_pos (length_le_append tokens behind),
    hothers, Option.map_some]

theorem entry?_member (key : String) {value : Json} {tokens rest : List Token}
    (h : value? (tokens ++ rest) = some (value, rest)) :
    entry? (.text key :: .mark ':' :: tokens ++ rest) = some ((key, value), rest) := by
  rw [List.cons_append, List.cons_append, entry?, h, Option.map_some]

/-- A value begins with its own first token, and that token ends nothing. -/
theorem head?_tokens (json : Json) (rest : List Token) :
    (json.tokens ++ rest).head? ≠ some (.mark ']') := by
  cases json with
  | null | count n | string s => simp [tokens]
  | bool b => cases b <;> simp [tokens]
  | array elements => cases elements <;> simp [tokens]
  | object members =>
      cases members with
      | nil => simp [tokens]
      | cons member members => simp [tokens]

mutual

/-- The tokens of a value are read as that value, and what stands behind them is left. -/
theorem value?_tokens : (json : Json) → (rest : List Token) →
    value? (json.tokens ++ rest) = some (json, rest)
  | null, rest | bool true, rest | bool false, rest => by
      rw [tokens, List.singleton_append, value?]
      rfl
  | count value, rest | string value, rest => by
      rw [tokens, List.singleton_append, value?]
  | array [], rest => by
      rw [tokens, List.cons_append, value?, if_pos rfl]
      exact if_pos rfl
  | array (first :: others), rest => by
      have hfirst := value?_tokens first (elementTokens others ++ .mark ']' :: rest)
      have hothers := moreElements?_tokens others rest
      simpa [tokens] using value?_array (head?_tokens first _) hfirst hothers
  | object [], rest => by
      rw [tokens, List.cons_append, value?, if_neg (by decide), if_pos rfl]
      exact if_pos rfl
  | object ((key, value) :: others), rest => by
      have hfirst := entry?_member key
        (value?_tokens value (memberTokens others ++ .mark '\x7d' :: rest))
      have hothers := moreMembers?_tokens others rest
      simpa [tokens] using value?_object (by simp) hfirst hothers

theorem moreElements?_tokens : (elements : List Json) → (rest : List Token) →
    moreElements? (elementTokens elements ++ .mark ']' :: rest) = some (elements, rest)
  | [], rest => by rw [elementTokens, List.nil_append, moreElements?]
  | next :: others, rest => by
      have hnext := value?_tokens next (elementTokens others ++ .mark ']' :: rest)
      have hothers := moreElements?_tokens others rest
      simpa [elementTokens] using moreElements?_next hnext hothers

theorem moreMembers?_tokens : (members : List (String × Json)) → (rest : List Token) →
    moreMembers? (memberTokens members ++ .mark '\x7d' :: rest) = some (members, rest)
  | [], rest => by rw [memberTokens, List.nil_append, moreMembers?]
  | (key, value) :: others, rest => by
      have hnext := entry?_member key
        (value?_tokens value (memberTokens others ++ .mark '\x7d' :: rest))
      have hothers := moreMembers?_tokens others rest
      simpa [memberTokens] using moreMembers?_next hnext hothers

end

/-- The text of a value, with any blanks behind it, is read as the value. -/
theorem ofText?_toText (json : Json) {blanks : String}
    (h : ∀ c ∈ blanks.toList, isBlank c = true) : ofText? (json.toText ++ blanks) = some json := by
  have hapart : Apart blanks.toList := by
    intro c hc
    have hall : ∀ d ∈ [' ', '\n', '\r', '\t'], isLetter d = false ∧ isNumberChar d = false := by
      simp [isLetter, isNumberChar, Text.isAsciiDigit]
    have hblank := h c (List.mem_of_mem_head? hc)
    exact hall c (by simpa [isBlank, or_assoc] using hblank)
  have htokens : tokens? (json.toText ++ blanks).toList = some json.tokens := by
    rw [toText, String.toList_append, String.toList_ofList, tokens?_layout 0 json hapart,
      ← List.append_nil blanks.toList, tokens?_blanks h, tokens?_nil, Option.map_some,
      List.append_nil]
  have hvalue := value?_tokens json []
  rw [List.append_nil] at hvalue
  rw [ofText?, htokens, Option.bind_some, hvalue]

end MiniJava.Json
