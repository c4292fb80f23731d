import RiAuth.Scim.Resources

/-!
# SCIM filters

List queries and PATCH paths share one bounded filter language: presence and equality of a few
attributes, `and`, `or`, parentheses and one level of value paths for addresses. The parser is a
recursive descent over the rest of the input; it counts the predicates it has read.

* `FilterExpr.matches`: what a filter says of a resource or of one entry;
* `orExpr`: the parser, by the parentheses that may still be opened;
* `parseFilter`: a whole filter.
-/

namespace RiAuth.Scim

open Checks

/-! ## Filters -/

mutual

/-- A comparison. -/
inductive Filter where
  | text (field needle : Text) (exact : Bool)
  | email (needle : Text)
  | active (expected : Bool)
  | present (field : Text)
  | emailPresent
  | emailPath (expr : FilterExpr)
  | emailText (field needle : Text)
  | emailPrimary (expected : Bool)
  | memberValue (needle : Text)

/-- Comparisons, joined. -/
inductive FilterExpr where
  | predicate (filter : Filter)
  | and (left right : FilterExpr)
  | or (left right : FilterExpr)

end

/-- The items of a field that is an array. -/
def items (value : Json) (field : Text) : List Json :=
  match value.field field with
  | .arr items => items
  | _ => []

/-- The field is assigned; a boolean is, even when it is false. -/
def isPresent (value : Json) (field : Text) : Bool :=
  match value.field field with
  | .null => false
  | .str s => s ≠ []
  | .arr items => !items.isEmpty
  | .obj fields => !fields.isEmpty
  | _ => true

mutual

/-- Whether a resource satisfies a predicate. -/
def Filter.matches (value : Json) : Filter → Bool
  | .text field needle exact => (value.field field).asStr.any fun actual =>
      if exact then actual = needle else eqIgnoreAsciiCase actual needle
  | .email needle => (items value "emails".toList).any fun email =>
      (email.field "value".toList).asStr.any (eqIgnoreAsciiCase · needle)
  | .active expected => (value.field "active".toList).asBool = some expected
  | .present field => isPresent value field
  | .emailPresent => (items value "emails".toList).any fun email =>
      (email.field "value".toList).asStr.any (· ≠ [])
  | .emailPath expr => (items value "emails".toList).any fun email => expr.matches email
  | .emailText field needle => (value.field field).asStr.any (eqIgnoreAsciiCase · needle)
  | .emailPrimary expected => (value.field "primary".toList).asBool = some expected
  | .memberValue needle => (value.field "value".toList).asStr = some needle

/-- Whether a resource satisfies an expression. -/
def FilterExpr.matches (value : Json) : FilterExpr → Bool
  | .predicate filter => filter.matches value
  | .and left right => left.matches value && right.matches value
  | .or left right => left.matches value || right.matches value

end

/-! ## Literals -/

/-- The value of four hexadecimal digits. -/
def hexUnit : Text → Option (ℕ × Text)
  | a :: b :: c :: d :: rest => do
    let digit (c : Char) : Option ℕ :=
      if c.isDigit then some (c.toNat - '0'.toNat)
      else if 'a' ≤ c.toLower ∧ c.toLower ≤ 'f' then some (c.toLower.toNat - 'a'.toNat + 10)
      else none
    some (((← digit a) * 16 + (← digit b)) * 256 + (← digit c) * 16 + (← digit d), rest)
  | _ => none

/-- The character of an escape `\u`, which may need a second unit. -/
def codePoint (unit : ℕ) (rest : Text) : Option (Char × Text) :=
  if unit < 0xD800 ∨ 0xDFFF < unit then some (Char.ofNat unit, rest)
  else if 0xDC00 ≤ unit then none
  else
    match rest with
    | '\\' :: 'u' :: rest => do
      let (low, rest) ← hexUnit rest
      if 0xDC00 ≤ low ∧ low ≤ 0xDFFF then
        some (Char.ofNat (0x10000 + (unit - 0xD800) * 0x400 + (low - 0xDC00)), rest)
      else none
    | _ => none

/-- The character of a short escape. -/
def shortEscape (c : Char) : Option Char :=
  if c = '"' ∨ c = '\\' ∨ c = '/' then some c
  else if c = 'b' then some (Char.ofNat 8)
  else if c = 'f' then some (Char.ofNat 12)
  else if c = 'n' then some '\n'
  else if c = 'r' then some '\r'
  else if c = 't' then some '\t'
  else none

/-- The characters of a JSON string up to its closing quote, which is the end. Each round reads one
character; there are no more than the text has. -/
def jsonChars : ℕ → Text → Option Text
  | 0, _ | _, [] => none
  | n + 1, c :: rest =>
    if c = '"' then (if rest = [] then some [] else none)
    else if c = '\\' then
      match rest with
      | [] => none
      | e :: rest =>
        if e = 'u' then do
          let (unit, rest) ← hexUnit rest
          let (c, rest) ← codePoint unit rest
          (c :: ·) <$> jsonChars n rest
        else do
          let c ← shortEscape e
          (c :: ·) <$> jsonChars n rest
    else if c.toNat < 0x20 then none
    else (c :: ·) <$> jsonChars n rest

/-- `serde_json::from_str::<String>`, of a literal. -/
def jsonString : Text → Option Text
  | '"' :: rest => jsonChars rest.length rest
  | _ => none

/-- `serde_json::from_str::<bool>`, of a literal. -/
def jsonBool (literal : Text) : Option Bool :=
  if literal = "true".toList then some true
  else if literal = "false".toList then some false
  else none

/-! ## Predicates -/

/-- What a filter is about: resources of a kind, one address or one member. -/
inductive FilterScope where
  | users
  | groups
  | email
  | member
deriving DecidableEq

/-- The error of a bad filter. -/
def invalidFilter (message : String) : Error := .oauth "invalid_filter" message

/-- The attribute whose presence is asked for. -/
def presenceFilter (scope : FilterScope) (field : Text) : Option Filter :=
  match scope, String.ofList field with
  | .users, "username" => some (.present "userName".toList)
  | .users, "displayname" | .groups, "displayname" => some (.present "displayName".toList)
  | .users, "externalid" | .groups, "externalid" => some (.present "externalId".toList)
  | .users, "id" | .groups, "id" => some (.present "id".toList)
  | .users, "active" => some (.present "active".toList)
  | .users, "emails" => some (.present "emails".toList)
  | .users, "emails.value" => some .emailPresent
  | .email, "value" => some (.present "value".toList)
  | .email, "type" => some (.present "type".toList)
  | .email, "primary" => some (.present "primary".toList)
  | _, _ => none

/-- The attribute that is compared with a text. -/
def equalityFilter (scope : FilterScope) (field needle : Text) : Option Filter :=
  match scope, String.ofList field with
  | .users, "username" => some (.text "userName".toList needle false)
  | .users, "displayname" | .groups, "displayname" =>
    some (.text "displayName".toList needle false)
  | .users, "externalid" | .groups, "externalid" => some (.text "externalId".toList needle true)
  | .users, "id" | .groups, "id" => some (.text "id".toList needle true)
  | .users, "emails.value" => some (.email needle)
  | .email, "value" => some (.emailText "value".toList needle)
  | .email, "type" => some (.emailText "type".toList needle)
  | .member, "value" => some (.memberValue needle)
  | _, _ => none

/-- Field, operator and literal. -/
def parseFilterPredicate (scope : FilterScope) (field op : Text) (literal : Option Text) :
    Result Filter := do
  let field := field.map Char.toLower
  if eqIgnoreAsciiCase op "pr".toList then
    okOr (presenceFilter scope field) (invalidFilter "Unsupported presence attribute")
  else do
    require (eqIgnoreAsciiCase op "eq".toList = true) (invalidFilter "Unsupported filter operator")
    let literal ← okOr literal (invalidFilter "Expected filter value")
    if scope = .users ∧ field = "active".toList ∨ scope = .email ∧ field = "primary".toList then do
      let expected ← okOr (jsonBool literal)
        (invalidFilter "Boolean filter requires true or false")
      .ok (if scope = .email then .emailPrimary expected else .active expected)
    else do
      let needle ← okOr (jsonString literal)
        (invalidFilter "Filter value must be one quoted JSON string")
      okOr (equalityFilter scope field needle) (invalidFilter "Unsupported equality attribute")

/-! ## The parser -/

/-- The rest of the input, and the predicates read so far. -/
structure FilterParser where
  rest : Text
  expressions : ℕ
deriving DecidableEq

/-- The most predicates of a filter. -/
def MAX_FILTER_EXPRESSIONS : ℕ := 8

/-- The deepest nesting. -/
def MAX_FILTER_DEPTH : ℕ := 3

namespace FilterParser

def peek (p : FilterParser) : Option Char := p.rest.head?

/-- Past the next character. -/
def advance (p : FilterParser) : FilterParser := { p with rest := p.rest.tail }

/-- Past the spaces. -/
def spaces (p : FilterParser) : FilterParser := { p with rest := p.rest.dropWhile (· = ' ') }

/-- There is a space. -/
def spaced (p : FilterParser) : Bool := p.peek = some ' '

/-- What a word is made of. -/
def isWord (c : Char) : Bool := c ∉ [' ', '(', ')', '[', ']', '"']

/-- The next word. -/
def word (p : FilterParser) : Text × FilterParser :=
  (p.rest.takeWhile isWord, { p with rest := p.rest.dropWhile isWord })

/-- The end of a quoted literal, whose opening quote is read. -/
def quotedEnd : Bool → Text → Option (Text × Text)
  | _, [] => none
  | true, c :: rest => (quotedEnd false rest).map fun q => (c :: q.1, q.2)
  | false, c :: rest =>
    if c = '"' then some ([c], rest)
    else (quotedEnd (c = '\\') rest).map fun q => (c :: q.1, q.2)

/-- A quoted text or a bare word. -/
def literal (p : FilterParser) : Result (Text × FilterParser) :=
  match p.rest with
  | '"' :: rest => do
    let (quoted, rest) ← okOr (quotedEnd false rest) (invalidFilter "Unterminated filter string")
    .ok ('"' :: quoted, { p with rest })
  | _ => .ok p.word

end FilterParser

/-- A parser of a part of a filter. -/
abbrev FilterParse := FilterParser → Result (FilterExpr × FilterParser)

/-- A bracketed expression, up to its closing bracket. -/
def bracketed (nested : Option FilterParse) (closing : Char) (missing : String) : FilterParse :=
  fun p => do
    let inner ← okOr nested (invalidFilter "Filter nesting too deep")
    let (expr, p) ← inner p.advance.spaces
    let p := p.spaces
    require (p.peek = some closing) (invalidFilter missing)
    .ok (expr, p.advance)

/-- A predicate, whose attribute is read. -/
def predicate (scope : FilterScope) (field : Text) : FilterParse := fun p => do
  require (p.spaced = true) (invalidFilter "Expected filter operator")
  let (op, p) := p.spaces.word
  let (literal, p) ← (if eqIgnoreAsciiCase op "eq".toList then do
      require (p.spaced = true) (invalidFilter "Expected filter value")
      let (literal, p) ← p.spaces.literal
      .ok (some literal, p)
    else .ok (none, p) : Result (Option Text × FilterParser))
  require (p.expressions ≠ MAX_FILTER_EXPRESSIONS) (invalidFilter "Too many filter expressions")
  let filter ← parseFilterPredicate scope field op literal
  .ok (.predicate filter, { p with expressions := p.expressions + 1 })

/-- A parenthesis, a value path or a predicate. `nested` reads an expression one level deeper, if
there may be one. -/
def atom (nested : FilterScope → Option FilterParse) (scope : FilterScope) : FilterParse := fun p =>
  let p := p.spaces
  if p.peek = some '(' then bracketed (nested scope) ')' "Expected closing parenthesis" p
  else do
    let (field, p) := p.word
    require (field ≠ []) (invalidFilter "Expected filter attribute")
    if p.peek = some '[' then do
      require (scope = .users ∧ eqIgnoreAsciiCase field "emails".toList = true)
        (invalidFilter "Unsupported valuePath attribute")
      let (expr, p) ← bracketed (nested .email) ']' "Expected closing valuePath bracket" p
      .ok (.predicate (.emailPath expr), p)
    else predicate scope field p

/-- The expressions that follow with a keyword between them. Each round reads the keyword; there are
no more than the rest has characters. -/
def chain (keyword : String) (combine : FilterExpr → FilterExpr → FilterExpr) (next : FilterParse) :
    ℕ → FilterExpr → FilterParse
  | 0, left, p => .ok (left, p)
  | n + 1, left, p =>
    let (found, after) := p.spaces.word
    if p.spaced = true ∧ eqIgnoreAsciiCase found keyword.toList = true then do
      require (after.spaced = true) (invalidFilter ("Expected expression after " ++ keyword))
      let (right, p) ← next after.spaces
      chain keyword combine next n (combine left right) p
    else .ok (left, p)

/-- Items joined by and. -/
def andExpr (item : FilterParse) : FilterParse := fun p => do
  let (left, p) ← item p
  chain "and" .and item p.rest.length left p

/-- An expression. `levels` more parentheses or value paths may be opened in it. Parentheses bind
tightest, then `and`, then `or`. -/
def orExpr (levels : ℕ) (scope : FilterScope) : FilterParse := fun p => do
  let nested : FilterScope → Option FilterParse := fun scope =>
    match levels with
    | 0 => none
    | n + 1 => some (orExpr n scope)
  let (left, p) ← andExpr (atom nested scope) p
  chain "or" .or (andExpr (atom nested scope)) p.rest.length left p

/-- `is_ascii_control`. -/
def isAsciiControl (c : Char) : Bool := c.toNat < 0x20 ∨ c.toNat = 0x7F

/-- The fields a filter may name. -/
def Kind.filterScope : Kind → FilterScope
  | .users => .users
  | .groups => .groups

/-- A whole filter. -/
def parseFilter (kind : Kind) (filter : Text) : Result FilterExpr := do
  require (Text.bytes filter ≤ 1024) (invalidFilter "Filter too long")
  require ((filter.any isAsciiControl) = false)
    (invalidFilter "Control characters are not allowed in filters")
  let (expr, p) ← orExpr MAX_FILTER_DEPTH kind.filterScope (FilterParser.mk filter 0).spaces
  require (p.spaces.rest = []) (invalidFilter "Unsupported filter syntax")
  .ok expr

end RiAuth.Scim
