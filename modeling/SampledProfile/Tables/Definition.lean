/-
# Definitions of tables

A table is defined by a statement: its columns, what kind of cell each of them prefers, and what its
rows have to keep to.  A column may have to hold something in every row; one column may be the
number of the row; and no two rows may agree in some columns.

`Definition.statement` writes the statement of a table whose rows are free.
`Definition.ofStatement?` reads any statement, as far as it matters to the rows:

* the text is cut into words, quoted names and marks (`Token`); comments count as gaps;
* what stands between the outermost brackets is cut at commas, and each part is a column or
  something that holds for the rows as a whole;
* a column is its name, its type, which goes as far as the first word of a rule, and its rules.
-/
import SampledProfile.Tables.Cell

namespace SampledProfile

/-- A column of a table. -/
structure Column where
  name : String
  affinity : Affinity
  /-- Does every row have to hold something there? -/
  isRequired : Bool
  deriving DecidableEq

/-- What a table keeps to. -/
structure Definition where
  columns : List Column
  /-- The column that is the number of the row, where there is one. -/
  key : Option Nat
  /-- Columns in which no two rows may agree. -/
  unique : List (List Nat)
  deriving DecidableEq

namespace Definition

/-! ## 1. Tables whose rows are free -/

/-- The definition of a table of some columns whose rows are free. -/
def ofColumns (columns : List Column) : Definition := ⟨columns, none, []⟩

/-- The statement that makes a table of some columns whose rows are free. -/
def statement (name : String) (columns : List Column) : String :=
  let columns := columns.map fun column => column.name ++ " " ++ column.affinity.name
  "CREATE TABLE " ++ name ++ "(" ++ String.intercalate ", " columns ++ ")"

/-! ## 2. Words and marks -/

/-- A word, a quoted name, or a mark. -/
inductive Token where
  | word (text : String)
  | quoted (text : String)
  | mark (c : Char)
  deriving DecidableEq

/-- Where a reader of tokens stands; what it has read of a word or a name is kept last first. -/
inductive Pen where
  | free
  | word (read : List Char)
  | quoted (close : Char) (read : List Char)
  /-- The quote has just been closed; once more it stands for itself. -/
  | closed (close : Char) (read : List Char)
  | dash
  | slash
  | line
  | block
  | star

/-- Is the character part of a word? -/
def isWordChar (c : Char) : Bool := c.isAlphanum || c == '_' || c == '$' || 128 ≤ c.toNat

/-- The character that closes a quote, where one is opened. -/
def closing? (c : Char) : Option Char :=
  if c = '[' then some ']' else if c = '"' ∨ c = '\'' ∨ c = Char.ofNat 96 then some c else none

/-- Where the reader stands after a character outside of everything, and the tokens it gives. -/
def start (c : Char) : Pen × List Token :=
  match closing? c with
  | some close => (.quoted close [], [])
  | none =>
    if isWordChar c then (.word [c], [])
    else if Cell.isGap c then (.free, [])
    else if c = '-' then (.dash, [])
    else if c = '/' then (.slash, [])
    else (.free, [.mark c])

/-- What the reader holds back, as tokens. -/
def heldBack : Pen → List Token
  | .word read => [.word (String.ofList read.reverse)]
  | .closed _ read => [.quoted (String.ofList read.reverse)]
  | .dash => [.mark '-']
  | .slash => [.mark '/']
  | _ => []

/-- Takes up a character where a token may have ended before it. -/
def resume (pen : Pen) (c : Char) : Pen × List Token :=
  let (next, tokens) := start c
  (next, heldBack pen ++ tokens)

/-- Takes up a character. -/
def step : Pen → Char → Pen × List Token
  | .word read, c => if isWordChar c then (.word (c :: read), []) else resume (.word read) c
  | .quoted close read, c =>
    if c = close then (.closed close read, []) else (.quoted close (c :: read), [])
  | .closed close read, c =>
    if c = close ∧ c ≠ ']' then (.quoted close (c :: read), []) else resume (.closed close read) c
  | .dash, c => if c = '-' then (.line, []) else resume .dash c
  | .slash, c => if c = '*' then (.block, []) else resume .slash c
  | .line, c => (if c = '\n' then .free else .line, [])
  | .block, c => (if c = '*' then .star else .block, [])
  | .star, c => (if c = '/' then .free else if c = '*' then .star else .block, [])
  | .free, c => start c

/-- The tokens of a text. -/
def tokensFrom (pen : Pen) : List Char → List Token
  | [] => heldBack pen
  | c :: rest =>
    let (next, tokens) := step pen c
    tokens ++ tokensFrom next rest

/-- The tokens of a statement. -/
def tokens (statement : String) : List Token := tokensFrom .free statement.toList

example : tokens "a /*x*/ \"b\"\"c\"(1)--" =
    [.word "a", .quoted "b\"c", .mark '(', .word "1", .mark ')'] := by decide

/-! ## 3. Parts -/

/-- A text in capitals, for words that mean the same however they are written. -/
def capitals (text : String) : String := text.map Char.toUpper

/-- The word that a token is, in capitals. -/
def Token.word? : Token → Option String
  | .word text => some (capitals text)
  | _ => none

/-- The name that a token is. -/
def Token.name? : Token → Option String
  | .word text => some text
  | .quoted text => some text
  | .mark _ => none

/-- How many brackets are open after a token. -/
def depthAfter (depth : Nat) : Token → Nat
  | .mark '(' => depth + 1
  | .mark ')' => depth - 1
  | _ => depth

/-- The tokens up to the bracket that closes the one before them, and those behind it. -/
def bracketed : Nat → List Token → List Token × List Token
  | _, [] => ([], [])
  | depth, token :: rest =>
    if depth = 0 ∧ token = .mark ')' then ([], rest)
    else
      let (inner, outer) := bracketed (depthAfter depth token) rest
      (token :: inner, outer)

/-- The parts between commas that stand in no brackets. -/
def parts : Nat → List Token → List (List Token)
  | _, [] => [[]]
  | depth, token :: rest =>
    if depth = 0 ∧ token = .mark ',' then [] :: parts 0 rest
    else
      match parts (depthAfter depth token) rest with
      | [] => [[token]]
      | part :: others => (token :: part) :: others

/-- The words that stand in no brackets. -/
def outerWords : Nat → List Token → List String
  | _, [] => []
  | depth, token :: rest =>
    let words := outerWords (depthAfter depth token) rest
    if depth = 0 then token.word?.toList ++ words else words

/-- Do some words follow one another somewhere? -/
def haveRun (run : List String) : List String → Bool
  | [] => run.isEmpty
  | word :: rest => run.isPrefixOf (word :: rest) || haveRun run rest

/-! ## 4. Columns -/

/-- The words that a rule of a column begins with. -/
def ruleWords : List String :=
  ["CONSTRAINT", "PRIMARY", "NOT", "NULL", "UNIQUE", "CHECK", "DEFAULT", "COLLATE", "REFERENCES",
    "GENERATED", "AS"]

/-- The words that a rule of the table begins with. -/
def tableRuleWords : List String := ["CONSTRAINT", "PRIMARY", "UNIQUE", "CHECK", "FOREIGN"]

/-- Does a text stand somewhere in another one? -/
def occurs (text : List Char) : List Char → Bool
  | [] => text.isEmpty
  | c :: rest => text.isPrefixOf (c :: rest) || occurs text rest

/-- What a column of a type prefers. -/
def affinityOf (type : List String) : Affinity :=
  let cs := (capitals (String.intercalate " " type)).toList
  let has (word : String) : Bool := occurs word.toList cs
  if has "INT" then .integer
  else if has "CHAR" || has "CLOB" || has "TEXT" then .text
  else if has "BLOB" || cs.isEmpty then .any
  else if has "REAL" || has "FLOA" || has "DOUB" then .real
  else .integer

/-- Is the token the first one of a rule of a column? -/
def beginsRule (token : Token) : Bool := token.word?.any ruleWords.contains

/-- A part that defines a column. -/
structure ColumnPart where
  column : Column
  /-- Is it of the type that the number of a row has? -/
  isWhole : Bool
  isPrimary : Bool
  isDescending : Bool
  isUnique : Bool

/-- Reads a part that defines a column. -/
def columnOf? : List Token → Option ColumnPart
  | [] => none
  | name :: rest => do
    let name ← name.name?
    let type := (rest.takeWhile fun token => !beginsRule token).filterMap Token.name?
    let rules := outerWords 0 (rest.dropWhile fun token => !beginsRule token)
    return {
      column := ⟨name, affinityOf type, haveRun ["NOT", "NULL"] rules⟩
      isWhole := type.map capitals == ["INTEGER"]
      isPrimary := haveRun ["PRIMARY", "KEY"] rules
      isDescending := haveRun ["PRIMARY", "KEY", "DESC"] rules
      isUnique := haveRun ["UNIQUE"] rules }

/-! ## 5. Statements -/

/-- Does the part hold for the rows as a whole? -/
def isTableRule (part : List Token) : Bool :=
  (part.head?.bind Token.word?).any tableRuleWords.contains

/-- The places of the columns that are named first in the brackets of a part. -/
def columnsNamed (columns : List Column) (part : List Token) : Option (List Nat) :=
  let inner := (bracketed 0 ((part.dropWhile (· != .mark '(')).drop 1)).1
  (parts 0 inner).mapM fun part => do
    let name ← (← part.head?).name?
    columns.findIdx? fun column => capitals column.name == capitals name

/-- The columns that a rule of the table allows no two equal rows in, and whether they are the
primary ones. -/
def uniqueOf (columns : List Column) (part : List Token) : Option (Bool × List Nat) :=
  let words := outerWords 0 part
  let isPrimary := haveRun ["PRIMARY", "KEY"] words
  if isPrimary || haveRun ["UNIQUE"] words then
    (columnsNamed columns part).map fun places => (isPrimary, places)
  else none

/-- The definition that some parts make. -/
def ofParts (columns : List ColumnPart) (rules : List (List Token)) : Definition :=
  let rules := rules.filterMap (uniqueOf (columns.map ColumnPart.column))
  let own := columns.zipIdx.filter fun entry => entry.1.isPrimary
  let isWhole (place : Nat) : Bool := (columns[place]?.map ColumnPart.isWhole).getD false
  let ownKeys := (own.filter fun entry => entry.1.isWhole && !entry.1.isDescending).map Prod.snd
  let ruleKeys := rules.filterMap fun rule =>
    match rule with
    | (true, [place]) => if isWhole place then some place else none
    | _ => none
  let key := (ownKeys ++ ruleKeys).head?
  let single := (columns.zipIdx.filter fun entry => entry.1.isUnique || entry.1.isPrimary).map
    fun entry => [entry.2]
  let unique := (single ++ rules.map Prod.snd).filter fun places => some places != key.map ([·])
  ⟨columns.map ColumnPart.column, key, unique.eraseDups⟩

/-- The definition that a statement gives. -/
def ofStatement? (statement : String) : Option Definition :=
  match tokens statement with
  | .word create :: .word table :: _ :: .mark '(' :: rest => do
    if capitals create != "CREATE" || capitals table != "TABLE" then none
    let all := parts 0 (bracketed 0 rest).1
    let columns ← (all.filter fun part => !isTableRule part).mapM columnOf?
    return ofParts columns (all.filter isTableRule)
  | _ => none

/-- The columns of the index that a statement makes, in the order that cells have.  An index of some
of the rows only, in another order, or of what is made of columns, gives none. -/
def columnsOfIndex? (definition : Definition) (statement : String) : Option (List Nat) :=
  let all := tokens statement
  let inner := (bracketed 0 ((all.dropWhile (· != .mark '(')).drop 1)).1
  let isPlain := (parts 0 inner).all fun part => part.length = 1
  if isPlain && !(outerWords 0 all).contains "WHERE" then columnsNamed definition.columns all
  else none

/-- The columns that a statement for an index allows no two equal rows in. -/
def uniqueOfIndex? (definition : Definition) (statement : String) : Option (List Nat) :=
  let isUnique := haveRun ["CREATE", "UNIQUE", "INDEX"] ((outerWords 0 (tokens statement)).take 3)
  if isUnique then columnsOfIndex? definition statement else none

example : ofStatement? "CREATE TABLE t(a INTEGER PRIMARY KEY, 'b c' char(3) NOT NULL, d UNIQUE)" =
    some ⟨[⟨"a", .integer, false⟩, ⟨"b c", .text, true⟩, ⟨"d", .any, false⟩], some 0, [[2]]⟩ := by
  decide +kernel

end Definition
end SampledProfile
