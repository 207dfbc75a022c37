import N8n.Foundations.DynamicValues
import N8n.Foundations.Replacing

/-!
# Arguments of calls in expressions

The calls of `$fromAI` are found first, each with the text between its parentheses. This text is
then split into arguments without the backslashes that escape, and every quoted argument is
unescaped once more.
-/

namespace N8n.FromAI

open DynamicValues (Number Value)
open Replacing (replaceAll)

abbrev Text := List Char

/-- An argument has the type that was written, in any letter case. -/
structure FromAIArgument where
  key : Text
  description : Option Text
  type : Text
  defaultValue : Option Value

structure ParseError where
  message : Text
  deriving DecidableEq

/-- How numbers and objects are read from texts. -/
structure Runtime where
  numberOf : Text → Number
  jsonParse : Text → Option Value

variable (rt : Runtime)

def toLowerCase (s : Text) : Text := s.map Char.toLower

def isWhitespace (c : Char) : Bool :=
  c ∈ ['\t', '\n', '\x0b', '\x0c', '\r', ' ', '\u00a0', '\u1680', '\u2028', '\u2029', '\u202f',
    '\u205f', '\u3000', '\ufeff'] || '\u2000' ≤ c && c ≤ '\u200a'

def trim (s : Text) : Text := ((s.dropWhile isWhitespace).reverse.dropWhile isWhitespace).reverse

inductive Quote where
  | double
  | single
  | backtick
  deriving DecidableEq, Repr

def Quote.char : Quote → Char
  | double => '"'
  | single => '\''
  | backtick => Char.ofNat 0x60

def quotes : List Char := [Quote.double.char, Quote.single.char, Quote.backtick.char]

def parseDefaultValue : Option Text → Option Value
  | none | some [] => none
  | some value =>
    let lowerValue := toLowerCase value
    if lowerValue = "true".toList then some (.boolean true)
    else if lowerValue = "false".toList then some (.boolean false)
    else if rt.numberOf value ≠ .nan then some (.number (rt.numberOf value))
    else some ((rt.jsonParse value).getD (.string (String.ofList value)))

/-- The arguments, and the quote that stands around what is read, if there is one. -/
def splitArguments : Option Char → Text → Text → List Text
  | _, currentArg, [] | _, currentArg, ['\\'] => if currentArg = [] then [] else [trim currentArg]
  | quoteChar, currentArg, '\\' :: char :: rest =>
    splitArguments quoteChar (currentArg ++ [char]) rest
  | none, currentArg, char :: rest =>
    if char ∈ quotes then splitArguments (some char) (currentArg ++ [char]) rest
    else if char = ',' then trim currentArg :: splitArguments none [] rest
    else splitArguments none (currentArg ++ [char]) rest
  | some quoteChar, currentArg, char :: rest =>
    splitArguments (if char = quoteChar then none else some quoteChar) (currentArg ++ [char]) rest

def unescapeQuote (quoteChar : Char) (s : Text) : Text := replaceAll ['\\', quoteChar] [quoteChar] s

def unescape (s : Text) : Text :=
  unescapeQuote '\\' (unescapeQuote Quote.double.char (unescapeQuote Quote.backtick.char
    (unescapeQuote Quote.single.char s)))

def isQuoted (s : Text) (quote : Quote) : Prop :=
  s.head? = some quote.char ∧ s.getLast? = some quote.char

instance (s : Text) (quote : Quote) : Decidable (isQuoted s quote) :=
  inferInstanceAs (Decidable (_ ∧ _))

def cleanArg (arg : Text) : Text :=
  let trimmed := trim arg
  if isQuoted trimmed .single ∨ isQuoted trimmed .backtick ∨ isQuoted trimmed .double then
    unescape (trimmed.drop 1).dropLast
  else trimmed

/-- An empty text is not there. -/
def orDefault (s : Option Text) (default : Text) : Text :=
  match s with
  | none | some [] => default
  | some s => s

def parseArguments (argsString : Text) : Except ParseError FromAIArgument :=
  let cleanArgs := (splitArguments none [] argsString).map cleanArg
  let type := orDefault cleanArgs[2]? "string".toList
  if toLowerCase type ∈
      ["string".toList, "number".toList, "boolean".toList, "json".toList] then
    .ok
      { key := orDefault cleanArgs[0]? []
        description := cleanArgs[1]?
        type := cleanArgs[2]?.getD "string".toList
        defaultValue := parseDefaultValue rt cleanArgs[3]? }
  else .error { message := "Invalid type: ".toList ++ type }

/-- The text up to the closing parenthesis, if there is one. -/
def scanArguments : Option Char → ℕ → Text → Text → Option Text
  | _, _, _, [] => none
  | some quoteChar, parenthesesCount, argsString, '\\' :: char :: rest =>
    scanArguments (some quoteChar) parenthesesCount (argsString ++ ['\\', char]) rest
  | some quoteChar, parenthesesCount, argsString, char :: rest =>
    scanArguments (if char = quoteChar then none else some quoteChar) parenthesesCount
      (argsString ++ [char]) rest
  | none, parenthesesCount, argsString, char :: rest =>
    if char ∈ quotes then
      scanArguments (some char) parenthesesCount (argsString ++ [char]) rest
    else if char = '(' then
      scanArguments none (parenthesesCount + 1) (argsString ++ [char]) rest
    else if char = ')' then
      if parenthesesCount = 1 then some argsString
      else scanArguments none (parenthesesCount - 1) (argsString ++ [char]) rest
    else scanArguments none parenthesesCount (argsString ++ [char]) rest

def callName : Text := ['$', 'f', 'r', 'o', 'm', 'a', 'i']

/-- What is after a name, in any letter case. -/
def dropName : Text → Text → Option Text
  | [], s => some s
  | _ :: _, [] => none
  | a :: name, c :: s => if c.toLower = a then dropName name s else none

/-- What is after the beginning of a call, if the text begins with one. -/
def matchCall (s : Text) : Option Text :=
  match (dropName callName s).map (List.dropWhile isWhitespace) with
  | some ('(' :: rest) => some (rest.dropWhile isWhitespace)
  | _ => none

/-- What is after the beginning of the first call. -/
def exec : Text → Option Text
  | [] => none
  | c :: s => (matchCall (c :: s)).or (exec s)

def parseCall (rest : Text) : Except ParseError FromAIArgument :=
  match scanArguments none 1 [] rest with
  | none =>
    .error { message := "Unbalanced parentheses while parsing $fromAI call: ".toList ++ rest }
  | some argsString =>
    (parseArguments rt argsString).mapError fun error =>
      { message := "Failed to parse $fromAI arguments: ".toList ++ argsString ++
          ": Error: ".toList ++ error.message }

/-- The next call is searched for right after the beginning of the last one. -/
def extractFrom : ℕ → Text → Except ParseError (List FromAIArgument)
  | 0, _ => .ok []
  | fuel + 1, str =>
    match exec str with
    | none => .ok []
    | some rest => do
      let argument ← parseCall rt rest
      let arguments ← extractFrom fuel rest
      return argument :: arguments

def extractFromAICalls (str : Text) : Except ParseError (List FromAIArgument) :=
  extractFrom rt (str.length + 1) str

end N8n.FromAI
