import SecretHitler.Toml.Scalar
/-!
# Quoted texts and comments

The four kinds of strings, and what may stand between the parts of a
document. Each function takes the characters ahead and gives what it read
with the characters left.
-/

namespace SecretHitler

namespace Toml

/-- Whether a character may stand in a comment or a literal text: no control
character but the tab. -/
def isPrintable (c : Char) : Bool := c = '\t' || (32 ≤ c.toNat && c.toNat ≠ 127)

/-- Whether a character is a blank within a line. -/
def isBlank (c : Char) : Bool := c = ' ' || c = '\t'

/-- What follows the blanks ahead. -/
def skipBlanks (cs : List Char) : List Char := cs.dropWhile isBlank

/-- What follows a comment, if one is ahead. -/
def skipComment (cs : List Char) : List Char :=
  match cs with
  | '#' :: rest => rest.dropWhile isPrintable
  | cs => cs

/-- What follows an end of line. -/
def newline? : List Char → Option (List Char)
  | '\n' :: rest => some rest
  | '\r' :: '\n' :: rest => some rest
  | _ => none

/-- What follows the rest of a line that holds nothing more. -/
def endLine? (cs : List Char) : Option (List Char) :=
  match skipComment (skipBlanks cs) with
  | [] => some []
  | cs => newline? cs

/-- What follows blanks, comments and ends of lines. -/
def skipLines : Nat → List Char → List Char
  | 0, cs => cs
  | n + 1, cs =>
    let cs := skipBlanks cs
    match newline? (skipComment cs) with
    | some rest => skipLines n rest
    | none => cs

/-- A character given by so many hexadecimal digits. -/
def code? (count : Nat) (cs : List Char) : Option (Char × List Char) := do
  let ds ← (cs.take count).mapM digit?
  let n := number 16 ds
  if ds.length = count ∧ n.isValidChar then return (Char.ofNat n, cs.drop count) else none

/-- A character escaped by what follows a backslash. -/
def escape? : List Char → Option (Char × List Char)
  | 'b' :: rest => some ('\x08', rest)
  | 't' :: rest => some ('\t', rest)
  | 'n' :: rest => some ('\n', rest)
  | 'f' :: rest => some ('\x0c', rest)
  | 'r' :: rest => some ('\r', rest)
  | '"' :: rest => some ('"', rest)
  | '\\' :: rest => some ('\\', rest)
  | 'u' :: rest => code? 4 rest
  | 'U' :: rest => code? 8 rest
  | _ => none

/-- A text and what follows it. -/
abbrev Read := Option (String × List Char)

/-- The text of characters read so far, last first. -/
def readSoFar (seen : List Char) : String := String.ofList seen.reverse

/-- A basic string behind its opening quote. -/
def basic : Nat → List Char → List Char → Read
  | 0, _, _ => none
  | n + 1, seen, cs =>
    match cs with
    | '"' :: rest => some (readSoFar seen, rest)
    | '\\' :: rest => do
      let (c, rest) ← escape? rest
      basic n (c :: seen) rest
    | c :: rest => if isPrintable c then basic n (c :: seen) rest else none
    | [] => none

/-- A literal string behind its opening apostrophe. -/
def literal (cs : List Char) : Read :=
  let inside := fun c => c ≠ '\x27' && isPrintable c
  match cs.dropWhile inside with
  | '\x27' :: rest => some (String.ofList (cs.takeWhile inside), rest)
  | _ => none

/-- How many of a quote are ahead. -/
def countQuotes (quote : Char) (cs : List Char) : Nat := (cs.takeWhile (· = quote)).length

/-- The text of a string over several lines that ends in so many quotes, three
of which close it. At most two belong to the text. -/
def closed (quote : Char) (seen : List Char) (count : Nat) (cs : List Char) : Read :=
  let extra := min (count - 3) 2
  some (readSoFar (List.replicate extra quote ++ seen), cs.drop (extra + 3))

/-- What follows blanks and ends of lines. -/
def skipEnds : Nat → List Char → List Char
  | 0, cs => cs
  | n + 1, cs =>
    let cs := skipBlanks cs
    match newline? cs with
    | some rest => skipEnds n rest
    | none => cs

/-- What follows a backslash that ends a line: the blanks and ends of lines up
to the next text are no part of the string. -/
def foldedLine? (cs : List Char) : Option (List Char) :=
  (newline? (skipBlanks cs)).map fun rest => skipEnds (rest.length + 1) rest

/-- A basic string over several lines, behind its opening quotes. -/
def basicLines : Nat → List Char → List Char → Read
  | 0, _, _ => none
  | n + 1, seen, cs =>
    let count := countQuotes '"' cs
    if 3 ≤ count then closed '"' seen count cs
    else
      match cs with
      | '\\' :: rest =>
        match foldedLine? rest with
        | some rest => basicLines n seen rest
        | none => do
          let (c, rest) ← escape? rest
          basicLines n (c :: seen) rest
      | c :: rest =>
        if isPrintable c then basicLines n (c :: seen) rest
        else do
          let rest ← newline? (c :: rest)
          basicLines n ('\n' :: seen) rest
      | [] => none

/-- A literal string over several lines, behind its opening apostrophes. -/
def literalLines : Nat → List Char → List Char → Read
  | 0, _, _ => none
  | n + 1, seen, cs =>
    let count := countQuotes '\x27' cs
    if 3 ≤ count then closed '\x27' seen count cs
    else
      match cs with
      | c :: rest =>
        if isPrintable c then literalLines n (c :: seen) rest
        else do
          let rest ← newline? (c :: rest)
          literalLines n ('\n' :: seen) rest
      | [] => none

/-- The text behind opening quotes without the end of line that may follow
them. -/
def withoutFirstLine (cs : List Char) : List Char := (newline? cs).getD cs

/-- A string of any kind. -/
def text? (cs : List Char) : Read :=
  match cs with
  | '"' :: '"' :: '"' :: rest => basicLines (rest.length + 1) [] (withoutFirstLine rest)
  | '"' :: rest => basic (rest.length + 1) [] rest
  | '\x27' :: '\x27' :: '\x27' :: rest => literalLines (rest.length + 1) [] (withoutFirstLine rest)
  | '\x27' :: rest => literal rest
  | _ => none

/-- Whether a character may stand in a key without quotes. -/
def isBare (c : Char) : Bool := c.isAlphanum || c = '_' || c = '-'

/-- One part of a key. -/
def simpleKey? (cs : List Char) : Read :=
  match cs with
  | '"' :: rest => basic (rest.length + 1) [] rest
  | '\x27' :: rest => literal rest
  | cs =>
    if (cs.takeWhile isBare).isEmpty then none
    else some (String.ofList (cs.takeWhile isBare), cs.dropWhile isBare)

/-- A key: parts with points between them. -/
def key? : Nat → List Char → Option (List String × List Char)
  | 0, _ => none
  | n + 1, cs => do
    let (part, rest) ← simpleKey? (skipBlanks cs)
    match skipBlanks rest with
    | '.' :: rest => do
      let (parts, rest) ← key? n rest
      return (part :: parts, rest)
    | rest => return ([part], rest)

end Toml

end SecretHitler
