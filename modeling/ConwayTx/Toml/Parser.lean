import ConwayTx.Toml.Scalar
/-!
Reading TOML documents.
-/

namespace ConwayTx.Toml

def isBlank (c : Char) : Bool := c == ' ' || c == '\t'

def skipBlanks (text : List Char) : List Char := text.dropWhile isBlank

def isControl (c : Char) : Bool := (c.toNat < 0x20 && c != '\t') || c.toNat == 0x7f

def newline? : List Char → Option (List Char)
  | '\n' :: rest => some rest
  | '\r' :: '\n' :: rest => some rest
  | _ => none

def skipComment : List Char → List Char
  | '#' :: rest => rest.dropWhile (fun c => !isControl c)
  | text => text

def skipLines : (fuel : Nat) → List Char → List Char
  | 0, text => text
  | fuel + 1, text =>
    let rest := skipComment (skipBlanks text)
    match newline? rest with
    | some rest => skipLines fuel rest
    | none => rest

def skipSpace : List Char → List Char
  | '\r' :: '\n' :: rest => skipSpace rest
  | c :: rest => if isBlank c ∨ c = '\n' then skipSpace rest else c :: rest
  | [] => []

def endLine (text : List Char) : Option (List Char) :=
  match skipComment (skipBlanks text) with
  | [] => some []
  | text => newline? text

def charOfCode? (digits : List Char) : Option Char :=
  if digits.all (isDigitIn 16) then
    let n := inBase 16 digits
    if n < 0xd800 ∨ (0xe000 ≤ n ∧ n < 0x110000) then some (Char.ofNat n) else none
  else none

def escape? : Char → Option Char
  | 'b' => some '\x08'
  | 'e' => some '\x1b'
  | 't' => some '\t'
  | 'n' => some '\n'
  | 'f' => some '\x0c'
  | 'r' => some '\r'
  | '"' => some '"'
  | '\\' => some '\\'
  | _ => none

def codeWidth? : Char → Option Nat
  | 'x' => some 2
  | 'u' => some 4
  | 'U' => some 8
  | _ => none

def escaped (text : List Char) : Option (Char × List Char) :=
  match text with
  | [] => none
  | c :: rest =>
    match codeWidth? c with
    | some width =>
      if rest.length < width then none
      else (charOfCode? (rest.take width)).map (fun c => (c, rest.drop width))
    | none => (escape? c).map (fun c => (c, rest))

def basic : (fuel : Nat) → List Char → Option (List Char × List Char)
  | 0, _ => none
  | fuel + 1, text =>
    match text with
    | '"' :: rest => some ([], rest)
    | '\\' :: rest => do
      let (c, rest) ← escaped rest
      let (cs, rest) ← basic fuel rest
      return (c :: cs, rest)
    | c :: rest =>
      if isControl c then none else (basic fuel rest).map (fun (cs, rest) => (c :: cs, rest))
    | [] => none

def literal (text : List Char) : Option (List Char × List Char) :=
  let body := text.takeWhile (fun c => c != '\'' && !isControl c)
  match text.drop body.length with
  | '\'' :: rest => some (body, rest)
  | _ => none

/-- The rest of a string in tripled quotes. Up to two more quotes may stand before the closing
ones. With escapes, a backslash at the end of a line takes the blank space after it away. -/
def multiline (quote : Char) (escapes : Bool) :
    (fuel : Nat) → List Char → Option (List Char × List Char)
  | 0, _ => none
  | fuel + 1, text =>
    let quotes := text.takeWhile (· == quote)
    if 3 ≤ quotes.length then
      let extra := min 2 (quotes.length - 3)
      some (quotes.take extra, text.drop (extra + 3))
    else
      match text with
      | [] => none
      | '\r' :: '\n' :: rest =>
        (multiline quote escapes fuel rest).map (fun (cs, rest) => ('\n' :: cs, rest))
      | c :: rest =>
        if escapes ∧ c = '\\' then
          match newline? (skipBlanks rest) with
          | some rest => multiline quote escapes fuel (skipSpace rest)
          | none => do
            let (c, rest) ← escaped rest
            let (cs, rest) ← multiline quote escapes fuel rest
            return (c :: cs, rest)
        else if isControl c ∧ c ≠ '\n' then none
        else (multiline quote escapes fuel rest).map (fun (cs, rest) => (c :: cs, rest))

def trimFirst (text : List Char) : List Char := (newline? text).getD text

def string? (text : List Char) : Option (List Char × List Char) :=
  match text with
  | '"' :: '"' :: '"' :: rest => multiline '"' true (rest.length + 1) (trimFirst rest)
  | '\'' :: '\'' :: '\'' :: rest => multiline '\'' false (rest.length + 1) (trimFirst rest)
  | '"' :: rest => basic (rest.length + 1) rest
  | '\'' :: rest => literal rest
  | _ => none

def isBareKey (c : Char) : Bool := c.isAlphanum || c == '_' || c == '-'

def simpleKey (text : List Char) : Option (String × List Char) :=
  match text with
  | '"' :: rest => (basic (rest.length + 1) rest).map (fun (cs, rest) => (String.ofList cs, rest))
  | '\'' :: rest => (literal rest).map (fun (cs, rest) => (String.ofList cs, rest))
  | text =>
    let key := text.takeWhile isBareKey
    if key.isEmpty then none else some (String.ofList key, text.drop key.length)

def dottedKey : (fuel : Nat) → List Char → Option (List String × List Char)
  | 0, _ => none
  | fuel + 1, text => do
    let (key, rest) ← simpleKey (skipBlanks text)
    match skipBlanks rest with
    | '.' :: rest => do
      let (keys, rest) ← dottedKey fuel rest
      return (key :: keys, rest)
    | rest => return ([key], rest)

def keyPath (text : List Char) : Option (List String × List Char) :=
  (dottedKey (text.length + 1) text).filter (fun (keys, _) => keys.length ≤ maxDepth)

def isScalarChar (c : Char) : Bool :=
  c.isAlphanum || c == '_' || c == '-' || c == '+' || c == '.' || c == ':'

def scalarText (text : List Char) : List Char :=
  let first := text.takeWhile isScalarChar
  match text.drop first.length with
  | ' ' :: c :: rest =>
    if c.isDigit ∧ date first = some [] then first ++ ' ' :: (c :: rest).takeWhile isScalarChar
    else first
  | _ => first

mutual

def value : (fuel room : Nat) → List Char → Option (Toml × List Char)
  | 0, _, _ => none
  | fuel + 1, room, text =>
    match text, room with
    | '"' :: _, _ | '\'' :: _, _ =>
      (string? text).map (fun (cs, rest) => (str (String.ofList cs), rest))
    | '[' :: _, 0 | '\x7b' :: _, 0 => none
    | '[' :: rest, room + 1 =>
      (elements fuel room rest).map (fun (items, rest) => (arr items, rest))
    | '\x7b' :: rest, room + 1 =>
      (members fuel room [] rest).map (fun (es, rest) => (table .inline es, rest))
    | text, _ =>
      let taken := scalarText text
      (scalar taken).map (fun v => (v, text.drop taken.length))

def elements : (fuel room : Nat) → List Char → Option (List Toml × List Char)
  | 0, _, _ => none
  | fuel + 1, room, text =>
    match skipLines (text.length + 1) text with
    | ']' :: rest => some ([], rest)
    | text => do
      let (item, rest) ← value fuel room text
      match skipLines (rest.length + 1) rest with
      | ',' :: rest => do
        let (items, rest) ← elements fuel room rest
        return (item :: items, rest)
      | ']' :: rest => return ([item], rest)
      | _ => none

/-- The rest of a table in braces. Lines may end between any two parts but those of a key. -/
def members : (fuel room : Nat) → Entries → List Char → Option (Entries × List Char)
  | 0, _, _, _ => none
  | fuel + 1, room, es, text =>
    match skipLines (text.length + 1) text with
    | '\x7d' :: rest => some (es, rest)
    | text => do
      let (path, rest) ← keyPath text
      let rest ← expect '=' (skipLines (rest.length + 1) rest)
      let (v, rest) ← value fuel room (skipLines (rest.length + 1) rest)
      let es ← assign v path es
      match skipLines (rest.length + 1) rest with
      | ',' :: rest => members fuel room es rest
      | '\x7d' :: rest => return (es, rest)
      | _ => none

end

/-- One line of a document, within the table at `path`: the table that is open after it, the
document and the rest of the text. -/
def line (path : List String) (doc : Entries) (text : List Char) :
    Option (List String × Entries × List Char) :=
  match skipBlanks text with
  | '[' :: '[' :: rest => do
    let (path, rest) ← keyPath rest
    let doc ← header true path doc
    return (path, doc, ← endLine (← expect ']' (← expect ']' rest)))
  | '[' :: rest => do
    let (path, rest) ← keyPath rest
    let doc ← header false path doc
    return (path, doc, ← endLine (← expect ']' rest))
  | text =>
    match endLine text with
    | some rest => some (path, doc, rest)
    | none => do
      let (key, rest) ← keyPath text
      let (v, rest) ← value (2 * text.length + 2) maxDepth (skipBlanks (← expect '=' rest))
      let doc ← within (assign v key) path doc
      return (path, doc, ← endLine rest)

def lines : (fuel : Nat) → List String → Entries → List Char → Option Entries
  | 0, _, _, _ => none
  | _ + 1, _, doc, [] => some doc
  | fuel + 1, path, doc, text => do
    let (path, doc, rest) ← line path doc text
    lines fuel path doc rest

def trimMark : List Char → List Char
  | '\ufeff' :: rest => rest
  | text => text

def parse? (text : String) : Option Entries :=
  let text := trimMark text.toList
  lines (text.length + 1) [] [] text

end ConwayTx.Toml
