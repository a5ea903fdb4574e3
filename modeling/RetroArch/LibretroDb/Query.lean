/- `query.c`: the text of a query and the invocation it is compiled to. -/

import RetroArch.LibretroDb.Dom

namespace RetroArch.LibretroDb.Query

/-- The text from `data + offset` on, behind which there is the terminator. -/
structure Buffer where
  len : ℕ
  rest : List UInt8

def Buffer.offset (buff : Buffer) : ℕ := buff.len - buff.rest.length

/-- `buff.data[buff.offset]` -/
def Buffer.char (buff : Buffer) : UInt8 := buff.rest.headD 0

/-- `buff.offset++` -/
def Buffer.next (buff : Buffer) : Buffer := { buff with rest := buff.rest.tail }

inductive QueryError
  | tooManyArguments
  | expectedNumber (position : ℕ)
  | expectedString (position : ℕ)
  | unexpectedEof (position : ℕ)
  | enomem
  | unknownFunction (position : ℕ) (name : List UInt8)
  | expectedEof (position : ℕ) (found : UInt8)
  | unexpectedChar (position : ℕ) (expected found : UInt8)
  | depth
  deriving DecidableEq, Repr

/-- The buffer a function returns, and what it has stored or the error it has raised. -/
abbrev Parsed (α : Type*) := Buffer × Except QueryError α

/-- `if (*error) return buff;` between two calls. -/
def andThen {α β : Type*} (r : Parsed α) (f : Buffer → α → Parsed β) : Parsed β :=
  match r with
  | (buff, .ok a) => f buff a
  | (buff, .error e) => (buff, .error e)

def isSpace (c : UInt8) : Bool := c == 0x20 || (0x09 ≤ c && c ≤ 0x0d)

def isDigit (c : UInt8) : Bool := 0x30 ≤ c && c ≤ 0x39

def isAlpha (c : UInt8) : Bool := (0x41 ≤ c && c ≤ 0x5a) || (0x61 ≤ c && c ≤ 0x7a)

def isIdentChar (c : UInt8) : Bool := isAlpha c || isDigit c || c == 0x5f

def queryChomp (buff : Buffer) : Buffer := { buff with rest := buff.rest.dropWhile isSpace }

def queryPeek (buff : Buffer) (data : List UInt8) : Bool := data.isPrefixOf buff.rest

/-- The offset is cut down to `unsigned` for this comparison. -/
def queryIsEot (buff : Buffer) : Bool := buff.len ≤ buff.offset % 2 ^ 32

def queryExpectEof (buff : Buffer) : Parsed Unit :=
  let buff := queryChomp buff
  if queryIsEot buff then (buff, .ok ()) else (buff, .error (.expectedEof buff.offset buff.char))

def queryGetChar (buff : Buffer) : Parsed UInt8 :=
  if queryIsEot buff then (buff, .error (.unexpectedEof buff.offset))
  else (buff.next, .ok buff.char)

def queryExpectChar (buff : Buffer) (c : UInt8) : Parsed Unit :=
  if queryIsEot buff then (buff, .error (.unexpectedEof buff.offset))
  else if buff.char ≠ c then (buff, .error (.unexpectedChar buff.offset c buff.char))
  else (buff.next, .ok ())

/-- `nil` -/
def wordNil : List UInt8 := [0x6e, 0x69, 0x6c]

/-- `true` -/
def wordTrue : List UInt8 := [0x74, 0x72, 0x75, 0x65]

/-- `false` -/
def wordFalse : List UInt8 := [0x66, 0x61, 0x6c, 0x73, 0x65]

def letterB : UInt8 := 0x62

def quote : UInt8 := 0x22

def apostrophe : UInt8 := 0x27

def parenOpen : UInt8 := 0x28

def parenClose : UInt8 := 0x29

def comma : UInt8 := 0x2c

def colon : UInt8 := 0x3a

def braceOpen : UInt8 := 0x7b

def braceClose : UInt8 := 0x7d

/-- The loop of `query_parse_string` up to the terminator, with what is behind it. -/
def scanString (terminator : UInt8) : List UInt8 → Option (List UInt8 × List UInt8)
  | [] => none
  | c :: rest =>
    if c = terminator then some ([], rest)
    else (scanString terminator rest).map fun (chars, rest) => (c :: chars, rest)

/-- A `char` is signed in the comparison. -/
def hexDigit (c : UInt8) : UInt8 :=
  if c.toInt8 ≤ 0x39 then c - 0x30 else c - 0x41 + 10

/-- Two characters a byte; the last one of an odd number is put together with the terminator. -/
def hexBytes (terminator : UInt8) : List UInt8 → List UInt8
  | [] => []
  | [hic] => [hexDigit hic * 16 + hexDigit terminator]
  | hic :: loc :: chars => (hexDigit hic * 16 + hexDigit loc) :: hexBytes terminator chars

def stringValue (isBinstr : Bool) (terminator : UInt8) (chars : List UInt8) : Value :=
  if isBinstr then .binary (.ofBytes (hexBytes terminator chars)) else .string (.ofBytes chars)

/-- The characters behind the first terminator. Where that is none, the error is about the place
before it. -/
def queryParseQuoted (isBinstr : Bool) (buff : Buffer) (terminator : UInt8) : Parsed Value :=
  if terminator ≠ quote ∧ terminator ≠ apostrophe then
    (buff, .error (.expectedString (buff.offset - 1)))
  else
    match scanString terminator buff.rest with
    | none =>
      let buff := { buff with rest := [] }
      (buff, .error (.unexpectedEof buff.offset))
    | some (chars, rest) =>
      ({ buff with rest := rest }, .ok (stringValue isBinstr terminator chars))

/-- A `b` at the end of the text is no terminator either. -/
def queryParseString (buff : Buffer) : Parsed Value :=
  andThen (queryGetChar buff) fun buff terminator =>
    if terminator = letterB then
      match queryGetChar buff with
      | (buff, .ok terminator) => queryParseQuoted true buff terminator
      | (buff, .error _) => queryParseQuoted true buff terminator
    else
      queryParseQuoted false buff terminator

/-- The number in the digits, as far as an `int64_t` goes. -/
def digitsValue (digits : List UInt8) : Int64 :=
  Int64.ofNat (min (digits.foldl (fun n c => 10 * n + (c.toNat - 48)) 0) (2 ^ 63 - 1))

/-- A digit has been seen, so that there is a number. -/
def queryParseInteger (buff : Buffer) : Parsed Value :=
  if isDigit buff.char then
    ({ buff with rest := buff.rest.dropWhile isDigit },
      .ok (.int (digitsValue (buff.rest.takeWhile isDigit))))
  else
    (buff, .error (.expectedNumber buff.offset))

/-- Nothing is stored where the text is none of these. -/
def queryParseValue (buff : Buffer) : Parsed (Option Value) :=
  let buff := queryChomp buff
  if queryPeek buff wordNil then ({ buff with rest := buff.rest.drop 3 }, .ok (some .null))
  else if queryPeek buff wordTrue then
    ({ buff with rest := buff.rest.drop 4 }, .ok (some (.bool true)))
  else if queryPeek buff wordFalse then
    ({ buff with rest := buff.rest.drop 5 }, .ok (some (.bool false)))
  else if queryPeek buff [letterB] || queryPeek buff [quote] || queryPeek buff [apostrophe] then
    andThen (queryParseString buff) fun buff value => (buff, .ok (some value))
  else if isDigit buff.char then
    andThen (queryParseInteger buff) fun buff value => (buff, .ok (some value))
  else
    (buff, .ok none)

/-- No identifier is no error, but the end of the text in or behind one is. -/
def queryGetIdent (buff : Buffer) : Parsed (List UInt8) :=
  if queryIsEot buff then (buff, .error (.unexpectedEof buff.offset))
  else if !isAlpha buff.char then (buff, .ok [])
  else
    let ident := buff.char :: buff.rest.tail.takeWhile isIdentChar
    let buff := { buff with rest := buff.rest.tail.dropWhile isIdentChar }
    if queryIsEot buff then (buff, .error (.unexpectedEof buff.offset)) else (buff, .ok ident)

section Arguments

/-- The functions of an invocation: the registered ones and the one of a table. -/
inductive QueryFunc
  | isTrue
  | operatorOr
  | operatorAnd
  | between
  | glob
  | allMap
  deriving DecidableEq, Repr

structure RegisteredFunc where
  name : List UInt8
  func : QueryFunc

def registeredFunctions : List RegisteredFunc :=
  [⟨[0x69, 0x73, 0x5f, 0x74, 0x72, 0x75, 0x65], .isTrue⟩,
    ⟨[0x6f, 0x72], .operatorOr⟩,
    ⟨[0x61, 0x6e, 0x64], .operatorAnd⟩,
    ⟨[0x62, 0x65, 0x74, 0x77, 0x65, 0x65, 0x6e], .between⟩,
    ⟨[0x67, 0x6c, 0x6f, 0x62], .glob⟩]

/-- An argument nothing was stored in has what was on the stack. -/
inductive Argument
  | value (value : Value)
  | uninitialized
  | invocation (func : QueryFunc) (argv : List Argument)

structure Invocation where
  func : QueryFunc
  argv : List Argument

def queryMaxArgs : ℕ := 50

variable (parseArgument : Buffer → Parsed Argument)

/-- The loop over the arguments of a call; an argument without a comma behind it is the last one. -/
def queryCallArgs : ℕ → List Argument → Buffer → Parsed (List Argument)
  | slots, args, buff =>
    if queryPeek buff [parenClose] then (buff, .ok args)
    else
      match slots with
      | 0 => (buff, .error .tooManyArguments)
      | slots + 1 =>
        andThen (parseArgument buff) fun buff arg =>
          let args := args ++ [arg]
          match queryExpectChar (queryChomp buff) comma with
          | (buff, .ok _) => queryCallArgs slots args (queryChomp buff)
          | (buff, .error _) => (buff, .ok args)

/-- `strncmp` with the length of the name that is called. -/
def findFunction (name : List UInt8) : Option QueryFunc :=
  (registeredFunctions.find? fun rf => name.isPrefixOf rf.name).map RegisteredFunc.func

/-- There is no memory for no arguments. -/
def queryParseMethodCall (buff : Buffer) : Parsed Invocation :=
  andThen (queryGetIdent buff) fun buff name =>
    andThen (queryExpectChar (queryChomp buff) parenOpen) fun buff _ =>
      match findFunction name with
      | none => (buff, .error (.unknownFunction buff.offset name))
      | some func =>
        andThen (queryCallArgs parseArgument queryMaxArgs [] (queryChomp buff)) fun buff args =>
          andThen (queryExpectChar buff parenClose) fun buff _ =>
            if args = [] then (buff, .error .enomem) else (buff, .ok ⟨func, args⟩)

/-- A key: an identifier, or a string. -/
def queryParseKey (buff : Buffer) : Parsed Value :=
  if isAlpha buff.char then
    andThen (queryGetIdent buff) fun buff name => (buff, .ok (.string (.ofBytes name)))
  else
    queryParseString buff

/-- The loop over the pairs of a table, of which each takes two arguments. -/
def queryTableArgs : ℕ → List Argument → Buffer → Parsed (List Argument)
  | slots, args, buff =>
    if queryPeek buff [braceClose] then (buff, .ok args)
    else
      match slots with
      | 0 => (buff, .error .tooManyArguments)
      | slots + 1 =>
        andThen (queryParseKey buff) fun buff key =>
          andThen (queryExpectChar (queryChomp buff) colon) fun buff _ =>
            let buff := queryChomp buff
            match slots with
            | 0 => (buff, .error .tooManyArguments)
            | slots + 1 =>
              andThen (parseArgument buff) fun buff arg =>
                let args := args ++ [.value key, arg]
                match queryExpectChar (queryChomp buff) comma with
                | (buff, .ok _) => queryTableArgs slots args (queryChomp buff)
                | (buff, .error _) => (buff, .ok args)

def queryParseTable (buff : Buffer) : Parsed Invocation :=
  andThen (queryExpectChar (queryChomp buff) braceOpen) fun buff _ =>
    andThen (queryTableArgs parseArgument queryMaxArgs [] (queryChomp buff)) fun buff args =>
      andThen (queryExpectChar buff braceClose) fun buff _ => (buff, .ok ⟨.allMap, args⟩)

end Arguments

def Invocation.argument (invocation : Invocation) : Argument :=
  .invocation invocation.func invocation.argv

/-- The text of an argument that begins with a letter is a call, but for these. -/
def isValueWord (buff : Buffer) : Bool :=
  queryPeek buff wordNil || queryPeek buff wordTrue || queryPeek buff wordFalse ||
    queryPeek buff [letterB, quote] || queryPeek buff [letterB, apostrophe]

/-- An argument in `depth` calls and tables at most. -/
def queryParseArgument : ℕ → Buffer → Parsed Argument
  | 0, buff => (buff, .error .depth)
  | depth + 1, buff =>
    let buff := queryChomp buff
    if isAlpha buff.char && !isValueWord buff then
      andThen (queryParseMethodCall (queryParseArgument depth) buff) fun buff invocation =>
        (buff, .ok invocation.argument)
    else if queryPeek buff [braceOpen] then
      andThen (queryParseTable (queryParseArgument depth) buff) fun buff invocation =>
        (buff, .ok invocation.argument)
    else
      andThen (queryParseValue buff) fun buff value =>
        (buff, .ok (match value with
          | some value => .value value
          | none => .uninitialized))

/-- Errors of a call are looked at behind the check for the end of the text. -/
def queryRoot (query : List UInt8) (buff : Buffer) : Parsed (Option Invocation) :=
  let parseArgument := queryParseArgument (query.length + 1)
  if queryPeek buff [braceOpen] then
    andThen (queryParseTable parseArgument buff) fun buff root =>
      andThen (queryExpectEof buff) fun buff _ => (buff, .ok (some root))
  else if isAlpha buff.char then
    match queryParseMethodCall parseArgument buff with
    | (buff, .ok root) => andThen (queryExpectEof buff) fun buff _ => (buff, .ok (some root))
    | (buff, .error e) => andThen (queryExpectEof buff) fun buff _ => (buff, .error e)
  else
    andThen (queryExpectEof buff) fun buff _ => (buff, .ok none)

def libretrodbQueryCompile (query : List UInt8) : Except QueryError Invocation :=
  let buff := queryChomp ⟨query.length, query⟩
  (andThen (queryRoot query buff) fun buff root =>
    match root with
    | some root => (buff, .ok root)
    | none => (buff, .error (.unexpectedEof buff.offset))).2

end RetroArch.LibretroDb.Query
