/-!
# Media types

The type of a request body: `application/json`, with or without parameters, or an
application type whose structure suffix is `json`. Letter case does not matter. The
words of HTTP are tokens: methods, media types and the names of parameters.
-/

namespace Stepwise.Service

/-- The characters of tokens. -/
def isTokenChar (c : Char) : Bool :=
  c.isAlphanum || "!#$%&'*+-.^_\x60|~".toList.contains c

/-- Whether a text is a token. -/
def isToken (text : String) : Bool := !text.isEmpty && text.toList.all isTokenChar

/-- A media type without its parameters. -/
structure MediaType where
  type : List Char
  subtype : List Char
  /-- What stands after the last plus of the subtype, if anything stands before it. -/
  suffix : Option (List Char)
deriving DecidableEq

namespace MediaType

/-- The characters of quoted parameter values. -/
def isQuotedChar (c : Char) : Bool := 0x20 ≤ c.toNat && c.toNat < 0x7F

/-- What follows a quoted value and its blanks, from behind the opening quote on. A
value has at least one character, so a quote that comes first is a part of it. -/
def afterQuoted? : List Char → Option (List Char)
  | [] => none
  | first :: rest =>
    match isQuotedChar first, rest.dropWhile (fun c => isQuotedChar c && c != '"') with
    | true, '"' :: rest => some (rest.dropWhile (· == ' '))
    | _, _ => none

/-- Whether a text is what may follow a media type: nothing, or parameters, each
after a semicolon and blanks. A value is a token or quoted. The last value may be
missing, and so may all of the last parameter. -/
def areParameters : (fuel : Nat) → List Char → Bool
  | 0, _ => false
  | _, [] => true
  | fuel + 1, ';' :: rest =>
    let named := rest.dropWhile (· == ' ')
    match named.takeWhile isTokenChar, named.dropWhile isTokenChar with
    | [], [] => true
    | _ :: _, '=' :: '"' :: value => (afterQuoted? value).any (areParameters fuel)
    | _ :: _, '=' :: value =>
      let rest := value.dropWhile isTokenChar
      (rest.isEmpty || rest.length < value.length) && areParameters fuel rest
    | _, _ => false
  | _, _ => false

/-- The two parts of a subtype around its last plus. -/
def splitSuffix (cs : List Char) : List Char × Option (List Char) :=
  let ending := cs.reverse.takeWhile (· != '+')
  let start := cs.take (cs.length - ending.length - 1)
  if ending.length = cs.length ∨ start.isEmpty then (cs, none) else (start, some ending.reverse)

/-- Read a media type. -/
def ofText? (text : String) : Option MediaType :=
  let cs := text.toList.map Char.toLower
  let type := cs.takeWhile isTokenChar
  match cs.dropWhile isTokenChar with
  | '/' :: rest =>
    let name := rest.takeWhile isTokenChar
    if type.isEmpty ∨ name.isEmpty ∨ ¬ areParameters (text.length + 1) (rest.dropWhile isTokenChar)
    then none
    else
      let (subtype, suffix) := splitSuffix name
      some { type, subtype, suffix }
  | _ => none

/-- Whether a media type stands for JSON. -/
def isJson (m : MediaType) : Bool :=
  m.type == "application".toList &&
    (m.subtype == "json".toList || m.suffix == some "json".toList)

end MediaType

end Stepwise.Service
