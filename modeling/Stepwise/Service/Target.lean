/-!
# Request targets

What a request asks for, in one of four forms:

* a path, as in `/solve?draft#top`,
* a whole address, as in `http://host/solve`, whose path is `/` if it gives none,
* an authority alone, as in `host:80`, which has no path,
* a star.

Query and fragment are checked as far as the form asks for it, and do not count.
-/

namespace Stepwise.Service.Target

/-- The characters that end an authority. -/
def endsAuthority (c : Char) : Bool := c == '/' || c == '?' || c == '#'

/-- Whether a character is neither a space nor a control character of ASCII, of which
one, delete, comes last. -/
def isVisible (c : Char) : Bool := 0x20 < c.toNat && c.toNat != 0x7F

/-- Whether a character may stand in a path. -/
def isPathChar (c : Char) : Bool := isVisible c && !"#?<>\x60".toList.contains c

/-- Whether a character may stand in a query. -/
def isQueryChar (c : Char) : Bool := isVisible c && !"#<>\"".toList.contains c

/-- The path in front of a query and a fragment, which may be empty. Nothing is asked
of a fragment. -/
def pathOf? (cs : List Char) : Option (List Char) :=
  let path := cs.takeWhile isPathChar
  match cs.dropWhile isPathChar with
  | [] | '#' :: _ => some path
  | '?' :: query =>
    match query.dropWhile isQueryChar with
    | [] | '#' :: _ => some path
    | _ => none
  | _ => none

/-! ## Authorities -/

/-- What has been seen of an authority. Colons and percent signs are forgotten at the
end of the user's name and at the end of an address in brackets, where they are
no matter of a port or a host's name. -/
structure AuthorityScan where
  colons : Nat := 0
  percent : Bool := false
  opened : Bool := false
  closed : Bool := false

/-- The most colons in a row of groups. -/
def maxColons : Nat := 8

/-- Take one more character of an authority. -/
def AuthorityScan.next? (s : AuthorityScan) (c : Char) : Option AuthorityScan :=
  match c with
  | ':' => if s.colons < maxColons then some { s with colons := s.colons + 1 } else none
  | '[' => if s.percent || s.opened then none else some { s with opened := true }
  | ']' =>
    if s.opened && !s.closed then some { s with closed := true, colons := 0, percent := false }
    else none
  | '@' => some { s with colons := 0, percent := false }
  | '%' => some { s with percent := true }
  | c => if c.isAlphanum || "!$&'()*+,-.;=_~".toList.contains c then some s else none

/-- Whether what has been seen is an authority: brackets are closed, at most one colon
leads to a port, and no host's name has a percent sign. -/
def AuthorityScan.accepts (s : AuthorityScan) : Bool :=
  s.opened == s.closed && s.colons ≤ 1 && !s.percent

/-- Whether a text is an authority. Something must follow the user's name. -/
def isAuthority (cs : List Char) : Bool :=
  !cs.isEmpty && cs.getLast? != some '@' &&
    (cs.foldlM AuthorityScan.next? {}).any AuthorityScan.accepts

/-! ## Targets -/

/-- Whether a character may stand in a scheme. -/
def isSchemeChar (c : Char) : Bool := c.isAlphanum || "+-.~".toList.contains c

/-- The most characters of a scheme. -/
def maxScheme : Nat := 64

/-- The text behind a scheme and `://`. -/
def afterScheme? (cs : List Char) : Option (List Char) :=
  match cs.dropWhile isSchemeChar with
  | ':' :: '/' :: '/' :: rest => some rest
  | _ => none

/-- The path of a whole address from behind its scheme. -/
def pathOfAddress? (cs : List Char) : Option (List Char) :=
  if isAuthority (cs.takeWhile (!endsAuthority ·)) then
    (pathOf? (cs.dropWhile (!endsAuthority ·))).map fun path =>
      if path.isEmpty then ['/'] else path
  else none

/-- The most bytes of a target. -/
def maxSize : Nat := 65534

/-- The path that a target asks for, if it is a target. -/
def path? (target : String) : Option String :=
  let cs := target.toList
  if maxSize < target.utf8ByteSize then none
  else
    let path := match cs with
      | ['*'] => some ['*']
      | '/' :: _ => pathOf? cs
      | _ =>
        match afterScheme? cs with
        | some rest =>
          if (cs.takeWhile isSchemeChar).length ≤ maxScheme then pathOfAddress? rest else none
        | none => if isAuthority cs then some [] else none
    path.map String.ofList

end Stepwise.Service.Target
