import RuleFlow.Url.Host

/-!
# Uniform resource locators

`Url.parse` reads an absolute URL by the rules of the web and brings it into normal form: scheme and domain
in lower case, the default port left out, the steps `.` and `..` of a path resolved, what a part may not
hold escaped. `Url.render` writes it. Under a scheme of the web a host must be there and `\` counts as `/`.
-/

namespace RuleFlow

/-- An absolute URL in normal form. -/
structure Url where
  scheme : String
  username : String := ""
  password : Option String := none
  /-- The host as it is written; none for a URL without an authority, and for one with an empty host the
  empty text. -/
  host : Option String := none
  port : Option Nat := none
  path : String := ""
  query : Option String := none
  fragment : Option String := none
  deriving DecidableEq, Inhabited

namespace Url

/-- The schemes of the web other than that of files, with their default ports. -/
def specialPorts : List (String × Nat) :=
  [("http", 80), ("https", 443), ("ws", 80), ("wss", 443), ("ftp", 21)]

/-- Whether a scheme is one of the web's. -/
def isSpecial (scheme : String) : Bool := (specialPorts.lookup scheme).isSome || scheme = "file"

/-- The text without blanks and controls at its ends and without line breaks and tabs. -/
def clean (cs : List Char) : List Char :=
  let dull : Char → Bool := fun c => c.toNat ≤ 0x20
  let cs := ((cs.dropWhile dull).reverse.dropWhile dull).reverse
  cs.filter fun c => c ≠ '\t' && c ≠ '\n' && c ≠ '\r'

/-- The scheme in lower case, and what follows its colon. -/
def cutScheme? (cs : List Char) : Option (String × List Char) :=
  match cs with
  | [] => none
  | c :: _ =>
    if !c.isAlpha then none
    else
      let name := cs.takeWhile fun c => c.isAlphanum || c = '+' || c = '-' || c = '.'
      match cs.drop name.length with
      | ':' :: rest => some (String.ofList (name.map Char.toLower), rest)
      | _ => none

/-- Whether a character ends the authority. -/
def endsAuthority (special : Bool) (c : Char) : Bool :=
  c = '/' || c = '?' || c = '#' || (special && c = '\\')

/-- Cuts a text at its last `@`. -/
def cutLastAt? (cs : List Char) : Option (List Char × List Char) :=
  match Text.cutAt '@' cs.reverse with
  | some (after, before) => some (before.reverse, after.reverse)
  | none => none

/-- Cuts an authority without user at the colon of the port, which stands outside brackets. -/
def cutPort : Bool → List Char → List Char × Option (List Char)
  | _, [] => ([], none)
  | inside, c :: cs =>
    if c = ':' ∧ ¬inside then ([], some cs)
    else
      let inside := if c = '[' then true else if c = ']' then false else inside
      let (host, port) := cutPort inside cs
      (c :: host, port)

/-- The port of its digits; the default port of the scheme and an empty text are none. -/
def portOf (scheme : String) (cs : List Char) : Except Fault (Option Nat) :=
  if cs.any fun c => !c.isDigit then .error .port
  else
    let n := cs.foldl (fun n c => min (10 * n + (c.toNat - 48)) 65536) 0
    if 65535 < n then .error .port
    else if cs.isEmpty ∨ specialPorts.lookup scheme = some n then .ok none
    else .ok (some n)

/-- Whether a segment of a path is the step that stays. -/
def isHere (segment : List Char) : Bool :=
  [".", "%2e"].contains (String.ofList (segment.map Char.toLower))

/-- Whether a segment of a path is the step back. -/
def isBack (segment : List Char) : Bool :=
  ["..", ".%2e", "%2e.", "%2e%2e"].contains (String.ofList (segment.map Char.toLower))

/-- Resolves the steps of a path; the segments come back in reverse order. -/
def resolve : List (List Char) → List (List Char) → List (List Char)
  | done, [] => done
  | done, [last] =>
    if isBack last then [] :: done.drop 1 else if isHere last then [] :: done else last :: done
  | done, segment :: next :: more =>
    if isBack segment then resolve (done.drop 1) (next :: more)
    else if isHere segment then resolve done (next :: more)
    else resolve (segment :: done) (next :: more)

/-- The normal form of a path that starts with a slash, the slash not given. -/
def normalPath (special : Bool) (cs : List Char) : List Char :=
  let cs := if special then cs.map fun c => if c = '\\' then '/' else c else cs
  let segments := (resolve [] (Text.splitOn '/' cs)).reverse
  '/' :: Text.joinWith '/' (segments.map (escape .path))

/-! ## Reading and writing -/

/-- Cuts off the query and the fragment. -/
def cutTail (cs : List Char) : List Char × Option (List Char) × Option (List Char) :=
  let (front, fragment) := match Text.cutAt '#' cs with
    | some (front, fragment) => (front, some fragment)
    | none => (cs, none)
  match Text.cutAt '?' front with
  | some (path, query) => (path, some query, fragment)
  | none => (front, none, fragment)

/-- Puts the query and the fragment of a text to a URL without them. -/
def withTail (u : Url) (query fragment : Option (List Char)) : Url :=
  let part : Part := if isSpecial u.scheme then .specialQuery else .query
  { u with
    query := query.map fun q => String.ofList (escape part q)
    fragment := fragment.map fun f => String.ofList (escape .fragment f) }

/-- Reads what follows the two slashes of an authority. -/
def ofAuthority (scheme : String) (cs : List Char) : Except Fault Url := do
  let special := isSpecial scheme
  let authority := cs.takeWhile fun c => !endsAuthority special c
  let rest := cs.drop authority.length
  let (user, place) := match cutLastAt? authority with
    | some (user, place) => (some user, place)
    | none => (none, authority)
  if user = some [] ∧ place.isEmpty ∧ ¬rest.isEmpty then throw .emptyHost
  let (hostText, portText) := cutPort false place
  let host ←
    if special then (if hostText.isEmpty then .error .emptyHost else specialHost hostText)
    else opaqueHost hostText
  if host.isEmpty ∧ portText.isSome then throw .emptyHost
  let port ← portOf scheme (portText.getD [])
  let (pathText, query, fragment) := cutTail rest
  let path := match pathText with
    | [] => if special then ['/'] else []
    | _ :: more => normalPath special more
  let (name, password) := match user with
    | none => ([], none)
    | some user => match Text.cutAt ':' user with
      | some (name, password) => (name, if password.isEmpty then none else some password)
      | none => (user, none)
  if host.isEmpty ∧ (¬name.isEmpty ∨ password.isSome) then throw .emptyHost
  let credential (text : List Char) := String.ofList (escape .userinfo text)
  .ok (withTail
    { scheme, username := credential name, password := password.map credential,
      host := some (String.ofList host), port, path := String.ofList path } query fragment)

/-- Reads an absolute URL. -/
def parse (text : String) : Except Fault Url :=
  match cutScheme? (clean text.toList) with
  | none => .error .relative
  | some (scheme, rest) =>
    if scheme = "file" then
      let (path, query, fragment) := cutTail (rest.dropWhile fun c => c = '/' || c = '\\')
      .ok (withTail { scheme, host := some "", path := String.ofList (normalPath true path) } query fragment)
    else if isSpecial scheme then
      ofAuthority scheme (rest.dropWhile fun c => c = '/' || c = '\\')
    else match rest with
      | '/' :: '/' :: authority => ofAuthority scheme authority
      | '/' :: more =>
        let (path, query, fragment) := cutTail more
        .ok (withTail { scheme, path := String.ofList (normalPath false path) } query fragment)
      | _ =>
        let (path, query, fragment) := cutTail rest
        .ok (withTail { scheme, path := String.ofList (escape .control path) } query fragment)

/-- The host, if it is not empty. -/
def hostName? (u : Url) : Option String := u.host.filter (· ≠ "")

/-- The text of a URL. -/
def render (u : Url) : String :=
  let authority := match u.host with
    | none => if u.path.startsWith "//" then "/." else ""
    | some host =>
      let user := match u.username, u.password with
        | "", none => ""
        | name, none => name ++ "@"
        | name, some password => s!"{name}:{password}@"
      let port := match u.port with
        | none => ""
        | some n => s!":{n}"
      s!"//{user}{host}{port}"
  let query := match u.query with
    | none => ""
    | some q => s!"?{q}"
  let fragment := match u.fragment with
    | none => ""
    | some f => s!"#{f}"
  s!"{u.scheme}:{authority}{u.path}{query}{fragment}"

end Url

end RuleFlow
