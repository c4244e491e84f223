import RuleFlow.Table
import RuleFlow.Url.Basic

/-!
# Requests to web services

`Request.build` puts a request together: the URL must parse and name a host, every header must be legal,
and the scheme must be one that requests are sent over, checked in this order. What becomes of a request is
up to the service that a node calls on (`Services.request`). To try chains out there is a `Network` that is
played: `exchange` answers with the replies it holds, in order, and without one the connection fails.
-/

namespace RuleFlow.Http

/-- A request as it is sent. -/
structure Request where
  method : String
  url : String
  headers : Table String
  body : List UInt8
  deriving DecidableEq

/-- What a server answers. -/
structure Response where
  status : Nat
  text : String
  deriving DecidableEq

/-- Why no answer came. -/
inductive Fault where
  | malformed
  | unsuitable (url : String)
  | unsent (url : String)
  deriving DecidableEq

/-- The wording of a fault. -/
def Fault.message : Fault → String
  | .malformed => "builder error"
  | .unsuitable url => s!"builder error for url ({url})"
  | .unsent url => s!"error sending request for url ({url})"

/-- Whether a character may stand in a method or in the name of a header. -/
def isTokenChar (c : Char) : Bool :=
  c.isAlphanum ||
    ['!', '#', '$', '%', '&', '\'', '*', '+', '-', '.', '^', '_', '\x60', '|', '~'].contains c

/-- The characters outside ASCII whose capitals are ASCII letters. -/
def asciiCapitals : List (Char × List Char) :=
  [('ß', ['S', 'S']), ('ı', ['I']), ('ſ', ['S']), ('ﬀ', ['F', 'F']), ('ﬁ', ['F', 'I']),
    ('ﬂ', ['F', 'L']), ('ﬃ', ['F', 'F', 'I']), ('ﬄ', ['F', 'F', 'L']), ('ﬅ', ['S', 'T']),
    ('ﬆ', ['S', 'T'])]

/-- The capitals of a character, as far as they are ASCII. -/
def capitals (c : Char) : List Char := (asciiCapitals.lookup c).getD [c.toUpper]

/-- The method of a name in either case, if it is one. -/
def method? (name : String) : Option String :=
  let cs := name.toList.flatMap capitals
  if cs.isEmpty ∨ cs.any (! isTokenChar ·) then none else some (String.ofList cs)

/-- Whether a name may stand in front of a header. -/
def isHeaderName (name : String) : Bool :=
  name ≠ "" && name.toList.all isTokenChar

/-- Whether a text may be the value of a header. -/
def isHeaderValue (value : String) : Bool :=
  value.toList.all fun c => c = '\t' || (0x20 ≤ c.toNat && c.toNat ≠ 0x7F)

/-- The URL as it is requested: without credentials. -/
def withoutCredentials (u : Url) : Url := { u with username := "", password := none }

/-- Puts a request together, or says why it cannot be sent. A body is given to methods that carry one. -/
def Request.build (method url : String) (headers : List (String × String)) (body : Option (List UInt8)) :
    Except Fault (Request × String) :=
  match Url.parse url with
  | .error _ => .error .malformed
  | .ok u =>
    if u.hostName?.isNone then .error (.unsuitable u.render)
    else if headers.any fun h => !isHeaderName h.1 || !isHeaderValue h.2 then .error .malformed
    else
      let shown := (withoutCredentials u).render
      if u.scheme ≠ "http" ∧ u.scheme ≠ "https" then .error (.unsuitable shown)
      else
        let named := headers.map fun h => (String.ofList (h.1.toList.map Char.toLower), h.2)
        let typed := if body.isSome then [("content-type", "application/json")] else []
        .ok ({ method, url := ({ withoutCredentials u with fragment := none } : Url).render,
               headers := Table.ofList (typed ++ named), body := body.getD [] }, shown)

/-- Servers that are played: the answers they will give, and the requests that reached them. -/
structure Network where
  replies : List Response := []
  requests : List Request := []
  deriving DecidableEq

/-- Plays a request: the next reply, or a failed connection if there is none. -/
def exchange (n : Network) (r : Request) (shown : String) : Except Fault Response × Network :=
  match n.replies with
  | [] => (.error (.unsent shown), n)
  | reply :: replies => (.ok reply, { replies, requests := n.requests ++ [r] })

/-- Whether a status says that the request was fulfilled. -/
def isSuccess (status : Nat) : Bool := 200 ≤ status && status < 300

/-- The phrases of the statuses. -/
def phrases : List (Nat × String) :=
  [(100, "Continue"), (101, "Switching Protocols"), (102, "Processing"), (200, "OK"), (201, "Created"),
    (202, "Accepted"), (203, "Non Authoritative Information"), (204, "No Content"),
    (205, "Reset Content"), (206, "Partial Content"), (207, "Multi-Status"),
    (208, "Already Reported"), (226, "IM Used"), (300, "Multiple Choices"),
    (301, "Moved Permanently"), (302, "Found"), (303, "See Other"), (304, "Not Modified"),
    (305, "Use Proxy"), (307, "Temporary Redirect"), (308, "Permanent Redirect"),
    (400, "Bad Request"), (401, "Unauthorized"), (402, "Payment Required"), (403, "Forbidden"),
    (404, "Not Found"), (405, "Method Not Allowed"), (406, "Not Acceptable"),
    (407, "Proxy Authentication Required"), (408, "Request Timeout"), (409, "Conflict"),
    (410, "Gone"), (411, "Length Required"), (412, "Precondition Failed"),
    (413, "Payload Too Large"), (414, "URI Too Long"), (415, "Unsupported Media Type"),
    (416, "Range Not Satisfiable"), (417, "Expectation Failed"), (418, "I'm a teapot"),
    (421, "Misdirected Request"), (422, "Unprocessable Entity"), (423, "Locked"),
    (424, "Failed Dependency"), (425, "Too Early"), (426, "Upgrade Required"),
    (428, "Precondition Required"), (429, "Too Many Requests"),
    (431, "Request Header Fields Too Large"), (451, "Unavailable For Legal Reasons"),
    (500, "Internal Server Error"), (501, "Not Implemented"), (502, "Bad Gateway"),
    (503, "Service Unavailable"), (504, "Gateway Timeout"), (505, "HTTP Version Not Supported"),
    (506, "Variant Also Negotiates"), (507, "Insufficient Storage"), (508, "Loop Detected"),
    (510, "Not Extended"), (511, "Network Authentication Required")]

/-- A status with its phrase. -/
def statusText (status : Nat) : String :=
  toString status ++ " " ++ (phrases.lookup status).getD "<unknown status code>"

end RuleFlow.Http
