/-
**Messages of HTTP.**

Main definitions:

* `AgentSwarm.Http.Request`, `AgentSwarm.Http.Reply` — what is sent and what comes back;
* `AgentSwarm.Http.statusText` — a status code with its phrase.
-/

import AgentSwarm.Json.Basic

set_option relaxedAutoImplicit false
set_option autoImplicit false

namespace AgentSwarm.Http

/-- What a request does. -/
inductive Verb where
  | get | post
deriving DecidableEq, Repr, Inhabited

/-- A request. -/
structure Request where
  verb : Verb
  url : String
  /-- Headers by their names in small letters. -/
  headers : List (String × String)
  body : Option Json
deriving Inhabited

/-- A reply. -/
structure Reply where
  status : Nat
  body : String
deriving DecidableEq, Repr, Inhabited

/-- Whether a status is a success. -/
def isSuccess (status : Nat) : Bool := 200 ≤ status && status < 300

/-- The phrases of the registered status codes. -/
def phrases : List (Nat × String) :=
  [(100, "Continue"), (101, "Switching Protocols"), (102, "Processing"), (200, "OK"),
    (201, "Created"), (202, "Accepted"), (203, "Non Authoritative Information"),
    (204, "No Content"), (205, "Reset Content"), (206, "Partial Content"), (207, "Multi-Status"),
    (208, "Already Reported"), (226, "IM Used"), (300, "Multiple Choices"),
    (301, "Moved Permanently"), (302, "Found"), (303, "See Other"), (304, "Not Modified"),
    (305, "Use Proxy"), (307, "Temporary Redirect"), (308, "Permanent Redirect"),
    (400, "Bad Request"), (401, "Unauthorized"), (402, "Payment Required"), (403, "Forbidden"),
    (404, "Not Found"), (405, "Method Not Allowed"), (406, "Not Acceptable"),
    (407, "Proxy Authentication Required"), (408, "Request Timeout"), (409, "Conflict"),
    (410, "Gone"), (411, "Length Required"), (412, "Precondition Failed"),
    (413, "Payload Too Large"), (414, "URI Too Long"), (415, "Unsupported Media Type"),
    (416, "Range Not Satisfiable"), (417, "Expectation Failed"), (418, "I\x27m a teapot"),
    (421, "Misdirected Request"), (422, "Unprocessable Entity"), (423, "Locked"),
    (424, "Failed Dependency"), (425, "Too Early"), (426, "Upgrade Required"),
    (428, "Precondition Required"), (429, "Too Many Requests"),
    (431, "Request Header Fields Too Large"), (451, "Unavailable For Legal Reasons"),
    (500, "Internal Server Error"), (501, "Not Implemented"), (502, "Bad Gateway"),
    (503, "Service Unavailable"), (504, "Gateway Timeout"), (505, "HTTP Version Not Supported"),
    (506, "Variant Also Negotiates"), (507, "Insufficient Storage"), (508, "Loop Detected"),
    (510, "Not Extended"), (511, "Network Authentication Required")]

/-- A status code with its phrase. -/
def statusText (status : Nat) : String :=
  String.ofList (Decimal.natChars status) ++ " " ++
    (phrases.lookup status).getD "<unknown status code>"

end AgentSwarm.Http
